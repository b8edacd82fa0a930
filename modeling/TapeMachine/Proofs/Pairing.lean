/-
  TapeMachine.Proofs.Pairing
  ──────────────────────────
  **THE PARTNER TABLE IS A PERFECT MATCHING.**

  The check keeps the open loops of a region in a list and at most one open
  function, the pass that fills the table keeps the indices of open brackets
  on two stacks, and packing moves brackets to other indices.  Still, for a script that passes the check,
  the table pairs the brackets as they are nested:

    • what stands between partners is the code of a body, written with fewer
      opcodes if it is packed (`expand_between`), so it has no parenthesis and
      its loops are balanced in the plain sense of a depth that is never
      negative and is 0 at the end (`LoopsBalanced`);
    • only brackets have entries: the pass writes at a closer and at the opener
      it meets and nowhere else (`Pass.step_of_meets?`), whatever the stream.
-/
import TapeMachine.Proofs.Layout

namespace TapeMachine

/-! ## §1. Balanced loops. -/

namespace Operator

/-- How many loops are open after an operator, if it does not close one that
is not there. -/
def nest? : Nat → Operator → Option Nat
  | n, loopOpen => some (n + 1)
  | 0, loopClose => none
  | n + 1, loopClose => some n
  | n, _ => some n

/-- How many loops are open after the operators, with `n` open before. -/
def depth? (n : Nat) : List Operator → Option Nat
  | [] => some n
  | o :: rest => (nest? n o).bind fun m => depth? m rest

/-- Every `]` closes a loop that the operators opened, and none is left. -/
def LoopsBalanced (ops : List Operator) : Prop := depth? 0 ops = some 0

instance (ops : List Operator) : Decidable (LoopsBalanced ops) :=
  inferInstanceAs (Decidable (depth? 0 ops = some 0))

theorem nest?_simple {o : Operator} (h : o.isSimple) (n : Nat) : nest? n o = some n := by
  cases o with
  | loopOpen | loopClose => cases h
  | _ => cases n <;> rfl

theorem depth?_append (xs ys : List Operator) : ∀ n : Nat,
    depth? n (xs ++ ys) = (depth? n xs).bind fun m => depth? m ys := by
  induction xs with
  | nil =>
    intro n
    rfl
  | cons o xs ih =>
    intro n
    show (nest? n o).bind (fun m => depth? m (xs ++ ys)) = _
    simp only [ih]
    show _ = ((nest? n o).bind fun m => depth? m xs).bind fun m => depth? m ys
    rw [Option.bind_assoc]

/-- Any number of times an operator that opens and closes nothing. -/
theorem depth?_replicate {o : Operator} (h : o.isSimple) (k n : Nat) :
    depth? n (List.replicate k o) = some n := by
  induction k with
  | zero => rfl
  | succ k ih =>
    rw [List.replicate_succ]
    unfold depth?
    rw [nest?_simple h]
    exact ih

end Operator

namespace Block

/-- **A body is balanced**, at any depth. -/
theorem depth?_operators {b : Block} (hb : b.IsBody) : ∀ n : Nat,
    Operator.depth? n b.operators = some n := by
  induction b with
  | done =>
    intro n
    rfl
  | simple o next ih =>
    intro n
    show (Operator.nest? n o).bind (fun m => Operator.depth? m next.operators) = _
    rw [Operator.nest?_simple hb.1]
    exact ih hb.2 n
  | loop body next ihb ih =>
    intro n
    show Operator.depth? (n + 1) (body.operators ++ .loopClose :: next.operators) = _
    rw [Operator.depth?_append, ihb hb.1]
    show Operator.depth? n next.operators = _
    exact ih hb.2 n
  | define body next _ _ => exact hb.elim

/-- A body has no parenthesis. -/
theorem no_parenthesis {b : Block} (hb : b.IsBody) :
    ∀ o ∈ b.operators, o ≠ .bodyOpen ∧ o ≠ .bodyClose := by
  induction b with
  | done =>
    intro o ho
    cases ho
  | simple o next ih =>
    intro o' ho'
    rcases List.mem_cons.1 ho' with rfl | ho'
    · constructor <;> intro h <;> subst h <;> cases hb.1
    · exact ih hb.2 o' ho'
  | loop body next ihb ih =>
    intro o ho
    simp only [operators, List.mem_cons, List.mem_append] at ho
    rcases ho with rfl | ho | rfl | ho
    · decide
    · exact ihb hb.1 o ho
    · decide
    · exact ih hb.2 o ho
  | define body next _ _ => exact hb.elim

end Block

namespace Opcode

/-- **Packing does not change the depth**: only what opens and closes nothing
is merged. -/
theorem depth?_expand {ops : List Opcode}
    (hone : ∀ op ∈ ops, op.operator.isRepeatable = false → op.count = 1) : ∀ n : Nat,
    Operator.depth? n ((expand ops).map (·.operator))
      = Operator.depth? n (ops.map (·.operator)) := by
  induction ops with
  | nil =>
    intro n
    rfl
  | cons op ops ih =>
    intro n
    have hrest := ih fun x hx => hone x (List.mem_cons_of_mem op hx)
    have hexpand : (expand (op :: ops)).map (·.operator)
        = List.replicate op.count op.operator ++ (expand ops).map (·.operator) := by
      unfold expand
      rw [List.flatMap_cons, List.map_append, List.map_replicate]
      rfl
    rw [hexpand, Operator.depth?_append]
    by_cases hsimple : op.operator.isSimple
    · rw [Operator.depth?_replicate hsimple]
      show Operator.depth? n ((expand ops).map (·.operator))
        = (Operator.nest? n op.operator).bind fun m => Operator.depth? m (ops.map (·.operator))
      rw [Operator.nest?_simple hsimple, hrest]
      rfl
    · -- a bracket stands alone
      have hrep : op.operator.isRepeatable = false := by
        revert hsimple
        cases op.operator <;> decide
      rw [hone op List.mem_cons_self hrep]
      show ((Operator.nest? n op.operator).bind some).bind _
        = (Operator.nest? n op.operator).bind fun m => Operator.depth? m (ops.map (·.operator))
      rw [Option.bind_fun_some]
      simp only [hrest]

/-- What stands in a stream stands in the stream written out. -/
theorem mem_expand {ops : List Opcode} {op : Opcode} (hop : op ∈ ops) (hpos : 0 < op.count) :
    .one op.operator ∈ expand ops :=
  List.mem_flatMap.2 ⟨op, hop, List.mem_replicate.2 ⟨Nat.ne_of_gt hpos, rfl⟩⟩

end Opcode

/-! ## §2. Between partners. -/

/-- The code of a tree that stands in a program, cut out of it. -/
theorem Block.At.take {p : Program} {b : Block} {i : Nat} (h : b.At p i) :
    (p.opcodes.toList.drop i).take b.length = b.operators.map .one := by
  rw [h.drop]
  exact List.take_left' (List.length_map _)

namespace Program

/-- The opcodes strictly between two places. -/
def between (p : Program) (i j : Nat) : List Opcode :=
  (p.opcodes.toList.drop (i + 1)).take (j - (i + 1))

/-- The two places are partners, and what stands between them has no
parenthesis and its loops are balanced. -/
structure Matched (p : Program) (i j : Nat) : Prop where
  pair : p.Pair i j
  parentheses : ∀ op ∈ p.between i j, op.operator ≠ .bodyOpen ∧ op.operator ≠ .bodyClose
  loops : Operator.LoopsBalanced ((p.between i j).map (·.operator))

/-- An opener at `i` has `j` as its partner. -/
def Opens (p : Program) (i j : Nat) : Prop :=
  (∃ x : Opcode, p.opcodes[i]? = some x ∧ x.operator.closer?.isSome) ∧ p.partners[i]? = some j

/-- **Between partners is the code of a body**, in either granularity. -/
theorem expand_between {b : Block} (hb : b.IsItems) {ts : List Token}
    (h : b.operators = ts.map (·.operator)) (g : Granularity) (n : Nat) {i j : Nat} {x : Opcode}
    (hx : (ofTokens g n ts).opcodes[i]? = some x) (ho : x.operator.closer?.isSome)
    (hpair : (ofTokens g n ts).Pair i j) :
    ∃ body : Block, body.IsBody
      ∧ Opcode.expand ((ofTokens g n ts).between i j) = body.operators.map .one := by
  have hunpacks := unpacks_plain g n ts
  have hplain : (ofTokens .plain n ts).opcodes.toList
      = Opcode.expand ((Instruction.pack g ts).map (·.opcode)) := by
    show (Instruction.pack .plain ts).map (·.opcode) = _
    rw [(Instruction.packs_pack g ts).expand_eq, Instruction.pack_plain, List.map_map]
    rfl
  have hrep : x.operator.isRepeatable = false := by
    revert ho
    cases x.operator <;> decide
  obtain ⟨body, hbody, -, hat, hj⟩ := bracket_plain hb h n (hunpacks.opcode_one hx hrep) ho
    (hunpacks.pair_place (coherent_ofTokens g n ts) hpair)
  refine ⟨body, hbody, ?_⟩
  -- the opener is one opcode in both, so the bodies begin at the same place
  have hnext := hunpacks.succ_one hx hrep
  have hslice := Opcode.expand_slice ((Instruction.pack g ts).map (·.opcode)) hpair.1
  rw [Nat.succ_eq_add_one, hnext, hj, Nat.add_sub_cancel_left, ← hplain, hat.take] at hslice
  exact hslice.symm

/-- **Partners are matched.** -/
theorem matched_ofTokens {b : Block} (hb : b.IsItems) {ts : List Token}
    (h : b.operators = ts.map (·.operator)) (g : Granularity) (n : Nat) {i j : Nat} {x : Opcode}
    (hx : (ofTokens g n ts).opcodes[i]? = some x) (ho : x.operator.closer?.isSome)
    (hpair : (ofTokens g n ts).Pair i j) : (ofTokens g n ts).Matched i j := by
  have hunpacks := unpacks_plain g n ts
  obtain ⟨body, hbody, hexpand⟩ := expand_between hb h g n hx ho hpair
  have hplace : ∀ op ∈ (ofTokens g n ts).between i j,
      ∃ k : Nat, (ofTokens g n ts).opcodes[k]? = some op := by
    intro op hop
    have hmem : op ∈ (ofTokens g n ts).opcodes.toList :=
      List.mem_of_mem_drop (List.mem_of_mem_take hop)
    exact Array.mem_iff_getElem?.1 (Array.mem_toList_iff.1 hmem)
  refine ⟨hpair, ?_, ?_⟩
  · intro op hop
    obtain ⟨k, hk⟩ := hplace op hop
    have hmem := Opcode.mem_expand hop (hunpacks.count_pos hk)
    rw [hexpand] at hmem
    obtain ⟨o, ho, heq⟩ := List.mem_map.1 hmem
    cases heq
    exact Block.no_parenthesis hbody _ ho
  · show Operator.depth? 0 _ = some 0
    rw [← Opcode.depth?_expand, hexpand, List.map_map]
    · show Operator.depth? 0 (body.operators.map id) = _
      rw [List.map_id]
      exact Block.depth?_operators hbody 0
    · intro op hop hrep
      obtain ⟨k, hk⟩ := hplace op hop
      exact hunpacks.count_one hk hrep

/-- **Every opener is matched**, with a closer of its kind. -/
theorem exists_matched {b : Block} (hb : b.IsItems) {ts : List Token}
    (h : b.operators = ts.map (·.operator)) (g : Granularity) (n : Nat) {i : Nat} {x : Opcode}
    (hx : (ofTokens g n ts).opcodes[i]? = some x) (ho : x.operator.closer?.isSome) :
    ∃ (j : Nat) (y : Opcode), (ofTokens g n ts).opcodes[j]? = some y
      ∧ x.operator.closer? = some y.operator ∧ (ofTokens g n ts).Matched i j := by
  have hbalanced := balanced_ofTokens hb h g n
  obtain ⟨j, hpair⟩ := hbalanced.opened hx ho
  obtain ⟨-, x', y, hx', hy, hcloser⟩ := hbalanced.pair hpair.1 hpair.2.1
  rw [hx] at hx'
  cases hx'
  exact ⟨j, y, hy, hcloser, matched_ofTokens hb h g n hx ho hpair⟩

end Program

/-! ## §3. Entries that are not brackets'. -/

namespace Matching.Pass

/-- The open loops of the region that is read, innermost first. -/
def current (m : Pass) : List Nat :=
  match m.region with
  | none => m.loops
  | some r => r.loops

/-- The opener that a closer meets. -/
def meets? (m : Pass) : Operator → Option Nat
  | .loopClose => m.current.head?
  | .bodyClose => m.region.map (·.start)
  | _ => none

variable {ops : List Opcode} {m : Pass} {o : Operator} {i j : Nat}

theorem isCloser_of_meets? (h : m.meets? o = some j) : o.isCloser := by
  cases o with
  | loopClose | bodyClose => rfl
  | _ => cases h

/-- An operator that meets nothing leaves the table alone. -/
theorem step_of_meets?_none (h : m.meets? o = none) : (m.step o i).table = m.table
    ∧ ∀ a ∈ (m.step o i).pending, a = i ∨ a ∈ m.pending := by
  obtain ⟨table, functions, loops, region⟩ := m
  cases o with
  | right | left | inc | dec | put | get | call => exact ⟨rfl, fun a ha => .inr ha⟩
  | loopOpen => cases region <;> exact ⟨rfl, fun a ha => List.mem_cons.1 ha⟩
  | loopClose =>
    cases region with
    | none =>
      cases loops with
      | nil => exact ⟨rfl, fun a ha => .inr ha⟩
      | cons j outer => cases h
    | some r =>
      obtain ⟨start, _ | ⟨j, outer⟩⟩ := r
      · exact ⟨rfl, fun a ha => .inr ha⟩
      · cases h
  | bodyOpen =>
    refine ⟨rfl, fun a ha => (List.mem_cons.1 ha).imp_right fun ha => ?_⟩
    cases region with
    | none => exact ha
    | some r => exact List.mem_append_right _ (List.mem_cons_of_mem _ ha)
  | bodyClose =>
    cases region with
    | none => exact ⟨rfl, fun a ha => .inr ha⟩
    | some r => cases h

/-- **A closer that meets an opener** becomes its partner; what was opened
later and is still open in a body is given up. -/
theorem step_of_meets? (h : m.meets? o = some j) : (m.step o i).table = (m.link j i).table
    ∧ (j :: (m.step o i).pending).Sublist m.pending := by
  obtain ⟨table, functions, loops, region⟩ := m
  cases o with
  | loopClose =>
    cases region with
    | none =>
      cases loops with
      | nil => cases h
      | cons j' outer =>
        cases h
        exact ⟨rfl, .refl _⟩
    | some r =>
      obtain ⟨start, _ | ⟨j', outer⟩⟩ := r
      · cases h
      · cases h
        exact ⟨rfl, .refl _⟩
  | bodyClose =>
    cases region with
    | none => cases h
    | some r =>
      cases h
      exact ⟨rfl, List.sublist_append_right _ _⟩
  | _ => cases h

/-- What waits for a closer is an opener. -/
theorem Sound.opener (h : Sound ops i m) : ∀ j ∈ m.pending,
    ∃ y : Opcode, ops[j]? = some y ∧ y.operator.closer?.isSome := by
  have hloop : ∀ j : Nat, (∃ y : Opcode, ops[j]? = some y ∧ y.operator = .loopOpen) →
      ∃ y : Opcode, ops[j]? = some y ∧ y.operator.closer?.isSome := by
    intro j ⟨y, hy, ho⟩
    exact ⟨y, hy, by rw [ho]; rfl⟩
  intro j hj
  unfold pending at hj
  split at hj
  · exact hloop j (h.root j hj)
  · next r hr =>
    obtain ⟨⟨y, hy, ho⟩, hinner⟩ := h.inner r hr
    rcases List.mem_append.1 hj with hj | hj
    · exact hloop j (hinner j hj)
    rcases List.mem_cons.1 hj with rfl | hj
    · exact ⟨y, hy, by rw [ho]; rfl⟩
    · exact hloop j (h.root j hj)

/-- The operators that are not brackets have no partner. -/
def Idle (ops : List Opcode) (table : Array Nat) : Prop :=
  ∀ {k : Nat} {z : Opcode}, ops[k]? = some z → z.operator.isSimple → table[k]? = some 0

/-- **One operator keeps the others' entries.** -/
theorem idle_step {x : Opcode} (h : Sound ops i m) (hx : ops[i]? = some x)
    (hidle : Idle ops m.table) : Idle ops (m.step x.operator i).table := by
  intro k z hz hsimple
  obtain ⟨hopen, hclose⟩ := (Operator.isSimple_iff _).1 hsimple
  cases hmeets : m.meets? x.operator with
  | none =>
    rw [(step_of_meets?_none hmeets).1]
    exact hidle hz hsimple
  | some j =>
    -- neither of the two brackets is the operator at `k`
    obtain ⟨htable, hsub⟩ := step_of_meets? (i := i) hmeets
    have hj := hsub.subset List.mem_cons_self
    obtain ⟨y, hy, hopener⟩ := h.opener j hj
    have hki : k ≠ i := by
      intro hki
      rw [hki, hx] at hz
      cases hz
      rw [isCloser_of_meets? hmeets] at hclose
      cases hclose
    have hkj : k ≠ j := by
      intro hkj
      rw [hkj, hy] at hz
      cases hz
      rw [hopen] at hopener
      cases hopener
    have hi : i < ops.length := (List.getElem?_eq_some_iff.1 hx).1
    rw [htable]
    show ((m.table.setIfInBounds j i).setIfInBounds i j)[k]? = some 0
    rw [h.linked.getElem?_link (h.unlinked j hj).1 hi, if_neg hki, if_neg hkj]
    exact hidle hz hsimple

end Matching.Pass

/-- **Only brackets have partners**, in every stream. -/
theorem Matching.idle_ofOpcodes (ops : List Opcode) : Pass.Idle ops (ofOpcodes ops).table := by
  have hstart : Pass.Idle ops (Pass.start ops.length).table := by
    intro k z hz _
    exact (Linked.start ops).ahead (Nat.zero_le k) (List.getElem?_eq_some_iff.1 hz).1
  have hboth := Pass.run_keeps (P := fun i m => Pass.Sound ops i m ∧ Pass.Idle ops m.table)
    ⟨Pass.sound_start ops, hstart⟩ fun hx h => ⟨h.1.step hx, Pass.idle_step h.1 hx h.2⟩
  intro k z hz
  exact hboth.2 hz

/-! ## §4. The result. -/

theorem Program.idle_ofTokens (g : Granularity) (n : Nat) (ts : List Token) {k : Nat} {z : Opcode}
    (hz : (ofTokens g n ts).opcodes[k]? = some z) (hsimple : z.operator.isSimple) :
    (ofTokens g n ts).partners[k]? = some 0 := by
  apply Matching.idle_ofOpcodes _ _ hsimple
  rw [← Array.getElem?_toList] at hz
  exact hz

/-- **A closer is the partner of exactly one opener.** -/
theorem Program.Balanced.existsUnique_opens {p : Program} (hp : p.Balanced) {j : Nat} {y : Opcode}
    (hy : p.opcodes[j]? = some y) (ho : y.operator.isCloser) :
    ∃ i, p.Opens i j ∧ ∀ i', p.Opens i' j → i' = i := by
  obtain ⟨i, hlt, hpartner, hback⟩ := hp.closed hy ho
  obtain ⟨-, x, y', hx, hy', hcloser⟩ := hp.pair hlt hpartner
  refine ⟨i, ⟨⟨x, hx, by rw [hcloser]; rfl⟩, hpartner⟩, ?_⟩
  intro i' ⟨⟨x', hx', ho'⟩, hpartner'⟩
  -- the other opener has a partner that names it, and the closer names one
  obtain ⟨j', hpair'⟩ := hp.opened hx' ho'
  rw [hpair'.2.1] at hpartner'
  cases hpartner'
  have hsame := hpair'.2.2
  rw [hback] at hsame
  exact (Option.some.inj hsame).symm

/-- **The partner table of a script that passes the check is the perfect
matching of its brackets**, in either granularity.  A `[` has a later `]` as
its partner and a `(` a later `)`, not the next one; the partner names it in
turn; and what stands strictly between them has no parenthesis and balanced
loops.  A `]` or a `)` is the partner of exactly one opener.  Every other entry
is 0, and the program counts its `(`. -/
theorem partners_match_perfectly (source : String) (g : Granularity)
    (hsource : (Script.validate source).isSuccess) :
    ∃ p, Program.compile g source = .ok p
      ∧ p.partners.size = p.opcodes.size
      ∧ (∀ (i : Nat) (x : Opcode), p.opcodes[i]? = some x → x.operator = .loopOpen →
          ∃ (j : Nat) (y : Opcode), p.opcodes[j]? = some y ∧ y.operator = .loopClose
            ∧ p.Matched i j)
      ∧ (∀ (i : Nat) (x : Opcode), p.opcodes[i]? = some x → x.operator = .bodyOpen →
          ∃ (j : Nat) (y : Opcode), p.opcodes[j]? = some y ∧ y.operator = .bodyClose
            ∧ i + 1 < j ∧ p.Matched i j)
      ∧ (∀ (j : Nat) (y : Opcode), p.opcodes[j]? = some y →
          y.operator = .loopClose ∨ y.operator = .bodyClose →
          ∃ i, p.Opens i j ∧ ∀ i', p.Opens i' j → i' = i)
      ∧ (∀ (k : Nat) (z : Opcode), p.opcodes[k]? = some z → z.operator.isSimple →
          p.partners[k]? = some 0)
      ∧ p.functionCount = p.opcodes.toList.countP (·.operator == .bodyOpen) := by
  obtain ⟨b, ⟨hitems, -⟩, hb⟩ := Script.validate_isSuccess_iff.1 hsource
  have hlayout := Program.layout_ofTokens hitems hb g (Script.validate source).count
  have hmatched := fun {i : Nat} {x : Opcode} => Program.exists_matched hitems hb g
    (Script.validate source).count (i := i) (x := x)
  refine ⟨_, Program.compile_of_isSuccess hsource g, hlayout.partners_size, ?_, ?_, ?_, ?_,
    hlayout.count⟩
  · intro i x hx ho
    obtain ⟨j, y, hy, hcloser, h⟩ := hmatched hx (by rw [ho]; rfl)
    rw [ho] at hcloser
    exact ⟨j, y, hy, (Option.some.inj hcloser).symm, h⟩
  · intro i x hx ho
    obtain ⟨j, y, hy, hcloser, h⟩ := hmatched hx (by rw [ho]; rfl)
    rw [ho] at hcloser
    have hbody : Program.IsBody _ ⟨i + 1, j⟩ := ⟨i, x, rfl, hx, ho, h.pair⟩
    exact ⟨j, y, hy, (Option.some.inj hcloser).symm, hlayout.filled hbody, h⟩
  · intro j y hy ho
    apply hlayout.existsUnique_opens hy
    rcases ho with ho | ho <;> rw [ho] <;> rfl
  · intro k z hz hsimple
    exact Program.idle_ofTokens g _ _ hz hsimple

/-- A function with a loop in it, operators that are merged, and a loop behind
the function. -/
theorem partners_match_perfectly_packed :
    (Script.validate "++(+[-]>>) [:]").isSuccess
      ∧ ∃ p, Program.compile .packed "++(+[-]>>) [:]" = .ok p
        ∧ p.opcodes.toList.map (·.count) = [2, 1, 1, 1, 1, 1, 2, 1, 1, 1, 1]
        ∧ p.partners = #[0, 7, 0, 5, 0, 3, 0, 1, 10, 0, 8]
        ∧ p.Matched 1 7 ∧ p.Matched 3 5 ∧ p.functionCount = 1 := by
  have hsource : (Script.validate "++(+[-]>>) [:]").isSuccess := by decide
  obtain ⟨p, hp, -, hloop, hbody, -, -, hcount⟩ := partners_match_perfectly _ .packed hsource
  have hcompile : (Program.compile .packed "++(+[-]>>) [:]").toOption.map
      (fun p => (p.opcodes, p.partners))
      = some (#[⟨.inc, 2⟩, .one .bodyOpen, .one .inc, .one .loopOpen, .one .dec, .one .loopClose,
        ⟨.right, 2⟩, .one .bodyClose, .one .loopOpen, .one .call, .one .loopClose],
        #[0, 7, 0, 5, 0, 3, 0, 1, 10, 0, 8]) := by
    decide +kernel
  rw [hp] at hcompile
  obtain ⟨hopcodes, hpartners⟩ := Prod.mk.inj (Option.some.inj hcompile)
  obtain ⟨j, -, -, -, -, houter⟩ := hbody 1 (.one .bodyOpen) (by rw [hopcodes]; rfl) rfl
  obtain ⟨k, -, -, -, hinner⟩ := hloop 3 (.one .loopOpen) (by rw [hopcodes]; rfl) rfl
  have hj : some 7 = some j := by
    rw [← houter.pair.2.1, hpartners]
    rfl
  have hk : some 5 = some k := by
    rw [← hinner.pair.2.1, hpartners]
    rfl
  cases hj
  cases hk
  refine ⟨hsource, p, hp, by rw [hopcodes]; rfl, hpartners, houter, hinner, ?_⟩
  rw [hcount, hopcodes]
  rfl

end TapeMachine
