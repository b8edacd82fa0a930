/-
  TapeMachine.Proofs.Canonical
  ────────────────────────────
  **THE PACKED STREAM IS A NORMAL FORM.**

  A text of operators can be packed in many ways: a run of five `+` may be
  one opcode, or two, or five.  `Opcode.Canonical` singles one of them out:

      · a count is at least 1 and has 16 bits;
      · it exceeds 1 only where the operator is repeatable;
      · an opcode leaves the next one a repeatable operator of its own only
        if it is full.

  Packing gives a canonical stream, one token at a time
  (`Opcode.Canonical.push`), and there is only one for a text: of two that
  are written out alike, the first opcodes count alike (`Canonical.count_le`,
  used in both directions), and so on.  Hence compiling loses nothing but the
  comments, and what it gives depends on nothing else.
-/
import Mathlib.Data.List.Chain
import TapeMachine.Proofs.Comments

namespace TapeMachine

namespace Opcode

/-! ## §1. Canonical streams. -/

/-- How many operators the opcodes stand for. -/
def total (ops : List Opcode) : Nat := ops.foldr (fun op n => op.count + n) 0

theorem total_eq_length (ops : List Opcode) : total ops = (expand ops).length := by
  induction ops with
  | nil => rfl
  | cons op ops ih =>
    rw [length_expand_cons, ← ih]
    rfl

theorem place_eq_total (ops : List Opcode) (k : Nat) : place ops k = total (ops.take k) := by
  rw [total_eq_length]
  rfl

/-- Counts have 16 bits, only repeatable operators are counted, and a run of
one goes on in a second opcode only if the first is full. -/
structure Canonical (ops : List Opcode) : Prop where
  counted : ∀ op ∈ ops, 1 ≤ op.count ∧ op.count ≤ maxCount
  repeated : ∀ op ∈ ops, 1 < op.count → op.operator.isRepeatable
  maximal : ops.IsChain fun op next =>
    op.operator.isRepeatable → op.operator = next.operator → op.count = maxCount

namespace Canonical

theorem nil : Canonical [] where
  counted := fun _ hop => absurd hop List.not_mem_nil
  repeated := fun _ hop => absurd hop List.not_mem_nil
  maximal := List.isChain_nil

theorem tail {op : Opcode} {ops : List Opcode} (h : Canonical (op :: ops)) : Canonical ops where
  counted := fun op' hop' => h.counted op' (List.mem_cons_of_mem op hop')
  repeated := fun op' hop' => h.repeated op' (List.mem_cons_of_mem op hop')
  maximal := (List.isChain_cons.1 h.maximal).2

/-- A new opcode may follow one that does not absorb its operator. -/
theorem concat {ops : List Opcode} {o : Operator} (h : Canonical ops)
    (hlast : ∀ op ∈ ops.getLast?, op.absorbs o = false) : Canonical (ops ++ [.one o]) where
  counted := by
    intro op hop
    rcases List.mem_append.1 hop with hop | hop
    · exact h.counted op hop
    · rw [List.mem_singleton.1 hop]
      show 1 ≤ 1 ∧ 1 ≤ maxCount
      decide
  repeated := by
    intro op hop hcount
    rcases List.mem_append.1 hop with hop | hop
    · exact h.repeated op hop hcount
    · rw [List.mem_singleton.1 hop] at hcount
      exact absurd hcount (Nat.lt_irrefl 1)
  maximal := by
    apply h.maximal.append (List.isChain_singleton _)
    intro op hop next hnext hrep hsame
    obtain rfl : Opcode.one o = next := Option.some.inj hnext
    have hle := (h.counted op (List.mem_of_getLast? hop)).2
    have habsorbs := hlast op hop
    -- the operator is the same and repeatable, so it is the count that stood in the way
    rw [show op.operator = o from hsame] at hrep
    simp only [absorbs, show op.operator = o from hsame, hrep, beq_self_eq_true, Bool.true_and,
      decide_eq_false_iff_not] at habsorbs
    omega

/-- The last opcode may count one more operator that it absorbs. -/
theorem absorb {ops : List Opcode} {op : Opcode} {o : Operator} (h : Canonical (ops ++ [op]))
    (habsorbs : op.absorbs o) : Canonical (ops ++ [⟨o, op.count + 1⟩]) := by
  simp only [absorbs, Bool.and_eq_true, beq_iff_eq, decide_eq_true_eq] at habsorbs
  obtain ⟨⟨hsame, hrep⟩, hroom⟩ := habsorbs
  obtain ⟨hchain, -, hmeet⟩ := List.isChain_append.1 h.maximal
  refine ⟨?_, ?_, ?_⟩
  · intro op' hop'
    rcases List.mem_append.1 hop' with hop' | hop'
    · exact h.counted op' (List.mem_append_left _ hop')
    · rw [List.mem_singleton.1 hop']
      show 1 ≤ op.count + 1 ∧ op.count + 1 ≤ maxCount
      omega
  · intro op' hop' hcount
    rcases List.mem_append.1 hop' with hop' | hop'
    · exact h.repeated op' (List.mem_append_left _ hop') hcount
    · rw [List.mem_singleton.1 hop']
      exact hrep
  · apply hchain.append (List.isChain_singleton _)
    intro op' hop' next hnext hrep' hsame'
    obtain rfl : (⟨o, op.count + 1⟩ : Opcode) = next := Option.some.inj hnext
    exact hmeet op' hop' op rfl hrep' (hsame'.trans hsame.symm)

/-- **One token more.** -/
theorem push {stream : List Instruction} (h : Canonical (stream.reverse.map (·.opcode)))
    (t : Token) : Canonical ((Instruction.push .packed stream t).reverse.map (·.opcode)) := by
  cases stream with
  | nil => exact concat nil fun op hop => by cases hop
  | cons last older =>
    simp only [List.reverse_cons, List.map_append, List.map_cons, List.map_nil] at h
    unfold Instruction.push
    dsimp only
    split
    · next habsorbs =>
      simp only [List.reverse_cons, List.map_append, List.map_cons, List.map_nil]
      exact h.absorb habsorbs
    · next habsorbs =>
      simp only [List.reverse_cons, List.map_append, List.map_cons, List.map_nil]
      apply h.concat
      intro op hop
      rw [List.getLast?_concat] at hop
      obtain rfl : last.opcode = op := Option.some.inj hop
      simpa using habsorbs

end Canonical

/-- **Packing gives a canonical stream.** -/
theorem canonical_pack (ts : List Token) :
    Canonical ((Instruction.pack .packed ts).map (·.opcode)) := by
  have hfold : ∀ (ts : List Token) (stream : List Instruction),
      Canonical (stream.reverse.map (·.opcode)) →
        Canonical ((ts.foldl (Instruction.push .packed) stream).reverse.map (·.opcode)) := by
    intro ts
    induction ts with
    | nil =>
      intro stream h
      exact h
    | cons t ts ih =>
      intro stream h
      exact ih _ (h.push t)
  exact hfold ts [] Canonical.nil

/-! ## §2. There is only one for a text. -/

/-- A text says what the stream is written out. -/
theorem expand_eq_filterMap (ops : List Opcode) :
    expand ops = (sourceText ops).toList.filterMap fun c => (Operator.ofChar? c).map one := by
  unfold sourceText
  rw [String.toList_ofList]
  induction ops with
  | nil => rfl
  | cons op ops ih =>
    have hop : op.symbols.filterMap (fun c => (Operator.ofChar? c).map one)
        = List.replicate op.count (one op.operator) := by
      unfold symbols
      apply List.filterMap_replicate_of_some
      rw [Operator.ofChar?_symbol]
      rfl
    rw [List.flatMap_cons, List.filterMap_append, ← ih, hop]
    rfl

/-- Of two canonical streams that start with the same operator and are written
out alike, the first opcode of the one counts no more than that of the other:
it would have left some of its run to an opcode that is not full. -/
theorem Canonical.count_le {o : Operator} {n n' : Nat} {ops ops' : List Opcode}
    (h : Canonical (⟨o, n⟩ :: ops)) (h' : Canonical (⟨o, n'⟩ :: ops'))
    (heq : expand (⟨o, n⟩ :: ops) = expand (⟨o, n'⟩ :: ops')) : n' ≤ n := by
  rcases Nat.lt_or_ge n n' with hlt | hge
  · exfalso
    have hpos : 1 ≤ n := (h.counted ⟨o, n⟩ List.mem_cons_self).1
    have hmax : n' ≤ maxCount := (h'.counted ⟨o, n'⟩ List.mem_cons_self).2
    have hrep : o.isRepeatable := h'.repeated ⟨o, n'⟩ List.mem_cons_self (by
      show 1 < n'
      omega)
    -- what follows the first opcode starts with the same operator
    have hrest : expand ops = List.replicate (n' - n) (one o) ++ expand ops' := by
      have hsplit : List.replicate n' (one o)
          = List.replicate n (one o) ++ List.replicate (n' - n) (one o) := by
        rw [List.replicate_append_replicate, Nat.add_sub_cancel' (Nat.le_of_lt hlt)]
      have hboth : List.replicate n (one o) ++ expand ops
          = List.replicate n (one o) ++ (List.replicate (n' - n) (one o) ++ expand ops') := by
        rw [← List.append_assoc, ← hsplit]
        exact heq
      exact List.append_cancel_left hboth
    obtain ⟨k, hk⟩ : ∃ k, n' - n = k + 1 := ⟨n' - n - 1, by omega⟩
    rw [hk, List.replicate_succ, List.cons_append] at hrest
    cases ops with
    | nil => cases hrest
    | cons next ops =>
      obtain ⟨j, hj⟩ : ∃ j, next.count = j + 1 :=
        ⟨next.count - 1, by
          have := (h.counted next (List.mem_cons_of_mem _ List.mem_cons_self)).1
          omega⟩
      have hcons : expand (next :: ops)
          = one next.operator :: (List.replicate j (one next.operator) ++ expand ops) := by
        show List.replicate next.count (one next.operator) ++ expand ops = _
        rw [hj, List.replicate_succ, List.cons_append]
      rw [hcons] at hrest
      have hsame : next.operator = o := congrArg Opcode.operator (List.cons.inj hrest).1
      have hfull : n = maxCount := (List.isChain_cons_cons.1 h.maximal).1 hrep hsame.symm
      omega
  · exact hge

/-- **Canonical streams that are written out alike are the same.** -/
theorem Canonical.eq_of_expand {ops : List Opcode} : ∀ {ops' : List Opcode}, Canonical ops →
    Canonical ops' → expand ops = expand ops' → ops = ops' := by
  -- a stream is written out as nothing only if it is empty
  have hempty : ∀ {op : Opcode} {ops : List Opcode}, Canonical (op :: ops) →
      expand (op :: ops) ≠ [] := by
    intro op ops h hnil
    have hlength := length_expand_cons op ops
    have hpos := (h.counted op List.mem_cons_self).1
    rw [hnil, List.length_nil] at hlength
    omega
  induction ops with
  | nil =>
    intro ops' _ h' heq
    cases ops' with
    | nil => rfl
    | cons op' ops' => exact absurd heq.symm (hempty h')
  | cons op ops ih =>
    intro ops' h h' heq
    cases ops' with
    | nil => exact absurd heq (hempty h)
    | cons op' ops' =>
      obtain ⟨o, n⟩ := op
      obtain ⟨o', n'⟩ := op'
      have hpos : 1 ≤ n := (h.counted ⟨o, n⟩ List.mem_cons_self).1
      have hpos' : 1 ≤ n' := (h'.counted ⟨o', n'⟩ List.mem_cons_self).1
      have hsame : o = o' := by
        have hfirst : (expand (⟨o, n⟩ :: ops)).head? = (expand (⟨o', n'⟩ :: ops')).head? := by
          rw [heq]
        obtain ⟨k, rfl⟩ : ∃ k, n = k + 1 := ⟨n - 1, by omega⟩
        obtain ⟨k', rfl⟩ : ∃ k', n' = k' + 1 := ⟨n' - 1, by omega⟩
        exact congrArg Opcode.operator (Option.some.inj hfirst)
      subst hsame
      have hcount : n = n' := Nat.le_antisymm (h'.count_le h heq.symm) (h.count_le h' heq)
      subst hcount
      rw [ih h.tail h'.tail (List.append_cancel_left heq)]

theorem Canonical.eq_of_sourceText {ops ops' : List Opcode} (h : Canonical ops)
    (h' : Canonical ops') (heq : sourceText ops = sourceText ops') : ops = ops' := by
  apply h.eq_of_expand h'
  rw [expand_eq_filterMap, expand_eq_filterMap, heq]

end Opcode

/-! ## §3. Compiled scripts. -/

/-- A report that is a success counts the tokens. -/
theorem Script.count_of_isSuccess {source : String} (h : (validate source).isSuccess) :
    (validate source).count = (tokens source).length := by
  obtain ⟨b, hb, hoperators⟩ := validate_isSuccess_iff.1 h
  rw [validate_eq_success hb hoperators]
  rfl

namespace Program

theorem opcodes_ofTokens (g : Granularity) (n : Nat) (ts : List Token) :
    (ofTokens g n ts).opcodes.toList = (Instruction.pack g ts).map (·.opcode) := rfl

/-- **The text of a program is its script without the comments.** -/
theorem sourceText_ofTokens (g : Granularity) (n : Nat) (source : String) :
    Opcode.sourceText (ofTokens g n (Script.tokens source)).opcodes.toList
      = Script.bare source := by
  have hsymbols : ∀ ts : List Token, (ts.map fun t => Opcode.one t.operator).flatMap Opcode.symbols
      = (ts.map (·.operator)).map Operator.symbol := by
    intro ts
    rw [List.flatMap_map, List.map_map]
    exact List.flatMap_pure_eq_map _ ts
  rw [opcodes_ofTokens, ← Opcode.sourceText_expand, (Instruction.packs_pack g _).expand_eq]
  unfold Opcode.sourceText Script.bare
  rw [hsymbols, Script.symbols_tokens]

/-- The opcodes stand for all the tokens. -/
theorem total_ofTokens (g : Granularity) (n : Nat) (ts : List Token) :
    Opcode.total (ofTokens g n ts).opcodes.toList = ts.length := by
  rw [opcodes_ofTokens, Opcode.total_eq_length, (Instruction.packs_pack g ts).expand_eq,
    List.length_map]

/-- In a plain stream every operator has its own offset. -/
theorem offsets_plain (n : Nat) (source : String) :
    (ofTokens .plain n (Script.tokens source)).offsets.toList = Script.operatorOffsets source := by
  show (Instruction.pack .plain (Script.tokens source)).map (·.offset) = _
  rw [Instruction.pack_plain, List.map_map, Script.operatorOffsets_eq]
  rfl

/-- An opcode stands where the first of its operators does. -/
theorem offset_ofTokens (g : Granularity) (n : Nat) (source : String) {k : Nat}
    (hk : k < (ofTokens g n (Script.tokens source)).size) :
    (ofTokens g n (Script.tokens source)).offsets[k]?
      = (Script.operatorOffsets source)[Opcode.total
          ((ofTokens g n (Script.tokens source)).opcodes.toList.take k)]? := by
  have hoffset := (unpacks_plain g n (Script.tokens source)).offset hk
  rw [← hoffset, ← offsets_plain n, opcodes_ofTokens, ← Opcode.place_eq_total,
    Array.getElem?_toList]

/-- The offsets rise. -/
theorem sorted_offsets (g : Granularity) (n : Nat) (source : String) :
    (ofTokens g n (Script.tokens source)).offsets.toList.Pairwise (· < ·) := by
  have hsorted := (Script.operatorOffsets_spell source).1
  rw [List.pairwise_iff_getElem] at hsorted ⊢
  intro i j hi hj hij
  have hsize := offsets_size_ofTokens g n (Script.tokens source)
  have hi' : i < (ofTokens g n (Script.tokens source)).size := hsize ▸ hi
  have hj' : j < (ofTokens g n (Script.tokens source)).size := hsize ▸ hj
  -- both are offsets of operators, and the later opcode begins with a later one
  have hplace := (unpacks_plain g n (Script.tokens source)).lt hij (Nat.le_of_lt hj')
  rw [Opcode.place_eq_total, Opcode.place_eq_total, ← opcodes_ofTokens g n] at hplace
  have hget : ∀ {k : Nat} (hk : k < (ofTokens g n (Script.tokens source)).size)
      (hlist : k < (ofTokens g n (Script.tokens source)).offsets.toList.length),
      (Script.operatorOffsets source)[Opcode.total
        ((ofTokens g n (Script.tokens source)).opcodes.toList.take k)]?
        = some (ofTokens g n (Script.tokens source)).offsets.toList[k] := by
    intro k hk hlist
    rw [← offset_ofTokens g n source hk, ← Array.getElem?_toList, List.getElem?_eq_getElem hlist]
  obtain ⟨hi₀, hfirst⟩ := List.getElem?_eq_some_iff.1 (hget hi' hi)
  obtain ⟨hj₀, hsecond⟩ := List.getElem?_eq_some_iff.1 (hget hj' hj)
  rw [← hfirst, ← hsecond]
  exact hsorted _ _ hi₀ hj₀ hplace

end Program

/-- **Compiling is a canonical encoding that loses nothing but the comments.**
A script that passes the check compiles in either granularity.  The text of the
opcodes is the script without its comments, and their counts add up to the
operators of the script.  Every opcode has an offset; offsets rise, and each is
where the operator stands whose number is the sum of the counts before.  A plain
stream counts every operator alone.  The packed stream is canonical, and no
other canonical stream has the text.  Compiled again, the text gives the same
opcodes. -/
theorem compiling_is_canonical (source : String) (g : Granularity)
    (hsource : (Script.validate source).isSuccess) :
    ∃ p, Program.compile g source = .ok p
      ∧ Opcode.sourceText p.opcodes.toList = Script.bare source
      ∧ Opcode.total p.opcodes.toList = p.operatorCount
      ∧ (p.offsets.size = p.size ∧ p.offsets.toList.Pairwise (· < ·)
          ∧ ∀ k, k < p.size → p.offsets[k]?
            = (Script.operatorOffsets source)[Opcode.total (p.opcodes.toList.take k)]?)
      ∧ (g = .plain → ∀ op ∈ p.opcodes, op.count = 1)
      ∧ (g = .packed → ∀ ops : List Opcode,
          Opcode.Canonical ops ∧ Opcode.sourceText ops = Script.bare source
            ↔ ops = p.opcodes.toList)
      ∧ ∃ q, Program.compile g (Opcode.sourceText p.opcodes.toList) = .ok q
          ∧ q.opcodes = p.opcodes := by
  have hcompile := Program.compile_of_isSuccess hsource g
  have htext := Program.sourceText_ofTokens g (Script.validate source).count source
  refine ⟨_, hcompile, htext, ?_, ⟨Program.offsets_size_ofTokens _ _ _,
    Program.sorted_offsets _ _ _, fun k hk => Program.offset_ofTokens _ _ _ hk⟩, ?_, ?_, ?_⟩
  · rw [Program.total_ofTokens]
    exact (Script.count_of_isSuccess hsource).symm
  · rintro rfl op hop
    rw [← Array.mem_toList_iff, Program.opcodes_ofTokens, Instruction.pack_plain,
      List.map_map] at hop
    obtain ⟨t, -, rfl⟩ := List.mem_map.1 hop
    rfl
  · rintro rfl ops
    have hcanonical := Opcode.canonical_pack (Script.tokens source)
    constructor
    · rintro ⟨hops, hsame⟩
      exact hops.eq_of_sourceText hcanonical (hsame.trans htext.symm)
    · intro heq
      rw [heq]
      exact ⟨hcanonical, htext⟩
  · -- the bare script compiles to the same program, but for the offsets
    rw [htext]
    have hplaced := Program.compile_eq_placed g source
    rw [hcompile] at hplaced
    cases hbare : Program.compile g (Script.bare source) with
    | error e =>
      rw [hbare] at hplaced
      cases hplaced
    | ok q =>
      rw [hbare] at hplaced
      refine ⟨q, rfl, ?_⟩
      rw [Except.ok.inj hplaced]
      rfl

/-- A run with a comment inside, and a text that is packed in another way. -/
theorem compiling_is_canonical_commented :
    ∃ p, Program.compile .packed "+é+[-->]" = .ok p
      ∧ p.opcodes.toList
        = [⟨.inc, 2⟩, ⟨.loopOpen, 1⟩, ⟨.dec, 2⟩, ⟨.right, 1⟩, ⟨.loopClose, 1⟩]
      ∧ p.offsets = #[0, 3, 4, 6, 7]
      ∧ ¬ Opcode.Canonical
        [⟨.inc, 1⟩, ⟨.inc, 1⟩, ⟨.loopOpen, 1⟩, ⟨.dec, 2⟩, ⟨.right, 1⟩, ⟨.loopClose, 1⟩] := by
  obtain ⟨p, hp, -, -, -, -, honly, -⟩ :=
    compiling_is_canonical "+é+[-->]" .packed (by decide)
  have hrun : (Program.compile .packed "+é+[-->]").toOption.map (fun p =>
      (p.opcodes.toList, p.offsets))
      = some ([⟨.inc, 2⟩, ⟨.loopOpen, 1⟩, ⟨.dec, 2⟩, ⟨.right, 1⟩, ⟨.loopClose, 1⟩],
        #[0, 3, 4, 6, 7]) := by
    decide +kernel
  rw [hp] at hrun
  obtain ⟨hopcodes, hoffsets⟩ := Prod.mk.inj (Option.some.inj hrun)
  refine ⟨p, hp, hopcodes, hoffsets, ?_⟩
  intro hcanonical
  have heq := (honly rfl _).1 ⟨hcanonical, by decide +kernel⟩
  rw [hopcodes] at heq
  revert heq
  decide

end TapeMachine
