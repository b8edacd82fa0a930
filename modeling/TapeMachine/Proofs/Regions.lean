/-
  TapeMachine.Proofs.Regions
  ──────────────────────────
  **PARTNERS IN ANY STREAM.**

  A stream of opcodes need not be balanced: a `(` may follow a `(`, a `]` may
  have nothing to close, a loop of the root may be open across functions.
  The pass still gives a matching, and it can be said without the pass which
  one.  A stream falls into regions, the bodies that its parentheses leave and
  the root (`Opcode.region?`).  Then (`Opcode.Belongs`)

      · a `)` belongs to the `(` of the body it stands in,
      · a `]` belongs to the `[` of its own region between which and it the
        loops of that region are balanced.

    • `Pass.Exact` — the two stacks hold the loops that are open in the root
      and in the body that is read, in order, so a closer meets exactly what
      it belongs to (`Exact.meets?_iff`),
    • `Pass.Apart` — what waits for a closer lies outside every pair, so a new
      pair crosses none.
-/
import TapeMachine.Proofs.OpenLoops

namespace TapeMachine

/-! ## §1. Which closer belongs to which opener. -/

namespace Opcode

/-- The operator at an index. -/
def operatorAt? (ops : List Opcode) (i : Nat) : Option Operator := ops[i]?.map (·.operator)

/-- The body that index `i` lies in, by the index of its `(`: the last
parenthesis before `i` unless that is a `)`.  All else is the root. -/
def region? (ops : List Opcode) : Nat → Option Nat
  | 0 => none
  | i + 1 =>
    match operatorAt? ops i with
    | some .bodyOpen => some i
    | some .bodyClose => none
    | _ => region? ops i

/-- The operator at an index of the region. -/
def within? (ops : List Opcode) (region : Option Nat) (i : Nat) : Option Operator :=
  if region? ops i = region then operatorAt? ops i else none

/-- The closer at `j` belongs to the opener at `i`. -/
inductive Belongs (ops : List Opcode) (i j : Nat) : Prop
  /-- A `)`, and the `(` of the body it stands in. -/
  | body (closes : operatorAt? ops j = some .bodyClose) (inside : region? ops j = some i)
  /-- A `]`, and the `[` that it closes among the operators of a region. -/
  | loop (region : Option Nat)
      (pair : Operator.PairAt (within? ops region) (List.range ops.length) i j)

theorem operatorAt?_eq {ops : List Opcode} {i : Nat} {x : Opcode} (hx : ops[i]? = some x) :
    operatorAt? ops i = some x.operator := by
  rw [operatorAt?, hx]
  rfl

theorem lt_of_operatorAt? {ops : List Opcode} {i : Nat} {o : Operator}
    (h : operatorAt? ops i = some o) : i < ops.length := by
  obtain ⟨x, hx, -⟩ := Option.map_eq_some_iff.1 h
  exact (List.getElem?_eq_some_iff.1 hx).1

theorem within?_eq {ops : List Opcode} {i : Nat} {x : Opcode} (hx : ops[i]? = some x)
    {region : Option Nat} (hregion : region? ops i = region) :
    within? ops region i = some x.operator := by
  rw [within?, if_pos hregion, operatorAt?_eq hx]

theorem region?_lt {ops : List Opcode} : ∀ {i d : Nat}, region? ops i = some d → d < i := by
  intro i
  induction i with
  | zero =>
    intro d h
    cases h
  | succ i ih =>
    intro d h
    unfold region? at h
    split at h
    · cases h
      exact Nat.lt_succ_self i
    · cases h
    · exact Nat.lt_succ_of_lt (ih h)

theorem Belongs.lt {ops : List Opcode} {i j : Nat} (h : Belongs ops i j) : i < j := by
  cases h with
  | body _ hinside => exact region?_lt hinside
  | loop _ hpair => exact hpair.lt

end Opcode

/-! ## §2. A stack of open loops. -/

namespace Operator

variable {α : Type} {f : α → Option Operator} {l : List α}

/-- **A `]` closes the innermost loop that is open before it.** -/
theorem pairAt_iff_openWith {i j : Nat} : PairAt f l i j ↔
    l[j]?.bind f = some .loopClose ∧ OpenWith f (l.take j) 0 i := by
  constructor
  · rintro ⟨hlt, hopens, hcloses, hbalanced⟩
    refine ⟨hcloses, ?_, ?_⟩
    · rw [List.getElem?_take_of_lt hlt]
      exact hopens
    · rw [List.drop_take]
      exact hbalanced
  · rintro ⟨hcloses, hopen⟩
    have hlt : i < j := Nat.lt_of_lt_of_le hopen.lt (List.length_take_le j l)
    obtain ⟨hopens, hbalanced⟩ := hopen
    rw [List.getElem?_take_of_lt hlt] at hopens
    rw [List.drop_take] at hbalanced
    exact ⟨hlt, hopens, hcloses, hbalanced⟩

/-- A stack of open loops, and what the operator at `i` makes of it. -/
def restack (o : Option Operator) (i : Nat) (stack : List Nat) : List Nat :=
  match o with
  | some .loopOpen => i :: stack
  | some .loopClose => stack.tail
  | _ => stack

theorem getElem?_restack (o : Option Operator) (i k a : Nat) (stack : List Nat) :
    (restack o i stack)[k]? = some a ↔ (a = i ∧ o = some .loopOpen ∧ k = 0)
      ∨ ∃ n, stack[n]? = some a ∧ depth? n o.toList = some k := by
  cases o with
  | none => simp [restack, depth?]
  | some o =>
    cases o with
    | loopOpen => cases k <;> simp [restack, depth?, nest?, eq_comm]
    | loopClose =>
      show stack.tail[k]? = some a ↔ _
      rw [List.getElem?_tail]
      constructor
      · intro h
        exact .inr ⟨k + 1, h, rfl⟩
      · rintro (⟨-, h, -⟩ | ⟨n, hn, hdepth⟩)
        · cases h
        · cases n with
          | zero => cases hdepth
          | succ n =>
            cases hdepth
            exact hn
    | _ => simp [restack, depth?, nest?]

/-- The stack has the loops that are open before index `i`, innermost first. -/
def Stacked (f : Nat → Option Operator) (i : Nat) (stack : List Nat) : Prop :=
  ∀ k a, stack[k]? = some a ↔ OpenWith f (List.range i) k a

/-- **One operator more.** -/
theorem Stacked.step {f : Nat → Option Operator} {i : Nat} {stack : List Nat}
    (h : Stacked f i stack) : Stacked f (i + 1) (restack (f i) i stack) := by
  intro k a
  rw [List.range_succ, openWith_concat, List.length_range, getElem?_restack]
  simp only [h _ a]

/-- The stack is empty if no loop has been opened. -/
theorem stacked_nil {f : Nat → Option Operator} {i : Nat}
    (h : ∀ a, a < i → f a ≠ some .loopOpen) : Stacked f i [] := by
  intro k a
  constructor
  · intro hget
    cases hget
  · intro hopen
    have hlt : a < i := List.length_range (n := i) ▸ hopen.lt
    have hopens := hopen.1
    rw [List.getElem?_range hlt] at hopens
    exact absurd hopens (h a hlt)

end Operator

namespace Opcode

variable {ops : List Opcode} {i : Nat}

/-- **What belongs to the operator at `i`** depends on what comes before. -/
theorem belongs_iff {a : Nat} : Belongs ops a i ↔
    (operatorAt? ops i = some .bodyClose ∧ region? ops i = some a)
      ∨ (operatorAt? ops i = some .loopClose
        ∧ Operator.OpenWith (within? ops (region? ops i)) (List.range i) 0 a) := by
  have htake : i < ops.length → (List.range ops.length).take i = List.range i := by
    intro hi
    rw [List.take_range, Nat.min_eq_left (Nat.le_of_lt hi)]
  constructor
  · intro h
    cases h with
    | body hcloses hinside => exact .inl ⟨hcloses, hinside⟩
    | loop region hpair =>
      obtain ⟨hcloses, hopen⟩ := Operator.pairAt_iff_openWith.1 hpair
      obtain ⟨i', hget, hwithin⟩ := Option.bind_eq_some_iff.1 hcloses
      obtain ⟨hi, rfl⟩ := List.getElem?_eq_some_iff.1 hget
      rw [List.getElem_range] at hwithin
      rw [htake (List.length_range (n := ops.length) ▸ hi)] at hopen
      unfold within? at hwithin
      split at hwithin
      · next hregion => exact .inr ⟨hwithin, hregion ▸ hopen⟩
      · cases hwithin
  · rintro (⟨hcloses, hinside⟩ | ⟨hcloses, hopen⟩)
    · exact .body hcloses hinside
    · have hi := lt_of_operatorAt? hcloses
      apply Belongs.loop (region? ops i)
      rw [Operator.pairAt_iff_openWith, htake hi]
      refine ⟨?_, hopen⟩
      rw [List.getElem?_range hi]
      show within? ops (region? ops i) i = _
      rw [within?, if_pos rfl, hcloses]

theorem Belongs.lt_length {a : Nat} (h : Belongs ops a i) : i < ops.length := by
  rcases belongs_iff.1 h with ⟨hcloses, -⟩ | ⟨hcloses, -⟩
  · exact lt_of_operatorAt? hcloses
  · exact lt_of_operatorAt? hcloses

end Opcode

/-! ## §3. What one operator does to the pass. -/

/-- **A link adds one pair to a table.** -/
theorem Matching.Linked.pair_link_iff {ops : List Opcode} {i j : Nat} {m : Pass}
    (h : Linked ops i m.table) (hj : j < i) (hi : i < ops.length) (h0 : m.table[j]? = some 0)
    {a b : Nat} (hab : a < b) :
    (m.link j i).table[a]? = some b ↔ (a = j ∧ b = i) ∨ m.table[a]? = some b := by
  show ((m.table.setIfInBounds j i).setIfInBounds i j)[a]? = some b ↔ _
  rw [h.getElem?_link hj hi]
  split
  · next hai =>
    -- the entry of the closer is not a later one
    subst hai
    rw [h.ahead (Nat.le_refl a) hi]
    simp only [Option.some.injEq]
    omega
  · split
    · next haj =>
      -- the opener had no entry before
      subst haj
      rw [h0]
      simp only [Option.some.injEq, true_and]
      omega
    · next haj => simp [haj]

namespace Matching.Pass

/-- The open function behind the operator at `i`. -/
def regionBehind (m : Pass) (o : Operator) (i : Nat) : Option Region :=
  match o with
  | .bodyOpen => some ⟨i, []⟩
  | .bodyClose => none
  | _ => m.region.map fun r => { r with loops := Operator.restack (some o) i r.loops }

variable {m : Pass} {i j : Nat}

/-- An operator changes the stack of its own region, and a parenthesis the
region. -/
theorem step_stacks (m : Pass) (o : Operator) (i : Nat) :
    (m.step o i).loops
        = (if m.region.isSome then m.loops else Operator.restack (some o) i m.loops)
      ∧ (m.step o i).region = m.regionBehind o i := by
  obtain ⟨table, functions, loops, region⟩ := m
  cases region with
  | none =>
    cases o with
    | loopClose => cases loops <;> exact ⟨rfl, rfl⟩
    | _ => exact ⟨rfl, rfl⟩
  | some r =>
    obtain ⟨start, inner⟩ := r
    cases o with
    | loopClose => cases inner <;> exact ⟨rfl, rfl⟩
    | _ => exact ⟨rfl, rfl⟩

/-! ## §4. A closer meets what it belongs to. -/

/-- The invariant of the pass, with what its stacks and its table are exactly. -/
structure Exact (ops : List Opcode) (i : Nat) (m : Pass) : Prop extends Sound ops i m where
  place : m.region.map (·.start) = Opcode.region? ops i
  outer : Operator.Stacked (Opcode.within? ops none) i m.loops
  body : ∀ {r : Region}, m.region = some r →
    Operator.Stacked (Opcode.within? ops (some r.start)) i r.loops
  pairs : ∀ {a b : Nat}, a < b → (m.table[a]? = some b ↔ Opcode.Belongs ops a b ∧ b < i)

namespace Exact

variable {ops : List Opcode} {x : Opcode}

theorem region?_eq (h : Exact ops i m) {region : Option Region} (hr : m.region = region) :
    Opcode.region? ops i = region.map (·.start) := by
  rw [← h.place, hr]

/-- The loops of the region that is read. -/
theorem current (h : Exact ops i m) :
    Operator.Stacked (Opcode.within? ops (Opcode.region? ops i)) i m.current := by
  unfold Pass.current
  cases hr : m.region with
  | none =>
    rw [h.region?_eq hr]
    exact h.outer
  | some r =>
    rw [h.region?_eq hr]
    exact h.body hr

/-- **A closer meets what it belongs to.** -/
theorem meets?_iff (h : Exact ops i m) (hx : ops[i]? = some x) {a : Nat} :
    m.meets? x.operator = some a ↔ Opcode.Belongs ops a i := by
  rw [Opcode.belongs_iff, Opcode.operatorAt?_eq hx]
  cases x.operator with
  | loopClose =>
    show m.current.head? = some a ↔ _
    rw [List.head?_eq_getElem?, h.current 0 a]
    simp
  | bodyClose =>
    show m.region.map (·.start) = some a ↔ _
    rw [h.place]
    simp
  | _ => simp [meets?]

/-- The open functions are those of the stream. -/
theorem place_step (h : Exact ops i m) (hx : ops[i]? = some x) :
    (m.step x.operator i).region.map (·.start) = Opcode.region? ops (i + 1) := by
  have hplace := h.place
  rw [(step_stacks m x.operator i).2]
  unfold Opcode.region? regionBehind
  rw [Opcode.operatorAt?_eq hx]
  cases x.operator <;> simp [hplace, Function.comp_def]

/-- The stack of the root. -/
theorem outer_step (h : Exact ops i m) (hx : ops[i]? = some x) :
    Operator.Stacked (Opcode.within? ops none) (i + 1) (m.step x.operator i).loops := by
  have hnext := h.outer.step
  rw [(step_stacks m x.operator i).1]
  cases hr : m.region with
  | none =>
    have hplace : Opcode.region? ops i = none := h.region?_eq hr
    rw [Opcode.within?_eq hx hplace] at hnext
    exact hnext
  | some r =>
    -- what stands in a body is not in the root
    have hplace : Opcode.region? ops i = some r.start := h.region?_eq hr
    rw [Opcode.within?, hplace] at hnext
    exact hnext

/-- The stack of the open function. -/
theorem body_step (h : Exact ops i m) (hx : ops[i]? = some x) {r : Region}
    (hr : (m.step x.operator i).region = some r) :
    Operator.Stacked (Opcode.within? ops (some r.start)) (i + 1) r.loops := by
  rw [(step_stacks m x.operator i).2] at hr
  unfold regionBehind at hr
  split at hr
  · -- a body begins; nothing up to the parenthesis stands in it
    cases hr
    apply Operator.stacked_nil
    intro a ha hopen
    unfold Opcode.within? at hopen
    split at hopen
    · next hregion =>
      have hlt : i < a := Opcode.region?_lt hregion
      omega
    · cases hopen
  · cases hr
  · obtain ⟨r', hr', rfl⟩ := Option.map_eq_some_iff.1 hr
    have hplace : Opcode.region? ops i = some r'.start := h.region?_eq hr'
    have hnext := (h.body hr').step
    rw [Opcode.within?_eq hx hplace] at hnext
    exact hnext

/-- The table. -/
theorem pairs_step (h : Exact ops i m) (hx : ops[i]? = some x) {a b : Nat} (hab : a < b) :
    (m.step x.operator i).table[a]? = some b ↔ Opcode.Belongs ops a b ∧ b < i + 1 := by
  have hi : i < ops.length := (List.getElem?_eq_some_iff.1 hx).1
  have hmet := h.meets?_iff hx (a := a)
  cases hmeets : m.meets? x.operator with
  | none =>
    rw [hmeets] at hmet
    rw [(step_of_meets?_none hmeets).1, h.pairs hab]
    refine and_congr_right fun hbelongs => ⟨Nat.lt_succ_of_lt, fun hlt => ?_⟩
    -- nothing belongs to the operator at `i`
    refine Nat.lt_of_le_of_ne (Nat.le_of_lt_succ hlt) ?_
    rintro rfl
    cases hmet.2 hbelongs
  | some j =>
    rw [hmeets] at hmet
    obtain ⟨htable, hsub⟩ := step_of_meets? (i := i) hmeets
    obtain ⟨hj, h0⟩ := h.unlinked j (hsub.subset List.mem_cons_self)
    rw [htable, h.linked.pair_link_iff hj hi h0 hab, h.pairs hab]
    constructor
    · rintro (⟨rfl, rfl⟩ | ⟨hbelongs, hlt⟩)
      · exact ⟨hmet.1 rfl, Nat.lt_succ_self b⟩
      · exact ⟨hbelongs, Nat.lt_succ_of_lt hlt⟩
    · rintro ⟨hbelongs, hlt⟩
      rcases Nat.lt_or_eq_of_le (Nat.le_of_lt_succ hlt) with hlt | rfl
      · exact .inr ⟨hbelongs, hlt⟩
      · exact .inl ⟨(Option.some.inj (hmet.2 hbelongs)).symm, rfl⟩

/-- **One operator keeps the invariant.** -/
theorem step (h : Exact ops i m) (hx : ops[i]? = some x) :
    Exact ops (i + 1) (m.step x.operator i) where
  toSound := h.toSound.step hx
  place := h.place_step hx
  outer := h.outer_step hx
  body := h.body_step hx
  pairs := h.pairs_step hx

end Exact

/-! ## §5. Pairs do not cross. -/

/-- Entries name each other; what waits for a closer lies outside every pair;
and of two pairs one lies behind the other or inside it. -/
structure Apart (m : Pass) : Prop where
  back : ∀ {k e : Nat}, m.table[k]? = some e → 0 < e → e ≤ k → e < k ∧ m.table[e]? = some k
  outside : ∀ {a b c : Nat}, a < b → m.table[a]? = some b → c ∈ m.pending → c < a ∨ b < c
  apart : ∀ {a b c d : Nat}, a < b → m.table[a]? = some b → c < d → m.table[c]? = some d →
    a < c → b < c ∨ d < b

namespace Apart

variable {ops : List Opcode} {x : Opcode}

/-- An operator that meets nothing. -/
theorem skip {m' : Pass} (h : Apart m) (hsound : Sound ops i m) (htable : m'.table = m.table)
    (hpending : ∀ a ∈ m'.pending, a = i ∨ a ∈ m.pending) : Apart m' where
  back := by
    rw [htable]
    exact h.back
  outside := by
    intro a b c hab hb hc
    rw [htable] at hb
    rcases hpending c hc with rfl | hc
    · exact .inr (hsound.linked.pair hab hb).1
    · exact h.outside hab hb hc
  apart := by
    rw [htable]
    exact h.apart

/-- A closer that meets the opener at `j`. -/
theorem link {m' : Pass} (h : Apart m) (hsound : Sound ops i m) (hi : i < ops.length)
    (htable : m'.table = (m.link j i).table) (hsub : (j :: m'.pending).Sublist m.pending) :
    Apart m' := by
  have hpending := hsub.subset List.mem_cons_self
  obtain ⟨hj, h0⟩ := hsound.unlinked j hpending
  have hbelow := (List.pairwise_cons.1 (hsound.sorted.sublist hsub)).1
  have hpair := fun {a b : Nat} (hab : a < b) =>
    hsound.linked.pair_link_iff hj hi h0 hab
  have hget := hsound.linked.getElem?_link hj hi
  refine ⟨?_, ?_, ?_⟩
  · intro k e hk hpos hle
    rw [htable] at hk ⊢
    have hk' : (if k = i then some j else if k = j then some i else m.table[k]?) = some e :=
      (hget k).symm.trans hk
    -- the entry of the closer, that of the opener, which names a later index, or an old one
    split at hk'
    · next hki =>
      subst hki
      cases hk'
      exact ⟨hj, (hpair hj).2 (.inl ⟨rfl, rfl⟩)⟩
    · split at hk'
      · next hkj =>
        cases hk'
        omega
      · obtain ⟨hlt, he⟩ := h.back hk' hpos hle
        exact ⟨hlt, (hpair hlt).2 (.inr he)⟩
  · intro a b c hab hb hc
    rw [htable] at hb
    -- what still waits was opened before `j`
    rcases (hpair hab).1 hb with ⟨rfl, rfl⟩ | hold
    · exact .inl (hbelow c hc)
    · exact h.outside hab hold (hsub.subset (List.mem_cons_of_mem j hc))
  · intro a b c d hab hb hcd hd hac
    rw [htable] at hb hd
    rcases (hpair hab).1 hb with ⟨rfl, rfl⟩ | hold
    · -- the old pair ends before the new one does
      rcases (hpair hcd).1 hd with ⟨rfl, -⟩ | hold'
      · exact absurd hac (Nat.lt_irrefl _)
      · exact .inr (hsound.linked.pair hcd hold').1
    · -- and the opener of the new pair waited outside the old one
      rcases (hpair hcd).1 hd with ⟨rfl, -⟩ | hold'
      · exact .inl ((h.outside hab hold hpending).resolve_left (Nat.lt_asymm hac))
      · exact h.apart hab hold hcd hold' hac

/-- **One operator keeps the pairs apart.** -/
theorem step (h : Apart m) (hsound : Sound ops i m) (hx : ops[i]? = some x) :
    Apart (m.step x.operator i) := by
  have hi : i < ops.length := (List.getElem?_eq_some_iff.1 hx).1
  cases hmeets : m.meets? x.operator with
  | none =>
    obtain ⟨htable, hpending⟩ := step_of_meets?_none (i := i) hmeets
    exact h.skip hsound htable hpending
  | some j =>
    obtain ⟨htable, hsub⟩ := step_of_meets? (i := i) hmeets
    exact h.link hsound hi htable hsub

end Apart

theorem exact_start (ops : List Opcode) : Exact ops 0 (start ops.length) where
  toSound := sound_start ops
  place := rfl
  outer := Operator.stacked_nil fun a ha => absurd ha (Nat.not_lt_zero a)
  body := by
    intro r hr
    cases hr
  pairs := by
    intro a b hab
    constructor
    · intro hb
      exact absurd ((Linked.start ops).pair hab hb).1 (Nat.not_lt_zero b)
    · rintro ⟨-, hb⟩
      exact absurd hb (Nat.not_lt_zero b)

theorem apart_start (ops : List Opcode) : Apart (start ops.length) where
  back := by
    intro k e hk hpos _
    rcases (Linked.start ops).entry hk with rfl | hlt
    · exact absurd hpos (Nat.lt_irrefl 0)
    · exact absurd hlt (Nat.not_lt_zero e)
  outside := by
    intro a b c _ _ hc
    cases hc
  apart := by
    intro a b c d hab hb
    exact absurd ((Linked.start ops).pair hab hb).1 (Nat.not_lt_zero b)

end Matching.Pass

/-! ## §6. The result. -/

namespace Matching

/-- The table makes `i` and a later index `j` partners. -/
def Joins (m : Matching) (i j : Nat) : Prop := i < j ∧ m.table[i]? = some j

instance (m : Matching) (i j : Nat) : Decidable (m.Joins i j) :=
  inferInstanceAs (Decidable (i < j ∧ m.table[i]? = some j))

theorem exact_ofOpcodes (ops : List Opcode) :
    Pass.Exact ops ops.length ((Pass.start ops.length).run 0 ops) :=
  Pass.run_keeps (P := Pass.Exact ops) (Pass.exact_start ops) fun hx h => h.step hx

theorem apart_ofOpcodes (ops : List Opcode) : Pass.Apart ((Pass.start ops.length).run 0 ops) :=
  (Pass.run_keeps (P := fun i m => Pass.Sound ops i m ∧ Pass.Apart m)
    ⟨Pass.sound_start ops, Pass.apart_start ops⟩
    fun hx h => ⟨h.1.step hx, h.2.step h.1 hx⟩).2

/-- **Two indices are partners exactly if the one belongs to the other.** -/
theorem joins_iff {ops : List Opcode} {i j : Nat} :
    (ofOpcodes ops).Joins i j ↔ Opcode.Belongs ops i j := by
  have hexact := exact_ofOpcodes ops
  constructor
  · rintro ⟨hlt, hj⟩
    exact ((hexact.pairs hlt).1 hj).1
  · intro h
    exact ⟨h.lt, (hexact.pairs h.lt).2 ⟨h, h.lt_length⟩⟩

/-- Partners are a pair of brackets or of parentheses. -/
theorem Joins.operators {ops : List Opcode} {i j : Nat} (h : (ofOpcodes ops).Joins i j) :
    (Opcode.operatorAt? ops i = some .loopOpen ∧ Opcode.operatorAt? ops j = some .loopClose)
      ∨ (Opcode.operatorAt? ops i = some .bodyOpen
        ∧ Opcode.operatorAt? ops j = some .bodyClose) := by
  obtain ⟨-, -, x, y, hx, hy, hcloser⟩ := (linked_ofOpcodes ops).pair h.1 h.2
  rw [Opcode.operatorAt?_eq hx, Opcode.operatorAt?_eq hy]
  generalize x.operator = o at hcloser ⊢
  generalize y.operator = o' at hcloser ⊢
  cases o <;> cases hcloser
  · exact .inl ⟨rfl, rfl⟩
  · exact .inr ⟨rfl, rfl⟩

/-- **No two pairs cross.** -/
theorem Joins.apart {ops : List Opcode} {a b c d : Nat} (h : (ofOpcodes ops).Joins a b)
    (h' : (ofOpcodes ops).Joins c d) (hac : a < c) : b < c ∨ d < b :=
  (apart_ofOpcodes ops).apart h.1 h.2 h'.1 h'.2 hac

/-- **An entry that is not 0 is a partner's.** -/
theorem joins_of_entry {ops : List Opcode} {k e : Nat} (h : (ofOpcodes ops).table[k]? = some e)
    (hpos : 0 < e) : (ofOpcodes ops).Joins k e ∨ (ofOpcodes ops).Joins e k := by
  rcases Nat.lt_or_ge k e with hlt | hge
  · exact .inl ⟨hlt, h⟩
  · exact .inr ((apart_ofOpcodes ops).back h hpos hge)

/-- **The partner table of any stream is a partial matching without crossings.**
It has one entry for each opcode, 0 or the index of the partner.  Partners name
each other and are a `[` and a later `]` or a `(` and a later `)`; an entry that
is not 0 and names an earlier index is named in turn.  Of two pairs the later
one lies behind the other or inside it, so a loop with one end in the body of a
function has both there.  The count is that of the `(`.  Which pairs these are
does not depend on how the table is made: they are the closers and what they
belong to. -/
theorem partners_never_cross (ops : List Opcode) :
    (ofOpcodes ops).table.size = ops.length
      ∧ (∀ k e, (ofOpcodes ops).table[k]? = some e →
          e = 0 ∨ e < ops.length ∧ ((ofOpcodes ops).Joins k e ∨ (ofOpcodes ops).Joins e k))
      ∧ (∀ i j, i < j → (ofOpcodes ops).table[i]? = some j → (ofOpcodes ops).table[j]? = some i
          ∧ ((Opcode.operatorAt? ops i = some .loopOpen
              ∧ Opcode.operatorAt? ops j = some .loopClose)
            ∨ (Opcode.operatorAt? ops i = some .bodyOpen
              ∧ Opcode.operatorAt? ops j = some .bodyClose)))
      ∧ (∀ i j, 0 < i → i < j → (ofOpcodes ops).table[j]? = some i →
          (ofOpcodes ops).table[i]? = some j)
      ∧ (∀ a b c d, (ofOpcodes ops).Joins a b → (ofOpcodes ops).Joins c d → a < c →
          b < c ∨ d < b)
      ∧ (∀ a b c d, (ofOpcodes ops).Joins a b → Opcode.operatorAt? ops a = some .loopOpen →
          (ofOpcodes ops).Joins c d → Opcode.operatorAt? ops c = some .bodyOpen →
          (c < a ∧ a < d) ∨ (c < b ∧ b < d) → (c < a ∧ a < d) ∧ (c < b ∧ b < d))
      ∧ (ofOpcodes ops).functions = ops.countP (·.operator == .bodyOpen)
      ∧ (∀ i j, (ofOpcodes ops).Joins i j ↔ Opcode.Belongs ops i j) := by
  have hlinked := linked_ofOpcodes ops
  refine ⟨hlinked.size, ?_, ?_, ?_, ?_, ?_, functions_ofOpcodes ops, fun i j => joins_iff⟩
  · intro k e he
    rcases Nat.eq_zero_or_pos e with h0 | hpos
    · exact .inl h0
    · exact .inr ⟨(hlinked.entry he).resolve_left (Nat.ne_of_gt hpos), joins_of_entry he hpos⟩
  · intro i j hij hj
    exact ⟨(hlinked.pair hij hj).2.1, Joins.operators ⟨hij, hj⟩⟩
  · intro i j hpos hij hi
    exact ((apart_ofOpcodes ops).back hi hpos (Nat.le_of_lt hij)).2
  · intro a b c d h h' hac
    exact h.apart h' hac
  · intro a b c d h hloop h' hbody hend
    have hab := h.1
    have hcd := h'.1
    have hne : a ≠ c := by
      rintro rfl
      rw [hloop] at hbody
      cases hbody
    -- whichever begins first, the pairs are apart
    rcases Nat.lt_or_gt_of_ne hne with hac | hca
    · have := h.apart h' hac
      omega
    · have := h'.apart h hca
      omega

/-- A loop of the root that is open across a function, a `(` that another one
follows, and a `]` in a body and one in the root that close nothing. -/
theorem partners_never_cross_unclosed :
    ∃ ops : List Opcode, Opcode.sourceText ops = "[([(])]]"
      ∧ (ofOpcodes ops).table = #[6, 0, 0, 5, 0, 3, 0, 0] ∧ (ofOpcodes ops).functions = 2
      ∧ Opcode.Belongs ops 0 6 ∧ Opcode.Belongs ops 3 5 ∧ ¬ Opcode.Belongs ops 2 4 := by
  obtain ⟨-, -, -, -, -, -, -, hjoins⟩ := partners_never_cross
    ([.loopOpen, .bodyOpen, .loopOpen, .bodyOpen, .loopClose, .bodyClose, .loopClose,
      .loopClose].map .one)
  refine ⟨_, by decide, by decide, by decide, (hjoins 0 6).1 (by decide),
    (hjoins 3 5).1 (by decide), fun h => absurd ((hjoins 2 4).2 h) (by decide)⟩

end Matching

end TapeMachine
