/-
  TapeMachine.Proofs.Layout
  ─────────────────────────
  **WHERE DEFINITIONS STAND.**

  In a script that passes the check a definition stands on the top level:
  not in the body of a function (`Program.Nested`), and not in a loop
  either.  Its body is not empty, and a program counts its definitions.
  `Program.Layout` collects this for both granularities: the plain program
  has it from the tree, the packed one from the plain one.

  Hence a list of different `(` of the program is not longer than the
  program's count (`Layout.length_le`).
-/
import TapeMachine.Proofs.Nesting

namespace TapeMachine

/-! ## §1. The pass counts definitions. -/

namespace Matching

/-- Reading an operator counts it if it is a `(`. -/
theorem Pass.functions_step (m : Pass) (o : Operator) (i : Nat) :
    (m.step o i).functions = m.functions + if o == .bodyOpen then 1 else 0 := by
  obtain ⟨table, functions, loops, region⟩ := m
  cases o with
  | right | left | inc | dec | put | get | call | bodyOpen => rfl
  | loopOpen => cases region <;> rfl
  | loopClose =>
    cases region with
    | none => cases loops <;> rfl
    | some r =>
      obtain ⟨start, inner⟩ := r
      cases inner <;> rfl
  | bodyClose => cases region <;> rfl

theorem Pass.functions_run (ops : List Opcode) : ∀ (m : Pass) (i : Nat),
    (m.run i ops).functions = m.functions + ops.countP (·.operator == .bodyOpen) := by
  induction ops with
  | nil =>
    intro m i
    rfl
  | cons op rest ih =>
    intro m i
    rw [run, ih, functions_step, List.countP_cons]
    omega

/-- **The count of a stream is the number of its `(`.** -/
theorem functions_ofOpcodes (ops : List Opcode) :
    (ofOpcodes ops).functions = ops.countP (·.operator == .bodyOpen) := by
  show ((Pass.start ops.length).run 0 ops).functions = _
  rw [Pass.functions_run]
  exact Nat.zero_add _

end Matching

/-- A falling list of indices, each of an element of a kind, is not longer than
the elements of that kind are many. -/
theorem length_le_countP {α : Type} {q : α → Bool} {l : List α} : ∀ {is : List Nat} {n : Nat},
    is.Pairwise (· > ·) → (∀ i ∈ is, i < n ∧ ∃ x, l[i]? = some x ∧ q x) →
      is.length ≤ (l.take n).countP q := by
  intro is
  induction is with
  | nil =>
    intro n _ _
    exact Nat.zero_le _
  | cons i rest ih =>
    intro n hsorted hall
    obtain ⟨hlast, hrest⟩ := List.pairwise_cons.1 hsorted
    obtain ⟨hi, x, hx, hq⟩ := hall i List.mem_cons_self
    -- the rest are before `i`, and `i` is one more
    have hbefore : rest.length ≤ (l.take i).countP q :=
      ih hrest fun j hj => ⟨hlast j hj, (hall j (List.mem_cons_of_mem i hj)).2⟩
    have hsplit : (l.take (i + 1)).countP q = (l.take i).countP q + 1 := by
      rw [List.take_add_one, hx, List.countP_append, Option.toList_some, List.countP_singleton,
        if_pos hq]
    have hmono : (l.take (i + 1)).countP q ≤ (l.take n).countP q :=
      List.Sublist.countP_le (List.take_sublist_take_left hi)
    rw [List.length_cons]
    omega

/-! ## §2. The layout of a program. -/

/-- A nested program whose definitions are not in loops, with bodies that are
not empty and a count that is right. -/
structure Program.Layout (p : Program) : Prop extends p.Nested where
  filled : ∀ {body : Span}, p.IsBody body → body.start < body.stop
  loops : ∀ {i j k : Nat} {x y : Opcode}, p.opcodes[i]? = some x → x.operator = .loopOpen →
    p.Pair i j → i < k → k < j → p.opcodes[k]? = some y → y.operator ≠ .bodyOpen
  count : p.functionCount = p.opcodes.toList.countP (·.operator == .bodyOpen)

theorem Block.length_pos {b : Block} (h : b ≠ .done) : 0 < b.length := by
  cases b with
  | done => exact absurd rfl h
  | simple o next =>
    rw [length_simple]
    omega
  | loop body next =>
    rw [length_loop]
    omega
  | define body next =>
    rw [length_define]
    omega

namespace Program

theorem count_ofTokens (g : Granularity) (n : Nat) (ts : List Token) :
    (ofTokens g n ts).functionCount
      = (ofTokens g n ts).opcodes.toList.countP (·.operator == .bodyOpen) :=
  Matching.functions_ofOpcodes _

/-- **A tree compiled plain has the layout.** -/
theorem layout_plain {b : Block} (hb : b.IsItems) {ts : List Token}
    (h : b.operators = ts.map (·.operator)) (n : Nat) : (ofTokens .plain n ts).Layout where
  toNested := nested_plain hb h n
  filled := by
    intro span ⟨d, x, hstart, hx, ho, hpair⟩
    obtain ⟨body, -, hne, -, hstop⟩ := bracket_plain hb h n hx (by rw [ho]; rfl) hpair
    have hpos := Block.length_pos (hne ho)
    omega
  loops := by
    intro i j k x y hx ho hpair hik hkj hy
    obtain ⟨body, hbody, -, hat, hj⟩ := bracket_plain hb h n hx (by rw [ho]; rfl) hpair
    exact (hat.encloses hbody hik (hj ▸ hkj) hy).1
  count := count_ofTokens .plain n ts

/-- **A program has the layout if its plain form does.** -/
theorem Unpacks.layout {p q : Program} {u : Nat → Nat} (h : p.Unpacks q u) (hp : p.Nested)
    (hcount : p.functionCount = p.opcodes.toList.countP (·.operator == .bodyOpen))
    (hq : q.Layout) : p.Layout where
  toNested := hp
  filled := by
    intro body hbody
    have hlt : u body.start < u body.stop := hq.filled (h.isBody hp.toCoherent hbody)
    obtain ⟨d, -, hstart, -, -, hpair⟩ := hbody
    have hstop := hpair.lt_size hp.toCoherent
    have hdlt := hpair.1
    exact (h.lt_iff (by omega) (Nat.le_of_lt hstop)).1 hlt
  loops := by
    intro i j k x y hx ho hpair hik hkj hy
    have hj := hpair.lt_size hp.toCoherent
    show (Opcode.one y.operator).operator ≠ .bodyOpen
    exact hq.loops (h.opcode hx (h.count_pos hx)) ho (h.pair_place hp.toCoherent hpair)
      (h.lt hik (Nat.le_of_lt (Nat.lt_trans hkj hj))) (h.lt hkj (Nat.le_of_lt hj))
      (h.opcode hy (h.count_pos hy))
  count := hcount

/-- **A tree compiled in either granularity has the layout.** -/
theorem layout_ofTokens {b : Block} (hb : b.IsItems) {ts : List Token}
    (h : b.operators = ts.map (·.operator)) (g : Granularity) (n : Nat) :
    (ofTokens g n ts).Layout :=
  (unpacks_plain g n ts).layout (nested_ofTokens hb h g n) (count_ofTokens g n ts)
    (layout_plain hb h n)

/-- Different `(` of a program, listed from the last to the first, are not more
than it counts. -/
theorem Layout.length_le {p : Program} (hp : p.Layout) {is : List Nat}
    (hsorted : is.Pairwise (· > ·))
    (hall : ∀ i ∈ is, ∃ x : Opcode, p.opcodes[i]? = some x ∧ x.operator = .bodyOpen) :
    is.length ≤ p.functionCount := by
  have hle := length_le_countP (q := (·.operator == .bodyOpen)) (l := p.opcodes.toList)
    (n := p.size) hsorted (by
      intro i hi
      obtain ⟨x, hx, ho⟩ := hall i hi
      refine ⟨(Array.getElem?_eq_some_iff.1 hx).1, x, ?_, by rw [ho]; rfl⟩
      rw [Array.getElem?_toList]
      exact hx)
  rw [hp.count]
  exact Nat.le_trans hle (List.take_sublist _ _).countP_le

/-- The partner of a bracket of a loop is one, and its partner is the first. -/
theorem Balanced.loop_partner {p : Program} (hp : p.Balanced) {i j : Nat} {x : Opcode}
    (hx : p.opcodes[i]? = some x) (hj : p.partners[i]? = some j)
    (ho : x.operator = .loopOpen ∨ x.operator = .loopClose) :
    ∃ y : Opcode, p.opcodes[j]? = some y ∧ p.partners[j]? = some i
      ∧ ((x.operator = .loopOpen ∧ i < j ∧ y.operator = .loopClose)
        ∨ (x.operator = .loopClose ∧ j < i ∧ y.operator = .loopOpen)) := by
  rcases ho with ho | ho
  · obtain ⟨j', hpair⟩ := hp.opened hx (by rw [ho]; rfl)
    rw [hpair.2.1] at hj
    cases hj
    obtain ⟨hback, x', y, hx', hy, hcloser⟩ := hp.pair hpair.1 hpair.2.1
    rw [hx] at hx'
    cases hx'
    rw [ho] at hcloser
    exact ⟨y, hy, hback, .inl ⟨ho, hpair.1, (Option.some.inj hcloser).symm⟩⟩
  · obtain ⟨j', hpair⟩ := hp.closed hx (by rw [ho]; rfl)
    rw [hpair.2.2] at hj
    cases hj
    obtain ⟨-, y, x', hy, hx', hcloser⟩ := hp.pair hpair.1 hpair.2.1
    rw [hx] at hx'
    cases hx'
    have hopen : y.operator = .loopOpen := by
      rw [ho] at hcloser
      revert hcloser
      cases y.operator <;> intro hcloser <;> cases hcloser
      rfl
    exact ⟨y, hy, hpair.2.1, .inr ⟨ho, hpair.1, hopen⟩⟩

/-- The partner of a `)` is a `(`, and what stands between them is a body. -/
theorem Balanced.isBody_of_close {p : Program} (hp : p.Balanced) {j : Nat} {y : Opcode}
    (hy : p.opcodes[j]? = some y) (ho : y.operator = .bodyClose) :
    ∃ d, d < j ∧ p.IsBody ⟨d + 1, j⟩ := by
  obtain ⟨d, hpair⟩ := hp.closed hy (by rw [ho]; rfl)
  obtain ⟨-, x, y', hx, hy', hcloser⟩ := hp.pair hpair.1 hpair.2.1
  rw [hy] at hy'
  cases hy'
  have hopen : x.operator = .bodyOpen := by
    rw [ho] at hcloser
    revert hcloser
    cases x.operator <;> intro hcloser <;> cases hcloser
    rfl
  exact ⟨d, hpair.1, d, x, rfl, hx, hopen, hpair⟩

end Program

end TapeMachine
