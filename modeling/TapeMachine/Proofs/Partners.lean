/-
  TapeMachine.Proofs.Partners
  ───────────────────────────
  **THE PARTNER TABLE.**

  For ANY stream, balanced or not (§1, §2): an opener's entry is 0 or the
  index of its partner behind it, and partners name each other.  The
  invariant is carried from operator to operator: the brackets still open
  have entry 0 and lie in order, so a link never touches an older one.

  For the stream of a tree (§3, §4): `Block.At p i b` says that the program
  `p` has the tree `b` from index `i` on, every bracket with the partner the
  tree gives it.  `Block.at_plain` proves it of a script compiled plain.
-/
import TapeMachine.Proofs.Grammar
import TapeMachine.Program.Basic

namespace TapeMachine

theorem getElem?_of_drop {α : Type} {l rest : List α} {i : Nat} {x : α}
    (h : l.drop i = x :: rest) : l[i]? = some x ∧ l.drop (i + 1) = rest := by
  refine ⟨?_, ?_⟩
  · rw [← List.head?_drop, h]
    rfl
  · rw [← List.tail_drop, h]
    rfl

theorem drop_of_append {α : Type} {l xs rest : List α} {i : Nat}
    (h : l.drop i = xs ++ rest) : l.drop (i + xs.length) = rest := by
  rw [← List.drop_drop, h, List.drop_left]

/-- What closes an opener. -/
def Operator.closer? : Operator → Option Operator
  | loopOpen => some loopClose
  | bodyOpen => some bodyClose
  | _ => none

theorem Operator.ne_of_closer? {o o' : Operator} (h : o.closer? = some o') : o'.closer? = none := by
  cases o <;> cases h <;> rfl

namespace Matching

/-! ## §1. Tables in which partners name each other. -/

/-- A table of which the first `i` operators of a stream have been read. -/
structure Linked (ops : List Opcode) (i : Nat) (table : Array Nat) : Prop where
  size : table.size = ops.length
  pair : ∀ {a b : Nat}, a < b → table[a]? = some b → b < i ∧ table[b]? = some a
    ∧ ∃ x y : Opcode, ops[a]? = some x ∧ ops[b]? = some y ∧ x.operator.closer? = some y.operator
  opener : ∀ {a b : Nat} {x : Opcode}, ops[a]? = some x → x.operator.closer?.isSome →
    table[a]? = some b → b = 0 ∨ a < b
  entry : ∀ {a b : Nat}, table[a]? = some b → b = 0 ∨ b < i
  ahead : ∀ {a : Nat}, i ≤ a → a < ops.length → table[a]? = some 0

namespace Linked

variable {ops : List Opcode} {i j : Nat} {table : Array Nat}

theorem start (ops : List Opcode) : Linked ops 0 (Array.replicate ops.length 0) where
  size := Array.size_replicate
  pair := by
    intro a b hab h
    rw [Array.getElem?_replicate] at h
    split at h
    · cases h
      exact absurd hab (Nat.not_lt_zero a)
    · cases h
  opener := by
    intro a b x _ _ h
    rw [Array.getElem?_replicate] at h
    split at h
    · cases h
      exact .inl rfl
    · cases h
  entry := by
    intro a b h
    rw [Array.getElem?_replicate] at h
    split at h
    · cases h
      exact .inl rfl
    · cases h
  ahead := by
    intro a _ ha
    rw [Array.getElem?_replicate, if_pos ha]

/-- An operator that is left alone. -/
theorem skip (h : Linked ops i table) : Linked ops (i + 1) table where
  size := h.size
  pair := by
    intro a b hab hb
    obtain ⟨hlt, hrest⟩ := h.pair hab hb
    exact ⟨Nat.lt_succ_of_lt hlt, hrest⟩
  opener := h.opener
  entry := fun hb => (h.entry hb).imp_right Nat.lt_succ_of_lt
  ahead := fun ha => h.ahead (Nat.le_of_succ_le ha)

/-- The table with `j` and `i` made partners. -/
theorem getElem?_link (h : Linked ops i table) (hj : j < i) (hi : i < ops.length) (a : Nat) :
    ((table.setIfInBounds j i).setIfInBounds i j)[a]? =
      if a = i then some j else if a = j then some i else table[a]? := by
  have hsize := h.size
  simp only [Array.getElem?_setIfInBounds, Array.size_setIfInBounds]
  by_cases hai : i = a
  · subst hai
    simp [hsize, hi]
  · by_cases haj : j = a
    · subst haj
      have hlt : j < table.size := by omega
      simp [hai, Ne.symm hai, hlt]
    · simp [hai, haj, Ne.symm hai, Ne.symm haj]

/-- A closer that meets its opener. -/
theorem link {x y : Opcode} (h : Linked ops i table) (hj : j < i) (h0 : table[j]? = some 0)
    (hy : ops[j]? = some y) (hx : ops[i]? = some x)
    (hp : y.operator.closer? = some x.operator) :
    Linked ops (i + 1) ((table.setIfInBounds j i).setIfInBounds i j) := by
  have hi : i < ops.length := (List.getElem?_eq_some_iff.1 hx).1
  have hget := h.getElem?_link hj hi
  refine ⟨?_, ?_, ?_, ?_, ?_⟩
  · simp [h.size]
  · intro a b hab hb
    rw [hget] at hb
    split at hb
    · cases hb
      omega
    · next hai =>
      split at hb
      · next haj =>
        subst haj
        cases hb
        refine ⟨Nat.lt_succ_self _, ?_, y, x, hy, hx, hp⟩
        rw [hget, if_pos rfl]
      · next haj =>
        obtain ⟨hlt, hback, x', y', hx', hy', hp'⟩ := h.pair hab hb
        -- a partner is a closer, and `j` is not one
        have hbj : b ≠ j := by
          rintro rfl
          rw [hy] at hy'
          cases hy'
          rw [Operator.ne_of_closer? hp'] at hp
          cases hp
        refine ⟨Nat.lt_succ_of_lt hlt, ?_, x', y', hx', hy', hp'⟩
        rw [hget, if_neg (Nat.ne_of_lt hlt), if_neg hbj, hback]
  · intro a b z hz hopen hb
    rw [hget] at hb
    split at hb
    · next hai =>
      subst hai
      rw [hx] at hz
      cases hz
      rw [Operator.ne_of_closer? hp] at hopen
      cases hopen
    · split at hb
      · next haj =>
        cases hb
        exact .inr (haj ▸ hj)
      · exact h.opener hz hopen hb
  · intro a b hb
    rw [hget] at hb
    split at hb
    · cases hb
      exact .inr (Nat.lt_succ_of_lt hj)
    · split at hb
      · cases hb
        exact .inr (Nat.lt_succ_self i)
      · exact (h.entry hb).imp_right Nat.lt_succ_of_lt
  · intro a ha hlen
    rw [hget, if_neg (by omega), if_neg (by omega)]
    exact h.ahead (by omega) hlen

end Linked

/-! ## §2. The pass over any stream. -/

namespace Pass

/-- The brackets that wait for their closer, innermost first. -/
def pending (m : Pass) : List Nat :=
  match m.region with
  | none => m.loops
  | some r => r.loops ++ r.start :: m.loops

/-- The invariant of the pass before the operator at index `i`. -/
structure Sound (ops : List Opcode) (i : Nat) (m : Pass) : Prop where
  linked : Linked ops i m.table
  unlinked : ∀ a ∈ m.pending, a < i ∧ m.table[a]? = some 0
  sorted : m.pending.Pairwise (· > ·)
  root : ∀ a ∈ m.loops, ∃ x : Opcode, ops[a]? = some x ∧ x.operator = .loopOpen
  inner : ∀ r, m.region = some r →
    (∃ x : Opcode, ops[r.start]? = some x ∧ x.operator = .bodyOpen)
      ∧ ∀ a ∈ r.loops, ∃ x : Opcode, ops[a]? = some x ∧ x.operator = .loopOpen

variable {ops : List Opcode} {i : Nat} {m : Pass}

/-- A new opener goes on top of what is pending. -/
theorem sorted_cons (h : Sound ops i m) {as : List Nat} (hsub : as.Sublist m.pending) :
    (i :: as).Pairwise (· > ·) := by
  refine List.pairwise_cons.2 ⟨?_, h.sorted.sublist hsub⟩
  intro a ha
  exact (h.unlinked a (hsub.subset ha)).1

/-- What is pending and lies below a link stays unlinked. -/
theorem unlinked_link (h : Sound ops i m) {j : Nat} {as : List Nat} (hi : i < ops.length)
    (hsub : (j :: as).Sublist m.pending) :
    ∀ a ∈ as, a < i + 1 ∧ ((m.table.setIfInBounds j i).setIfInBounds i j)[a]? = some 0 := by
  intro a ha
  have hj := h.unlinked j (hsub.subset List.mem_cons_self)
  obtain ⟨hlt, h0⟩ := h.unlinked a (hsub.subset (List.mem_cons_of_mem j ha))
  have haj : a < j := (List.pairwise_cons.1 (h.sorted.sublist hsub)).1 a ha
  refine ⟨Nat.lt_succ_of_lt hlt, ?_⟩
  rw [h.linked.getElem?_link hj.1 hi, if_neg (by omega), if_neg (by omega)]
  exact h0

theorem Sound.skip (h : Sound ops i m) : Sound ops (i + 1) m where
  linked := h.linked.skip
  unlinked := fun a ha => ⟨Nat.lt_succ_of_lt (h.unlinked a ha).1, (h.unlinked a ha).2⟩
  sorted := h.sorted
  root := h.root
  inner := h.inner

theorem unlinked_cons (h : Sound ops i m) {as : List Nat} (hi : i < ops.length)
    (hsub : as.Sublist m.pending) : ∀ a ∈ i :: as, a < i + 1 ∧ m.table[a]? = some 0 := by
  intro a ha
  rcases List.mem_cons.1 ha with rfl | ha
  · exact ⟨Nat.lt_succ_self a, h.linked.ahead (Nat.le_refl a) hi⟩
  · obtain ⟨hlt, h0⟩ := h.unlinked a (hsub.subset ha)
    exact ⟨Nat.lt_succ_of_lt hlt, h0⟩

/-- **One operator keeps the invariant.** -/
theorem Sound.step {x : Opcode} (h : Sound ops i m) (hx : ops[i]? = some x) :
    Sound ops (i + 1) (m.step x.operator i) := by
  have hi : i < ops.length := (List.getElem?_eq_some_iff.1 hx).1
  obtain ⟨table, functions, loops, region⟩ := m
  obtain ⟨hlinked, hunlinked, hsorted, hroot, hinner⟩ := id h
  cases ho : x.operator with
  | right | left | inc | dec | put | get | call => exact h.skip
  | loopOpen =>
    have hopen : ∃ y : Opcode, ops[i]? = some y ∧ y.operator = .loopOpen := ⟨x, hx, ho⟩
    cases region with
    | none =>
      refine ⟨hlinked.skip, unlinked_cons h hi (.refl _), sorted_cons h (.refl _), ?_, ?_⟩
      · intro a ha
        rcases List.mem_cons.1 ha with rfl | ha
        · exact hopen
        · exact hroot a ha
      · intro r hr
        cases hr
    | some r =>
      refine ⟨hlinked.skip, unlinked_cons h hi (.refl _), sorted_cons h (.refl _), hroot, ?_⟩
      intro r' hr'
      cases hr'
      refine ⟨(hinner r rfl).1, ?_⟩
      intro a ha
      rcases List.mem_cons.1 ha with rfl | ha
      · exact hopen
      · exact (hinner r rfl).2 a ha
  | loopClose =>
    cases region with
    | none =>
      cases loops with
      | nil => exact h.skip
      | cons j outer =>
        obtain ⟨y, hy, hyo⟩ := hroot j List.mem_cons_self
        have hj := hunlinked j List.mem_cons_self
        refine ⟨hlinked.link hj.1 hj.2 hy hx (by rw [hyo, ho]; rfl),
          unlinked_link h hi (.refl _), hsorted.of_cons, ?_, ?_⟩
        · intro a ha
          exact hroot a (List.mem_cons_of_mem j ha)
        · intro r hr
          cases hr
    | some r =>
      obtain ⟨start, _ | ⟨j, outer⟩⟩ := r
      · exact h.skip
      · obtain ⟨y, hy, hyo⟩ := (hinner _ rfl).2 j List.mem_cons_self
        have hj := hunlinked j List.mem_cons_self
        refine ⟨hlinked.link hj.1 hj.2 hy hx (by rw [hyo, ho]; rfl),
          unlinked_link h hi (.refl _), hsorted.of_cons, hroot, ?_⟩
        intro r' hr'
        cases hr'
        refine ⟨(hinner _ rfl).1, ?_⟩
        intro a ha
        exact (hinner _ rfl).2 a (List.mem_cons_of_mem j ha)
  | bodyOpen =>
    have hsub : loops.Sublist (Pass.pending ⟨table, functions, loops, region⟩) := by
      cases region with
      | none => exact .refl _
      | some r => exact (List.sublist_cons_self r.start loops).trans (List.sublist_append_right _ _)
    refine ⟨hlinked.skip, unlinked_cons h hi hsub, sorted_cons h hsub, hroot, ?_⟩
    intro r hr
    cases hr
    exact ⟨⟨x, hx, ho⟩, by intro a ha; cases ha⟩
  | bodyClose =>
    cases region with
    | none => exact h.skip
    | some r =>
      have hsub : (r.start :: loops).Sublist (r.loops ++ r.start :: loops) :=
        List.sublist_append_right _ _
      obtain ⟨y, hy, hyo⟩ := (hinner r rfl).1
      have hj := hunlinked r.start (hsub.subset List.mem_cons_self)
      refine ⟨hlinked.link hj.1 hj.2 hy hx (by rw [hyo, ho]; rfl),
        unlinked_link h hi hsub, (hsorted.sublist hsub).of_cons, hroot, ?_⟩
      intro r' hr'
      cases hr'

theorem sound_start (ops : List Opcode) : Sound ops 0 (Pass.start ops.length) where
  linked := .start ops
  unlinked := by intro a ha; cases ha
  sorted := List.Pairwise.nil
  root := by intro a ha; cases ha
  inner := by intro r hr; cases hr

/-- **The whole pass**: what holds before the first operator, and is kept by
every one, holds behind the last. -/
theorem run_keeps {P : Nat → Pass → Prop} (hstart : P 0 (start ops.length))
    (hstep : ∀ {i : Nat} {m : Pass} {x : Opcode}, ops[i]? = some x → P i m →
      P (i + 1) (m.step x.operator i)) : P ops.length ((start ops.length).run 0 ops) := by
  have hrun : ∀ (rest : List Opcode) (i : Nat) (m : Pass), ops.drop i = rest → i ≤ ops.length →
      P i m → P ops.length (m.run i rest) := by
    intro rest
    induction rest with
    | nil =>
      intro i m hrest hle h
      obtain rfl : i = ops.length := Nat.le_antisymm hle (List.drop_eq_nil_iff.1 hrest)
      exact h
    | cons op rest ih =>
      intro i m hrest _ h
      obtain ⟨hop, hnext⟩ := getElem?_of_drop hrest
      exact ih (i + 1) _ hnext (List.getElem?_eq_some_iff.1 hop).1 (hstep hop h)
  exact hrun ops 0 _ rfl (Nat.zero_le _) hstart

end Pass

/-- **Partners name each other, in every stream.** -/
theorem linked_ofOpcodes (ops : List Opcode) : Linked ops ops.length (ofOpcodes ops).table :=
  (Pass.run_keeps (P := Pass.Sound ops) (Pass.sound_start ops) fun hx h => h.step hx).linked

end Matching

/-- What holds of the tables of every compiled program. -/
structure Program.Coherent (p : Program) : Prop where
  partners_size : p.partners.size = p.size
  pair : ∀ {a b : Nat}, a < b → p.partners[a]? = some b → p.partners[b]? = some a
    ∧ ∃ x y : Opcode, p.opcodes[a]? = some x ∧ p.opcodes[b]? = some y
      ∧ x.operator.closer? = some y.operator
  opener : ∀ {a b : Nat} {x : Opcode}, p.opcodes[a]? = some x → x.operator.closer?.isSome →
    p.partners[a]? = some b → b = 0 ∨ a < b
  entry : ∀ {a b : Nat}, p.partners[a]? = some b → b = 0 ∨ b < p.size

theorem Program.coherent_ofTokens (g : Granularity) (n : Nat) (ts : List Token) :
    (Program.ofTokens g n ts).Coherent := by
  have h := Matching.linked_ofOpcodes ((Instruction.pack g ts).map (·.opcode))
  refine ⟨?_, ?_, ?_, ?_⟩
  · rw [Program.size]
    simpa [ofTokens] using h.size
  · intro a b hab hb
    obtain ⟨-, hback, x, y, hx, hy, hp⟩ := h.pair hab hb
    exact ⟨hback, x, y, by simpa [ofTokens] using hx, by simpa [ofTokens] using hy, hp⟩
  · intro a b x hx hopen hb
    exact h.opener (by simpa [ofTokens] using hx) hopen hb
  · intro a b hb
    simpa [Program.size, ofTokens] using h.entry hb

/-! ## §3. The pass over the operators of a tree. -/

namespace Block

/-- The number of operators of a tree. -/
def length (b : Block) : Nat := b.operators.length

@[simp] theorem length_done : done.length = 0 := rfl

@[simp] theorem length_simple (o : Operator) (next : Block) :
    (simple o next).length = next.length + 1 := rfl

@[simp] theorem length_loop (body next : Block) :
    (loop body next).length = body.length + next.length + 2 := by
  simp only [length, operators, List.length_cons, List.length_append]
  omega

@[simp] theorem length_define (body next : Block) :
    (define body next).length = body.length + next.length + 2 := by
  simp only [length, operators, List.length_cons, List.length_append]
  omega

/-- The tree's brackets, the first operator having index `i`, are partners
in the table. -/
def Wired (table : Array Nat) : Nat → Block → Prop
  | _, done => True
  | i, simple _ next => next.Wired table (i + 1)
  | i, loop body next =>
    (table[i]? = some (i + 1 + body.length) ∧ table[i + 1 + body.length]? = some i)
      ∧ body.Wired table (i + 1) ∧ next.Wired table (i + 1 + body.length + 1)
  | i, define body next =>
    (table[i]? = some (i + 1 + body.length) ∧ table[i + 1 + body.length]? = some i)
      ∧ body.Wired table (i + 1) ∧ next.Wired table (i + 1 + body.length + 1)

/-- Only the entries of the tree's own operators matter. -/
theorem Wired.congr {table table' : Array Nat} {b : Block} : ∀ {i : Nat},
    (∀ k, i ≤ k → k < i + b.length → table'[k]? = table[k]?) → b.Wired table i →
      b.Wired table' i := by
  induction b with
  | done =>
    intro i _ _
    trivial
  | simple o next ih =>
    intro i h hw
    simp only [length_simple] at h
    exact ih (fun k hk hk' => h k (by omega) (by omega)) hw
  | loop body next ihb ih =>
    intro i h hw
    simp only [length_loop] at h
    obtain ⟨⟨hopen, hclose⟩, hbody, hnext⟩ := hw
    refine ⟨⟨?_, ?_⟩, ?_, ?_⟩
    · rw [h i (by omega) (by omega), hopen]
    · rw [h _ (by omega) (by omega), hclose]
    · exact ihb (fun k hk hk' => h k (by omega) (by omega)) hbody
    · exact ih (fun k hk hk' => h k (by omega) (by omega)) hnext
  | define body next ihb ih =>
    intro i h hw
    simp only [length_define] at h
    obtain ⟨⟨hopen, hclose⟩, hbody, hnext⟩ := hw
    refine ⟨⟨?_, ?_⟩, ?_, ?_⟩
    · rw [h i (by omega) (by omega), hopen]
    · rw [h _ (by omega) (by omega), hclose]
    · exact ihb (fun k hk hk' => h k (by omega) (by omega)) hbody
    · exact ih (fun k hk hk' => h k (by omega) (by omega)) hnext

end Block

namespace Matching.Pass

/-- The open loops of the current region, innermost first. -/
def openLoops (m : Pass) : List Nat :=
  match m.region with
  | none => m.loops
  | some r => r.loops

/-- The pass with these loops open in the current region. -/
def withLoops (m : Pass) (loops : List Nat) : Pass :=
  match m.region with
  | none => { m with loops }
  | some r => { m with region := some { r with loops } }

/-- The pass with another table. -/
def withTable (m : Pass) (table : Array Nat) : Pass := { m with table }

theorem step_simple (m : Pass) {o : Operator} (h : o.isSimple) (i : Nat) : m.step o i = m := by
  cases o with
  | loopOpen | loopClose | bodyOpen | bodyClose => cases h
  | _ => rfl

theorem step_loopOpen (m : Pass) (i : Nat) :
    m.step .loopOpen i = m.withLoops (i :: m.openLoops) := by
  obtain ⟨_, _, _, _ | _⟩ := m <;> rfl

theorem step_loopClose (m : Pass) {j : Nat} {outer : List Nat} (h : m.openLoops = j :: outer)
    (i : Nat) : m.step .loopClose i = (m.link j i).withLoops outer := by
  obtain ⟨table, functions, loops, _ | ⟨start, inner⟩⟩ := m
  · obtain rfl : loops = _ := h
    rfl
  · obtain rfl : inner = _ := h
    rfl

theorem run_append (m : Pass) (xs ys : List Opcode) : ∀ i : Nat,
    m.run i (xs ++ ys) = (m.run i xs).run (i + xs.length) ys := by
  induction xs generalizing m with
  | nil =>
    intro i
    rfl
  | cons x xs ih =>
    intro i
    rw [List.cons_append, run, ih, List.length_cons, run, Nat.add_assoc, Nat.add_comm 1]

/-- What reading the operators of `b` from index `i` does to a table: the
tree is wired, and nothing outside it has changed. -/
structure Wires (b : Block) (i : Nat) (table table' : Array Nat) : Prop where
  size : table'.size = table.size
  outside : ∀ k, k < i ∨ i + b.length ≤ k → table'[k]? = table[k]?
  wired : b.Wired table' i

/-- A loop or a function around a body, and what follows: the two brackets
are linked when the closer is read. -/
theorem wires_bracket {body next : Block} {i : Nat} {table inner outer : Array Nat}
    (hsize : i + 1 + body.length < table.size) (hbody : Wires body (i + 1) table inner)
    (hnext : Wires next (i + 1 + body.length + 1)
      ((inner.setIfInBounds i (i + 1 + body.length)).setIfInBounds (i + 1 + body.length) i) outer) :
    outer.size = table.size
      ∧ (∀ k, k < i ∨ i + (body.length + next.length + 2) ≤ k → outer[k]? = table[k]?)
      ∧ (outer[i]? = some (i + 1 + body.length) ∧ outer[i + 1 + body.length]? = some i)
      ∧ body.Wired outer (i + 1) ∧ next.Wired outer (i + 1 + body.length + 1) := by
  have hinner : inner.size = table.size := hbody.size
  have hget : ∀ k, k < i + 1 + body.length + 1 → outer[k]? =
      if k = i + 1 + body.length then some i else if k = i then some (i + 1 + body.length)
      else inner[k]? := by
    intro k hk
    rw [hnext.outside k (.inl hk), Array.getElem?_setIfInBounds, Array.getElem?_setIfInBounds]
    simp only [Array.size_setIfInBounds]
    split
    · next h =>
      subst h
      rw [if_pos (by omega), if_pos rfl]
    · next h =>
      rw [if_neg (Ne.symm h)]
      split
      · next h' =>
        subst h'
        rw [if_pos (by omega), if_pos rfl]
      · next h' => rw [if_neg (Ne.symm h')]
  refine ⟨?_, ?_, ⟨?_, ?_⟩, ?_, hnext.wired⟩
  · rw [hnext.size]
    simp [hinner]
  · intro k hk
    rcases hk with hk | hk
    · rw [hget k (by omega), if_neg (by omega), if_neg (by omega), hbody.outside k (by omega)]
    · rw [hnext.outside k (by omega), Array.getElem?_setIfInBounds_ne (by omega),
        Array.getElem?_setIfInBounds_ne (by omega), hbody.outside k (by omega)]
  · rw [hget i (by omega), if_neg (by omega), if_pos rfl]
  · rw [hget _ (by omega), if_pos rfl]
  · refine hbody.wired.congr ?_
    intro k hk hk'
    rw [hget k (by omega), if_neg (by omega), if_neg (by omega)]

theorem wires_nil (i : Nat) (table : Array Nat) : Wires .done i table table :=
  ⟨rfl, fun _ _ => rfl, trivial⟩

theorem wires_simple {o : Operator} {next : Block} {i : Nat} {table table' : Array Nat}
    (h : Wires next (i + 1) table table') : Wires (.simple o next) i table table' := by
  refine ⟨h.size, ?_, h.wired⟩
  intro k hk
  rw [Block.length_simple] at hk
  exact h.outside k (by omega)

/-- **A body is wired in any region**, and leaves its loops as they are. -/
theorem run_body {b : Block} (hb : b.IsBody) : ∀ (m : Pass) (i : Nat),
    i + b.length ≤ m.table.size →
      ∃ table, m.run i (b.operators.map .one) = m.withTable table ∧ Wires b i m.table table := by
  induction b with
  | done =>
    intro m i _
    exact ⟨m.table, rfl, wires_nil i m.table⟩
  | simple o next ih =>
    intro m i hsize
    rw [Block.length_simple] at hsize
    obtain ⟨table, hrun, hwires⟩ := ih hb.2 m (i + 1) (by omega)
    refine ⟨table, ?_, wires_simple hwires⟩
    show (m.step o i).run (i + 1) (next.operators.map .one) = _
    rw [step_simple m hb.1, hrun]
  | loop body next ihb ih =>
    intro m i hsize
    rw [Block.length_loop] at hsize
    -- the loop is open while its body is read
    obtain ⟨inner, hinner, hbody⟩ := ihb hb.1 (m.withLoops (i :: m.openLoops)) (i + 1)
      (by obtain ⟨_, _, _, _ | _⟩ := m <;> simp only [withLoops] at hsize ⊢ <;> omega)
    have hbody' : Wires body (i + 1) m.table inner := by
      obtain ⟨_, _, _, _ | _⟩ := m <;> exact hbody
    obtain ⟨outer, houter, hnext⟩ := ih hb.2 (m.withTable
        ((inner.setIfInBounds i (i + 1 + body.length)).setIfInBounds (i + 1 + body.length) i))
      (i + 1 + body.length + 1)
      (by simp only [withTable, Array.size_setIfInBounds, hbody'.size]; omega)
    obtain ⟨h1, h2, h3⟩ := wires_bracket (by omega) hbody' hnext
    refine ⟨outer, ?_, h1, by rw [Block.length_loop]; exact h2, h3⟩
    show (m.step .loopOpen i).run (i + 1)
      ((body.operators ++ .loopClose :: next.operators).map .one) = _
    rw [step_loopOpen, List.map_append, run_append, hinner, List.map_cons, List.length_map, run]
    show (Pass.step _ .loopClose (i + 1 + body.length)).run _ _ = _
    have hopen : ((m.withLoops (i :: m.openLoops)).withTable inner).openLoops
        = i :: m.openLoops := by
      obtain ⟨_, _, _, _ | _⟩ := m <;> rfl
    rw [step_loopClose _ hopen]
    have hclosed : (((m.withLoops (i :: m.openLoops)).withTable inner).link i
        (i + 1 + body.length)).withLoops m.openLoops = m.withTable
          ((inner.setIfInBounds i (i + 1 + body.length)).setIfInBounds
            (i + 1 + body.length) i) := by
      obtain ⟨_, _, _, _ | _⟩ := m <;> rfl
    rw [hclosed]
    show (m.withTable _).run (i + 1 + body.length + 1) _ = _
    rw [houter]
    rfl
  | define _ _ _ _ => exact hb.elim

/-- **Items are wired at the root.** -/
theorem run_items {b : Block} (hb : b.IsItems) : ∀ (m : Pass) (i : Nat), m.region = none →
    i + b.length ≤ m.table.size →
      ∃ table, (m.run i (b.operators.map .one)).table = table ∧ Wires b i m.table table := by
  induction b with
  | done =>
    intro m i _ _
    exact ⟨m.table, rfl, wires_nil i m.table⟩
  | simple o next ih =>
    intro m i hroot hsize
    rw [Block.length_simple] at hsize
    obtain ⟨table, hrun, hwires⟩ := ih hb.2 m (i + 1) hroot (by omega)
    refine ⟨table, ?_, wires_simple hwires⟩
    show ((m.step o i).run (i + 1) (next.operators.map .one)).table = _
    rw [step_simple m hb.1, hrun]
  | loop body next _ ih =>
    intro m i hroot hsize
    rw [Block.length_loop] at hsize
    -- up to the end of the loop this is a body
    obtain ⟨inner, hinner, hloop⟩ := run_body (b := .loop body .done) ⟨hb.1, trivial⟩ m i
      (by rw [Block.length_loop, Block.length_done]; omega)
    have hlen : (Block.loop body .done).length = body.length + 2 := by simp
    obtain ⟨outer, houter, hnext⟩ := ih hb.2 (m.withTable inner) (i + 1 + body.length + 1) hroot
      (by show _ ≤ inner.size; rw [hloop.size]; omega)
    have hsplit : (Block.loop body next).operators
        = (Block.loop body .done).operators ++ next.operators := by
      simp [Block.operators]
    refine ⟨outer, ?_, ?_, ?_, ?_⟩
    · rw [hsplit, List.map_append, run_append, hinner, List.length_map, ← houter]
      have hi : i + (Block.loop body .done).operators.length = i + 1 + body.length + 1 := by
        show i + (Block.loop body .done).length = _
        omega
      rw [hi]
    · rw [hnext.size]
      exact hloop.size
    · intro k hk
      rw [Block.length_loop] at hk
      rw [hnext.outside k (by omega)]
      exact hloop.outside k (by omega)
    · have hbelow : ∀ k, k < i + 1 + body.length + 1 → outer[k]? = inner[k]? :=
        fun k hk => hnext.outside k (.inl hk)
      obtain ⟨⟨hopen, hclose⟩, hbody, -⟩ := hloop.wired
      refine ⟨⟨?_, ?_⟩, ?_, hnext.wired⟩
      · rw [hbelow _ (by omega), hopen]
      · rw [hbelow _ (by omega), hclose]
      · exact hbody.congr fun k _ hk => hbelow k (by omega)
  | define body next _ ih =>
    intro m i hroot hsize
    rw [Block.length_define] at hsize
    obtain ⟨mtable, functions, loops, region⟩ := m
    subst hroot
    dsimp only at hsize
    obtain ⟨inner, hinner, hbody⟩ := run_body hb.1.1
      ⟨mtable, functions + 1, loops, some ⟨i, []⟩⟩ (i + 1) (by dsimp only; omega)
    obtain ⟨outer, houter, hnext⟩ := ih hb.2
      ⟨(inner.setIfInBounds i (i + 1 + body.length)).setIfInBounds (i + 1 + body.length) i,
        functions + 1, loops, none⟩ (i + 1 + body.length + 1) rfl
      (by simp only [Array.size_setIfInBounds, hbody.size]; omega)
    obtain ⟨h1, h2, h3⟩ := wires_bracket (show i + 1 + body.length < mtable.size by omega)
      hbody hnext
    refine ⟨outer, ?_, h1, by rw [Block.length_define]; exact h2, h3⟩
    show (Pass.run ⟨mtable, functions + 1, loops, some ⟨i, []⟩⟩ (i + 1)
      ((body.operators ++ .bodyClose :: next.operators).map .one)).table = _
    rw [List.map_append, run_append, hinner, List.map_cons, List.length_map, ← houter]
    rfl

end Matching.Pass

/-! ## §4. Trees in a program. -/

namespace Block

/-- The tree `b` stands in the program from index `i` on, one opcode for
each operator, its brackets with their partners. -/
def At (p : Program) : Nat → Block → Prop
  | _, done => True
  | i, simple o next => p.opcodes[i]? = some (.one o) ∧ next.At p (i + 1)
  | i, loop body next =>
    (p.opcodes[i]? = some (.one .loopOpen) ∧ p.partners[i]? = some (i + 1 + body.length))
      ∧ (p.opcodes[i + 1 + body.length]? = some (.one .loopClose)
        ∧ p.partners[i + 1 + body.length]? = some i)
      ∧ body.At p (i + 1) ∧ next.At p (i + 1 + body.length + 1)
  | i, define body next =>
    (p.opcodes[i]? = some (.one .bodyOpen) ∧ p.partners[i]? = some (i + 1 + body.length))
      ∧ (p.opcodes[i + 1 + body.length]? = some (.one .bodyClose)
        ∧ p.partners[i + 1 + body.length]? = some i)
      ∧ body.At p (i + 1) ∧ next.At p (i + 1 + body.length + 1)

theorem at_of_wired {p : Program} {b : Block} : ∀ {i : Nat} {rest : List Opcode},
    p.opcodes.toList.drop i = b.operators.map .one ++ rest → b.Wired p.partners i →
      b.At p i := by
  -- two brackets, the body between them and what comes after
  have hbracket : ∀ {body next : Block} {o o' : Operator} {i : Nat} {rest : List Opcode},
      p.opcodes.toList.drop i
        = (o :: (body.operators ++ o' :: next.operators)).map .one ++ rest →
      p.opcodes[i]? = some (.one o) ∧ p.opcodes[i + 1 + body.length]? = some (.one o')
        ∧ (∃ rest', p.opcodes.toList.drop (i + 1) = body.operators.map .one ++ rest')
        ∧ p.opcodes.toList.drop (i + 1 + body.length + 1) = next.operators.map .one ++ rest := by
    intro body next o o' i rest h
    rw [List.map_cons, List.cons_append, List.map_append, List.append_assoc] at h
    obtain ⟨hopen, h⟩ := getElem?_of_drop h
    obtain ⟨hclose, hnext⟩ := getElem?_of_drop (drop_of_append h)
    rw [List.length_map] at hclose hnext
    exact ⟨by simpa using hopen, by simpa [length] using hclose, ⟨_, h⟩, hnext⟩
  induction b with
  | done =>
    intro i rest _ _
    trivial
  | simple o next ih =>
    intro i rest hops hw
    obtain ⟨ho, hnext⟩ := getElem?_of_drop hops
    exact ⟨by simpa using ho, ih hnext hw⟩
  | loop body next ihb ih =>
    intro i rest hops hw
    obtain ⟨⟨hopen, hclose⟩, hbody, hnext⟩ := hw
    obtain ⟨ho, ho', ⟨rest', hops'⟩, hops''⟩ := hbracket hops
    exact ⟨⟨ho, hopen⟩, ⟨ho', hclose⟩, ihb hops' hbody, ih hops'' hnext⟩
  | define body next ihb ih =>
    intro i rest hops hw
    obtain ⟨⟨hopen, hclose⟩, hbody, hnext⟩ := hw
    obtain ⟨ho, ho', ⟨rest', hops'⟩, hops''⟩ := hbracket hops
    exact ⟨⟨ho, hopen⟩, ⟨ho', hclose⟩, ihb hops' hbody, ih hops'' hnext⟩

/-- The code of a tree that stands in a program. -/
theorem At.drop {p : Program} {b : Block} : ∀ {i : Nat}, b.At p i →
    p.opcodes.toList.drop i = b.operators.map .one ++ p.opcodes.toList.drop (i + b.length) := by
  have hone : ∀ {i : Nat} {op : Opcode}, p.opcodes[i]? = some op →
      p.opcodes.toList.drop i = op :: p.opcodes.toList.drop (i + 1) := by
    intro i op h
    obtain ⟨hi, rfl⟩ := Array.getElem?_eq_some_iff.1 h
    exact List.drop_eq_getElem_cons hi
  -- two brackets, the body between them and what comes after
  have hbracket : ∀ {body next : Block} {o o' : Operator} {i : Nat},
      p.opcodes[i]? = some (.one o) → p.opcodes[i + 1 + body.length]? = some (.one o') →
      p.opcodes.toList.drop (i + 1)
        = body.operators.map .one ++ p.opcodes.toList.drop (i + 1 + body.length) →
      p.opcodes.toList.drop (i + 1 + body.length + 1) = next.operators.map .one
        ++ p.opcodes.toList.drop (i + 1 + body.length + 1 + next.length) →
      p.opcodes.toList.drop i = (o :: (body.operators ++ o' :: next.operators)).map .one
        ++ p.opcodes.toList.drop (i + (body.length + next.length + 2)) := by
    intro body next o o' i hopen hclose hbody hnext
    have hend : i + 1 + body.length + 1 + next.length = i + (body.length + next.length + 2) := by
      omega
    rw [hone hopen, hbody, hone hclose, hnext, hend]
    simp
  induction b with
  | done =>
    intro i _
    rfl
  | simple o next ih =>
    intro i h
    rw [hone h.1, ih h.2, length_simple, Nat.add_comm next.length 1, ← Nat.add_assoc]
    rfl
  | loop body next ihb ih =>
    rintro i ⟨⟨hopen, -⟩, ⟨hclose, -⟩, hbody, hnext⟩
    rw [length_loop]
    exact hbracket hopen hclose (ihb hbody) (ih hnext)
  | define body next ihb ih =>
    rintro i ⟨⟨hopen, -⟩, ⟨hclose, -⟩, hbody, hnext⟩
    rw [length_define]
    exact hbracket hopen hclose (ihb hbody) (ih hnext)

end Block

/-- A plain stream has one opcode for each token. -/
theorem Instruction.pack_plain (ts : List Token) :
    pack .plain ts = ts.map fun t => ⟨.one t.operator, t.offset⟩ := by
  have h : ∀ (ts : List Token) (stream : List Instruction),
      ts.foldl (push .plain) stream
        = (ts.map fun t => ⟨.one t.operator, t.offset⟩).reverse ++ stream := by
    intro ts
    induction ts with
    | nil =>
      intro stream
      rfl
    | cons t ts ih =>
      intro stream
      rw [List.foldl_cons, ih]
      simp [push]
  rw [pack, h, List.append_nil, List.reverse_reverse]

/-- **A script compiled plain has its tree in it.** -/
theorem Block.at_plain {b : Block} (hb : b.IsItems) {ts : List Token}
    (h : b.operators = ts.map (·.operator)) (n : Nat) : b.At (Program.ofTokens .plain n ts) 0 := by
  have hops : (Instruction.pack .plain ts).map (·.opcode) = b.operators.map .one := by
    rw [Instruction.pack_plain, h]
    simp
  obtain ⟨table, htable, hwires⟩ := Matching.Pass.run_items hb
    (Matching.Pass.start (b.operators.map Opcode.one).length) 0 rfl
    (by simp [Matching.Pass.start, length])
  have hdrop : (Program.ofTokens .plain n ts).opcodes.toList.drop 0
      = b.operators.map .one ++ [] := by
    simp [Program.ofTokens, hops]
  have hwired : b.Wired (Program.ofTokens .plain n ts).partners 0 := by
    simp only [Program.ofTokens, hops, Matching.ofOpcodes]
    rw [htable]
    exact hwires.wired
  exact at_of_wired hdrop hwired

end TapeMachine
