/-
  TapeMachine.Proofs.Tape
  ───────────────────────
  **COUNTED OPERATIONS, ONE STEP AT A TIME.**

  The four counted operations have the same shape: the first step is made
  or not; if not, nothing happens at all, and if so, the rest is the same
  operation with a count one less on the tape after that step.  `Stepwise`
  states this shape, `stepwise_of_stride?` that every counted operator has
  it.  Nothing else about the four is used where runs are compared.

  A tape that is well-formed stays so (`WellFormed.write` and what follows
  from it).

  A counted operation comes with a count of operations and an answer
  (`attempt?`).  Both are what single steps in a row give, up to the first
  that is not made (`singly?`).
-/
import TapeMachine.Proofs.Moves

namespace TapeMachine

namespace Tape

/-! ## §1. Writing. -/

section Write

variable (t : Tape) (v : Nat)

@[simp] theorem write_mode : (t.write v).mode = t.mode := rfl

@[simp] theorem write_size : (t.write v).size = t.size := by simp [write, size]

@[simp] theorem write_write (w : Nat) : (t.write v).write w = t.write w := by
  simp [write]

@[simp] theorem write_current : t.write t.current = t := by
  obtain ⟨cells, pointer, mode⟩ := t
  simp only [write, current, Tape.mk.injEq, and_true]
  ext i hi hi'
  · simp
  · rw [Array.getElem_setIfInBounds (by simpa using hi)]
    split
    · next h => subst h; simp [Array.getD_eq_getD_getElem?, hi']
    · rfl

end Write

theorem WellFormed.current_le {t : Tape} (h : t.WellFormed) : t.current ≤ t.mode.max := by
  refine h.cell_le _ ?_
  have hlt : t.pointer < t.cells.size := h.pointer_lt
  simp [current, Array.getD_eq_getD_getElem?, hlt]

theorem WellFormed.current_write {t : Tape} (h : t.WellFormed) (v : Nat) :
    (t.write v).current = v := by
  have hlt : t.pointer < t.cells.size := h.pointer_lt
  simp [current, write, Array.getD_eq_getD_getElem?, hlt]

theorem WellFormed.write {t : Tape} (h : t.WellFormed) {v : Nat} (hv : v ≤ t.mode.max) :
    (t.write v).WellFormed where
  size_allowed := by
    rw [write_size]
    exact h.size_allowed
  pointer_lt := by
    rw [write_size]
    exact h.pointer_lt
  cell_le := by
    intro c hc
    rcases Array.mem_or_eq_of_mem_setIfInBounds hc with hc | rfl
    · exact h.cell_le c hc
    · exact hv

theorem WellFormed.clear {t : Tape} (h : t.WellFormed) : t.clear.WellFormed :=
  h.write (Nat.zero_le _)

theorem WellFormed.store? {t t' : Tape} (h : t.WellFormed) {c : Char}
    (hs : t.store? c = some t') : t'.WellFormed := by
  unfold Tape.store? at hs
  split at hs
  · next hle =>
    cases hs
    exact h.write hle
  · split at hs
    · cases hs
      exact h.write (Nat.lt_succ_iff.1 (Nat.mod_lt _ (Nat.succ_pos _)))
    · cases hs

/-! ## §2. The shape of a counted operation. -/

/-- A counted operation makes its steps one by one and stops at the first
that cannot be made. -/
structure Stepwise (f : Tape → Nat → Stride) : Prop where
  zero : ∀ {t : Tape}, t.WellFormed → f t 0 = ⟨t, 0⟩
  stop : ∀ {t : Tape} (n : Nat), t.WellFormed → (f t 1).made = 0 → f t (n + 1) = ⟨t, 0⟩
  step : ∀ {t : Tape} (n : Nat), t.WellFormed → (f t 1).made ≠ 0 →
    f t (n + 1) = ⟨(f (f t 1).tape n).tape, (f (f t 1).tape n).made + 1⟩
  wellFormed : ∀ {t : Tape} (n : Nat), t.WellFormed → (f t n).tape.WellFormed
  made_le : ∀ (t : Tape) (n : Nat), (f t n).made ≤ n

theorem stepwise_forward : Stepwise forward where
  zero := by
    intro t _
    simp [forward]
  stop := by
    intro t n _ h
    have h0 : t.size - 1 - t.pointer = 0 := by
      simp only [forward] at h
      omega
    simp [forward, h0]
  step := by
    intro t n _ h
    simp only [forward, size] at h ⊢
    have h1 : min 1 (t.cells.size - 1 - t.pointer) = 1 := by omega
    rw [h1]
    simp only [Stride.mk.injEq, Tape.mk.injEq, and_true, true_and]
    omega
  wellFormed := by
    intro t n h
    have hlt := h.pointer_lt
    refine ⟨h.size_allowed, ?_, h.cell_le⟩
    simp only [forward, size] at hlt ⊢
    omega
  made_le := by
    intro t n
    exact Nat.min_le_left _ _

theorem stepwise_backward : Stepwise backward where
  zero := by
    intro t _
    simp [backward]
  stop := by
    intro t n _ h
    have h0 : t.pointer = 0 := by
      simp only [backward] at h
      omega
    obtain ⟨cells, pointer, mode⟩ := t
    subst h0
    simp [backward]
  step := by
    intro t n _ h
    simp only [backward] at h ⊢
    have h1 : min 1 t.pointer = 1 := by omega
    rw [h1]
    simp only [Stride.mk.injEq, Tape.mk.injEq, and_true, true_and]
    omega
  wellFormed := by
    intro t n h
    have hlt := h.pointer_lt
    refine ⟨h.size_allowed, ?_, h.cell_le⟩
    simp only [backward, size] at hlt ⊢
    omega
  made_le := by
    intro t n
    exact Nat.min_le_left _ _

/-- A counted operation on the current cell: wrapping cells make every step,
checked cells as many as `room` says. -/
theorem stepwise_of_cell {f : Tape → Nat → Stride} (wrap : CellMode → Nat → Nat → Nat)
    (checked : Nat → Nat → Nat) (room : CellMode → Nat → Nat)
    (heq : ∀ t n, f t n = if t.mode.wraps then ⟨t.write (wrap t.mode t.current n), n⟩
      else ⟨t.write (checked t.current (min n (room t.mode t.current))),
        min n (room t.mode t.current)⟩)
    (wrap_zero : ∀ mode v, v ≤ mode.max → wrap mode v 0 = v)
    (wrap_succ : ∀ mode v n, v ≤ mode.max → wrap mode v (n + 1) = wrap mode (wrap mode v 1) n)
    (wrap_le : ∀ mode v n, wrap mode v n ≤ mode.max)
    (checked_zero : ∀ v, checked v 0 = v)
    (checked_succ : ∀ v n, checked v (n + 1) = checked (checked v 1) n)
    (checked_le : ∀ mode v n, v ≤ mode.max → n ≤ room mode v → checked v n ≤ mode.max)
    (room_step : ∀ mode v, v ≤ mode.max → room mode v ≠ 0 →
      room mode (checked v 1) = room mode v - 1) :
    Stepwise f where
  zero := by
    intro t h
    rw [heq]
    split
    · rw [wrap_zero _ _ h.current_le, write_current]
    · simp [checked_zero]
  stop := by
    intro t n h h0
    rw [heq] at h0 ⊢
    split at h0
    · cases h0
    · next hw =>
      have hroom : room t.mode t.current = 0 := by
        dsimp only at h0
        omega
      rw [if_neg hw, hroom]
      simp [checked_zero]
  step := by
    intro t n h h1
    have hle := h.current_le
    rw [heq t 1] at h1 ⊢
    rw [heq t (n + 1)]
    split at h1
    · next hw =>
      simp only [if_pos hw, heq _ n, write_mode, h.current_write, write_write]
      rw [wrap_succ _ _ _ hle]
    · next hw =>
      dsimp only at h1
      have hroom : room t.mode t.current ≠ 0 := by omega
      have hone : min 1 (room t.mode t.current) = 1 := by omega
      simp only [if_neg hw, heq _ n, write_mode, hone, h.current_write, write_write,
        room_step _ _ hle hroom]
      have hmin : min (n + 1) (room t.mode t.current)
          = min n (room t.mode t.current - 1) + 1 := by omega
      rw [hmin, checked_succ]
  wellFormed := by
    intro t n h
    rw [heq]
    split
    · exact h.write (wrap_le _ _ _)
    · exact h.write (checked_le _ _ _ h.current_le (Nat.min_le_right _ _))
  made_le := by
    intro t n
    rw [heq]
    split
    · exact Nat.le_refl n
    · exact Nat.min_le_left _ _

theorem stepwise_increase : Stepwise increase := by
  refine stepwise_of_cell (fun mode v n => (v + n) % mode.modulus) (· + ·)
    (fun mode v => mode.max - v) (fun t n => rfl) ?_ ?_ ?_ ?_ ?_ ?_ ?_
  · intro mode v h
    exact Nat.mod_eq_of_lt (Nat.lt_succ_iff.2 h)
  · intro mode v n _
    show (v + (n + 1)) % _ = ((v + 1) % _ + n) % _
    rw [Nat.mod_add_mod, Nat.add_assoc, Nat.add_comm 1 n]
  · intro mode v n
    exact Nat.lt_succ_iff.1 (Nat.mod_lt _ (Nat.succ_pos _))
  · intro v
    rfl
  · intro v n
    show v + (n + 1) = v + 1 + n
    omega
  · intro mode v n hv hn
    show v + n ≤ mode.max
    omega
  · intro mode v hv h
    show mode.max - (v + 1) = mode.max - v - 1
    omega

theorem stepwise_decrease : Stepwise decrease := by
  refine stepwise_of_cell (fun mode v n => (v + mode.modulus - n % mode.modulus) % mode.modulus)
    (· - ·) (fun _ v => v) (fun t n => rfl) ?_ ?_ ?_ ?_ ?_ ?_ ?_
  · intro mode v h
    show (v + mode.modulus - 0 % _) % _ = v
    rw [Nat.zero_mod, Nat.sub_zero, Nat.add_mod_right]
    exact Nat.mod_eq_of_lt (Nat.lt_succ_iff.2 h)
  · intro mode v n h
    -- the modulus is a number once the mode is known
    cases mode <;> simp only [CellMode.modulus, CellMode.max] at h ⊢ <;> omega
  · intro mode v n
    exact Nat.lt_succ_iff.1 (Nat.mod_lt _ (Nat.succ_pos _))
  · intro v
    rfl
  · intro v n
    show v - (n + 1) = v - 1 - n
    omega
  · intro mode v n hv _
    show v - n ≤ mode.max
    omega
  · intro _ v _ _
    rfl

/-- **Every counted operator makes its steps one by one.** -/
theorem stepwise_of_stride? {o : Operator} {f : Tape → Nat → Stride} {fault : ExitCode}
    (h : o.stride? = some (f, fault)) : Stepwise f := by
  cases o <;> cases h
  · exact stepwise_forward
  · exact stepwise_backward
  · exact stepwise_increase
  · exact stepwise_decrease

/-- **No operator breaks a tape.** -/
theorem WellFormed.changes {t t' : Tape} (h : t.WellFormed) (hchanges : t.Changes t') :
    t'.WellFormed := by
  cases hchanges with
  | same => exact h
  | stride hs n => exact (stepwise_of_stride? hs).wellFormed n h
  | store hstore => exact h.store? hstore
  | clear => exact h.clear

/-- Above zero, a step down is made and takes one off the cell. -/
theorem decrease_one {t : Tape} (h : t.WellFormed) (h0 : t.current ≠ 0) :
    t.decrease 1 = ⟨t.write (t.current - 1), 1⟩ := by
  have hle := h.current_le
  have hwrap : (t.current + t.mode.modulus - 1 % t.mode.modulus) % t.mode.modulus
      = t.current - 1 := by
    revert hle
    generalize t.current = v at h0
    cases t.mode <;> simp only [CellMode.modulus, CellMode.max] <;> intro hle <;> omega
  have hmin : min 1 t.current = 1 := by omega
  simp only [decrease]
  rw [hwrap, hmin, ite_self]

/-! ## §3. The count and the answer. -/

/-- What a counted operation leaves behind: the tape, the count of operations,
and whether all steps were made. -/
structure Attempt where
  tape : Tape
  operations : Nat
  completed : Bool
  deriving Repr, DecidableEq

/-- Makes up to `n` steps and counts them; `none` if there is no such count. -/
def attempt? (f : Tape → Nat → Stride) (n : Nat) (t : Tape) (operations : Nat) : Option Attempt :=
  ((f t n).credit? operations).map fun operations =>
    ⟨(f t n).tape, operations, (f t n).made == n⟩

/-- Makes single steps, up to `n` of them, and none after one that is not
made. -/
def singly? (f : Tape → Nat → Stride) : (n : Nat) → Tape → (operations : Nat) → Option Attempt
  | 0, t, operations => some ⟨t, operations, true⟩
  | n + 1, t, operations =>
    (attempt? f 1 t operations).bind fun a =>
      if a.completed then singly? f n a.tape a.operations else some a

section Count

variable {f : Tape → Nat → Stride} {t : Tape} {n operations : Nat}

/-- A count that has room for the steps. -/
theorem attempt?_of_le (h : operations + (f t n).made ≤ Counter.max) :
    attempt? f n t operations
      = some ⟨(f t n).tape, operations + (f t n).made, (f t n).made == n⟩ := by
  unfold attempt? Stride.credit?
  rw [Counter.add?_eq_some_iff.2 ⟨rfl, h⟩]
  rfl

/-- A count that has none. -/
theorem attempt?_of_gt (h : Counter.max < operations + (f t n).made) :
    attempt? f n t operations = none := by
  unfold attempt? Stride.credit? Counter.add?
  rw [if_neg (Nat.not_le.2 h)]
  rfl

/-- A step that is not made changes nothing, whatever the number asked for. -/
theorem Stepwise.attempt?_of_stop (hf : Stepwise f) (ht : t.WellFormed)
    (hops : operations ≤ Counter.max) (h0 : (f t 1).made = 0) (n : Nat) :
    attempt? f (n + 1) t operations = some ⟨t, operations, false⟩ := by
  have hstop : f t (n + 1) = ⟨t, 0⟩ := hf.stop n ht h0
  rw [attempt?_of_le (by rw [hstop]; exact hops), hstop]
  rfl

/-- **Counting at the end is counting step by step**, and so is giving up. -/
theorem Stepwise.attempt?_eq_singly? (hf : Stepwise f) : ∀ {t : Tape} {operations : Nat},
    t.WellFormed → operations ≤ Counter.max →
      attempt? f n t operations = singly? f n t operations := by
  induction n with
  | zero =>
    intro t operations ht hops
    have hzero : f t 0 = ⟨t, 0⟩ := hf.zero ht
    rw [attempt?_of_le (by rw [hzero]; exact hops), hzero]
    rfl
  | succ n ih =>
    intro t operations ht hops
    unfold singly?
    by_cases h0 : (f t 1).made = 0
    · rw [hf.attempt?_of_stop ht hops h0 n, hf.attempt?_of_stop ht hops h0 0]
      rfl
    · -- the first step is made, and the others are made from where it leads
      have hone : (f t 1).made = 1 := by
        have := hf.made_le t 1
        omega
      have hstep := hf.step n ht h0
      have ht' : (f t 1).tape.WellFormed := hf.wellFormed 1 ht
      by_cases hroom : operations + 1 ≤ Counter.max
      · rw [attempt?_of_le (n := 1) (by rw [hone]; exact hroom), hone]
        show _ = singly? f n (f t 1).tape (operations + 1)
        rw [← ih ht' hroom]
        have hsum : operations + (f t (n + 1)).made
            = operations + 1 + (f (f t 1).tape n).made := by
          rw [hstep]
          show operations + ((f (f t 1).tape n).made + 1) = _
          omega
        by_cases hall : operations + (f t (n + 1)).made ≤ Counter.max
        · rw [attempt?_of_le hall, attempt?_of_le (by omega), hsum, hstep]
          simp
        · rw [attempt?_of_gt (by omega), attempt?_of_gt (by omega)]
      · -- there is no count for the first step, so none for all of them
        have hmore : operations + 1 ≤ operations + (f t (n + 1)).made := by
          rw [hstep]
          show operations + 1 ≤ operations + ((f (f t 1).tape n).made + 1)
          omega
        rw [attempt?_of_gt (n := 1) (by omega), attempt?_of_gt (by omega)]
        rfl

/-- The engine carries out a counted opcode as an attempt. -/
theorem stride_of_attempt? {m : Machine} {a : Attempt} (i : Nat) (hf : Stepwise f)
    (h : attempt? f n m.tape m.operations = some a) :
    (m.stride i n f).1.tape = a.tape ∧ (m.stride i n f).1.operations = a.operations
      ∧ (m.stride i n f).2 = a.completed := by
  unfold attempt? at h
  obtain ⟨operations, hcredit, rfl⟩ := Option.map_eq_some_iff.1 h
  obtain ⟨rfl, -⟩ := Counter.add?_eq_some_iff.1 hcredit
  have hle := hf.made_le m.tape n
  rw [Machine.stride_eq]
  by_cases hmade : (f m.tape n).made < n
  · rw [if_pos hmade]
    refine ⟨rfl, rfl, ?_⟩
    simp only [Bool.false_eq, beq_eq_false_iff_ne, ne_eq]
    omega
  · rw [if_neg hmade]
    refine ⟨Machine.goto_tape _ _, Machine.goto_operations _ _, ?_⟩
    simp only [Bool.true_eq, beq_iff_eq]
    omega

end Count

/-- **A counted operation is that many single steps.**  Whatever the mode, the
number of steps and the count before: moving and adding by `n` leaves the same
tape and the same count and gives the same answer as up to `n` operations by
one, of which the first that fails is the last.  One that fails changes
nothing.  The engine carries out its counted opcodes this way. -/
theorem counted_operations_are_single_steps {o : Operator} {f : Tape → Nat → Stride}
    {fault : ExitCode} (hs : o.stride? = some (f, fault)) (t : Tape) (ht : t.WellFormed)
    (n operations : Nat) (hops : operations ≤ Counter.max) :
    attempt? f n t operations = singly? f n t operations
      ∧ (∀ a, attempt? f 1 t operations = some a → a.completed = false →
          a.tape = t ∧ a.operations = operations)
      ∧ ∀ (m : Machine) (i : Nat) (a : Attempt), m.tape = t → m.operations = operations →
          singly? f n t operations = some a →
          (m.stride i n f).1.tape = a.tape ∧ (m.stride i n f).1.operations = a.operations
            ∧ (m.stride i n f).2 = a.completed := by
  have hf := stepwise_of_stride? hs
  have heq := hf.attempt?_eq_singly? (n := n) ht hops
  refine ⟨heq, ?_, ?_⟩
  · intro a ha hfailed
    by_cases h0 : (f t 1).made = 0
    · rw [hf.attempt?_of_stop ht hops h0 0] at ha
      cases ha
      exact ⟨rfl, rfl⟩
    · -- a step that is made does not fail
      have hone : (f t 1).made = 1 := by
        have := hf.made_le t 1
        omega
      unfold attempt? at ha
      obtain ⟨_, -, rfl⟩ := Option.map_eq_some_iff.1 ha
      simp [hone] at hfailed
  · intro m i a htape hoperations ha
    rw [← heq, ← htape, ← hoperations] at ha
    exact stride_of_attempt? i hf ha

/-- Five off a cell of three, of which three are made; and a wrapping cell that
goes around more than once. -/
theorem counted_operations_are_single_steps_halfway :
    singly? decrease 5 ((blank 32 .byteChecked).write 3) 7 = some ⟨blank 32 .byteChecked, 10, false⟩
      ∧ attempt? decrease 5 ((blank 32 .byteChecked).write 3) 7
        = some ⟨blank 32 .byteChecked, 10, false⟩
      ∧ singly? increase 600 (blank 32 .byteWrapping) 0
        = some ⟨(blank 32 .byteWrapping).write 88, 600, true⟩ := by
  have hsize : AllowedSize 32 := by decide
  have hchecked : ((blank 32 .byteChecked).write 3).WellFormed :=
    (wellFormed_blank .byteChecked hsize).write (by decide)
  have hdown := (counted_operations_are_single_steps (o := .dec) rfl _ hchecked 5 7 (by decide)).1
  have hup := (counted_operations_are_single_steps (o := .inc) rfl _
    (wellFormed_blank .byteWrapping hsize) 600 0 (by decide)).1
  have hfive : attempt? decrease 5 ((blank 32 .byteChecked).write 3) 7
      = some ⟨blank 32 .byteChecked, 10, false⟩ := by
    decide +kernel
  refine ⟨?_, hfive, ?_⟩
  · rw [← hdown, hfive]
  · rw [← hup]
    decide +kernel

end Tape

end TapeMachine
