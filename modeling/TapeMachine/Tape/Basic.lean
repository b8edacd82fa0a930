/-
  TapeMachine.Tape.Basic
  ──────────────────────
  **THE TAPE.**

  A row of cells and a pointer to the current one.  The counted operations
  make as many of the steps asked for as they can and say how many that
  was: at the last cell, at the first, at a checked cell's maximum or at
  zero they stop.  A wrapping cell never stops.
-/
import TapeMachine.Counter
import TapeMachine.Error
import TapeMachine.Tape.CellMode

namespace TapeMachine

/-- Cells, the index of the current cell, and the mode of all cells. -/
structure Tape where
  cells : Array Nat
  pointer : Nat
  mode : CellMode
  deriving Repr, DecidableEq

namespace Tape

/-! ## §1. Making and reading a tape. -/

/-- A size a tape may have. -/
def AllowedSize (size : Nat) : Prop := minTapeSize ≤ size ∧ size ≤ maxTapeSize

instance (size : Nat) : Decidable (AllowedSize size) :=
  inferInstanceAs (Decidable (_ ∧ _))

/-- `size` zero cells. -/
def blank (size : Nat) (mode : CellMode) : Tape := ⟨Array.replicate size 0, 0, mode⟩

/-- A blank tape of an allowed size. -/
def create (size : Nat) (mode : CellMode) : Except Error Tape :=
  if AllowedSize size then .ok (blank size mode) else .error (.tapeSize size)

/-- The size of a tape when none is asked for. -/
def standardSize : Nat := 128

/-- The tape when none is asked for. -/
def standard : Tape := blank standardSize default

/-- The number of cells. -/
def size (t : Tape) : Nat := t.cells.size

/-- The value of the current cell. -/
def current (t : Tape) : Nat := t.cells.getD t.pointer 0

/-- What `create` and every operation guarantee: an allowed size, the
pointer on a cell, and no cell above the mode's maximum. -/
structure WellFormed (t : Tape) : Prop where
  size_allowed : AllowedSize t.size
  pointer_lt : t.pointer < t.size
  cell_le : ∀ c ∈ t.cells, c ≤ t.mode.max

/-- A blank tape of an allowed size is well-formed. -/
theorem wellFormed_blank {size : Nat} (mode : CellMode) (h : AllowedSize size) :
    (blank size mode).WellFormed where
  size_allowed := by simpa [blank, Tape.size] using h
  pointer_lt := by
    have h32 : 32 ≤ size := h.1
    simp only [blank, Tape.size, Array.size_replicate]
    omega
  cell_le := by
    intro c hc
    have h0 : c = 0 := by
      simp only [blank, Array.mem_replicate] at hc
      exact hc.2
    simp [h0]

/-! ## §2. Counted operations. -/

/-- The tape after a counted operation, and how many steps were made. -/
structure Stride where
  tape : Tape
  made : Nat
  deriving Repr, DecidableEq

/-- The count of operations after the steps that were made. -/
def Stride.credit? (s : Stride) (operations : Nat) : Option Nat := Counter.add? operations s.made

/-- Sets the current cell. -/
def write (t : Tape) (value : Nat) : Tape :=
  { t with cells := t.cells.setIfInBounds t.pointer value }

/-- Up to `n` cells to the right. -/
def forward (t : Tape) (n : Nat) : Stride :=
  let made := min n (t.size - 1 - t.pointer)
  ⟨{ t with pointer := t.pointer + made }, made⟩

/-- Up to `n` cells to the left. -/
def backward (t : Tape) (n : Nat) : Stride :=
  let made := min n t.pointer
  ⟨{ t with pointer := t.pointer - made }, made⟩

/-- Adds up to `n` to the current cell. -/
def increase (t : Tape) (n : Nat) : Stride :=
  let value := t.current
  if t.mode.wraps then ⟨t.write ((value + n) % t.mode.modulus), n⟩
  else
    let made := min n (t.mode.max - value)
    ⟨t.write (value + made), made⟩

/-- Subtracts up to `n` from the current cell. -/
def decrease (t : Tape) (n : Nat) : Stride :=
  let value := t.current
  if t.mode.wraps then
    let modulus := t.mode.modulus
    ⟨t.write ((value + modulus - n % modulus) % modulus), n⟩
  else
    let made := min n value
    ⟨t.write (value - made), made⟩

/-! ## §3. Single operations. -/

/-- Puts a character's code into the current cell.  A wrapping cell keeps
the low bits; a checked cell refuses a code above its maximum. -/
def store? (t : Tape) (c : Char) : Option Tape :=
  if c.toNat ≤ t.mode.max then some (t.write c.toNat)
  else if t.mode.wraps then some (t.write (c.toNat % t.mode.modulus))
  else none

/-- Sets the current cell to zero. -/
def clear (t : Tape) : Tape := t.write 0

end Tape

end TapeMachine
