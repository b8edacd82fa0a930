/-
  TapeMachine.Tape.CellMode
  ─────────────────────────
  How wide a cell is, and what happens at its bounds: a wrapping cell counts
  modulo its range, a checked cell refuses to leave it.
-/

namespace TapeMachine

/-- Cell width and behaviour at the bounds. -/
inductive CellMode where
  /-- 8 bits, wrapping. -/
  | byteWrapping
  /-- 8 bits, checked. -/
  | byteChecked
  /-- 16 bits, wrapping. -/
  | wordWrapping
  /-- 16 bits, checked. -/
  | wordChecked
  deriving Repr, DecidableEq

namespace CellMode

instance : Inhabited CellMode := ⟨byteChecked⟩

/-- Every mode, in the order of its index in the byte format. -/
def all : List CellMode := [.byteWrapping, .byteChecked, .wordWrapping, .wordChecked]

/-- The largest value of a cell. -/
def max : CellMode → Nat
  | byteWrapping | byteChecked => 255
  | wordWrapping | wordChecked => 65535

/-- How many values a cell has. -/
def modulus (mode : CellMode) : Nat := mode.max + 1

/-- Whether arithmetic wraps around. -/
def wraps : CellMode → Bool
  | byteWrapping | wordWrapping => true
  | byteChecked | wordChecked => false

/-- The mode a name stands for; the wrapping modes have a short name too. -/
def ofName? : String → Option CellMode
  | "byte" | "byte-wrap" => some byteWrapping
  | "byte-checked" => some byteChecked
  | "ushort" | "ushort-wrap" => some wordWrapping
  | "ushort-checked" => some wordChecked
  | _ => none

/-- The wording for a name that stands for no mode. -/
def unknownName (name : String) : String :=
  s!"unknown overflow mode '{name}' (expected byte-wrap, byte-checked, ushort-wrap or ushort-checked)"

end CellMode

end TapeMachine
