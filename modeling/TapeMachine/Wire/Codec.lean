/-
  TapeMachine.Wire.Codec
  ──────────────────────
  **THE BYTE FORMAT, PIECE BY PIECE.**

  A codec writes a value as bytes and reads it back from the front of a
  longer sequence.  Records are written field by field with nothing between
  them, so a codec for a record is built from the codecs of its fields:

      pair      one value after the other
      iso       the same bytes for another type
      refine    the same bytes, with a check when they are read

  Each codec also says which values it can hold (`Fits`): numbers are Nat
  here and have a width there.
-/
import TapeMachine.Wire.DecodeError

namespace TapeMachine.Wire

/-- Bytes in the order of a file. -/
abbrev Bytes := List UInt8

/-- A result of reading bytes, or why there is none. -/
abbrev Decoding := Except DecodeError

/-- How values of a type are written and read. -/
structure Codec (α : Type) where
  /-- The values that can be written. -/
  Fits : α → Prop
  encode : α → Bytes
  /-- Reads one value from the front and hands back the bytes after it. -/
  decode : Bytes → Decoding (α × Bytes)

namespace Codec

variable {α β : Type}

/-- One value after the other. -/
def pair (a : Codec α) (b : Codec β) : Codec (α × β) where
  Fits v := a.Fits v.1 ∧ b.Fits v.2
  encode v := a.encode v.1 ++ b.encode v.2
  decode bytes := do
    let (x, rest) ← a.decode bytes
    let (y, rest) ← b.decode rest
    return ((x, y), rest)

/-- The same bytes, and a check of what they stand for. -/
def refine (a : Codec α) (check : α → Decoding β) (back : β → α) : Codec β where
  Fits v := a.Fits (back v) ∧ check (back v) = .ok v
  encode v := a.encode (back v)
  decode bytes := do
    let (x, rest) ← a.decode bytes
    let y ← check x
    return (y, rest)

/-- The same bytes for another type. -/
def iso (a : Codec α) (make : α → β) (back : β → α) : Codec β where
  Fits v := a.Fits (back v) ∧ make (back v) = v
  encode v := a.encode (back v)
  decode bytes := do
    let (x, rest) ← a.decode bytes
    return (make x, rest)

/-- Reads a value and ignores the bytes after it. -/
def read (a : Codec α) (bytes : Bytes) : Decoding α :=
  (a.decode bytes).map (·.1)

end Codec

end TapeMachine.Wire
