/-
  TapeMachine.Wire.Lossy
  ──────────────────────
  Bytes as text, whatever they are.  Where no character stands, the longest
  beginning of one, or else a single byte, gives way to the replacement
  character.
-/
import TapeMachine.Wire.Sequence

namespace TapeMachine.Wire

/-- The character at the front, and the bytes after it. -/
def firstChar? (bytes : Bytes) : Option (Char × Bytes) :=
  [1, 2, 3, 4].findSome? fun size =>
    match (textOfBytes? (bytes.take size)).map String.toList with
    | some [c] => some (c, bytes.drop size)
    | _ => none

/-- Whether the first `count` bytes would begin a character of `size` bytes. -/
def beginsChar (bytes : Bytes) (count size : Nat) : Bool :=
  count ≤ bytes.length &&
    (textOfBytes? (bytes.take count ++ List.replicate (size - count) 0x80)).isSome

/-- How many bytes at the front give way if no character stands there. -/
def brokenSize (bytes : Bytes) : Nat :=
  if beginsChar bytes 3 4 then 3
  else if beginsChar bytes 2 3 || beginsChar bytes 2 4 then 2
  else 1

/-- The characters of bytes, within `fuel` steps. -/
def lossyChars : (fuel : Nat) → Bytes → List Char
  | 0, _ => []
  | _, [] => []
  | fuel + 1, bytes =>
    match firstChar? bytes with
    | some (c, rest) => c :: lossyChars fuel rest
    | none => '�' :: lossyChars fuel (bytes.drop (brokenSize bytes))

/-- Bytes as text.  Every step uses up at least one byte. -/
def lossyText (bytes : Bytes) : String := String.ofList (lossyChars bytes.length bytes)

end TapeMachine.Wire
