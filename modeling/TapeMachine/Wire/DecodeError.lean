/-
  TapeMachine.Wire.DecodeError
  ────────────────────────────
  Why a sequence of bytes is not a value of the byte format.
-/

namespace TapeMachine.Wire

/-- The causes for which decoding stops. -/
inductive DecodeError where
  /-- The bytes end inside the value. -/
  | unexpectedEnd
  /-- A number has more bytes or bits than its width allows. -/
  | badVarint
  /-- A character's bytes are too many, empty or not UTF-8. -/
  | badChar
  /-- A text's bytes are not UTF-8. -/
  | badUtf8
  /-- An option starts with a byte other than 0 and 1. -/
  | badOption
  /-- The value is decoded but is not one that could have been encoded. -/
  | badEncoding
  /-- An index or a duration outside its type. -/
  | outOfRange
  deriving Repr, DecidableEq

/-- The wording of a cause. -/
def DecodeError.message : DecodeError → String
  | unexpectedEnd => "Hit the end of buffer, expected more data"
  | badVarint =>
    "Found a varint that didn't terminate. Is the usize too big for this platform?"
  | badChar => "Found an invalid unicode char"
  | badUtf8 => "Tried to parse invalid utf-8"
  | badOption => "Found an Option discriminant that wasn't 0 or 1"
  | badEncoding => "The original data was not well encoded"
  | outOfRange => "Serde Deserialization Error"

end TapeMachine.Wire
