/-
  TapeMachine.Wire.Sequence
  ─────────────────────────
  Options, lists, texts and characters.  An option is a byte 0 or a byte 1
  and the value; a list is its length and its items; a text is the length of
  its UTF-8 form and those bytes; a character is a text of which only the
  first character counts.
-/
import TapeMachine.Wire.Number

namespace TapeMachine.Wire

/-! ## §1. Options and lists. -/

/-- Reads `count` items, of which the ones already read are given newest
first. -/
def decodeItems {α : Type} (item : Bytes → Decoding (α × Bytes)) : (count : Nat) → List α → Bytes →
    Decoding (List α × Bytes)
  | 0, read, bytes => .ok (read.reverse, bytes)
  | count + 1, read, bytes => do
    let (x, rest) ← item bytes
    decodeItems item count (x :: read) rest

namespace Codec

variable {α : Type}

/-- A value that may be missing. -/
def option (a : Codec α) : Codec (Option α) where
  Fits
    | none => True
    | some v => a.Fits v
  encode
    | none => [0]
    | some v => 1 :: a.encode v
  decode
    | [] => .error .unexpectedEnd
    | 0 :: rest => .ok (none, rest)
    | 1 :: rest => do
      let (v, rest) ← a.decode rest
      return (some v, rest)
    | _ :: _ => .error .badOption

/-- A list of values. -/
def list (a : Codec α) : Codec (List α) where
  Fits vs := long.Fits vs.length ∧ ∀ v ∈ vs, a.Fits v
  encode vs := long.encode vs.length ++ vs.flatMap a.encode
  decode bytes := do
    let (count, rest) ← long.decode bytes
    decodeItems a.decode count [] rest

/-- An array of values, written as the list of them. -/
def array (a : Codec α) : Codec (Array α) := a.list.iso List.toArray Array.toList

end Codec

/-! ## §2. Texts and characters. -/

/-- Takes `count` bytes off the front. -/
def takeBytes (count : Nat) (bytes : Bytes) : Decoding (Bytes × Bytes) :=
  let (front, rest) := bytes.splitAt count
  if front.length < count then .error .unexpectedEnd else .ok (front, rest)

/-- The text whose UTF-8 form these bytes are. -/
def textOfBytes? (bytes : Bytes) : Option String := String.fromUTF8? ⟨bytes.toArray⟩

/-- The UTF-8 form of a text. -/
def bytesOfText (s : String) : Bytes := s.toUTF8.data.toList

/-- The bytes of a text behind their number. -/
def encodeText (s : String) : Bytes :=
  let bytes := bytesOfText s
  Codec.long.encode bytes.length ++ bytes

namespace Codec

/-- A text. -/
def text : Codec String where
  Fits s := long.Fits (bytesOfText s).length
  encode := encodeText
  decode bytes := do
    let (count, rest) ← long.decode bytes
    let (front, rest) ← takeBytes count rest
    match textOfBytes? front with
    | some s => return (s, rest)
    | none => throw .badUtf8

/-- A character: a text of at most four bytes, of which the first character
counts. -/
def character : Codec Char where
  Fits _ := True
  encode c := encodeText (String.singleton c)
  decode bytes := do
    let (count, rest) ← long.decode bytes
    if 4 < count then throw .badChar
    let (front, rest) ← takeBytes count rest
    match (textOfBytes? front).bind fun s => s.toList.head? with
    | some c => return (c, rest)
    | none => throw .badChar

end Codec

end TapeMachine.Wire
