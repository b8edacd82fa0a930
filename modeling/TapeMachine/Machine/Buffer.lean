/-
  TapeMachine.Machine.Buffer
  ──────────────────────────
  What `,` reads and what `.` writes.  Input is a text read front to back;
  output is a text with room for a fixed number of characters.
-/

namespace TapeMachine

/-! ## §1. Input. -/

/-- The whole input, and what of it has not been read. -/
structure Input where
  text : String
  unread : List Char
  deriving Repr, DecidableEq

namespace Input

/-- Input of which nothing has been read. -/
def ofText (text : String) : Input := ⟨text, text.toList⟩

/-- The next character, and the input after it. -/
def read? (i : Input) : Option (Char × Input) :=
  match i.unread with
  | [] => none
  | c :: rest => some (c, { i with unread := rest })

/-- How many characters have not been read. -/
def remaining (i : Input) : Nat := i.unread.length

end Input

/-! ## §2. Output. -/

/-- The characters written, newest first, and how many more there is room
for. -/
structure Output where
  written : List Char
  room : Nat
  deriving Repr, DecidableEq

namespace Output

/-- The limit of an output when none is asked for. -/
def standardLimit : Nat := 1048576

/-- Nothing written, room for `limit` characters. -/
def empty (limit : Nat) : Output := ⟨[], limit⟩

/-- The text written so far. -/
def text (o : Output) : String := String.ofList o.written.reverse

/-- The character a cell's value is written as.  A value that is no Unicode
scalar is written as the replacement character. -/
def glyph (value : Nat) : Char :=
  if value.isValidChar then Char.ofNat value else '�'

/-- Writes a cell's value, if there is room. -/
def write? (o : Output) (value : Nat) : Option Output :=
  match o.room with
  | 0 => none
  | room + 1 => some ⟨glyph value :: o.written, room⟩

end Output

end TapeMachine
