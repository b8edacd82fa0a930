/-
  TapeMachine.Text.Pattern.Atom
  ─────────────────────────────
  **THE SMALLEST PARTS OF A PATTERN.**

  A pattern is a regular expression.  What it matches is text in UTF-8, and
  the tables of Unicode are not at hand, so some of what can be written is
  not available:

      · while Unicode is on, shorthands such as `\d`, the bounds of words,
        and any character if upper and lower case are to be the same;
      · while it is off, whatever could match a byte that is no whole
        character: bytes beyond ASCII, and the complement of a class.

  The patterns read here are cut from between braces.  They hold no closing
  brace, so nothing that an opening one begins is ever complete.
-/
import TapeMachine.Text.CharClass

namespace TapeMachine.Text.Pattern

/-! ## §1. Flags. -/

/-- The flags in force at a place. -/
structure Flags where
  /-- Blanks and comments are passed over. -/
  spaced : Bool := false
  /-- Upper and lower case are the same. -/
  caseless : Bool := false
  /-- Characters are those of Unicode, and not bytes. -/
  unicode : Bool := true
  deriving Repr, DecidableEq

namespace Flags

/-- Sets the flag of a letter.  The other letters have no bearing on whether
a pattern can be read. -/
def set (f : Flags) (letter : Char) (value : Bool) : Flags :=
  match letter with
  | 'x' => { f with spaced := value }
  | 'i' => { f with caseless := value }
  | 'u' => { f with unicode := value }
  | _ => f

/-- Whether characters would have to be looked up for their other case. -/
def foldsCase (f : Flags) : Bool := f.caseless && f.unicode

end Flags

/-- Passes over blanks and comments; a comment goes to the end of its line. -/
def skipBlanks : (comment : Bool) → List Char → List Char
  | _, [] => []
  | true, c :: cs => skipBlanks (c ≠ '\n') cs
  | false, c :: cs =>
    if isBlank c then skipBlanks false cs
    else if c = '#' then skipBlanks true cs
    else c :: cs

/-- Passes over what the flags say is to be passed over. -/
def Flags.skip (f : Flags) (cs : List Char) : List Char :=
  if f.spaced then skipBlanks false cs else cs

/-! ## §2. Atoms. -/

/-- What a character or an escape stands for. -/
inductive Atom where
  /-- A character; `isByte` if it is given by two hexadecimal digits. -/
  | char (c : Char) (isByte : Bool)
  /-- A shorthand for a class, or for its complement. -/
  | shorthand (negated : Bool)
  /-- The bound of a word, or its absence. -/
  | wordBound
  /-- The start or the end of the text. -/
  | anchor
  deriving Repr, DecidableEq

namespace Atom

/-- Whether an atom is available. -/
def isAvailable (f : Flags) : Atom → Bool
  | char c isByte => !f.foldsCase && (f.unicode || !isByte || c.toNat < 0x80)
  | shorthand negated => !f.unicode && !negated
  | wordBound => !f.unicode
  | anchor => true

/-- Whether an atom is available in a class. -/
def isMember (f : Flags) : Atom → Bool
  | char c _ => if f.unicode then !f.caseless else c.toNat < 0x80
  | shorthand negated => !f.unicode && !negated
  | wordBound => false
  | anchor => false

end Atom

/-! ## §3. Escapes. -/

/-- The value of a hexadecimal digit. -/
def hexValue? (c : Char) : Option Nat :=
  if c.isDigit then some (c.toNat - '0'.toNat)
  else if 'a' ≤ c ∧ c ≤ 'f' then some (c.toNat - 'a'.toNat + 10)
  else if 'A' ≤ c ∧ c ≤ 'F' then some (c.toNat - 'A'.toNat + 10)
  else none

/-- Reads `count` hexadecimal digits after the value of those before. -/
def readHex? (f : Flags) : (count value : Nat) → List Char → Option (Nat × List Char)
  | 0, value, cs => some (value, cs)
  | count + 1, value, cs =>
    match f.skip cs with
    | [] => none
    | c :: rest =>
      match hexValue? c with
      | none => none
      | some digit => readHex? f count (16 * value + digit) rest

/-- Reads a character given by `count` hexadecimal digits. -/
def readCode? (f : Flags) (count : Nat) (cs : List Char) : Option (Atom × List Char) :=
  match readHex? f count 0 cs with
  | none => none
  | some (code, rest) =>
    if code.isValidChar then some (.char (Char.ofNat code) (count = 2), rest) else none

/-- The characters that have a letter of their own. -/
def letterEscapes : List (Char × Char) :=
  [('a', '\x07'), ('f', '\x0c'), ('t', '\t'), ('n', '\n'), ('r', '\r'), ('v', '\x0b')]

/-- Whether a character stands for itself after a backslash. -/
def escapesItself (c : Char) : Bool := c.toNat < 0x80 && !c.isAlphanum && c ≠ '<' && c ≠ '>'

/-- Reads an escape after its backslash. -/
def readEscape? (f : Flags) : List Char → Option (Atom × List Char)
  | [] => none
  | 'x' :: rest => readCode? f 2 rest
  | 'u' :: rest => readCode? f 4 rest
  | 'U' :: rest => readCode? f 8 rest
  | c :: rest =>
    if c ∈ ['d', 's', 'w'] then some (.shorthand false, rest)
    else if c ∈ ['D', 'S', 'W'] then some (.shorthand true, rest)
    else if c ∈ ['b', 'B', '<', '>'] then some (.wordBound, rest)
    else if c ∈ ['A', 'z'] then some (.anchor, rest)
    else if escapesItself c then some (.char c false, rest)
    else (letterEscapes.lookup c).map fun meant => (.char meant false, rest)

end TapeMachine.Text.Pattern
