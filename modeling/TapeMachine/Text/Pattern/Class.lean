/-
  TapeMachine.Text.Pattern.Class
  ──────────────────────────────
  **CLASSES IN BRACKETS.**

      [abc]  [a-z]  [^a-z]  [[:alpha:]]  [a-z&&[^aeiou]]  [a--b]  [a~~b]

  A class is a set of members, among them other classes, or two sets with an
  operation between them.  A dash at the start, or before the end, is a
  member, and so is a bracket right after the opening one.

  Reading a class tells how deep it nests: a single member counts for
  itself, several make a level, and so do an operation and the brackets.
-/
import TapeMachine.Text.Pattern.Atom

namespace TapeMachine.Text.Pattern

/-- How deep parts in a row nest: one stands for itself, several make a
level. -/
def rowHeight : List Nat → Nat
  | [] => 0
  | [height] => height
  | heights => heights.foldl max 0 + 1

/-! ## §1. Sets being read. -/

/-- A set that has been begun: how deep each of its members nests, and the
set before the last operation. -/
structure SetDraft where
  members : List Nat := []
  operand : Option Nat := none
  deriving Repr, DecidableEq

namespace SetDraft

/-- Adds a member. -/
def add (s : SetDraft) (height : Nat) : SetDraft := { s with members := height :: s.members }

/-- How deep the set nests. -/
def height (s : SetDraft) : Nat :=
  match s.operand with
  | none => rowHeight s.members
  | some operand => max operand (rowHeight s.members) + 1

/-- Goes on after an operation sign. -/
def operate (s : SetDraft) : SetDraft := { operand := some s.height }

end SetDraft

/-! ## §2. Members. -/

/-- The classes that have a name. -/
def classNames : List String :=
  ["alnum", "alpha", "ascii", "blank", "cntrl", "digit", "graph", "lower", "print", "punct",
    "space", "upper", "word", "xdigit"]

/-- Reads a named class after its `[:`, and whether its complement is meant. -/
def readNamed? (cs : List Char) : Option (Bool × List Char) :=
  let negated := cs.head? = some '^'
  let cs := if negated then cs.tail else cs
  match cs.dropWhile (· ≠ ':') with
  | ':' :: ']' :: rest =>
    if String.ofList (cs.takeWhile (· ≠ ':')) ∈ classNames then some (negated, rest) else none
  | _ => none

/-- Whether a named class is available. -/
def isNamedAvailable (f : Flags) (negated : Bool) : Bool := !f.foldsCase && (f.unicode || !negated)

/-- Reads a character or an escape. -/
def readMember? (f : Flags) : List Char → Option (Atom × List Char)
  | [] => none
  | '\\' :: rest => readEscape? f rest
  | c :: rest => some (.char c false, rest)

/-- The character that comes into sight after a dash.  A comment hides only
its own sign. -/
def lookAhead (f : Flags) (cs : List Char) : Option Char :=
  if f.spaced then
    match cs.dropWhile isBlank with
    | '#' :: rest => (rest.dropWhile isBlank).head?
    | rest => rest.head?
  else cs.head?

/-- Whether two atoms are the ends of a range. -/
def isRange (f : Flags) : Atom → Atom → Bool
  | .char first isByte, .char last isByte' =>
    first ≤ last && Atom.isMember f (.char first isByte) && Atom.isMember f (.char last isByte')
  | _, _ => false

/-- Reads a member or a range; what comes after it is handed back. -/
def readRange? (f : Flags) (cs : List Char) : Option (List Char) :=
  match readMember? f cs with
  | none => none
  | some (first, cs) =>
    let single (rest : List Char) : Option (List Char) :=
      if first.isMember f then some rest else none
    match f.skip cs with
    | [] => none
    | '-' :: rest =>
      if lookAhead f rest = some ']' ∨ lookAhead f rest = some '-' then single ('-' :: rest)
      else
        match readMember? f (f.skip rest) with
        | none => none
        | some (last, rest) => if isRange f first last then some rest else none
    | rest => single rest

/-! ## §3. Classes. -/

/-- Takes the dashes at the start of a class for members. -/
def takeDashes (f : Flags) : (fuel : Nat) → SetDraft → List Char → SetDraft × List Char
  | fuel + 1, s, '-' :: rest => takeDashes f fuel (s.add 0) (f.skip rest)
  | _, s, cs => (s, cs)

/-- Reads the start of a class after its `[`. -/
def readOpening? (f : Flags) (cs : List Char) : Option (SetDraft × List Char) :=
  let cs := f.skip cs
  let negated := cs.head? = some '^'
  let cs := if negated then f.skip cs.tail else cs
  let (s, cs) := takeDashes f cs.length {} cs
  let (s, cs) :=
    match s.members, cs with
    | [], ']' :: rest => (s.add 0, f.skip rest)
    | _, _ => (s, cs)
  if cs.isEmpty || (negated && !f.unicode) || (!s.members.isEmpty && f.foldsCase) then none
  else some (s, cs)

/-- What reading one thing in a class leads to. -/
inductive ClassStep where
  /-- The class goes on; `outer` are the sets around the current one. -/
  | more (s : SetDraft) (outer : List SetDraft) (rest : List Char)
  /-- The class is closed. -/
  | done (height : Nat) (rest : List Char)

/-- Opens a class within another. -/
def openWithin? (f : Flags) (s : SetDraft) (outer : List SetDraft) (cs : List Char) :
    Option ClassStep :=
  (readOpening? f cs).map fun (inner, rest) => .more inner (s :: outer) rest

/-- Reads one thing in a class. -/
def classStep? (f : Flags) (s : SetDraft) (outer : List SetDraft) (cs : List Char) :
    Option ClassStep :=
  match f.skip cs with
  | [] => none
  | '[' :: rest =>
    match rest with
    | ':' :: named =>
      match readNamed? named with
      | none => openWithin? f s outer rest
      | some (negated, rest) =>
        if isNamedAvailable f negated then some (.more (s.add 0) outer rest) else none
    | _ => openWithin? f s outer rest
  | ']' :: rest =>
    match outer with
    | [] => some (.done (s.height + 1) rest)
    | around :: outer => some (.more (around.add (s.height + 1)) outer rest)
  | '&' :: '&' :: rest => some (.more s.operate outer rest)
  | '-' :: '-' :: rest => some (.more s.operate outer rest)
  | '~' :: '~' :: rest => some (.more s.operate outer rest)
  | cs => (readRange? f cs).map fun rest => .more (s.add 0) outer rest

/-- Reads a class to its end, within `fuel` steps. -/
def readClassFrom? (f : Flags) :
    (fuel : Nat) → SetDraft → List SetDraft → List Char → Option (Nat × List Char)
  | 0, _, _, _ => none
  | fuel + 1, s, outer, cs =>
    match classStep? f s outer cs with
    | none => none
    | some (.done height rest) => some (height, rest)
    | some (.more s outer rest) => readClassFrom? f fuel s outer rest

/-- Reads a class after its `[`: how deep it nests, and what comes after it.
Every step reads at least one character. -/
def readClass? (f : Flags) (cs : List Char) : Option (Nat × List Char) :=
  match readOpening? f cs with
  | none => none
  | some (s, rest) => readClassFrom? f (rest.length + 1) s [] rest

end TapeMachine.Text.Pattern
