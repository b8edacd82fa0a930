/-
  TapeMachine.Text.Pattern.Check
  ──────────────────────────────
  **WHICH TEXTS ARE PATTERNS.**

  A pattern is read from left to right with a stack of the groups that are
  open.  Flags set in a group hold up to its end.  A repetition needs
  something to repeat, every group is closed, names of groups are not
  repeated, and nothing nests deeper than `maxHeight`.
-/
import TapeMachine.Text.Pattern.Class

namespace TapeMachine.Text.Pattern

/-! ## §1. Groups being read. -/

/-- How deep a pattern may nest. -/
def maxHeight : Nat := 250

/-- A part of a branch: how deep it nests, and whether it can be repeated. -/
structure Part where
  height : Nat := 0
  repeatable : Bool := true
  deriving Repr, DecidableEq

/-- A group that has been begun: the parts of its last branch, the newest
first, and how deep each branch before nests. -/
structure Group where
  flags : Flags
  parts : List Part := []
  branches : List Nat := []
  deriving Repr, DecidableEq

namespace Group

/-- Adds a part. -/
def add (g : Group) (part : Part) : Group := { g with parts := part :: g.parts }

/-- How deep the last branch nests. -/
def branchHeight (g : Group) : Nat := rowHeight (g.parts.map (·.height))

/-- How deep the group nests. -/
def height (g : Group) : Nat :=
  if g.branches.isEmpty then g.branchHeight else g.branches.foldl max g.branchHeight + 1

/-- Begins another branch. -/
def branch (g : Group) : Group :=
  { g with parts := [], branches := g.branchHeight :: g.branches }

/-- Repeats the last part. -/
def repeat? (g : Group) : Option Group :=
  match g.parts with
  | [] => none
  | part :: parts =>
    if part.repeatable then some { g with parts := { height := part.height + 1 } :: parts }
    else none

end Group

/-- What has been read: the current group, those around it, and the names
that are taken. -/
structure Scan where
  group : Group
  outer : List Group := []
  names : List String := []
  deriving Repr, DecidableEq

/-- Adds a part to the current group. -/
def Scan.add (s : Scan) (part : Part) : Scan := { s with group := s.group.add part }

/-- Opens a group within the current one. -/
def Scan.enter (s : Scan) (flags : Flags) : Scan :=
  { s with group := { flags }, outer := s.group :: s.outer }

/-! ## §2. The start of a group. -/

/-- Whether a character can stand in the name of a group. -/
def isNameChar (first : Bool) (c : Char) : Bool :=
  if first then c = '_' || isLetter c
  else c ∈ ['_', '.', '[', ']'] || isAlphanumeric c

/-- Whether a text is the name of a group. -/
def isName : List Char → Bool
  | [] => false
  | c :: cs => isNameChar true c && cs.all (isNameChar false)

/-- Opens a group after its name's `<`. -/
def openNamed? (s : Scan) (cs : List Char) : Option (Scan × List Char) :=
  let name := cs.takeWhile (· ≠ '>')
  match cs.dropWhile (· ≠ '>') with
  | [] => none
  | _ :: rest =>
    if isName name && String.ofList name ∉ s.names then
      some ({ s.enter s.group.flags with names := String.ofList name :: s.names }, rest)
    else none

/-- The letters of flags. -/
def flagLetters : List Char := ['i', 'm', 's', 'U', 'u', 'R', 'x']

/-- Whether a text sets flags: letters, none of them twice, and one dash at
most, which is not the last. -/
def areFlags (cs : List Char) : Bool :=
  cs.all (fun c => c = '-' || c ∈ flagLetters) && cs.Nodup && cs.getLast? ≠ some '-'

/-- Sets flags, those after a dash to false. -/
def Flags.setAll (f : Flags) (cs : List Char) : Flags :=
  let on := (cs.takeWhile (· ≠ '-')).foldl (fun f c => f.set c true) f
  (cs.dropWhile (· ≠ '-')).foldl (fun f c => f.set c false) on

/-- Reads flags after their `?`, which hold for the rest of the group or for
a group of their own. -/
def readFlags? (s : Scan) (cs : List Char) : Option (Scan × List Char) :=
  let letters := cs.takeWhile fun c => c ≠ ':' && c ≠ ')'
  let flags := s.group.flags.setAll letters
  match cs.dropWhile fun c => c ≠ ':' && c ≠ ')' with
  | ':' :: rest => if areFlags letters then some (s.enter flags, rest) else none
  | ')' :: rest =>
    if areFlags letters && !letters.isEmpty then
      let group := (s.group.add { repeatable := false })
      some ({ s with group := { group with flags } }, rest)
    else none
  | _ => none

/-- Opens a group after its `(`. -/
def open? (s : Scan) (cs : List Char) : Option (Scan × List Char) :=
  match s.group.flags.skip cs with
  | '?' :: 'P' :: '<' :: rest => openNamed? s rest
  | '?' :: '<' :: rest => openNamed? s rest
  | '?' :: rest => readFlags? s rest
  | rest => some (s.enter s.group.flags, rest)

/-- Closes the current group. -/
def close? (s : Scan) : Option Scan :=
  match s.outer with
  | [] => none
  | around :: outer =>
    some { s with group := around.add { height := s.group.height + 1 }, outer }

/-! ## §3. Patterns. -/

/-- Adds an atom. -/
def addAtom? (s : Scan) (atom : Atom) : Option Scan :=
  if atom.isAvailable s.group.flags then some (s.add {}) else none

/-- Repeats the last part.  A question mark may follow. -/
def repeat? (s : Scan) (cs : List Char) : Option (Scan × List Char) :=
  let rest := if cs.head? = some '?' then cs.tail else cs
  s.group.repeat?.map fun group => ({ s with group }, rest)

/-- Reads one thing, which starts with `c`. -/
def step? (s : Scan) (c : Char) (rest : List Char) : Option (Scan × List Char) :=
  let f := s.group.flags
  match c with
  | '(' => open? s rest
  | ')' => (close? s).map fun s => (s, rest)
  | '|' => some ({ s with group := s.group.branch }, rest)
  | '[' => (readClass? f rest).map fun (height, rest) => (s.add { height }, rest)
  | '?' | '*' | '+' => repeat? s rest
  | '\x7b' => none
  | '\\' =>
    match readEscape? f rest with
    | none => none
    | some (atom, rest) => (addAtom? s atom).map fun s => (s, rest)
  | '.' => if f.unicode then some (s.add {}, rest) else none
  | '^' | '$' => (addAtom? s .anchor).map fun s => (s, rest)
  | c => (addAtom? s (.char c false)).map fun s => (s, rest)

/-- Reads to the end, within `fuel` steps. -/
def scan? : (fuel : Nat) → Scan → List Char → Option Scan
  | 0, _, _ => none
  | fuel + 1, s, cs =>
    match s.group.flags.skip cs with
    | [] => some s
    | c :: rest =>
      match step? s c rest with
      | none => none
      | some (s, rest) => scan? fuel s rest

/-- Whether a text without closing braces is a pattern.  Every step reads at
least one character. -/
def isPattern (cs : List Char) : Bool :=
  match scan? (cs.length + 1) { group := { flags := {} } } cs with
  | none => false
  | some s => s.outer.isEmpty && s.group.height ≤ maxHeight

end TapeMachine.Text.Pattern
