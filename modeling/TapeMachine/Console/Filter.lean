/-
  TapeMachine.Console.Filter
  ──────────────────────────
  **WHICH ENTRIES OF THE LOG ARE SHOWN.**

  A filter setting is a list of directives with commas between them:

      LEVEL                   for every entry
      PATH                    for the parts whose path begins so, every level
      PATH=LEVEL              for these parts, up to a level
      PATH[{FIELD}]=LEVEL     for entries of theirs that have the field

  where a level is a name, in either case, its number, or `off`, and `=LEVEL`
  may be left out.  Of the directives that cover an entry the most specific
  one governs it, and an entry that none covers is not shown.  A setting with
  a directive that cannot be read counts as no setting, and one with a
  directive that would be cut within a character breaks the program off.

  Directives may also name spans of work, or the value of a field as a number
  or a pattern.  They cover nothing here, because no entry is made within a
  named span, but they have to be readable all the same.
-/
import TapeMachine.Console.Log
import TapeMachine.Text.Numeral
import TapeMachine.Text.Pattern.Check
import TapeMachine.Text.Slice

namespace TapeMachine.Console

/-! ## §1. Directives. -/

/-- What is shown of the entries it covers. -/
structure Directive where
  /-- The beginning of the path of the parts it covers; all parts if there is
  none. -/
  path : Option String := none
  /-- A field that an entry has to have. -/
  field : Option String := none
  /-- The rank of the last level that is shown; 0 if none is. -/
  rank : Nat
  deriving Repr, DecidableEq

namespace Directive

/-- Whether a directive is about an entry. -/
def covers (d : Directive) (e : Entry) : Bool :=
  (d.path.all fun path => path.isPrefixOf e.part.path) &&
    (d.field.all fun field => field ∈ e.fieldNames)

/-- Orders directives by how specific they are: first by path, a longer one
being more specific, and then by field. -/
def specificity (a b : Directive) : Ordering :=
  (compare (a.path.map String.length) (b.path.map String.length)).then
    (compare a.field b.field)

/-- Of the directive found so far and a later one, the more specific; the
later one if they are equally so. -/
def prefer (found : Option Directive) (d : Directive) : Option Directive :=
  match found with
  | none => some d
  | some best => if (best.specificity d).isLE then some d else some best

/-- What is preferred was found before, or is the later one. -/
theorem prefer_eq_some {found : Option Directive} {d chosen : Directive}
    (h : prefer found d = some chosen) : found = some chosen ∨ d = chosen := by
  unfold prefer at h
  split at h
  · exact Or.inr (Option.some.inj h)
  · split at h
    · exact Or.inr (Option.some.inj h)
    · exact Or.inl h

/-- What is preferred of a list stands in it, unless it was found before. -/
theorem mem_of_foldl_prefer {ds : List Directive} {found : Option Directive} {chosen : Directive}
    (h : ds.foldl prefer found = some chosen) : found = some chosen ∨ chosen ∈ ds := by
  induction ds generalizing found with
  | nil => exact Or.inl h
  | cons d ds ih =>
    rcases ih h with hfirst | hrest
    · rcases prefer_eq_some hfirst with hfound | hd
      · exact Or.inl hfound
      · exact Or.inr (hd ▸ List.mem_cons_self)
    · exact Or.inr (List.mem_cons_of_mem _ hrest)

end Directive

/-! ## §2. Reading a directive. -/

/-- The rank that a word asks for: that of the level with this name or
number, or 0. -/
def Level.rankOf? (word : String) : Option Nat :=
  match Text.number? word with
  | some n => if n ≤ Level.trace.rank then some n else none
  | none =>
    let name := word.map Char.toUpper
    if name = "OFF" then some 0 else (Level.all.find? fun l => l.name = name).map Level.rank

/-- Why a directive is not read. -/
inductive DirectiveFault where
  /-- It does not follow the rules. -/
  | unreadable
  /-- It would be cut within a character. -/
  | withinChar
  deriving Repr, DecidableEq

/-- The text of a directive.  Its marks are looked for in the text without
the blanks around it, and the text as it was given is cut after as many bytes
as stand before them there. -/
structure DirectiveText where
  given : List Char
  trimmed : List Char

namespace DirectiveText

/-- The text of a directive. -/
def ofString (s : String) : DirectiveText := ⟨s.toList, Text.trimBlanks s.toList⟩

/-- The bytes before place `i` of the trimmed text. -/
def offset (t : DirectiveText) (i : Nat) : Nat := Text.byteSize (t.trimmed.take i)

/-- What is cut out for the characters from place `i` up to place `j`. -/
def cut (t : DirectiveText) (i j : Nat) : Except DirectiveFault String :=
  match Text.slice? (t.offset i) (t.offset j) t.given with
  | some cs => .ok (String.ofList cs)
  | none => .error .withinChar

/-- What is cut out for the characters from place `i` on. -/
def cutFrom (t : DirectiveText) (i : Nat) : Except DirectiveFault String :=
  match Text.split? (t.offset i) t.given with
  | some (_, cs) => .ok (String.ofList cs)
  | none => .error .withinChar

/-- The first place from `i` on where one of the marks stands, and which. -/
def find? (t : DirectiveText) (i : Nat) (marks : List Char) : Option (Nat × Char) :=
  let rest := t.trimmed.drop i
  (rest.find? (· ∈ marks)).map fun mark => (i + rest.findIdx (· ∈ marks), mark)

/-- The rank that the text from place `i` on asks for; every level is shown
if nothing stands there. -/
def rankFrom (t : DirectiveText) (i : Nat) : Except DirectiveFault Nat := do
  let word ← t.cutFrom i
  if word.isEmpty then return Level.trace.rank
  match Level.rankOf? word with
  | some rank => return rank
  | none => throw .unreadable

/-- The rank at the end of a directive that goes on at place `i`, with `=` or
not at all. -/
def endingRank (t : DirectiveText) (i : Nat) : Except DirectiveFault Nat :=
  match t.trimmed.drop i with
  | [] => .ok Level.trace.rank
  | '=' :: _ => t.rankFrom (i + 1)
  | _ => .error .unreadable

/-- Whether what stands in braces is a field, or a field and its value.  A
second `=` ends the value. -/
def isSelector (field : String) : Bool :=
  let value := (field.toList.dropWhile (· ≠ '=')).tail.takeWhile (· ≠ '=')
  !field.isEmpty && (Text.isNumber value || Text.Pattern.isPattern value)

/-- Reads on after the `{` of a directive, at place `i`.  The directive is
`none` if it is about spans or values. -/
def readField (t : DirectiveText) (path : Option String) (span : String) (i : Nat) :
    Except DirectiveFault (Option Directive) :=
  match t.find? i ['\x7d'] with
  | none => .error .unreadable
  | some (j, _) => do
    let field ← t.cut i j
    if !isSelector field || t.trimmed[j + 1]? ≠ some ']' then throw .unreadable
    let rank ← t.endingRank (j + 2)
    if span.isEmpty && !field.contains '=' then return some { path, field := some field, rank }
    return none

/-- Reads on after the `[` of a directive, at place `i`. -/
def readSpan (t : DirectiveText) (path : Option String) (i : Nat) :
    Except DirectiveFault (Option Directive) :=
  match t.find? i [']', '\x7b'] with
  | none => .error .unreadable
  | some (j, mark) => do
    let span ← t.cut i j
    if mark = '\x7b' then t.readField path span (j + 1)
    else
      let _ ← t.endingRank (j + 1)
      return none

/-- Whether a path can begin with a character. -/
def startsPath (c : Char) : Bool := c ∈ ['-', ':', '_'] || Text.isAlphanumeric c

/-- The directive that is a single word: a level, or else a path. -/
def ofWord (word : String) : Directive :=
  match Level.rankOf? word with
  | some rank => { rank }
  | none => { path := some word, rank := Level.trace.rank }

/-- Reads a directive that begins with a path or a level. -/
def readPath (t : DirectiveText) : Except DirectiveFault (Option Directive) :=
  match t.find? 1 ['=', '['] with
  | none => .ok (some (ofWord (String.ofList t.given)))
  | some (j, mark) => do
    let path ← t.cut 0 j
    if mark = '[' then t.readSpan (some path) (j + 1)
    else
      let rank ← t.rankFrom (j + 1)
      return some { path := some path, rank }

/-- Reads a directive. -/
def read (t : DirectiveText) : Except DirectiveFault (Option Directive) :=
  match t.trimmed with
  | [] => .error .unreadable
  | c :: _ =>
    if c = '[' then t.readSpan none 1
    else if startsPath c then t.readPath
    else .error .unreadable

end DirectiveText

/-! ## §3. Filters. -/

/-- Which entries are shown. -/
structure Filter where
  directives : List Directive
  deriving Repr, DecidableEq

namespace Filter

/-- Warnings and errors only: the filter when none is asked for. -/
def standard : Filter := ⟨[{ rank := Level.warn.rank }]⟩

/-- The directives of a setting; an empty one between two commas is none.
The first one that is not read decides. -/
def directivesOf (setting : String) : Except DirectiveFault (List Directive) := do
  let texts := (setting.splitOn ",").filter fun s => !s.isEmpty
  let directives ← texts.mapM fun s => (DirectiveText.ofString s).read
  return directives.reduceOption

/-- The filter that a setting asks for; `none` if it breaks the program off. -/
def ofSetting? : Option String → Option Filter
  | none => some standard
  | some setting =>
    match directivesOf setting with
    | .ok directives => some ⟨directives⟩
    | .error .unreadable => some standard
    | .error .withinChar => none

/-- The directive that governs an entry: of the most specific ones that cover
it, the last. -/
def governing? (f : Filter) (e : Entry) : Option Directive :=
  (f.directives.filter (·.covers e)).foldl Directive.prefer none

/-- Whether an entry is shown. -/
def shows (f : Filter) (e : Entry) : Bool :=
  (f.governing? e).any fun d => e.level.rank ≤ d.rank

/-- Whether entries of a level can be shown at all. -/
def reaches (f : Filter) (level : Level) : Bool :=
  f.directives.any fun d => level.rank ≤ d.rank

/-- Only entries of levels that the filter reaches are shown. -/
theorem reaches_of_shows {f : Filter} {e : Entry} (h : f.shows e = true) :
    f.reaches e.level = true := by
  unfold shows at h
  cases hd : f.governing? e with
  | none => simp [hd] at h
  | some d =>
    rw [hd] at h
    rcases Directive.mem_of_foldl_prefer hd with hnone | hmem
    · cases hnone
    · rw [reaches, List.any_eq_true]
      exact ⟨d, (List.mem_filter.mp hmem).1, h⟩

end Filter

end TapeMachine.Console
