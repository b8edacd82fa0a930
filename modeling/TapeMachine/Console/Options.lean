/-
  TapeMachine.Console.Options
  ───────────────────────────
  **READING THE COMMAND LINE.**

      FILE                 the script, exactly once
      --stdin TEXT         --memory N         --mode MODE
      --budget-ms N        --break OFFSET     --load-state FILE
      --save-state FILE    --tokens           --no-color
      --bc, --bytecode

  An option's value is the rest of its word after `=`, or the next word,
  which must then not look like an option.  Only `--break` may be repeated.
  After `--` every word is a file.

  There is no usage text: `-h` and `--help` are not options, so a command line
  with one of them is not understood, like any other unknown option.
-/
import TapeMachine.Tape.Basic
import TapeMachine.Text.Numeral

namespace TapeMachine.Console

open Text (number?)

/-! ## §1. The options. -/

/-- What the command line asks for. -/
structure Options where
  file : String
  input : String
  tapeSize : Nat
  mode : CellMode
  budgetMs : Option Nat
  breakpoints : List Nat
  loadFrom : Option String
  saveTo : Option String
  tokens : Bool
  plainText : Bool
  bytecode : Bool
  deriving Repr, DecidableEq

/-- What has been read so far. -/
structure Draft where
  file : Option String := none
  input : Option String := none
  tapeSize : Option Nat := none
  mode : Option CellMode := none
  budgetMs : Option Nat := none
  breakpoints : List Nat := []
  loadFrom : Option String := none
  saveTo : Option String := none
  tokens : Bool := false
  plainText : Bool := false
  bytecode : Bool := false
  deriving Repr, DecidableEq

/-- The options, once everything is read: the script is required, the rest
has a default. -/
def Draft.complete? (d : Draft) : Option Options := do
  let file ← d.file
  return {
    file
    input := d.input.getD ""
    tapeSize := d.tapeSize.getD Tape.standardSize
    mode := d.mode.getD default
    budgetMs := d.budgetMs
    breakpoints := d.breakpoints
    loadFrom := d.loadFrom
    saveTo := d.saveTo
    tokens := d.tokens
    plainText := d.plainText
    bytecode := d.bytecode }

/-! ## §2. Values. -/

/-- A value that was not given before. -/
def once {α : Type} (seen : Option α) (value : α) : Option (Option α) :=
  match seen with
  | none => some (some value)
  | some _ => none

/-- A flag that was not given before. -/
def onceFlag (seen : Bool) : Option Bool := if seen then none else some true

/-- A path, which is not empty. -/
def path? (s : String) : Option String := if s.isEmpty then none else some s

/-! ## §3. Words. -/

/-- Takes a word that is no option: the script. -/
def Draft.addFile (d : Draft) (word : String) : Option Draft := do
  return { d with file := ← once d.file (← path? word) }

/-- Takes an option without a value; `none` if there is none of that name. -/
def Draft.addFlag (d : Draft) (name : String) : Option Draft := do
  match name with
  | "tokens" => return { d with tokens := ← onceFlag d.tokens }
  | "no-color" => return { d with plainText := ← onceFlag d.plainText }
  | "bc" | "bytecode" => return { d with bytecode := ← onceFlag d.bytecode }
  | _ => none

/-- Takes an option and its value; `none` if there is none of that name. -/
def Draft.addValue (d : Draft) (name value : String) : Option Draft := do
  match name with
  | "stdin" => return { d with input := ← once d.input value }
  | "memory" => return { d with tapeSize := ← once d.tapeSize (← number? value) }
  | "mode" => return { d with mode := ← once d.mode (← CellMode.ofName? value) }
  | "budget-ms" => return { d with budgetMs := ← once d.budgetMs (← number? value) }
  | "break" => return { d with breakpoints := d.breakpoints ++ [← number? value] }
  | "load-state" => return { d with loadFrom := ← once d.loadFrom (← path? value) }
  | "save-state" => return { d with saveTo := ← once d.saveTo (← path? value) }
  | _ => none

/-- Whether a word of this name stands without a value. -/
def isFlag (name : String) : Bool := name ∈ ["tokens", "no-color", "bc", "bytecode"]

/-- What a word is. -/
inductive Word where
  /-- `--`: all that follows are files. -/
  | rest
  /-- `--name` or `--name=value`. -/
  | option (name : String) (value : Option String)
  /-- A single dash and more: no option has such a name. -/
  | unknown
  /-- Anything else, a lone dash included. -/
  | plain

/-- Classifies a word of the command line. -/
def Word.ofString (s : String) : Word :=
  match s.toList with
  | ['-', '-'] => .rest
  | '-' :: '-' :: cs =>
    let name := String.ofList (cs.takeWhile (· ≠ '='))
    match cs.dropWhile (· ≠ '=') with
    | [] => .option name none
    | _ :: value => .option name (some (String.ofList value))
  | '-' :: _ :: _ => .unknown
  | _ => .plain

/-- Reads the words of a command line. -/
def Draft.read (d : Draft) : List String → Option Draft
  | [] => some d
  | word :: words =>
    match Word.ofString word with
    | .rest => words.foldlM addFile d
    | .unknown => none
    | .plain => do (← d.addFile word).read words
    | .option name (some value) => do (← d.addValue name value).read words
    | .option name none =>
      if isFlag name then do (← d.addFlag name).read words
      else
        match words with
        | [] => none
        | value :: words =>
          match Word.ofString value with
          | .plain => do (← d.addValue name value).read words
          | _ => none

/-- The options of a command line; `none` if it is not understood. -/
def Options.parse? (words : List String) : Option Options := do
  (← ({} : Draft).read words).complete?

end TapeMachine.Console
