/-
  TapeMachine.Console.Dialogue
  ────────────────────────────
  **WHAT A PROGRAM DOES WITH ITS SURROUNDINGS.**

  A dialogue is a plan: print, log, read a file and go on according to what
  was read, call the engine and go on according to how it halted, and exit.
  It can be carried out (`Main`), or played against a description of the
  surroundings (`play`), which gives the same texts and the same status.
-/
import TapeMachine.Console.Filter
import TapeMachine.Console.Folder
import TapeMachine.Wire.Lossy

namespace TapeMachine.Console

open Wire (Bytes)

/-! ## §1. Dialogues. -/

/-- A call of the engine, with the milliseconds it may take. -/
structure Call where
  program : Program
  bypass : Bool
  budgetMs : Option Nat
  run : Run

/-- The terms of a call under a budget. -/
def Call.terms (c : Call) (budget : Budget) : Terms := { bypass := c.bypass, budget }

/-- How a call halted, what happened in it, and how long it took. -/
structure Halt where
  code : ExitCode
  run : Run
  events : List Event
  took : Duration

/-- A plan of what to do, one thing after the other. -/
inductive Dialogue where
  /-- End with a status. -/
  | exit (status : Nat)
  /-- Print to standard output. -/
  | print (text : String) (next : Dialogue)
  /-- Print to standard error. -/
  | complain (text : String) (next : Dialogue)
  /-- Make an entry in the log. -/
  | log (entry : Entry) (next : Dialogue)
  /-- Read a file. -/
  | readFile (path : String) (next : Except FileError Bytes → Dialogue)
  /-- Write a file. -/
  | writeFile (path : String) (bytes : Bytes) (next : Option FileError → Dialogue)
  /-- Call the engine until it halts. -/
  | call (c : Call) (next : Halt → Dialogue)

/-- Makes several entries in the log. -/
def Dialogue.logAll (entries : List Entry) (next : Dialogue) : Dialogue :=
  entries.foldr .log next

/-- The status after the program broke off: an index lay outside its table, or
a text was cut within a character. -/
def brokenStatus : Nat := 101

/-! ## §2. Playing a dialogue. -/

/-- The surroundings: the working folder, and which entries of the log are
shown. -/
structure World where
  folder : Folder
  filter : Filter

/-- What a dialogue has left: status, texts, and the files it has written in
the working folder. -/
structure Transcript where
  status : Nat := 0
  stdout : String := ""
  stderr : String := ""
  written : List (String × Bytes) := []
  deriving Repr, DecidableEq

/-- Brings bytes to where they go. -/
def Transcript.deliver (s : Transcript) (bytes : Bytes) : Destination → Transcript
  | .file name => { s with written := s.written ++ [(name, bytes)] }
  | .output => { s with stdout := s.stdout ++ Wire.lossyText bytes }
  | .complaints => { s with stderr := s.stderr ++ Wire.lossyText bytes }
  | .elsewhere => s

/-- Carries out a call within `fuel` steps.  The only budget that can be
spent here is one of no time at all. -/
def Call.play (c : Call) (fuel : Nat) : Outcome × List Event :=
  let t := c.terms (if c.budgetMs = some 0 then Budget.spent else Budget.unlimited)
  (c.run.steps c.program t fuel, c.run.journal c.program t fuel)

/-- Plays a dialogue; `none` if a call does not halt within `fuel` steps. -/
def Dialogue.play (w : World) (fuel : Nat) : Dialogue → Transcript → Option Transcript
  | .exit status, s => some { s with status }
  | .print text next, s => next.play w fuel { s with stdout := s.stdout ++ text }
  | .complain text next, s => next.play w fuel { s with stderr := s.stderr ++ text }
  | .log entry next, s =>
    if w.filter.shows entry then next.play w fuel { s with stderr := s.stderr ++ entry.line }
    else next.play w fuel s
  | .readFile path next, s => (next (w.folder.read path)).play w fuel s
  | .writeFile path bytes next, s =>
    match w.folder.target path with
    | .error e => (next (some e)).play w fuel s
    | .ok destination => (next none).play w fuel (s.deliver bytes destination)
  | .call c next, s =>
    match c.play fuel with
    | (.halted code run, events) => (next ⟨code, run, events, {}⟩).play w fuel s
    | (.unfinished _, _) => none
    | (.stuck, _) => some { s with status := brokenStatus }

end TapeMachine.Console
