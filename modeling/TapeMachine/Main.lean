/-
  TapeMachine.Main
  ────────────────
  Carries out the plan of the command-line program: prints, reads and writes
  files, and lets the engine run in slices with a look at the clock between
  them.  Nothing is decided here; the log filter is taken from the
  environment variable `RUST_LOG`.
-/
import TapeMachine.Console.Program

namespace TapeMachine.Console

/-- The steps the engine makes between two looks at the clock. -/
def sliceSteps : Nat := 65536

/-- A file error in the words of the library.  One kind of error covers a
directory in the place of a file and the reverse; its number tells which. -/
def FileError.ofError : IO.Error → FileError
  | .noFileOrDirectory .. => .notFound
  | .inappropriateType _ 20 _ => .notDirectory
  | .inappropriateType .. => .isDirectory
  | .invalidArgument _ 36 _ => .nameTooLong
  | .invalidArgument _ 40 _ => .tooManyLinks
  | .resourceExhausted _ 28 _ => .noSpace
  | .noSuchThing _ 6 _ => .noDevice
  | .permissionDenied _ 13 _ => .denied
  | e => .other (toString e)

/-- The time since a reading of the clock in nanoseconds. -/
def elapsedSince (start : Nat) : IO Duration := do
  return Duration.ofParts 0 ((← IO.monoNanosNow) - start)

/-- Whether a call that started at `start` has used up its time. -/
def Call.isSpent (c : Call) (start now : Nat) : Bool :=
  match c.budgetMs with
  | none => false
  | some ms => start + ms * 1000000 ≤ now

/-- Runs a call slice by slice until it halts; `none` if it is stuck.  What
happened is noted only if `noting` is set. -/
partial def Call.perform (c : Call) (noting : Bool) (start : Nat) (r : Run) (events : List Event) :
    IO (Option Halt) := do
  let now ← IO.monoNanosNow
  let t := c.terms (if c.isSpent start now then Budget.spent else Budget.unlimited)
  let events := if noting then events ++ r.journal c.program t sliceSteps else events
  match r.steps c.program t sliceSteps with
  | .stuck => return none
  | .unfinished r => c.perform noting start r events
  | .halted code run => return some ⟨code, run, events, ← elapsedSince start⟩

/-- Carries out a dialogue and gives its status. -/
def Dialogue.perform (filter : Filter) : Dialogue → IO Nat
  | .exit status => return status
  | .print text next => do
    IO.print text
    next.perform filter
  | .complain text next => do
    IO.eprint text
    next.perform filter
  | .log entry next => do
    if filter.shows entry then IO.eprint entry.line
    next.perform filter
  | .readFile path next => do
    match ← (IO.FS.readBinFile path).toBaseIO with
    | .ok bytes => (next (.ok bytes.data.toList)).perform filter
    | .error e => (next (.error (.ofError e))).perform filter
  | .writeFile path bytes next => do
    match ← (IO.FS.writeBinFile path ⟨bytes.toArray⟩).toBaseIO with
    | .ok _ => (next none).perform filter
    | .error e => (next (some (.ofError e))).perform filter
  | .call c next => do
    -- a filter that does not reach `debug` shows no event of a journal
    -- (`play_unjournaled_program`), so none is kept
    let start ← IO.monoNanosNow
    match ← c.perform (filter.reaches .debug) start c.run [] with
    | none => return brokenStatus
    | some h => (next h).perform filter

end TapeMachine.Console

open TapeMachine.Console in
/-- The command-line program. -/
def main (words : List String) : IO UInt32 := do
  match Filter.ofSetting? (← IO.getEnv "RUST_LOG") with
  | none => return brokenStatus.toUInt32
  | some filter => return ((← (program words).perform filter) : Nat).toUInt32
