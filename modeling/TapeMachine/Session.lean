/-
  TapeMachine.Session
  ───────────────────
  **RUNNING A SCRIPT WITH PAUSES.**

  A session compiles the script plain, so that every operator can be
  stopped at, and keeps the machine between calls.  A breakpoint is given
  as a character offset and stops before the first operator at or after it;
  one that has been met is gone.  A script that halted for any other
  reason is completed: later calls repeat its report.
-/
import TapeMachine.Job

namespace TapeMachine

/-- A script that is run in pieces. -/
structure Session where
  job : Job
  /-- For each operator, whether a breakpoint is set on it. -/
  marks : Array Bool
  /-- What the last call ended with. -/
  exitCode : Option ExitCode
  elapsed : Duration

namespace Session

/-! ## §1. Starting a session. -/

/-- The index between `low` and `high` at which `before` stops to hold, found by
halving.  That is the first such index if `before` holds of no index after one
of which it does not hold. -/
def bisect (before : Nat → Bool) (low high : Nat) : Nat :=
  if low < high then
    let middle := (low + high) / 2
    if before middle then bisect before (middle + 1) high else bisect before low middle
  else low
termination_by high - low

/-- The index of the first operator at or after `offset`. -/
def firstFrom (p : Program) (offset : Nat) : Nat :=
  bisect (fun i => p.offsets.getD i 0 < offset) 0 p.offsets.size

/-- The index that a breakpoint at `offset` is set on, if `offset` lies in the
script of `length` characters. -/
def placeBreakpoint (p : Program) (length offset : Nat) : Except Error Nat :=
  if offset < length then .ok (firstFrom p offset) else .error (.breakpoint offset length)

/-- The table with a mark for each offset. -/
def placeBreakpoints (p : Program) (length : Nat) (offsets : List Nat) (marks : Array Bool) :
    Except Error (Array Bool) :=
  match offsets with
  | [] => .ok marks
  | offset :: rest => do
    let i ← placeBreakpoint p length offset
    placeBreakpoints p length rest (marks.setIfInBounds i true)

/-- Starts a session on a compiled script: the size of the tape is checked
first, then the breakpoints in the order given. -/
def ofProgram (config : Config) (source : String) (program : Program) (breakpoints : List Nat)
    (input : String) : Except Error Session := do
  let tape ← Tape.create config.tapeSize config.mode
  let marks ← placeBreakpoints program source.length breakpoints (Array.replicate program.size false)
  return ⟨⟨source, program, .load program tape input config.outputLimit⟩, marks, none, {}⟩

/-- Starts a session: the script is checked before all else. -/
def create (config : Config) (source : String) (breakpoints : List Nat) (input : String) :
    Except Error Session := do
  let program ← Program.compile .plain source
  ofProgram config source program breakpoints input

/-! ## §2. Going on. -/

/-- The exit code at which the session stays. -/
def finalCode? (s : Session) : Option ExitCode :=
  s.exitCode.filter fun code => !code.isBreakpoint

/-- Whether the script halted for good. -/
def isCompleted (s : Session) : Bool := s.finalCode?.isSome

/-- The session after a call that halted. -/
def settle (s : Session) (code : ExitCode) (r : Run) (took : Duration) : Session where
  job := { s.job with machine := r.machine }
  marks := r.marks.getD s.marks
  exitCode := some code
  elapsed := s.elapsed.add took

/-- The session with the report on its last call. -/
def withReport? (s : Session) : Option (Session × Report) := do
  let code ← s.exitCode
  let report ← s.job.report? code s.elapsed
  return (s, report)

/-- The call that takes the session on. -/
def call (s : Session) (bypass : Bool) (budget : Budget) (fuel : Nat) : Outcome :=
  s.job.machine.execute s.job.program { bypass, budget } (some s.marks) fuel

/-- Goes on until the script halts; a completed session stays as it is.
`none` if the call does not halt within `fuel` steps. -/
def resume? (s : Session) (bypass : Bool) (budget : Budget) (fuel : Nat) :
    Option (Session × Report) :=
  if s.isCompleted then s.withReport?
  else
    match s.call bypass budget fuel with
    | .halted code r => (s.settle code r {}).withReport?
    | .unfinished _ | .stuck => none

/-- Goes on to the next breakpoint or to the end. -/
def continue? (s : Session) (budget : Budget) (fuel : Nat) : Option (Session × Report) :=
  s.resume? false budget fuel

/-- Goes on to the end, past all breakpoints. -/
def complete? (s : Session) (budget : Budget) (fuel : Nat) : Option (Session × Report) :=
  s.resume? true budget fuel

end Session

end TapeMachine
