/-
  TapeMachine.Job
  ───────────────
  **RUNNING A SCRIPT.**

  A job is a script loaded on a machine.  A run compiles the script packed,
  starts it on a blank tape or on one that was left by an earlier run, and
  goes on to the end.  The size of the tape is checked before the script.
-/
import TapeMachine.Machine.Execute
import TapeMachine.Report.Basic

namespace TapeMachine

/-- The tape a script is started on, and the limit of its output. -/
structure Config where
  tapeSize : Nat := Tape.standardSize
  mode : CellMode := default
  outputLimit : Nat := Output.standardLimit
  deriving Repr, DecidableEq

/-- A script loaded on a machine. -/
structure Job where
  source : String
  program : Program
  machine : Machine

namespace Job

/-- Checks and compiles a script and loads it. -/
def load (g : Granularity) (source : String) (tape : Tape) (input : String) (outputLimit : Nat) :
    Except Error Job := do
  let program ← Program.compile g source
  return ⟨source, program, .load program tape input outputLimit⟩

/-- The report on the job's machine, given the code it halted with. -/
def report? (j : Job) (code : ExitCode) (elapsed : Duration) : Option Report :=
  Report.build? j.source j.program j.machine code elapsed

/-- The report on a call of the job; `none` if the call is unfinished. -/
def conclude? (j : Job) (outcome : Outcome) (elapsed : Duration) : Option Report :=
  match outcome with
  | .halted code r => { j with machine := r.machine }.report? code elapsed
  | .unfinished _ | .stuck => none

/-- Calls the engine once, without breakpoints. -/
def run? (j : Job) (budget : Budget) (fuel : Nat) : Option Report :=
  j.conclude? (j.machine.execute j.program { budget } none fuel) {}

end Job

/-- Runs a script from a tape. -/
def runFrom (tape : Tape) (source input : String) (outputLimit : Nat) (budget : Budget)
    (fuel : Nat) : Except Error (Option Report) := do
  let job ← Job.load .packed source tape input outputLimit
  return job.run? budget fuel

/-- Runs a script from a blank tape. -/
def run (config : Config) (source input : String) (budget : Budget) (fuel : Nat) :
    Except Error (Option Report) := do
  let tape ← Tape.create config.tapeSize config.mode
  runFrom tape source input config.outputLimit budget fuel

end TapeMachine
