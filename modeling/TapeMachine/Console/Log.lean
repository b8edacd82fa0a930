/-
  TapeMachine.Console.Log
  ───────────────────────
  Entries of the log.  An entry has a level, the part of the program that
  makes it, a message and named values:

      LEVEL message name=value name=value

  The message may quote what the user wrote, so it is printed as a terminal
  may be shown it.
-/
import TapeMachine.Machine.Journal
import TapeMachine.Session
import TapeMachine.Text.Escape

namespace TapeMachine.Console

/-! ## §1. Levels and parts. -/

/-- How urgent an entry is, the most urgent first. -/
inductive Level where
  | error
  | warn
  | info
  | debug
  | trace
  deriving Repr, DecidableEq

namespace Level

/-- Every level, the most urgent first. -/
def all : List Level := [.error, .warn, .info, .debug, .trace]

/-- The place of a level among all, from 1. -/
def rank : Level → Nat
  | error => 1
  | warn => 2
  | info => 3
  | debug => 4
  | trace => 5

/-- The word for a level. -/
def name : Level → String
  | error => "ERROR"
  | warn => "WARN"
  | info => "INFO"
  | debug => "DEBUG"
  | trace => "TRACE"

end Level

/-- The parts of the program that make entries. -/
inductive Part where
  | console
  | compiler
  | engine
  | session
  deriving Repr, DecidableEq

/-- The path by which a filter setting refers to a part. -/
def Part.path : Part → String
  | console => "pbrain"
  | compiler => "pbrain::bytecode::compile"
  | engine => "pbrain::runtime::vm_bc"
  | session => "pbrain::runtime::session"

/-! ## §2. Entries. -/

/-- A line of the log. -/
structure Entry where
  level : Level
  part : Part
  message : String
  /-- Named values, in the order they are printed. -/
  fields : List (String × String) := []
  deriving Repr, DecidableEq

namespace Entry

/-- The names of all that an entry holds. -/
def fieldNames (e : Entry) : List String := "message" :: e.fields.map (·.1)

/-- The entry as it is printed. -/
def line (e : Entry) : String :=
  let values := e.fields.map fun (name, value) => s!" {name}={value}"
  s!"{e.level.name} {Text.escape e.message}{String.join values}\n"

/-- An error of the command line. -/
def error (message : String) : Entry := { level := .error, part := .console, message }

/-- A warning about the command line. -/
def warning (message : String) : Entry := { level := .warn, part := .console, message }

/-- A script was compiled. -/
def compiled (p : Program) : Entry :=
  { level := .debug, part := .compiler, message := "compiled script"
    fields := [("mode", p.granularity.name), ("operators", toString p.operatorCount),
      ("opcodes", toString p.size), ("functions", toString p.functionCount)] }

/-- A session was started. -/
def sessionCreated (s : Session) : Entry :=
  { level := .debug, part := .session, message := "session created"
    fields := [("operators", toString s.job.program.size),
      ("breakpoints", toString (s.marks.toList.count true))] }

/-- A run came to its end. -/
def finished (r : Report) : Entry :=
  { level := .info, part := .console, message := "run finished"
    fields := [("exit_code", r.exitCode.name), ("operations", toString r.operations)] }

/-- What is said of an event of a call. -/
def ofEvent : Event → Entry
  | .entered key depth =>
    { level := .trace, part := .engine, message := "enter function"
      fields := [("key", toString key), ("depth", toString depth)] }
  | .returned depth =>
    { level := .trace, part := .engine, message := "frame exhausted"
      fields := [("depth", toString depth)] }
  | .completed operations =>
    { level := .debug, part := .engine, message := "script completed"
      fields := [("operations", toString operations)] }
  | .halted offset depth operations code =>
    { level := .debug, part := .engine, message := "execution halted"
      fields := [("offset", toString offset), ("depth", toString depth),
        ("operations", toString operations), ("exit_code", code.name)] }

end Entry

end TapeMachine.Console
