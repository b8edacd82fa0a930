/-
  TapeMachine.Report.Basic
  ────────────────────────
  The report on a run or a session: the exit code, where the script stopped,
  and everything it left behind, in terms of the script's text.
-/
import TapeMachine.Machine.Basic
import TapeMachine.Machine.ExitCode
import TapeMachine.Report.Duration
import TapeMachine.Report.Trace

namespace TapeMachine

/-- A function that was defined. -/
structure Definition where
  /-- The cell value it is called by. -/
  key : Nat
  /-- Its place in the order of definition. -/
  index : Nat
  /-- The character offset of its `(`. -/
  offset : Nat
  /-- The operators of its body. -/
  body : String
  deriving Repr, DecidableEq

/-- Where a script stopped short of its end. -/
structure Halting where
  /-- The script text that led there, innermost part first. -/
  trace : List String
  /-- The symbol of the operator it stopped on. -/
  operator : Char
  /-- The character offset of that operator. -/
  offset : Nat
  deriving Repr, DecidableEq

/-- The report on a run. -/
structure Report where
  source : String
  exitCode : ExitCode
  /-- Where the script stopped; nothing if it ran to its end. -/
  halting : Option Halting
  tape : Tape
  definitions : List Definition
  input : String
  output : String
  elapsed : Duration
  operations : Nat
  deriving Repr, DecidableEq

namespace Report

/-- The definition, in terms of the script, of the function entry with number
`index`. -/
def definition? (p : Program) (index : Nat) (e : FunctionEntry) : Option Definition := do
  let offset ← p.offsets[e.declaration]?
  let stop ← p.partners[e.declaration]?
  let body ← p.sourceOf? (e.declaration + 1) stop
  return ⟨e.key, index, offset, body⟩

/-- Where the running frame stopped, unless the script is done. -/
def halting? (p : Program) (s : CallStack) (code : ExitCode) : Option (Option Halting) :=
  match s.frames with
  | [] => some none
  | frame :: _ =>
    if code.isSuccess then some none
    else do
      let trace ← p.stackTrace? s
      let op ← p.opcodes[frame.offset]?
      let offset ← p.offsets[frame.offset]?
      return some ⟨trace, op.operator.symbol, offset⟩

/-- The report on a machine that halted; `none` if the machine does
not belong to the program. -/
def build? (source : String) (p : Program) (m : Machine) (code : ExitCode) (elapsed : Duration) :
    Option Report := do
  let definitions ← m.functions.entries.zipIdx.mapM fun (e, index) => definition? p index e
  let halting ← halting? p m.stack code
  return {
    source
    exitCode := code
    halting
    tape := m.tape
    definitions
    input := m.input.text
    output := m.output.text
    elapsed
    operations := m.operations }

end Report

end TapeMachine
