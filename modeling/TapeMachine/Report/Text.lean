/-
  TapeMachine.Report.Text
  ───────────────────────
  A report as text: a line on the exit code, then where the script stopped,
  then the functions it defined.
-/
import TapeMachine.Report.Basic

namespace TapeMachine.Report

/-- Exit code, operations and time in one line. -/
def summary (r : Report) : String :=
  s!"{r.exitCode.message} ({r.operations} operations in {r.elapsed.text})"

/-- The lines on where the script stopped. -/
def haltingLines (h : Halting) : List String :=
  let place := s!"  halted on '{h.operator}' at offset {h.offset}"
  match h.trace with
  | [] => [place]
  | trace => place :: "  stack trace:" :: trace.zipIdx.map fun (part, i) => s!"    {i}: {part}"

/-- The lines on the functions. -/
def definitionLines : List Definition → List String
  | [] => []
  | ds => "  functions:" :: ds.map fun d => s!"    [{d.index}] key {d.key}: {d.body}"

/-- The report as text, without a line feed at its end. -/
def text (r : Report) : String :=
  let halting := match r.halting with
    | none => []
    | some h => haltingLines h
  String.intercalate "\n" (r.summary :: halting ++ definitionLines r.definitions)

end TapeMachine.Report
