/-
  TapeMachine.Wire.Record
  ───────────────────────
  The byte form of every record of the library: the fields in the order in
  which they are declared.
-/
import TapeMachine.Report.Basic
import TapeMachine.Wire.Sequence

namespace TapeMachine

open Wire

/-! ## §1. Scripts and programs. -/

/-- An operator, by its index. -/
def Operator.codec : Codec Operator := .choice Operator.all

/-- An opcode: operator and count. -/
def Opcode.codec : Codec Opcode :=
  (Operator.codec.pair .short).iso (fun (operator, count) => ⟨operator, count⟩)
    (fun op => (op.operator, op.count))

/-- A granularity, by its index. -/
def Granularity.codec : Codec Granularity := .choice Granularity.all

/-- A program. -/
def Program.codec : Codec Program :=
  (Opcode.codec.array.pair (Codec.long.array.pair (Codec.long.array.pair
    (Codec.long.pair (Codec.long.pair Granularity.codec))))).iso
    (fun (opcodes, offsets, partners, functionCount, operatorCount, granularity) =>
      ⟨opcodes, offsets, partners, functionCount, operatorCount, granularity⟩)
    (fun p => (p.opcodes, p.offsets, p.partners, p.functionCount, p.operatorCount, p.granularity))

/-- A syntax error, by its index. -/
def SyntaxError.codec : Codec SyntaxError := .choice SyntaxError.all

/-- The result of a syntax check. -/
def Validation.codec : Codec Validation :=
  (SyntaxError.codec.option.pair (Codec.signed.pair .long)).iso
    (fun (error, offset, count) => ⟨error, offset, count⟩)
    (fun v => (v.error, v.offset, v.count))

/-! ## §2. Machines. -/

/-- The two ends of a span. -/
def Span.codec : Codec Span :=
  (Codec.long.pair .long).iso (fun (start, stop) => ⟨start, stop⟩) (fun s => (s.start, s.stop))

/-- A cell mode, by its index. -/
def CellMode.codec : Codec CellMode := .choice CellMode.all

/-- A tape, well-formed or not: cells, pointer and mode. -/
def Tape.codec : Codec Tape :=
  (Codec.short.array.pair (Codec.long.pair CellMode.codec)).iso
    (fun (cells, pointer, mode) => ⟨cells, pointer, mode⟩)
    (fun t => (t.cells, t.pointer, t.mode))

/-- An exit code, by its index. -/
def ExitCode.codec : Codec ExitCode := .choice ExitCode.all

/-! ## §3. Reports. -/

/-- A function that was defined. -/
def Definition.codec : Codec Definition :=
  (Codec.short.pair (Codec.long.pair (Codec.long.pair .text))).iso
    (fun (key, index, offset, body) => ⟨key, index, offset, body⟩)
    (fun d => (d.key, d.index, d.offset, d.body))

/-- Where a script stopped. -/
def Halting.codec : Codec Halting :=
  (Codec.text.list.pair (Codec.character.pair .long)).iso
    (fun (trace, operator, offset) => ⟨trace, operator, offset⟩)
    (fun h => (h.trace, h.operator, h.offset))

/-- A duration: seconds and nanoseconds, full seconds among the latter
carried over unless the seconds do not hold them. -/
def Duration.codec : Codec Duration :=
  (Codec.long.pair (.number .word)).refine
    (fun (seconds, nanos) =>
      match Duration.ofParts? seconds nanos with
      | some d => .ok d
      | none => .error .outOfRange)
    (fun d => (d.seconds, d.nanos))

/-- A report. -/
def Report.codec : Codec Report :=
  (Codec.text.pair (ExitCode.codec.pair (Halting.codec.option.pair (Tape.codec.pair
    (Definition.codec.list.pair (Codec.text.pair (Codec.text.pair
      (Duration.codec.pair .long)))))))).iso
    (fun (source, exitCode, halting, tape, definitions, input, output, elapsed, operations) =>
      ⟨source, exitCode, halting, tape, definitions, input, output, elapsed, operations⟩)
    (fun r => (r.source, r.exitCode, r.halting, r.tape, r.definitions, r.input, r.output,
      r.elapsed, r.operations))

end TapeMachine
