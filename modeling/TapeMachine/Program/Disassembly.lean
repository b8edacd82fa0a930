/-
  TapeMachine.Program.Disassembly
  ───────────────────────────────
  A program as text, one opcode per line under a heading.  An opcode that a
  loop bracket jumps to has a rule above it and an arrow beside its index.
-/
import TapeMachine.Program.Basic
import TapeMachine.Text.Column

namespace TapeMachine.Program

/-- What an opcode does, with the index of its partner where it has one. -/
def mnemonic (op : Opcode) (partner : Nat) : String :=
  let target := Text.zeroPadded 4 partner
  match op.operator with
  | .right => s!"FWD         {op.count}"
  | .left => s!"BACK        {op.count}"
  | .inc => s!"INC         {op.count}"
  | .dec => s!"DEC         {op.count}"
  | .put => "PRINT"
  | .get => "READ"
  | .loopOpen => s!"JZ          -> {target}"
  | .loopClose => s!"JNZ         -> {target}"
  | .bodyOpen => s!"DEF         ..{target}"
  | .bodyClose => "END"
  | .call => "CALL"

/-- For each opcode, whether a loop bracket has it as its partner. -/
def jumpTargets (p : Program) : Array Bool :=
  (p.opcodes.toList.zip p.partners.toList).foldl
    (fun marks (op, partner) =>
      match op.operator with
      | .loopOpen | .loopClose => marks.setIfInBounds partner true
      | _ => marks)
    (Array.replicate p.size false)

/-- The line above and below the heading. -/
def headingRule : String := "════════════════════════════════════════"

/-- The line above a jump target. -/
def targetRule : String := "      ┌──────────────────────────────────"

/-- The heading: granularity and counts. -/
def heading (p : Program) : List String :=
  [ headingRule,
    s!" main ({p.granularity.name})",
    s!" {p.size} opcodes, {p.operatorCount} operators, {p.functionCount} functions",
    headingRule ]

/-- The lines of the opcode at index `i`, which starts at `offset`. -/
def opcodeLines (i : Nat) (op : Opcode) (partner offset : Nat) (isTarget : Bool) : List String :=
  let arrow := if isTarget then "► " else "  "
  let index := Text.zeroPadded 4 i
  let action := Text.blankPadded 28 (mnemonic op partner)
  let line := s!"{index} {arrow}{action}; @{offset}"
  if isTarget then [targetRule, line] else [line]

/-- The lines of all opcodes. -/
def listing (p : Program) : List String :=
  let rows := p.opcodes.toList.zip (p.partners.toList.zip (p.offsets.toList.zip p.jumpTargets.toList))
  rows.zipIdx.flatMap fun ((op, partner, offset, isTarget), i) =>
    opcodeLines i op partner offset isTarget

/-- The program as text. -/
def disassembly (p : Program) : String := Text.unlines (p.heading ++ p.listing)

end TapeMachine.Program
