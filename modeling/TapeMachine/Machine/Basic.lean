/-
  TapeMachine.Machine.Basic
  ─────────────────────────
  The machine that runs a program: everything a run changes, and nothing
  else.  The program stays outside, so the same machine can be called again
  after it halted.
-/
import TapeMachine.Machine.Buffer
import TapeMachine.Machine.CallStack
import TapeMachine.Program.Basic
import TapeMachine.Tape.Basic

namespace TapeMachine

/-- A machine between two opcodes.  The running frame's offset is the index
of the opcode that comes next. -/
structure Machine where
  tape : Tape
  functions : FunctionTable
  stack : CallStack
  input : Input
  output : Output
  /-- The operators carried out so far, each repetition counted.  No run lasts
  so long that 64 bits would not hold their number. -/
  operations : Nat

namespace Machine

/-- A machine about to run a program. -/
def load (p : Program) (tape : Tape) (input : String) (outputLimit : Nat) : Machine :=
  { tape
    functions := .empty
    stack := .ofScript ⟨0, p.size⟩
    input := .ofText input
    output := .empty outputLimit
    operations := 0 }

/-- Credits `n` operators. -/
def credit (m : Machine) (n : Nat) : Machine := { m with operations := m.operations + n }

/-- Makes the opcode at index `i` the next one of the running frame. -/
def goto (m : Machine) (i : Nat) : Machine :=
  match m.stack.frames with
  | [] => m
  | frame :: callers =>
    { m with stack := { m.stack with frames := { frame with offset := i } :: callers } }

end Machine

end TapeMachine
