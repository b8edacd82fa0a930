/-
  TapeMachine.Machine.Structured
  ──────────────────────────────
  **WHAT A SCRIPT MEANS, BY ITS TREE.**

  An evaluator without opcodes, jumps or frames: a loop repeats its body, a
  definition binds a block to the current cell's value, a call runs the
  block that is bound.  Costs:

      operator      1
      loop          1 for its `[`, entered or not, and 1 for each `]` reached
      definition    1
      call          1, and what the body costs
      fault         nothing

  A `,` whose character is too large for a checked cell has read it all the
  same.  `depth` counts the frames that are live, the script's included.
-/
import TapeMachine.Machine.Buffer
import TapeMachine.Machine.CallStack
import TapeMachine.Machine.ExitCode
import TapeMachine.Script.Block
import TapeMachine.Tape.Basic

namespace TapeMachine

/-- Everything an evaluation changes. -/
structure Store where
  tape : Tape
  /-- The blocks that are bound, newest first. -/
  bindings : List (Nat × Block)
  input : Input
  output : Output
  operations : Nat

/-- The store at the end of an evaluation, and the fault that ended it. -/
structure Evaluation where
  store : Store
  fault : Option ExitCode

namespace Store

/-- Credits one operator. -/
def credit (s : Store) : Store := { s with operations := s.operations + 1 }

/-- The block bound to the current cell's value. -/
def callee? (s : Store) : Option Block := s.bindings.lookup s.tape.current

/-- One step of a tape operation. -/
def move (s : Store) (op : Tape → Nat → Tape.Stride) (fault : ExitCode) : Evaluation :=
  let stride := op s.tape 1
  if stride.made = 1 then ⟨{ s.credit with tape := stride.tape }, none⟩ else ⟨s, some fault⟩

/-- Carries out an operator that only touches the tape and the buffers. -/
def act (s : Store) : Operator → Evaluation
  | .right => s.move Tape.forward .pastEnd
  | .left => s.move Tape.backward .beforeStart
  | .inc => s.move Tape.increase .aboveMaximum
  | .dec => s.move Tape.decrease .belowZero
  | .put =>
    match s.output.write? s.tape.current with
    | none => ⟨s, some .outputFull⟩
    | some output => ⟨{ s.credit with output }, none⟩
  | .get =>
    match s.input.read? with
    | none => ⟨s, some .inputExhausted⟩
    | some (c, input) =>
      match s.tape.store? c with
      | none => ⟨{ s with input }, some .aboveMaximum⟩
      | some tape => ⟨{ s.credit with tape, input }, none⟩
  | _ => ⟨s, none⟩

end Store

/-- Goes on from an evaluation that ended without a fault. -/
def Evaluation.andThen (e : Evaluation) (next : Store → Option Evaluation) : Option Evaluation :=
  match e.fault with
  | none => next e.store
  | some _ => some e

mutual

/-- Evaluates a block with `depth` frames live; `none` if `fuel` runs out. -/
def Block.evaluate (fuel depth : Nat) (b : Block) (s : Store) : Option Evaluation :=
  match fuel with
  | 0 => none
  | fuel + 1 =>
    match b with
    | .done => some ⟨s, none⟩
    | .simple .call next =>
      match s.callee? with
      | none => some ⟨s, some .undefinedFunction⟩
      | some body =>
        if CallStack.capacity ≤ depth then some ⟨s, some .stackFull⟩
        else
          (body.evaluate fuel (depth + 1) s.credit).bind fun e =>
            e.andThen fun s => next.evaluate fuel depth s
    | .simple o next => (s.act o).andThen fun s => next.evaluate fuel depth s
    | .loop body next =>
      (body.repeats fuel depth s.credit).bind fun e =>
        e.andThen fun s => next.evaluate fuel depth s
    | .define body next =>
      match s.callee? with
      | some _ => some ⟨s, some .alreadyDefined⟩
      | none =>
        next.evaluate fuel depth
          { s.credit with bindings := (s.tape.current, body) :: s.bindings }

/-- Repeats a loop's body while the current cell is nonzero. -/
def Block.repeats (fuel depth : Nat) (body : Block) (s : Store) : Option Evaluation :=
  match fuel with
  | 0 => none
  | fuel + 1 =>
    if s.tape.current = 0 then some ⟨s, none⟩
    else
      (body.evaluate fuel depth s).bind fun e =>
        e.andThen fun s => body.repeats fuel depth s.credit

end

end TapeMachine
