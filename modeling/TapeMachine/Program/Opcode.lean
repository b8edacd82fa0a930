/-
  TapeMachine.Program.Opcode
  ──────────────────────────
  **COUNTED OPERATORS AND THE PACKED STREAM.**

  An opcode is an operator and how often it is repeated.  A plain stream
  has one opcode per operator; a packed stream joins neighbouring equal
  operators, comments between them or not, when

      · the operator is repeatable (`>` `<` `+` `-`), and
      · the opcode so far counts fewer than 65535 operators.

  An opcode keeps the offset of its first operator.
-/
import TapeMachine.Script.Token

namespace TapeMachine

/-! ## §1. Opcodes. -/

/-- An operator and how many times it is carried out. -/
structure Opcode where
  operator : Operator
  count : Nat
  deriving Repr, DecidableEq

namespace Opcode

/-- A single operator. -/
def one (operator : Operator) : Opcode := ⟨operator, 1⟩

/-- The largest count of one opcode. -/
def maxCount : Nat := 65535

/-- Whether one more `operator` can be counted by this opcode. -/
def absorbs (op : Opcode) (operator : Operator) : Bool :=
  op.operator == operator && operator.isRepeatable && op.count < maxCount

/-- The script text of an opcode: its symbol, repeated. -/
def symbols (op : Opcode) : List Char := List.replicate op.count op.operator.symbol

/-- The script text of a stream of opcodes. -/
def sourceText (ops : List Opcode) : String := String.ofList (ops.flatMap symbols)

end Opcode

/-! ## §2. From tokens to a stream. -/

/-- How many operators an opcode may stand for. -/
inductive Granularity where
  /-- One opcode per operator, so that every operator can be stopped at. -/
  | plain
  /-- Runs of a repeatable operator share an opcode. -/
  | packed
  deriving Repr, DecidableEq, Inhabited

namespace Granularity

/-- Every granularity, in the order of its index in the byte format. -/
def all : List Granularity := [.plain, .packed]

/-- The word for a granularity in listings and logs. -/
def name : Granularity → String
  | plain => "Uncompressed"
  | packed => "Compressed"

end Granularity

/-- An opcode and the offset of its first operator. -/
structure Instruction where
  opcode : Opcode
  offset : Nat
  deriving Repr, DecidableEq

namespace Instruction

/-- Adds an operator to a stream that is kept newest first. -/
def push (g : Granularity) (stream : List Instruction) (t : Token) : List Instruction :=
  match g, stream with
  | .packed, last :: older =>
    if last.opcode.absorbs t.operator then
      { last with opcode := ⟨t.operator, last.opcode.count + 1⟩ } :: older
    else ⟨.one t.operator, t.offset⟩ :: stream
  | _, _ => ⟨.one t.operator, t.offset⟩ :: stream

/-- The stream of a list of tokens. -/
def pack (g : Granularity) (ts : List Token) : List Instruction := (ts.foldl (push g) []).reverse

end Instruction

end TapeMachine
