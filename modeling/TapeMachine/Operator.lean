/-
  TapeMachine.Operator
  ────────────────────
  **THE ELEVEN OPERATORS.**

  A script is text in which eleven characters act and all others are
  comment:

      >  <      move the pointer          +  -   change the current cell
      .  ,      write and read a char     [  ]   loop while the cell is nonzero
      (  )      define a function         :      call a function

  A function has no name: its key is the value of the current cell, both
  when it is defined and when it is called.

  Main statements: `ofChar?` and `symbol` are inverse to each other
  (`ofChar?_symbol`, `ofChar?_eq_some_iff`).
-/

namespace TapeMachine

/-! ## §1. Operators and their characters. -/

/-- One operator of the language. -/
inductive Operator where
  /-- `>`: move the pointer to the next cell. -/
  | right
  /-- `<`: move the pointer to the cell before. -/
  | left
  /-- `+`: add one to the current cell. -/
  | inc
  /-- `-`: subtract one from the current cell. -/
  | dec
  /-- `.`: write the current cell as a character. -/
  | put
  /-- `,`: read a character into the current cell. -/
  | get
  /-- `[`: skip the loop if the current cell is zero. -/
  | loopOpen
  /-- `]`: repeat the loop unless the current cell is zero. -/
  | loopClose
  /-- `(`: define a function, keyed by the current cell. -/
  | bodyOpen
  /-- `)`: end of a function's body. -/
  | bodyClose
  /-- `:`: call the function keyed by the current cell. -/
  | call
  deriving Repr, DecidableEq, Inhabited

namespace Operator

/-- Every operator, in the order of its index in the byte format. -/
def all : List Operator :=
  [.right, .left, .inc, .dec, .put, .get, .loopOpen, .loopClose, .bodyOpen, .bodyClose, .call]

/-- The character that stands for the operator in a script. -/
def symbol : Operator → Char
  | right => '>'
  | left => '<'
  | inc => '+'
  | dec => '-'
  | put => '.'
  | get => ','
  | loopOpen => '['
  | loopClose => ']'
  | bodyOpen => '('
  | bodyClose => ')'
  | call => ':'

/-- The operator a character stands for; `none` for a comment character. -/
def ofChar? : Char → Option Operator
  | '>' => some right
  | '<' => some left
  | '+' => some inc
  | '-' => some dec
  | '.' => some put
  | ',' => some get
  | '[' => some loopOpen
  | ']' => some loopClose
  | '(' => some bodyOpen
  | ')' => some bodyClose
  | ':' => some call
  | _ => none

@[simp] theorem ofChar?_symbol (o : Operator) : ofChar? o.symbol = some o := by
  cases o <;> rfl

theorem ofChar?_eq_some_iff {c : Char} {o : Operator} : ofChar? c = some o ↔ c = o.symbol := by
  refine ⟨fun h => ?_, fun h => h ▸ ofChar?_symbol o⟩
  unfold ofChar? at h
  split at h <;> cases h <;> rfl

/-- Whether the character is an operator at all. -/
def isSymbol (c : Char) : Bool := (ofChar? c).isSome

/-- The word for the operator in a listing. -/
def name : Operator → String
  | right => "ForwardPtr"
  | left => "BackwardPtr"
  | inc => "Plus"
  | dec => "Minus"
  | put => "PrintChar"
  | get => "ReadChar"
  | loopOpen => "LoopStart"
  | loopClose => "LoopEnd"
  | bodyOpen => "FunctionStart"
  | bodyClose => "FunctionEnd"
  | call => "FunctionCall"

/-! ## §2. Classes of operators. -/

/-- The operators of which a run can be packed into one counted opcode:
the pointer moves and the cell arithmetic. -/
def isRepeatable : Operator → Bool
  | right | left | inc | dec => true
  | _ => false

/-- What an operator is about. -/
inductive Family where
  | pointer
  | arithmetic
  | exchange
  | loop
  | function
  deriving Repr, DecidableEq

/-- The family of an operator. -/
def family : Operator → Family
  | right | left => .pointer
  | inc | dec => .arithmetic
  | put | get => .exchange
  | loopOpen | loopClose => .loop
  | bodyOpen | bodyClose | call => .function

end Operator

end TapeMachine
