/-
  TapeMachine.Script.Block
  ────────────────────────
  **SCRIPTS AS TREES.**

  The operators of a script that passes the check form a tree:

      Script ::= Item Item*
      Item   ::= Simple | [ Body* ] | ( Body Body* )
      Body   ::= Simple | [ Body* ]
      Simple ::= > | < | + | - | . | , | :

  A block is a sequence of items, written as its first item and the block
  after it.  `IsScript` says that a block follows the grammar, and
  `operators` writes it out again.
-/
import TapeMachine.Operator

namespace TapeMachine

/-- The operators that are neither brackets nor parentheses. -/
def Operator.isSimple : Operator → Bool
  | right | left | inc | dec | put | get | call => true
  | loopOpen | loopClose | bodyOpen | bodyClose => false

/-- A sequence of items. -/
inductive Block where
  /-- Nothing more. -/
  | done
  /-- An operator, then the rest. -/
  | simple (operator : Operator) (next : Block)
  /-- A loop, then the rest. -/
  | loop (body next : Block)
  /-- A function definition, then the rest. -/
  | define (body next : Block)
  deriving Repr, DecidableEq

namespace Block

/-- The operators of a block, in the order of the text. -/
def operators : Block → List Operator
  | done => []
  | simple o next => o :: next.operators
  | loop body next => .loopOpen :: (body.operators ++ .loopClose :: next.operators)
  | define body next => .bodyOpen :: (body.operators ++ .bodyClose :: next.operators)

/-- A sequence of `Body` items: what may stand inside a loop or a function. -/
def IsBody : Block → Prop
  | done => True
  | simple o next => o.isSimple ∧ next.IsBody
  | loop body next => body.IsBody ∧ next.IsBody
  | define _ _ => False

/-- A sequence of `Item`s. -/
def IsItems : Block → Prop
  | done => True
  | simple o next => o.isSimple ∧ next.IsItems
  | loop body next => body.IsBody ∧ next.IsItems
  | define body next => (body.IsBody ∧ body ≠ done) ∧ next.IsItems

/-- The tree of a script: items, and at least one. -/
def IsScript (b : Block) : Prop := b.IsItems ∧ b ≠ done

end Block

end TapeMachine
