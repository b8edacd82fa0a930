/-
  TapeMachine.Script.Listing
  ──────────────────────────
  A script's operators, one line each: offset, family, symbol and, unless
  the listing is terse, the operator's name.  A coloured listing wraps
  everything after the offset in the family's colour.
-/
import TapeMachine.Script.Token
import TapeMachine.Text.Column

namespace TapeMachine

namespace Operator.Family

/-- The heading of a family in a listing. -/
def heading : Family → String
  | pointer => "POINTER"
  | arithmetic => "ARITH"
  | exchange => "IO"
  | loop => "LOOP"
  | function => "FUNCTION"

/-- The terminal sequence that switches to a family's colour: cyan, magenta,
green, and yellow for both kinds of brackets. -/
def colour : Family → String
  | pointer => "\x1b[36m"
  | arithmetic => "\x1b[35m"
  | exchange => "\x1b[32m"
  | loop | function => "\x1b[33m"

end Operator.Family

namespace Script

/-- How a listing is laid out. -/
structure Listing where
  /-- Whether lines carry colour. -/
  coloured : Bool := true
  /-- Whether the operator's name follows its symbol. -/
  named : Bool := true
  deriving Repr, DecidableEq

namespace Listing

/-- The terminal sequence that ends a colour. -/
def plainAgain : String := "\x1b[0m"

/-- The line of one operator. -/
def line (l : Listing) (t : Token) : String :=
  let family := t.operator.family
  let offset := Text.zeroPadded 4 t.offset
  let heading := Text.blankPadded 8 family.heading
  let symbol := t.operator.symbol
  let name := if l.named then " " ++ t.operator.name else ""
  let colour := if l.coloured then family.colour else ""
  let reset := if l.coloured then plainAgain else ""
  s!"[{offset}] {colour}{heading} {symbol}{name}{reset}"

/-- The listing of a script's operators. -/
def render (l : Listing) (ts : List Token) : String := Text.unlines (ts.map l.line)

end Listing

end Script

end TapeMachine
