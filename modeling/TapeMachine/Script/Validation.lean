/-
  TapeMachine.Script.Validation
  ─────────────────────────────
  **THE SYNTAX CHECK.**

  A script is one pass over its operators.  A *region* is the root of the
  script or the body of the open function; loops are matched inside their
  region only:

      [        opens a loop in the current region
      ]        closes the innermost loop of the region, which must exist
      (        opens a function: not inside another one, not inside a loop
      )        closes the open function, whose loops are closed and whose
               body has an operator
      others   go anywhere

  A check that stops early counts the operators it has read, the offending
  one included.  A script that is only unfinished is reported at what was
  never closed, the function before the loop.

  The pass keeps the offsets of all open loops, which says at every moment
  where each of them begins.  The check needs less: a depth and the offset of
  the outermost open loop, for each region.  `Proofs.Counting` has that pass
  and proves that it reports the same.
-/
import TapeMachine.Script.Token

namespace TapeMachine

/-! ## §1. What a check reports. -/

/-- Why a script is refused. -/
inductive SyntaxError where
  /-- A `]` without a loop to close, or a loop left open where its function ends. -/
  | mismatchedSquareBracket
  /-- A `)` without a function to close. -/
  | mismatchedParenthesis
  /-- A `(` inside a function. -/
  | nestedFunction
  /-- A `(` inside a loop. -/
  | functionInLoop
  /-- A `)` right after its `(`. -/
  | emptyFunction
  /-- The script ends inside a function. -/
  | unclosedFunction
  /-- The script ends inside a loop. -/
  | unclosedLoop
  /-- The script has no operator at all. -/
  | noOperators
  deriving Repr, DecidableEq

namespace SyntaxError

/-- Every syntax error, in the order of its index in the byte format. -/
def all : List SyntaxError :=
  [.mismatchedSquareBracket, .mismatchedParenthesis, .nestedFunction, .functionInLoop,
    .emptyFunction, .unclosedFunction, .unclosedLoop, .noOperators]

/-- The wording of a syntax error. -/
def message : SyntaxError → String
  | mismatchedSquareBracket => "mismatched square bracket"
  | mismatchedParenthesis => "mismatched parenthesis"
  | nestedFunction => "function declared inside another function"
  | functionInLoop => "function declared inside a loop"
  | emptyFunction => "function body has no operators"
  | unclosedFunction => "function declaration is never closed"
  | unclosedLoop => "loop is never closed"
  | noOperators => "script contains no operators"

end SyntaxError

/-- The result of a check: the error if there is one, the offset it is
reported at (`-1` when there is none to report), and the operators read. -/
structure Validation where
  error : Option SyntaxError
  offset : Int
  count : Nat
  deriving Repr, DecidableEq

namespace Validation

/-- A script of `count` operators passed the check. -/
def success (count : Nat) : Validation := ⟨none, -1, count⟩

/-- The check failed at `offset`, having read `count` operators. -/
def failure (error : SyntaxError) (offset : Nat) (count : Nat) : Validation :=
  ⟨some error, offset, count⟩

/-- Whether the check passed. -/
def isSuccess (v : Validation) : Bool := v.error.isNone

/-- The wording of a check's result. -/
def message (v : Validation) : String :=
  match v.error with
  | none => s!"ok ({v.count} operators)"
  | some error => if v.offset < 0 then error.message else s!"{v.offset}: {error.message}"

end Validation

namespace Script

/-! ## §2. The state of the pass. -/

/-- A function whose `)` has not been read: where it starts, the offsets of
its open loops (innermost first) and how many operators its body has so far. -/
structure OpenBody where
  start : Nat
  loops : List Nat
  size : Nat
  deriving Repr, DecidableEq

/-- What has been read: the number of operators, the open loops of the root
(innermost first), and the open function. -/
structure Scan where
  count : Nat
  loops : List Nat
  body : Option OpenBody
  deriving Repr, DecidableEq

/-- Nothing read yet. -/
def Scan.start : Scan := ⟨0, [], none⟩

/-! ## §3. One operator, and the whole pass. -/

/-- Reads one operator: the next state, or the report of a script that no
continuation can mend. -/
def Scan.step (s : Scan) (t : Token) : Except Validation Scan :=
  let count := s.count + 1
  let refuse (error : SyntaxError) (offset : Nat) : Except Validation Scan :=
    .error (.failure error offset count)
  match t.operator, s.body with
  | .loopOpen, none => .ok { s with count, loops := t.offset :: s.loops }
  | .loopOpen, some b =>
    .ok { s with count, body := some { b with loops := t.offset :: b.loops, size := b.size + 1 } }
  | .loopClose, none =>
    match s.loops with
    | [] => refuse .mismatchedSquareBracket t.offset
    | _ :: outer => .ok { s with count, loops := outer }
  | .loopClose, some b =>
    match b.loops with
    | [] => refuse .mismatchedSquareBracket t.offset
    | _ :: outer => .ok { s with count, body := some { b with loops := outer, size := b.size + 1 } }
  | .bodyOpen, none =>
    match s.loops with
    | [] => .ok { s with count, body := some ⟨t.offset, [], 0⟩ }
    | _ :: _ => refuse .functionInLoop t.offset
  | .bodyOpen, some _ => refuse .nestedFunction t.offset
  | .bodyClose, none => refuse .mismatchedParenthesis t.offset
  | .bodyClose, some b =>
    match b.loops.getLast? with
    | some outermost => refuse .mismatchedSquareBracket outermost
    | none =>
      if b.size = 0 then refuse .emptyFunction t.offset else .ok { s with count, body := none }
  | _, none => .ok { s with count }
  | _, some b => .ok { s with count, body := some { b with size := b.size + 1 } }

/-- The report at the end of the script. -/
def Scan.finish (s : Scan) : Validation :=
  match s.body, s.loops.getLast? with
  | some b, _ => .failure .unclosedFunction b.start s.count
  | none, some outermost => .failure .unclosedLoop outermost s.count
  | none, none => if s.count = 0 then ⟨some .noOperators, -1, 0⟩ else .success s.count

/-- Reads the remaining operators and reports. -/
def Scan.run (s : Scan) : List Token → Validation
  | [] => s.finish
  | t :: rest =>
    match s.step t with
    | .error report => report
    | .ok s' => s'.run rest

/-- Checks a script. -/
def validate (source : String) : Validation := Scan.start.run (tokens source)

end Script

end TapeMachine
