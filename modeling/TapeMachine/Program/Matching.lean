/-
  TapeMachine.Program.Matching
  ────────────────────────────
  **WHICH BRACKET BELONGS TO WHICH.**

  The table has one entry per opcode: a bracket's entry is the index of its
  partner, every other entry is 0.  The table is defined for every stream,
  balanced or not:

      · loops are matched inside their region, the root or the open function;
      · a `]` with nothing to close in its region is left alone;
      · a `(` starts a new region even if a function is open, whose loops
        are then never matched;
      · a `)` closes the open function and returns to the root.
-/
import TapeMachine.Program.Opcode

namespace TapeMachine

/-- The partner table of a stream, and how many `(` it has. -/
structure Matching where
  table : Array Nat
  functions : Nat
  deriving Repr, DecidableEq

namespace Matching

/-! ## §1. The state of the pass. -/

/-- A `(` that waits for its `)`, and the open loops since (innermost first). -/
structure Region where
  start : Nat
  loops : List Nat
  deriving Repr, DecidableEq

/-- The table so far, the open loops of the root, and the open function. -/
structure Pass where
  table : Array Nat
  functions : Nat
  loops : List Nat
  region : Option Region
  deriving Repr, DecidableEq

namespace Pass

/-- The state before a stream of `length` opcodes. -/
def start (length : Nat) : Pass := ⟨Array.replicate length 0, 0, [], none⟩

/-- Makes `i` and `j` partners. -/
def link (m : Pass) (i j : Nat) : Pass :=
  { m with table := (m.table.setIfInBounds i j).setIfInBounds j i }

/-! ## §2. One operator, and the whole pass. -/

/-- Reads the operator at index `i`. -/
def step (m : Pass) (operator : Operator) (i : Nat) : Pass :=
  match operator, m.region with
  | .loopOpen, none => { m with loops := i :: m.loops }
  | .loopOpen, some r => { m with region := some { r with loops := i :: r.loops } }
  | .loopClose, none =>
    match m.loops with
    | [] => m
    | j :: outer => { m.link j i with loops := outer }
  | .loopClose, some r =>
    match r.loops with
    | [] => m
    | j :: outer => { m.link j i with region := some { r with loops := outer } }
  | .bodyOpen, _ => { m with functions := m.functions + 1, region := some ⟨i, []⟩ }
  | .bodyClose, none => m
  | .bodyClose, some r => { m.link r.start i with region := none }
  | _, _ => m

/-- Reads a stream whose first opcode has index `i`. -/
def run (m : Pass) (i : Nat) : List Opcode → Pass
  | [] => m
  | op :: rest => (m.step op.operator i).run (i + 1) rest

end Pass

/-- The matching of a stream of opcodes. -/
def ofOpcodes (ops : List Opcode) : Matching :=
  let pass := (Pass.start ops.length).run 0 ops
  ⟨pass.table, pass.functions⟩

end Matching

end TapeMachine
