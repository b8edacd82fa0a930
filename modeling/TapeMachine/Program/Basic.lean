/-
  TapeMachine.Program.Basic
  ─────────────────────────
  A compiled script: the opcodes, where each one starts in the text, and
  the partner of every bracket.  Compiling trusts the report it is given,
  so a program can be made of a script that would not pass the check; its
  unmatched brackets then have partner 0.
-/
import TapeMachine.Error
import TapeMachine.Program.Matching

namespace TapeMachine

/-- A compiled script. -/
structure Program where
  /-- The instruction stream. -/
  opcodes : Array Opcode
  /-- For each opcode, the character offset of its first operator. -/
  offsets : Array Nat
  /-- For each bracket, the index of its partner; 0 elsewhere. -/
  partners : Array Nat
  /-- How many `(` the script has. -/
  functionCount : Nat
  /-- How many operators the script has. -/
  operatorCount : Nat
  granularity : Granularity
  deriving Repr, DecidableEq

namespace Program

/-- The number of opcodes. -/
def size (p : Program) : Nat := p.opcodes.size

/-- The program of a list of tokens, with `operatorCount` as its number of
operators. -/
def ofTokens (g : Granularity) (operatorCount : Nat) (ts : List Token) : Program :=
  let instructions := Instruction.pack g ts
  let opcodes := instructions.map (·.opcode)
  let matching := Matching.ofOpcodes opcodes
  { opcodes := opcodes.toArray
    offsets := (instructions.map (·.offset)).toArray
    partners := matching.table
    functionCount := matching.functions
    operatorCount
    granularity := g }

/-- Compiles a script, given the report of a check, which is not repeated; an
error unless the report is a success. -/
def compileAs (report : Validation) (g : Granularity) (source : String) : Except Error Program :=
  if report.isSuccess then .ok (ofTokens g report.count (Script.tokens source))
  else .error (.malformed report)

/-- The most opcodes that room can be set aside for. -/
def maxReserved : Nat := Nat.pow 2 61 - 1

/-- Compiles a script, given the report of a check, with room set aside for as many
opcodes as the report announces operators; `none` if there is no such room. -/
def compileReserving? (report : Validation) (g : Granularity) (source : String) :
    Option (Except Error Program) :=
  if report.isSuccess ∧ maxReserved < report.count then none
  else some (compileAs report g source)

/-- Checks a script and compiles it. -/
def compile (g : Granularity) (source : String) : Except Error Program :=
  compileAs (Script.validate source) g source

/-- The script text of the opcodes from `start` up to `stop`; `none` unless
that is a slice of the program. -/
def sourceOf? (p : Program) (start stop : Nat) : Option String :=
  if start ≤ stop ∧ stop ≤ p.size then
    some (Opcode.sourceText (p.opcodes.extract start stop).toList)
  else none

end Program

end TapeMachine
