/-
  TapeMachine.Error
  ─────────────────
  Everything that can keep a script from being started, and its wording.
  What goes wrong once a script runs is an exit code, not an error.
-/
import TapeMachine.Script.Validation
import TapeMachine.Wire.DecodeError

namespace TapeMachine

/-- The least and the greatest number of cells of a tape. -/
def minTapeSize : Nat := 32

@[inherit_doc minTapeSize]
def maxTapeSize : Nat := 1024

/-- Why a script was not started. -/
inductive Error where
  /-- The script does not pass the syntax check. -/
  | malformed (report : Validation)
  /-- A tape of this size is not allowed. -/
  | tapeSize (size : Nat)
  /-- A breakpoint lies outside a script of this many characters. -/
  | breakpoint (offset length : Nat)
  /-- The bytes are not a saved tape. -/
  | snapshot (cause : Wire.DecodeError)
  deriving Repr, DecidableEq

/-- The wording of an error. -/
def Error.message : Error → String
  | malformed report => s!"syntax error: {report.message}"
  | tapeSize size => s!"memory size {size} outside [{minTapeSize}, {maxTapeSize}]"
  | breakpoint offset length =>
    s!"breakpoint offset {offset} outside source of length {length}"
  | snapshot cause => s!"invalid machine state snapshot: {cause.message}"

end TapeMachine
