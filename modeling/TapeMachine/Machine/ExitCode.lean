/-
  TapeMachine.Machine.ExitCode
  ────────────────────────────
  Why a machine halted.
-/

namespace TapeMachine

/-- The reasons for which execution stops. -/
inductive ExitCode where
  /-- The script ran to its end. -/
  | success
  /-- A breakpoint was met. -/
  | breakpoint
  /-- `>` on the last cell. -/
  | pastEnd
  /-- `<` on the first cell. -/
  | beforeStart
  /-- `+` or `,` would exceed a checked cell's maximum. -/
  | aboveMaximum
  /-- `-` on a checked cell that is zero. -/
  | belowZero
  /-- `.` with no room left in the output. -/
  | outputFull
  /-- `,` with no input left. -/
  | inputExhausted
  /-- The budget was spent at a `]` or a `:`. -/
  | budgetSpent
  /-- `(` with a key that has a function already. -/
  | alreadyDefined
  /-- `:` with a key that has no function. -/
  | undefinedFunction
  /-- `:` with all frames in use. -/
  | stackFull
  deriving Repr, DecidableEq

namespace ExitCode

/-- Every exit code, in the order of its index in the byte format. -/
def all : List ExitCode :=
  [.success, .breakpoint, .pastEnd, .beforeStart, .aboveMaximum, .belowZero, .outputFull,
    .inputExhausted, .budgetSpent, .alreadyDefined, .undefinedFunction, .stackFull]

/-- The wording of an exit code. -/
def message : ExitCode → String
  | success => "success"
  | breakpoint => "breakpoint reached"
  | pastEnd => "pointer moved past the end of the tape"
  | beforeStart => "pointer moved before the start of the tape"
  | aboveMaximum => "cell value above the maximum"
  | belowZero => "cell value below zero"
  | outputFull => "stdout buffer full"
  | inputExhausted => "stdin buffer exhausted"
  | budgetSpent => "execution threshold exceeded"
  | alreadyDefined => "function already defined"
  | undefinedFunction => "undefined function called"
  | stackFull => "stack limit exceeded"

/-- The word for an exit code in logs. -/
def name : ExitCode → String
  | success => "Success"
  | breakpoint => "BreakpointReached"
  | pastEnd => "UpperBoundExceeded"
  | beforeStart => "LowerBoundExceeded"
  | aboveMaximum => "MaxValueExceeded"
  | belowZero => "NegativeValue"
  | outputFull => "StdoutBufferLimitExceeded"
  | inputExhausted => "StdinBufferExhausted"
  | budgetSpent => "ThresholdExceeded"
  | alreadyDefined => "DuplicateFunctionDefinition"
  | undefinedFunction => "UndefinedFunctionCalled"
  | stackFull => "StackLimitExceeded"

/-- Whether the script ran to its end. -/
def isSuccess (c : ExitCode) : Bool := c == success

/-- Whether execution only paused. -/
def isBreakpoint (c : ExitCode) : Bool := c == breakpoint

/-- Whether something kept the script from its end. -/
def isFault (c : ExitCode) : Bool := !c.isSuccess && !c.isBreakpoint

end ExitCode

end TapeMachine
