/-
  TapeMachine.Report.Duration
  ───────────────────────────
  How long a run took, to the nanosecond, and its text in milliseconds.
-/
import TapeMachine.Counter
import TapeMachine.Text.Decimal

namespace TapeMachine

/-- Whole seconds and nanoseconds. -/
structure Duration where
  seconds : Nat := 0
  nanos : Nat := 0
  deriving Repr, DecidableEq

namespace Duration

/-- The nanoseconds of a second. -/
def nanosPerSecond : Nat := 1000000000

/-- Seconds and nanoseconds, with every full second carried over. -/
def ofParts (seconds nanos : Nat) : Duration :=
  ⟨seconds + nanos / nanosPerSecond, nanos % nanosPerSecond⟩

/-- The same, if the seconds are still a count. -/
def ofParts? (seconds nanos : Nat) : Option Duration :=
  (Counter.add? seconds (nanos / nanosPerSecond)).map fun _ => ofParts seconds nanos

/-- The two durations one after the other. -/
def add (a b : Duration) : Duration := ofParts (a.seconds + b.seconds) (a.nanos + b.nanos)

/-- The duration in milliseconds, as a double. -/
def milliseconds (d : Duration) : Float :=
  (d.seconds.toUInt64.toFloat + d.nanos.toUInt64.toFloat / 1000000000.0) * 1000.0

/-- Milliseconds with three decimal places. -/
def text (d : Duration) : String :=
  let (num, den) := Text.binaryFraction d.milliseconds
  s!"{Text.fixed 3 num den}ms"

end Duration

end TapeMachine
