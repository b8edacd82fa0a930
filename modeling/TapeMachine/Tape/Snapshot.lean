/-
  TapeMachine.Tape.Snapshot
  ─────────────────────────
  Saving a tape and loading it.  What is loaded has to be a tape the machine
  could have left: the size is checked first, then the pointer and the
  cells.  Bytes after the tape are ignored.
-/
import TapeMachine.Wire.Record

namespace TapeMachine.Tape

/-- The tape as bytes. -/
def save (t : Tape) : Wire.Bytes := Tape.codec.encode t

/-- Whether the pointer is on a cell and no cell exceeds the maximum. -/
def isSound (t : Tape) : Bool :=
  t.pointer < t.size && t.cells.all fun c => c ≤ t.mode.max

/-- The tape in the bytes. -/
def load (bytes : Wire.Bytes) : Except Error Tape :=
  match Tape.codec.read bytes with
  | .error cause => .error (.snapshot cause)
  | .ok t =>
    if ¬ AllowedSize t.size then .error (.tapeSize t.size)
    else if t.isSound then .ok t
    else .error (.snapshot .badEncoding)

end TapeMachine.Tape
