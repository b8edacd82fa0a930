/-
  TapeMachine.Report.Trace
  ────────────────────────
  **THE STACK TRACE.**

  For each frame, innermost first, the script text it has run through: from
  its start up to where it resumes, and in the innermost frame the opcode it
  stopped on too.  The text of a frame is cut after every `[` that is still
  open, so each entry is the part of one loop body (or the top of the
  frame) that was run; the parts of a frame are listed innermost first as
  well, and an empty part is left out.
-/
import TapeMachine.Counter
import TapeMachine.Machine.CallStack
import TapeMachine.Program.Basic

namespace TapeMachine

namespace Program

/-- Whether the opcode at `i` opens a loop that is not closed before `stop`. -/
def isOpenLoop (p : Program) (stop i : Nat) : Bool :=
  (p.opcodes[i]?.any fun op => op.operator == .loopOpen) &&
    (p.partners[i]?.any fun partner => stop ≤ partner)

/-- The points at which the text from `start` to `stop` is cut, both ends
included. -/
def cutPoints (p : Program) (start stop : Nat) : List Nat :=
  let openers := (List.range' start (stop - start)).filter (p.isOpenLoop stop)
  start :: openers.map (· + 1) ++ [stop]

/-- The text from `start` to `stop`, cut at the open loops, innermost part
first. -/
def parts? (p : Program) (start stop : Nat) : Option (List String) :=
  let cuts := p.cutPoints start stop
  let windows := (cuts.zip cuts.tail).reverse.filter fun (a, b) => a < b
  windows.mapM fun (a, b) => p.sourceOf? a b

/-- The parts of a frame that resumes at `resume`. -/
def frameParts? (p : Program) (body : Span) (resume : Nat) : Option (List String) :=
  let stop := min (min resume body.stop) p.size
  p.parts? (min body.start stop) stop

/-- The stack trace of a call stack. -/
def stackTrace? (p : Program) (s : CallStack) : Option (List String) :=
  match s.frames with
  | [] => some []
  | frame :: callers => do
    let inner ← p.frameParts? frame.body (frame.offset + 1)
    let outer ← callers.mapM fun caller => p.frameParts? caller.body caller.offset
    return inner ++ outer.flatten

/-- The stack trace of a call stack that need not come from a run.  There is
none if the running frame stands at the greatest index, which no index
follows. -/
def traceOfAny? (p : Program) (s : CallStack) : Option (List String) :=
  match s.frames with
  | [] => p.stackTrace? s
  | frame :: _ => (Counter.add? frame.offset 1).bind fun _ => p.stackTrace? s

end Program

end TapeMachine
