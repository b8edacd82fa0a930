/-
  TapeMachine.Machine.CallStack
  ─────────────────────────────
  The frames of the calls in progress, innermost first; the last one is the
  script itself.  Once that frame is popped the stack stays empty: nothing
  can be pushed on it, and further pops only take its depth further below
  zero.
-/
import TapeMachine.Machine.FunctionTable

namespace TapeMachine

/-- A call in progress: the opcodes it runs and the index of the next one. -/
structure Frame where
  body : Span
  offset : Nat
  deriving Repr, DecidableEq

/-- A frame about to run `body` from its start. -/
def Frame.enter (body : Span) : Frame := ⟨body, body.start⟩

/-- The live frames, innermost first, and the pops made on an empty stack. -/
structure CallStack where
  frames : List Frame
  overdrawn : Nat := 0
  deriving Repr, DecidableEq

namespace CallStack

/-- How many frames there can be, the script's own included. -/
def capacity : Nat := 512

/-- A stack with the script's frame only. -/
def ofScript (body : Span) : CallStack := ⟨[Frame.enter body], 0⟩

/-- The number of calls above the script; negative once the script is done. -/
def depth (s : CallStack) : Int := (s.frames.length : Int) - 1 - s.overdrawn

/-- Whether the script's frame is gone. -/
def isEmpty (s : CallStack) : Bool := s.frames.isEmpty

/-- Whether no further call fits. -/
def isFull (s : CallStack) : Bool := capacity ≤ s.frames.length

/-- The frame that is running. -/
def active? (s : CallStack) : Option Frame := s.frames.head?

/-- Changes the running frame; `none` if there is none. -/
def modify? (s : CallStack) (f : Frame → Frame) : Option CallStack :=
  match s.frames with
  | [] => none
  | frame :: callers => some { s with frames := f frame :: callers }

/-- Calls `body`; the caller goes on at `resume`.  `none` if there is no
caller or no room. -/
def push? (s : CallStack) (resume : Nat) (body : Span) : Option CallStack :=
  match s.frames with
  | [] => none
  | frame :: callers =>
    if s.isFull then none
    else some { s with frames := Frame.enter body :: { frame with offset := resume } :: callers }

/-- Calls `body` so many times, one call within the other. -/
def pushMany? (s : CallStack) (resume : Nat) (body : Span) : (times : Nat) → Option CallStack
  | 0 => some s
  | times + 1 => (s.push? resume body).bind fun s => s.pushMany? resume body times

/-- Returns to the caller. -/
def pop (s : CallStack) : CallStack :=
  match s.frames with
  | [] => { s with overdrawn := s.overdrawn + 1 }
  | _ :: callers => { s with frames := callers }

end CallStack

end TapeMachine
