/-
  TapeMachine.Machine.Journal
  ───────────────────────────
  The events of a call in their order: functions entered and left,
  the end of the script, and where it halted.  The journal is read off the
  steps, which know nothing of it.
-/
import TapeMachine.Machine.Execute

namespace TapeMachine

/-- Something that happened in a call. -/
inductive Event where
  /-- A function was called; `depth` calls are now in progress. -/
  | entered (key : Nat) (depth : Int)
  /-- A frame came to its end, `depth` calls are left. -/
  | returned (depth : Int)
  /-- The script came to its end. -/
  | completed (operations : Nat)
  /-- The machine halted before the end. -/
  | halted (offset : Nat) (depth : Int) (operations : Nat) (code : ExitCode)
  deriving Repr, DecidableEq

/-- What happened in a step that started from `r`. -/
def Step.events (r : Run) : Step → List Event
  | .next r' =>
    let before := r.machine.stack.depth
    let after := r'.machine.stack.depth
    if before < after then [.entered r.machine.tape.current after]
    else if after < before then
      if r'.machine.stack.isEmpty then [.returned after, .completed r'.machine.operations]
      else [.returned after]
    else []
  | .halt code r' =>
    match r'.machine.stack.active? with
    | none => []
    | some frame => [.halted frame.offset r'.machine.stack.depth r'.machine.operations code]

/-- What happened in up to `fuel` steps from `r`, after `past`, which is
given newest first. -/
def Run.journalFrom (p : Program) (t : Terms) : (fuel : Nat) → Run → (past : List Event) → List Event
  | 0, _, past => past.reverse
  | fuel + 1, r, past =>
    match r.step? p t with
    | none => past.reverse
    | some (.halt code r') => ((Step.halt code r').events r).reverseAux past |>.reverse
    | some (.next r') => r'.journalFrom p t fuel (((Step.next r').events r).reverseAux past)

/-- What happened in up to `fuel` steps from `r`. -/
def Run.journal (p : Program) (t : Terms) (fuel : Nat) (r : Run) : List Event :=
  r.journalFrom p t fuel []

end TapeMachine
