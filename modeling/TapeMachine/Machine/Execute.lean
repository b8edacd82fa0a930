/-
  TapeMachine.Machine.Execute
  ───────────────────────────
  **CALLS OF THE ENGINE.**

  A script need not come to an end, so a call is given a number of steps.
  If they do not suffice the call is unfinished and its state is handed
  back; more steps from there are the same as more steps from the start
  (`Run.steps_add`).
-/
import TapeMachine.Machine.Step

namespace TapeMachine

/-- What became of a call. -/
inductive Outcome where
  /-- The machine halted. -/
  | halted (code : ExitCode) (r : Run)
  /-- The steps did not suffice; the call can go on from here. -/
  | unfinished (r : Run)
  /-- An index lay outside its table. -/
  | stuck

/-- Makes up to `fuel` steps. -/
def Run.steps (p : Program) (t : Terms) : (fuel : Nat) → Run → Outcome
  | 0, r => .unfinished r
  | fuel + 1, r =>
    match r.step? p t with
    | none => .stuck
    | some (.halt code r') => .halted code r'
    | some (.next r') => r'.steps p t fuel

/-- Makes up to `fuel` steps more after a call that is unfinished. -/
def Outcome.resume (p : Program) (t : Terms) (fuel : Nat) : Outcome → Outcome
  | .unfinished r => r.steps p t fuel
  | o => o

/-- Steps can be made in two portions. -/
theorem Run.steps_add (p : Program) (t : Terms) (first second : Nat) (r : Run) :
    r.steps p t (first + second) = (r.steps p t first).resume p t second := by
  induction first generalizing r with
  | zero => simp [steps, Outcome.resume]
  | succ first ih =>
    rw [Nat.succ_add]
    simp only [steps]
    split
    · rfl
    · rfl
    · exact ih _

/-- More steps than enough change nothing. -/
theorem Run.steps_of_halted {p : Program} {t : Terms} {fuel : Nat} {r r' : Run} {code : ExitCode}
    (h : r.steps p t fuel = .halted code r') (more : Nat) :
    r.steps p t (fuel + more) = .halted code r' := by
  rw [steps_add, h]
  rfl

/-- Calls the engine on a machine. -/
def Machine.execute (p : Program) (t : Terms) (marks : Option (Array Bool)) (fuel : Nat)
    (m : Machine) : Outcome :=
  Run.steps p t fuel ⟨m, marks, 0⟩

end TapeMachine
