/-
  TapeMachine.Machine.Reachable
  ─────────────────────────────
  The machines that calls of the engine lead to.  The calls may differ in
  everything: breakpoints, whether they are passed by, and the budget.  A
  machine that halted on a fault can be called again.
-/
import TapeMachine.Machine.Execute

namespace TapeMachine

/-- A breakpoint table that fits a program, or none. -/
def Program.FitsMarks (p : Program) : Option (Array Bool) → Prop
  | none => True
  | some table => table.size = p.size

/-- One call of the engine on `p` takes a machine and a breakpoint table to
a code, a machine and a table. -/
def Machine.HaltsWith (p : Program) (t : Terms) (m : Machine) (marks : Option (Array Bool))
    (code : ExitCode) (m' : Machine) (marks' : Option (Array Bool)) : Prop :=
  ∃ fuel polls, m.execute p t marks fuel = .halted code ⟨m', marks', polls⟩

/-- Where a call halted, if it did. -/
def Outcome.rest? : Outcome → Option (ExitCode × Run)
  | .halted code r => some (code, r)
  | .unfinished _ | .stuck => none

/-- A call that halts within `fuel` steps. -/
theorem Machine.haltsWith_of_rest? {p : Program} {t : Terms} {m : Machine}
    {marks : Option (Array Bool)} {fuel : Nat} {code : ExitCode} {r : Run}
    (h : (m.execute p t marks fuel).rest? = some (code, r)) :
    m.HaltsWith p t marks code r.machine r.marks := by
  refine ⟨fuel, r.polls, ?_⟩
  cases hrun : m.execute p t marks fuel with
  | halted code' r' =>
    rw [hrun] at h
    cases h
    rfl
  | unfinished r' =>
    rw [hrun] at h
    cases h
  | stuck =>
    rw [hrun] at h
    cases h

/-- A call that halts within `fuel` steps, given a value computed from where it
halted. -/
theorem Machine.exists_haltsWith {p : Program} {t : Terms} {m : Machine}
    {marks : Option (Array Bool)} {fuel : Nat} {β : Type} {f : ExitCode × Run → Option β} {b : β}
    (h : (m.execute p t marks fuel).rest?.bind f = some b) :
    ∃ code m' marks' polls, m.HaltsWith p t marks code m' marks'
      ∧ f (code, ⟨m', marks', polls⟩) = some b := by
  obtain ⟨⟨code, m', marks', polls⟩, hrest, hf⟩ := Option.bind_eq_some_iff.1 h
  exact ⟨code, m', marks', polls, haltsWith_of_rest? hrest, hf⟩

/-- A result from which a value can be computed is not an error. -/
theorem exists_ok {ε α β : Type} {result : Except ε α} {f : α → Option β} {b : β}
    (h : result.toOption.bind f = some b) : ∃ a, result = .ok a ∧ f a = some b := by
  cases result with
  | error e => cases h
  | ok a => exact ⟨a, rfl, h⟩

/-- A value computed from a result, if the result is known. -/
theorem seen_of_ok {ε α β : Type} {result : Except ε α} {f : α → Option β} {a : α} {b : β}
    (h : result.toOption.bind f = some b) (hok : result = .ok a) : f a = some b := by
  rw [hok] at h
  exact h

/-- The machines that calls of the engine leave, one after the other, from
`start` on. -/
inductive Machine.Reachable (p : Program) (start : Machine) : Machine → Prop
  /-- The machine before any call. -/
  | start : Reachable p start start
  /-- The machine after one more call. -/
  | call {m m' : Machine} {t : Terms} {marks marks' : Option (Array Bool)} {code : ExitCode}
      (before : Reachable p start m) (fits : p.FitsMarks marks)
      (halts : m.HaltsWith p t marks code m' marks') : Reachable p start m'

end TapeMachine
