/-
  TapeMachine.Proofs.Runs
  ───────────────────────
  **RUNS, AND HOW ONE RUN FOLLOWS ANOTHER.**

  `Run.Leads` is a number of steps that did not halt, `Run.Halts` a
  run that did.  Steps are a function, so a run halts in one way only.

  Two engines are compared by a `Simulation`: the first never gets stuck,
  each step of it is one step or more of the second, and when it
  halts the second stands where `E` says.  From that alone, for whole runs:

    • `Simulation.forward` — if the first halts, the second gets to a state
      that `E` allows;
    • `Simulation.backward` — if the second halts, so does the first, since
      it makes no more steps than the second.

  The second engine may take longer over a step but never gets ahead, so no
  measure is needed besides the number of its steps.
-/
import TapeMachine.Machine.Execute

namespace TapeMachine

namespace Run

variable {p : Program} {t : Terms}

/-! ## §1. Steps in a row. -/

/-- `n` steps lead from `r` to `r'`. -/
def Leads (p : Program) (t : Terms) (n : Nat) (r r' : Run) : Prop :=
  r.steps p t n = .unfinished r'

/-- The run from `r` halts with `code` at `r'`. -/
def Halts (p : Program) (t : Terms) (r : Run) (code : ExitCode) (r' : Run) : Prop :=
  ∃ n, r.steps p t n = .halted code r'

theorem Leads.refl (r : Run) : Leads p t 0 r r := rfl

theorem steps_of_next {r r' : Run} (h : r.step? p t = some (.next r')) (n : Nat) :
    r.steps p t (n + 1) = r'.steps p t n := by
  rw [steps, h]

theorem steps_of_halt {r r' : Run} {code : ExitCode} (h : r.step? p t = some (.halt code r'))
    (n : Nat) : r.steps p t (n + 1) = .halted code r' := by
  rw [steps, h]

theorem steps_of_stuck {r : Run} (h : r.step? p t = none) (n : Nat) :
    r.steps p t (n + 1) = .stuck := by
  rw [steps, h]

theorem Leads.single {r r' : Run} (h : r.step? p t = some (.next r')) : Leads p t 1 r r' :=
  steps_of_next h 0

theorem Leads.steps_add {n : Nat} {r r' : Run} (h : Leads p t n r r') (k : Nat) :
    r.steps p t (n + k) = r'.steps p t k := by
  rw [Run.steps_add, h]
  rfl

theorem Leads.trans {n k : Nat} {r r' r'' : Run} (h : Leads p t n r r') (h' : Leads p t k r' r'') :
    Leads p t (n + k) r r'' := by
  rw [Leads, h.steps_add]
  exact h'

theorem Leads.step {n : Nat} {r r' r'' : Run} (h : r.step? p t = some (.next r'))
    (h' : Leads p t n r' r'') : Leads p t (n + 1) r r'' := by
  rw [Leads, steps_of_next h]
  exact h'

theorem Leads.halts {n : Nat} {r r' r'' : Run} {code : ExitCode} (h : Leads p t n r r')
    (h' : Halts p t r' code r'') : Halts p t r code r'' := by
  obtain ⟨k, hk⟩ := h'
  exact ⟨n + k, by rw [h.steps_add, hk]⟩

theorem halts_of_step {r r' : Run} {code : ExitCode} (h : r.step? p t = some (.halt code r')) :
    Halts p t r code r' :=
  ⟨1, steps_of_halt h 0⟩

/-- Steps that lead somewhere are the first steps of every run that halts. -/
theorem Leads.of_halted {n k : Nat} {r r' r'' : Run} {code : ExitCode} (h : Leads p t n r r')
    (hk : r.steps p t k = .halted code r'') :
    n < k ∧ r'.steps p t (k - n) = .halted code r'' := by
  rcases Nat.lt_or_ge n k with hlt | hge
  · refine ⟨hlt, ?_⟩
    rw [← h.steps_add, Nat.add_sub_cancel' (Nat.le_of_lt hlt)]
    exact hk
  · have hmore := steps_of_halted hk (n - k)
    rw [Nat.add_sub_cancel' hge, h] at hmore
    cases hmore

theorem Leads.halts_iff {n : Nat} {r r' r'' : Run} {code : ExitCode} (h : Leads p t n r r') :
    Halts p t r code r'' ↔ Halts p t r' code r'' :=
  ⟨fun ⟨_, hk⟩ => ⟨_, (h.of_halted hk).2⟩, h.halts⟩

/-- What holds at the start and is kept by every step holds all along a run. -/
theorem Leads.keeps {P : Run → Prop}
    (hkeeps : ∀ {r r' : Run}, P r → r.step? p t = some (.next r') → P r') {n : Nat} :
    ∀ {r r' : Run}, P r → Leads p t n r r' → P r' := by
  induction n with
  | zero =>
    intro r r' h hlead
    cases hlead
    exact h
  | succ n ih =>
    intro r r' h hlead
    have hsteps : r.steps p t (n + 1) = .unfinished r' := hlead
    cases hstep : r.step? p t with
    | none =>
      rw [steps_of_stuck hstep] at hsteps
      cases hsteps
    | some step =>
      cases step with
      | next r₁ =>
        rw [steps_of_next hstep] at hsteps
        exact ih (hkeeps h hstep) hsteps
      | halt code r₁ =>
        rw [steps_of_halt hstep] at hsteps
        cases hsteps

/-- A call that halts does so in a last step. -/
theorem exists_leads_halt {code : ExitCode} {r' : Run} (n : Nat) :
    ∀ {r : Run}, r.steps p t n = .halted code r' →
      ∃ k r₁, Leads p t k r r₁ ∧ r₁.step? p t = some (.halt code r') := by
  induction n with
  | zero =>
    intro r h
    cases h
  | succ n ih =>
    intro r h
    cases hstep : r.step? p t with
    | none =>
      rw [steps_of_stuck hstep] at h
      cases h
    | some step =>
      cases step with
      | next r₁ =>
        rw [steps_of_next hstep] at h
        obtain ⟨k, r₂, hleads, hhalt⟩ := ih h
        exact ⟨k + 1, r₂, .step hstep hleads, hhalt⟩
      | halt c r₁ =>
        rw [steps_of_halt hstep] at h
        cases h
        exact ⟨0, r, .refl r, hstep⟩

/-- **A run halts in one way only.** -/
theorem Halts.unique {r r₁ r₂ : Run} {c₁ c₂ : ExitCode} (h₁ : Halts p t r c₁ r₁)
    (h₂ : Halts p t r c₂ r₂) : c₁ = c₂ ∧ r₁ = r₂ := by
  obtain ⟨n, hn⟩ := h₁
  obtain ⟨k, hk⟩ := h₂
  -- given the steps of both, both runs have halted
  have hn' := steps_of_halted hn k
  have hk' := steps_of_halted hk n
  rw [Nat.add_comm, hn'] at hk'
  cases hk'
  exact ⟨rfl, rfl⟩

end Run

/-! ## §2. Simulations. -/

/-- The engine on `p` and `t` is followed by the engine on `q` and `u`: `R`
relates their runs at each step, `E` when the first one halts. -/
structure Simulation (p : Program) (t : Terms) (q : Program) (u : Terms)
    (R : Run → Run → Prop) (E : ExitCode → Run → Run → Prop) : Prop where
  next : ∀ {r s r' : Run}, R r s → r.step? p t = some (.next r') →
    ∃ n s', Run.Leads q u (n + 1) s s' ∧ R r' s'
  halt : ∀ {r s r' : Run} {code : ExitCode}, R r s → r.step? p t = some (.halt code r') →
    E code r' s
  live : ∀ {r s : Run}, R r s → (r.step? p t).isSome

namespace Simulation

variable {p q : Program} {t u : Terms} {R : Run → Run → Prop} {E : ExitCode → Run → Run → Prop}

/-- If the first engine halts, the second gets to where `E` says. -/
theorem forward (sim : Simulation p t q u R E) {r s r' : Run} {code : ExitCode} (hR : R r s)
    (h : Run.Halts p t r code r') : ∃ n s', Run.Leads q u n s s' ∧ E code r' s' := by
  obtain ⟨k, hk⟩ := h
  induction k generalizing r s with
  | zero => cases hk
  | succ k ih =>
    cases hstep : r.step? p t with
    | none =>
      rw [Run.steps_of_stuck hstep] at hk
      cases hk
    | some step =>
      cases step with
      | next r₁ =>
        rw [Run.steps_of_next hstep] at hk
        obtain ⟨n, s₁, hlead, hR₁⟩ := sim.next hR hstep
        obtain ⟨m, s', hlead', hE⟩ := ih hR₁ hk
        exact ⟨_, s', hlead.trans hlead', hE⟩
      | halt c r₁ =>
        rw [Run.steps_of_halt hstep] at hk
        cases hk
        exact ⟨0, s, .refl s, sim.halt hR hstep⟩

/-- If the second engine halts, so does the first, and no later. -/
theorem backward (sim : Simulation p t q u R E) {n : Nat} {r s s' : Run} {code : ExitCode}
    (hR : R r s) (h : s.steps q u n = .halted code s') :
    ∃ c r' k s₁, Run.Halts p t r c r' ∧ Run.Leads q u k s s₁ ∧ E c r' s₁ := by
  induction n using Nat.strongRecOn generalizing r s with
  | ind n ih =>
    -- the first engine has a step, and the second has fewer left after it
    obtain ⟨step, hstep⟩ := Option.isSome_iff_exists.1 (sim.live hR)
    cases step with
    | next r₁ =>
      obtain ⟨k, s₁, hlead, hR₁⟩ := sim.next hR hstep
      obtain ⟨hlt, hrest⟩ := hlead.of_halted h
      obtain ⟨c, r', k', s₂, hhalt, hlead', hE⟩ := ih (n - (k + 1)) (by omega) hR₁ hrest
      exact ⟨c, r', _, s₂, (Run.Leads.single hstep).halts hhalt, hlead.trans hlead', hE⟩
    | halt c r₁ => exact ⟨c, r₁, 0, s, Run.halts_of_step hstep, .refl s, sim.halt hR hstep⟩

end Simulation

end TapeMachine
