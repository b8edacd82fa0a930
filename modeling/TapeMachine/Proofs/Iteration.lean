/-
  TapeMachine.Proofs.Iteration
  ────────────────────────────
  **`[-]` IN ONE STEP, OR ITERATED.**

  A call that does `[-]` in one step and the same call iterating it, with
  the same breakpoints, end alike.  The one step is only taken where no
  breakpoint is set inside the loop, so there is nothing that iterating
  could have met (`Terms.stops?_of_resets?`):

    • `iterated_next` — a step is one step or more of the call that
      iterates, to the same machine and with the same breakpoints,
    • `iterated_halt` — they halt in the same way.

  This needs no balanced script: a `[` has the partner it needs for the one
  step only where that partner is its own `]`, and no frame ends between the
  two.  So it holds on every machine that calls on a compiled script lead to
  (`reset_equals_iterating`).
-/
import TapeMachine.Proofs.Stepwise

namespace TapeMachine

/-! ## §1. The terms of a call that iterates. -/

namespace Terms

/-- The same terms, but for `[-]`, which is iterated. -/
def iterated (t : Terms) : Terms := { t with shortcut := false }

variable {t : Terms} {p : Program} {marks : Option (Array Bool)} {i : Nat}

@[simp] theorem stops?_iterated : t.iterated.stops? marks i = t.stops? marks i := rfl

@[simp] theorem resets?_iterated : t.iterated.resets? p marks i = some false := rfl

@[simp] theorem budget_iterated : t.iterated.budget = t.budget := rfl

/-- A loop that is done in one step has no breakpoint inside. -/
theorem unmarked?_of_resets? (h : t.resets? p marks i = some true) :
    unmarked? marks (i + 1) = some true := by
  have hreset := isReset?_of_resets? h
  unfold Program.isReset? at hreset
  split at hreset
  · cases hreset
  · split at hreset
    · split at hreset
      · cases hreset
      · split at hreset
        · exact hreset
        · cases hreset
    · cases hreset

/-- So there is none to be met by iterating it. -/
theorem stops?_of_resets? (h : t.resets? p marks i = some true)
    (hstops : t.stops? marks i = some false) (k : Nat) (hk : i ≤ k) (hk' : k ≤ i + 2) :
    t.stops? marks k = some false := by
  have hunmarked := unmarked?_of_resets? h
  cases marks with
  | none => exact Run.stops?_none t k
  | some table =>
    unfold unmarked? at hunmarked
    dsimp only at hunmarked
    split at hunmarked
    · next first second hfirst hsecond =>
      obtain ⟨rfl, rfl⟩ : first = false ∧ second = false := by
        simpa using Option.some.inj hunmarked
      unfold stops? at hstops ⊢
      cases hbypass : t.bypass with
      | true => rfl
      | false =>
        rw [hbypass] at hstops
        -- `k` is the `[`, the `-` or the `]`
        obtain rfl | rfl | rfl : k = i ∨ k = i + 1 ∨ k = i + 1 + 1 := by omega
        · exact hstops
        · exact hfirst
        · exact hsecond
    · cases hunmarked

end Terms

/-! ## §2. Step by step. -/

section Iterated

variable {p : Program} {t : Terms} {m : Machine} {marks : Option (Array Bool)} {polls : Nat}

/-- **A step is one or more steps of the call that iterates.** -/
theorem iterated_next (hp : p.Coherent) (hm : m.Fits p) (hmarks : p.FitsMarks marks)
    (hbudget : ∀ n, t.budget n = false) {r : Run}
    (h : Run.step? p t ⟨m, marks, polls⟩ = some (.next r)) (polls' : Nat) :
    ∃ n polls'', Run.Leads p t.iterated (n + 1) ⟨m, marks, polls'⟩
      ⟨r.machine, marks, polls''⟩ := by
  cases Run.takes_of_step? h with
  | left hf hge => exact ⟨0, polls', .single (Run.step?_of_done hf hge)⟩
  | @moved frame callers op m' asked hf hlt hop hmove hstops =>
    rw [hbudget] at hmove
    by_cases hreset : op.operator = .loopOpen ∧ m.tape.current ≠ 0
        ∧ t.resets? p marks frame.offset = some true
    · obtain ⟨ho, h0, hreset⟩ := hreset
      rw [hreset, Machine.move?_of_reset ho h0] at hmove
      cases hmove
      exact follow_reset (u := t.iterated) hp hm hf hlt hop ho h0 hreset rfl hbudget
        (Terms.stops?_of_resets? (t := t) hreset hstops) polls'
    · rw [move?_stepwise hp hmarks hop hreset] at hmove
      refine ⟨0, if asked then polls' + 1 else polls', .single ?_⟩
      rw [Run.step?_of_lt hf hlt]
      simp only [Terms.stops?_iterated, Terms.resets?_iterated, Terms.budget_iterated, hstops, hop,
        hbudget, hmove]
      rfl

/-- **They halt in the same way.** -/
theorem iterated_halt (hp : p.Coherent) (hmarks : p.FitsMarks marks)
    (hbudget : ∀ n, t.budget n = false) {code : ExitCode} {r : Run}
    (h : Run.step? p t ⟨m, marks, polls⟩ = some (.halt code r)) (polls' : Nat) :
    Run.step? p t.iterated ⟨m, marks, polls'⟩ = some (.halt code ⟨r.machine, r.marks, polls'⟩) := by
  cases Run.takes_of_step? h with
  | ended hf => exact Run.step?_of_empty hf
  | @paused frame callers table hf hbypass htable hmark hlt =>
    subst htable
    have hstops : t.stops? (some table) frame.offset = some true := by
      unfold Terms.stops?
      rw [hbypass]
      exact hmark
    rw [Run.step?_of_lt hf hlt, Terms.stops?_iterated, hstops]
    rfl
  | @halted frame callers op m' code hf hlt hop hmove hstops =>
    rw [hbudget, move?_stepwise hp hmarks hop ?_] at hmove
    · rw [Run.step?_of_lt hf hlt]
      simp only [Terms.stops?_iterated, Terms.resets?_iterated, Terms.budget_iterated, hstops, hop,
        hbudget, hmove]
      rfl
    · -- a loop that is done in one step does not halt
      rintro ⟨ho, h0, hr⟩
      rw [hr, Machine.move?_of_reset ho h0] at hmove
      cases hmove

/-! ## §3. Whole calls. -/

/-- Two runs stand at one machine, with the same breakpoints. -/
def Matches (p : Program) (marks : Option (Array Bool)) (r s : Run) : Prop :=
  s.machine = r.machine ∧ r.marks = marks ∧ s.marks = marks ∧ r.machine.Fits p

/-- The call that iterates is about to end with the machine and the
breakpoints of the other one. -/
def EndsAlike (p : Program) (u : Terms) (code : ExitCode) (r s : Run) : Prop :=
  s.step? p u = some (.halt code ⟨r.machine, r.marks, s.polls⟩)

/-- **A call follows the one that iterates.** -/
theorem simulation_iterated (hp : p.Coherent) (hmarks : p.FitsMarks marks)
    (hbudget : ∀ n, t.budget n = false) :
    Simulation p t p t.iterated (Matches p marks) (EndsAlike p t.iterated) where
  next := by
    rintro ⟨m, _, polls⟩ ⟨_, _, polls'⟩ r ⟨rfl, rfl, rfl, hfits⟩ hstep
    obtain ⟨n, polls'', hleads⟩ := iterated_next hp hfits hmarks hbudget hstep polls'
    exact ⟨n, _, hleads, rfl, Run.marks_of_next hstep, rfl, hfits.step hp hstep⟩
  halt := by
    rintro ⟨m, _, polls⟩ ⟨_, _, polls'⟩ r code ⟨rfl, rfl, rfl, -⟩ hstep
    exact iterated_halt hp hmarks hbudget hstep polls'
  live := by
    rintro r s ⟨-, rfl, -, hfits⟩
    exact hfits.step?_isSome hp hmarks t

/-- If a call halts, the one that iterates halts alike. -/
theorem halts_iterated (hp : p.Coherent) (hmarks : p.FitsMarks marks)
    (hbudget : ∀ n, t.budget n = false) (hm : m.Fits p) {code : ExitCode} {r : Run}
    (h : Run.Halts p t ⟨m, marks, 0⟩ code r) (polls : Nat) :
    ∃ polls', Run.Halts p t.iterated ⟨m, marks, polls⟩ code ⟨r.machine, r.marks, polls'⟩ := by
  obtain ⟨n, s, hleads, hend⟩ := (simulation_iterated hp hmarks hbudget).forward
    (r := ⟨m, marks, 0⟩) (s := ⟨m, marks, polls⟩) ⟨rfl, rfl, rfl, hm⟩ h
  exact ⟨s.polls, hleads.halts (Run.halts_of_step hend)⟩

/-- If the one that iterates halts, so does the call. -/
theorem halts_of_iterated (hp : p.Coherent) (hmarks : p.FitsMarks marks)
    (hbudget : ∀ n, t.budget n = false) (hm : m.Fits p) {code : ExitCode} {s : Run}
    (h : Run.Halts p t.iterated ⟨m, marks, polls⟩ code s) :
    ∃ polls', Run.Halts p t ⟨m, marks, 0⟩ code ⟨s.machine, s.marks, polls'⟩ := by
  obtain ⟨k, hk⟩ := h
  obtain ⟨code', r, n, s₁, hr, hleads, hend⟩ := (simulation_iterated hp hmarks hbudget).backward
    (r := ⟨m, marks, 0⟩) (s := ⟨m, marks, polls⟩) ⟨rfl, rfl, rfl, hm⟩ hk
  -- it ends in one way only
  obtain ⟨rfl, rfl⟩ := (hleads.halts (Run.halts_of_step hend)).unique ⟨k, hk⟩
  exact ⟨r.polls, hr⟩

end Iterated

/-! ## §4. The result. -/

/-- **`[-]` in one step is `[-]` iterated.**  With a successful report,
`compileAs` compiles every script, valid or not, in either granularity.  On every machine that calls on it lead to, with any breakpoints
that fit the program, heeded or not, and with a budget that is never spent, a
call halts if and only if the same call iterating every `[-]` does, with
the same code, the same machine in all its parts and the same breakpoints left. -/
theorem reset_equals_iterating (report : Validation) (g : Granularity) (source : String)
    (tape : Tape) (input : String) (limit : Nat) (hreport : report.isSuccess)
    (htape : tape.WellFormed) :
    ∃ p, Program.compileAs report g source = .ok p ∧
      ∀ m, Machine.Reachable p (.load p tape input limit) m →
        ∀ (marks : Option (Array Bool)) (bypass : Bool), p.FitsMarks marks →
          ∀ (code : ExitCode) (m' : Machine) (marks' : Option (Array Bool)),
            m.HaltsWith p { bypass, budget := .unlimited } marks code m' marks' ↔
              m.HaltsWith p { bypass, budget := .unlimited, shortcut := false } marks code m'
                marks' := by
  have hcompile : Program.compileAs report g source
      = .ok (.ofTokens g report.count (Script.tokens source)) := if_pos hreport
  have hp := Program.coherent_ofTokens g report.count (Script.tokens source)
  refine ⟨_, hcompile, ?_⟩
  intro m hm marks bypass hmarks code m' marks'
  have hfits := hm.fits hp (Machine.fits_load _ htape input limit)
  constructor
  · intro ⟨fuel, polls, hrun⟩
    obtain ⟨polls', fuel', hrun'⟩ :=
      halts_iterated hp hmarks (fun _ => rfl) hfits ⟨fuel, hrun⟩ 0
    exact ⟨fuel', polls', hrun'⟩
  · intro ⟨fuel, polls, hrun⟩
    obtain ⟨polls', fuel', hrun'⟩ := halts_of_iterated
      (t := { bypass, budget := .unlimited }) hp hmarks (fun _ => rfl) hfits ⟨fuel, hrun⟩
    exact ⟨fuel', polls', hrun'⟩

/-- A `]` that closes nothing goes back behind the first opcode, so `[-]` is met
in every cell.  The first call pauses behind it; the second one clears a cell
after the other until the tape ends. -/
theorem reset_equals_iterating_unopened :
    ∃ p m m', Program.compileAs (.success 9) .packed "+++[-]>+]" = .ok p
      ∧ Machine.Reachable p (.load p (.blank 32 .byteChecked) "" 0) m
      ∧ (m.operations = 10 ∧ m.tape.current = 0)
      ∧ (m'.operations = 196 ∧ m'.tape.pointer = 31)
      ∧ m.HaltsWith p { bypass := true, budget := .unlimited } none .pastEnd m' none
      ∧ m.HaltsWith p { bypass := true, budget := .unlimited, shortcut := false } none .pastEnd m'
          none := by
  obtain ⟨p, hp, hall⟩ := reset_equals_iterating (.success 9) .packed "+++[-]>+]"
    (.blank 32 .byteChecked) "" 0 rfl (Tape.wellFormed_blank _ (by decide))
  have hrun : ((Program.compileAs (.success 9) .packed "+++[-]>+]").toOption.bind fun p =>
      ((Machine.load p (.blank 32 .byteChecked) "" 0).execute p { bypass := false }
        (some #[false, false, false, false, true, false, false]) 9).rest?.bind fun first =>
      (first.2.machine.execute p { bypass := true, budget := .unlimited } none 200).rest?.bind
        fun second =>
          some (p.size, (first.1, first.2.machine.operations, first.2.machine.tape.current),
            (second.1, second.2.marks.isNone, second.2.machine.operations,
              second.2.machine.tape.pointer)))
      = some (7, (.breakpoint, 10, 0), (.pastEnd, true, 196, 31)) := by
    decide +kernel
  replace hrun := seen_of_ok hrun hp
  obtain ⟨code, m, marks, polls, hfirst, hrun⟩ := Machine.exists_haltsWith hrun
  obtain ⟨code', m', marks', polls', hhalts, heq⟩ := Machine.exists_haltsWith hrun
  simp only [Option.some.injEq, Prod.mk.injEq] at heq
  obtain ⟨hsize, ⟨-, hbefore⟩, rfl, hmarks, hafter⟩ := heq
  obtain rfl : marks' = none := Option.isNone_iff_eq_none.1 hmarks
  have hfits : p.FitsMarks (some #[false, false, false, false, true, false, false]) := hsize.symm
  have hm : Machine.Reachable p (.load p (.blank 32 .byteChecked) "" 0) m :=
    .call .start hfits hfirst
  exact ⟨p, m, m', hp, hm, hbefore, hafter, hhalts,
    (hall m hm none true trivial _ _ _).1 hhalts⟩

end TapeMachine
