/-
  TapeMachine.Proofs.Resumption
  ─────────────────────────────
  **RUNNING OUT OF BUDGET LOSES NOTHING.**

  The budget is asked at a `]` that goes back and at a `:` that enters, and
  a machine that is refused stays as it is: the opcode has not been carried
  out and nothing has been credited, so a later call takes the same edge
  again.  Every other move is the same under every budget
  (`Machine.move?_unspent`).

    • `simulation_unlimited` — a call under any budget is a stretch of the
      run that has no budget to run out of,
    • `Interrupted.leads` — so are calls in a row that were all cut short,
    • `budget_halts_lose_nothing` — if the call after them halts for
      another reason, that run halts there too.
-/
import TapeMachine.Proofs.Balance
import TapeMachine.Proofs.Invariant

namespace TapeMachine

/-! ## §1. Calls that ran out of their budget. -/

/-- Calls in a row without breakpoints, each of which ran out of a budget of
its own. -/
inductive Machine.Interrupted (p : Program) : Machine → Machine → Prop
  | none (m : Machine) : Interrupted p m m
  | call {m m₁ m' : Machine} {bypass : Bool} {budget : Budget} {marks : Option (Array Bool)}
      (halts : m.HaltsWith p { bypass, budget } Option.none .budgetSpent m₁ marks)
      (rest : Interrupted p m₁ m') : Interrupted p m m'

/-- **A move that is not refused** is made whether the budget is spent or
not. -/
theorem Machine.move?_unspent {p : Program} {reset : Option Bool} {spent : Bool} {i : Nat}
    {op : Opcode} {m : Machine} {move : Move} (h : m.move? p reset spent i op = some move)
    (hne : ∀ m', move ≠ .halt .budgetSpent m') : m.move? p reset false i op = some move := by
  cases spent with
  | false => exact h
  | true =>
    unfold move? at h ⊢
    cases ho : op.operator with
    | loopClose =>
      rw [ho] at h
      dsimp only at h ⊢
      by_cases h0 : m.tape.current = 0
      · rw [if_pos h0] at h ⊢
        exact h
      · rw [if_neg h0] at h
        cases h
        exact absurd rfl (hne m)
    | call =>
      rw [ho] at h
      dsimp only at h ⊢
      cases hbody : m.functions.get? m.tape.current with
      | none =>
        rw [hbody] at h
        exact h
      | some body =>
        rw [hbody] at h
        dsimp only at h ⊢
        by_cases hfull : m.stack.isFull
        · rw [if_pos hfull] at h ⊢
          exact h
        · rw [if_neg hfull] at h
          cases h
          exact absurd rfl (hne m)
    | _ =>
      rw [ho] at h
      exact h

/-! ## §2. The run that has no budget to run out of. -/

section Unlimited

variable {p : Program} {t u : Terms}

/-- Two runs without breakpoints stand at one machine. -/
def Abreast (p : Program) (r s : Run) : Prop :=
  s.machine = r.machine ∧ r.marks = none ∧ s.marks = none ∧ r.machine.Fits p

/-- Where the run under `u` stands when a call has halted: at the same
machine, if the call ran out of its budget, and else about to end like it. -/
def Outlasts (p : Program) (u : Terms) (code : ExitCode) (r s : Run) : Prop :=
  (code = .budgetSpent ∧ Abreast p r s)
    ∨ (code ≠ .budgetSpent ∧ s.step? p u = some (.halt code ⟨r.machine, none, s.polls⟩))

/-- An opcode that is not refused is carried out alike under `u`. -/
theorem step?_unlimited (hshort : u.shortcut = t.shortcut) (hbudget : ∀ n, u.budget n = false)
    {m : Machine} {frame : Frame} {callers : List Frame} {op : Opcode} {move : Move} {polls : Nat}
    (hf : m.stack.frames = frame :: callers) (hlt : frame.offset < frame.body.stop)
    (hop : p.opcodes[frame.offset]? = some op)
    (hmove : m.move? p (t.resets? p none frame.offset) (t.budget polls) frame.offset op
      = some move) (hne : ∀ m', move ≠ .halt .budgetSpent m') (polls' : Nat) :
    Run.step? p u ⟨m, none, polls'⟩ = some (move.toStep none polls') := by
  have hresets : u.resets? p none frame.offset = t.resets? p none frame.offset := by
    unfold Terms.resets?
    rw [hshort]
  rw [Run.step?_of_lt hf hlt]
  simp only [Run.stops?_none, hop, hresets, hbudget, Machine.move?_unspent hmove hne,
    Option.map_some]

/-- **A call under any budget is a stretch of the run that has none.** -/
theorem simulation_unlimited (hp : p.Coherent) (hshort : u.shortcut = t.shortcut)
    (hbudget : ∀ n, u.budget n = false) :
    Simulation p t p u (Abreast p) (Outlasts p u) where
  next := by
    rintro ⟨m, _, polls⟩ ⟨_, _, polls'⟩ r ⟨rfl, rfl, rfl, hfits⟩ hstep
    have hfits' := hfits.step hp hstep
    cases Run.takes_of_step? hstep with
    | left hf hge => exact ⟨0, _, .single (Run.step?_of_done hf hge), rfl, rfl, rfl, hfits'⟩
    | moved hf hlt hop hmove =>
      have hstep' := step?_unlimited hshort hbudget hf hlt hop hmove (fun _ h => by cases h) polls'
      exact ⟨0, _, .single hstep', rfl, rfl, rfl, hfits'⟩
  halt := by
    rintro ⟨m, _, polls⟩ ⟨_, _, polls'⟩ r code ⟨rfl, rfl, rfl, hfits⟩ hstep
    cases Run.takes_of_step? hstep with
    | ended hf => exact .inr ⟨by simp, Run.step?_of_empty hf⟩
    | paused _ _ htable _ => cases htable
    | @halted frame callers op m' _ hf hlt hop hmove =>
      by_cases hcode : code = .budgetSpent
      · -- a machine that is refused has not moved
        obtain ⟨-, rfl⟩ := (Machine.fault_of_move? hmove).2 hcode
        exact .inl ⟨hcode, rfl, rfl, rfl, hfits⟩
      · refine .inr ⟨hcode, ?_⟩
        refine step?_unlimited hshort hbudget hf hlt hop hmove ?_ polls'
        intro m₁ h
        cases h
        exact hcode rfl
  live := by
    rintro ⟨m, _, polls⟩ s ⟨-, rfl, -, hfits⟩
    exact hfits.step?_isSome hp trivial t

/-- One call, seen from where that run stands. -/
theorem Run.Halts.outlasts {m : Machine} {code : ExitCode} {r : Run}
    (h : Run.Halts p t ⟨m, none, 0⟩ code r) (hp : p.Coherent) (hshort : u.shortcut = t.shortcut)
    (hbudget : ∀ n, u.budget n = false) (hm : m.Fits p) (polls : Nat) :
    ∃ n s, Run.Leads p u n ⟨m, none, polls⟩ s ∧ Outlasts p u code r s :=
  (simulation_unlimited hp hshort hbudget).forward (r := ⟨m, none, 0⟩) ⟨rfl, rfl, rfl, hm⟩ h

/-- **Calls that were all cut short are a stretch of that run as well.** -/
theorem Machine.Interrupted.leads {m m' : Machine} (h : Interrupted p m m') (hp : p.Coherent)
    (hshort : u.shortcut = true) (hbudget : ∀ n, u.budget n = false) :
    ∀ polls, m.Fits p → m'.Fits p
      ∧ ∃ n polls', Run.Leads p u n ⟨m, Option.none, polls⟩ ⟨m', Option.none, polls'⟩ := by
  induction h with
  | none m =>
    intro polls hm
    exact ⟨hm, 0, polls, .refl _⟩
  | @call m m₁ m' bypass budget marks halts rest ih =>
    intro polls hm
    obtain ⟨fuel, polls₁, hfuel⟩ := halts
    obtain ⟨n, ⟨m₂, marks₂, polls₂⟩, hleads, hend⟩ :=
      Run.Halts.outlasts ⟨fuel, hfuel⟩ hp hshort hbudget hm polls
    rcases hend with ⟨-, rfl, -, rfl, hfits⟩ | ⟨hne, -⟩
    · obtain ⟨hfits', k, polls', hrest⟩ := ih polls₂ hfits
      exact ⟨hfits', n + k, polls', hleads.trans hrest⟩
    · exact absurd rfl hne

end Unlimited

/-! ## §3. The result. -/

/-- **Budget halts can be resumed without loss.**  A script that passes the
check compiles in either granularity.  If calls in a row without breakpoints
all ran out of their budgets, whatever these were, and the call after them
halted with another code, then a single call on the machine as loaded,
with a budget that never runs out, halts with that code and leaves
that machine. -/
theorem budget_halts_lose_nothing (source : String) (g : Granularity) (tape : Tape)
    (input : String) (limit : Nat) (hsource : (Script.validate source).isSuccess)
    (htape : tape.WellFormed) :
    ∃ p, Program.compile g source = .ok p ∧
      ∀ (m m' : Machine) (bypass : Bool) (budget : Budget) (marks : Option (Array Bool))
        (code : ExitCode),
        Machine.Interrupted p (.load p tape input limit) m →
        m.HaltsWith p { bypass, budget } none code m' marks → code ≠ .budgetSpent →
        ∀ bypass', (Machine.load p tape input limit).HaltsWith p
          { bypass := bypass', budget := .unlimited } none code m' none := by
  have hp := Program.coherent_ofTokens g (Script.validate source).count (Script.tokens source)
  refine ⟨_, Program.compile_of_isSuccess hsource g, ?_⟩
  intro m m' bypass budget marks code hinterrupted hhalts hcode bypass'
  obtain ⟨hfits, n, polls, hleads⟩ := hinterrupted.leads hp
    (u := { bypass := bypass', budget := .unlimited }) rfl (fun _ => rfl) 0
    (Machine.fits_load _ htape input limit)
  obtain ⟨fuel, polls', hfuel⟩ := hhalts
  obtain ⟨k, s, hleads', hend⟩ := Run.Halts.outlasts ⟨fuel, hfuel⟩ hp
    (u := { bypass := bypass', budget := .unlimited }) rfl (fun _ => rfl) hfits polls
  rcases hend with ⟨hspent, -⟩ | ⟨-, hstep⟩
  · exact absurd hspent hcode
  · obtain ⟨fuel', hall⟩ := (hleads.trans hleads').halts (Run.halts_of_step hstep)
    exact ⟨fuel', s.polls, hall⟩

/-- A loop with a call in it, refused at its call and then at its `]`. -/
theorem budget_halts_lose_nothing_twice :
    ∃ p m₁ m₂ m', Program.compile .plain "(>+<)>>++[<<:>>-]" = .ok p
      ∧ (Machine.load p (.blank 32 .byteChecked) "" 0).HaltsWith p { budget := .spent } none
        .budgetSpent m₁ none
      ∧ m₁.HaltsWith p { budget := fun n => n == 1 } none .budgetSpent m₂ none
      ∧ m₂.HaltsWith p {} none .success m' none
      ∧ (Machine.load p (.blank 32 .byteChecked) "" 0).HaltsWith p {} none .success m' none := by
  obtain ⟨p, hp, hall⟩ := budget_halts_lose_nothing "(>+<)>>++[<<:>>-]" .plain
    (.blank 32 .byteChecked) "" 0 (by decide) (Tape.wellFormed_blank _ (by decide))
  have hrun : ((Program.compile .plain "(>+<)>>++[<<:>>-]").toOption.bind fun p =>
      ((Machine.load p (.blank 32 .byteChecked) "" 0).execute p { budget := .spent } none
        40).rest?.bind fun first =>
      (first.2.machine.execute p { budget := fun n => n == 1 } none 40).rest?.bind fun second =>
      (second.2.machine.execute p {} none 40).rest?.bind fun last =>
        some ((first.1, first.2.marks), (second.1, second.2.marks), (last.1, last.2.marks)))
      = some ((.budgetSpent, none), (.budgetSpent, none), (.success, none)) := by decide +kernel
  replace hrun := seen_of_ok hrun hp
  obtain ⟨c₁, m₁, marks₁, polls₁, hfirst, hrun⟩ := Machine.exists_haltsWith hrun
  obtain ⟨c₂, m₂, marks₂, polls₂, hsecond, hrun⟩ := Machine.exists_haltsWith hrun
  obtain ⟨c, m', marks, polls, hlast, heq⟩ := Machine.exists_haltsWith hrun
  simp only [Option.some.injEq, Prod.mk.injEq] at heq
  obtain ⟨⟨rfl, rfl⟩, ⟨rfl, rfl⟩, rfl, rfl⟩ := heq
  exact ⟨p, m₁, m₂, m', hp, hfirst, hsecond, hlast,
    hall m₂ m' true .unlimited none .success (.call hfirst (.call hsecond (.none m₂))) hlast
      (by decide) true⟩

end TapeMachine
