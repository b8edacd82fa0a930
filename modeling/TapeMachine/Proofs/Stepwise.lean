/-
  TapeMachine.Proofs.Stepwise
  ───────────────────────────
  **ONE STEP AT A TIME.**

  A call does `[-]` in one step and may meet breakpoints; the engine under
  `Terms.stepwise` does neither.  Without a budget to run out of, each step
  of the first is one step or more of the second and leaves the same
  machine (`follow_next`):

    • `leads_countdown` — `-` and `]`, once per unit of the cell, take it to
      zero and end behind the loop,
    • `leads_reset` — with the `[` before them, that is what the one step
      does, and 2·value + 1 is what it costs.

  All calls on a machine without a budget are therefore stretches of one
  run, the one under `Terms.stepwise`: `simulation_stepwise`.
-/
import TapeMachine.Proofs.Invariant

namespace TapeMachine

/-! ## §1. `[-]`, iterated. -/

/-- The terms of a run that takes every opcode by itself. -/
def Terms.stepwise : Terms := { bypass := true, budget := .unlimited, shortcut := false }

section Iterate

variable {p : Program} {t : Terms} {marks : Option (Array Bool)} {i : Nat}
  {functions : FunctionTable} {body : Span} {callers : List Frame} {overdrawn : Nat}
  {input : Input} {output : Output}

/-- The `-` of `[-]`, above zero. -/
theorem step?_dec (hi : i < body.stop) (hstops : t.stops? marks i = some false)
    (hdec : p.opcodes[i]? = some (.one .dec)) {tape : Tape} (htape : tape.WellFormed)
    (h0 : tape.current ≠ 0) (operations polls : Nat) :
    Run.step? p t
        ⟨⟨tape, functions, ⟨⟨body, i⟩ :: callers, overdrawn⟩, input, output, operations⟩, marks,
          polls⟩
      = some (.next ⟨⟨tape.write (tape.current - 1), functions,
          ⟨⟨body, i + 1⟩ :: callers, overdrawn⟩, input, output, operations + 1⟩, marks,
          polls⟩) := by
  rw [Run.step?_of_lt rfl hi]
  simp only [hstops, hdec]
  rw [Machine.move?_stride (f := Tape.decrease) rfl, Machine.stride_eq]
  simp only [Opcode.one, Tape.decrease_one htape h0]
  rfl

/-- The `]` of a loop that is over. -/
theorem step?_loopClose_zero {op : Opcode} (hi : i < body.stop)
    (hstops : t.stops? marks i = some false) (hop : p.opcodes[i]? = some op)
    (ho : op.operator = .loopClose) {tape : Tape} (h0 : tape.current = 0)
    (operations polls : Nat) :
    Run.step? p t
        ⟨⟨tape, functions, ⟨⟨body, i⟩ :: callers, overdrawn⟩, input, output, operations⟩, marks,
          polls⟩
      = some (.next ⟨⟨tape, functions, ⟨⟨body, i + 1⟩ :: callers, overdrawn⟩, input, output,
          operations + 1⟩, marks, polls⟩) := by
  rw [Run.step?_of_lt rfl hi]
  simp only [hstops, hop, Machine.move?, ho, h0, if_true]
  rfl

/-- The `]` of a loop that goes on, if the budget is not spent. -/
theorem step?_loopClose_back {op : Opcode} {partner polls : Nat} (hi : i < body.stop)
    (hstops : t.stops? marks i = some false) (hop : p.opcodes[i]? = some op)
    (ho : op.operator = .loopClose) (hpartner : p.partners[i]? = some partner)
    (hbudget : t.budget polls = false) {tape : Tape} (h0 : tape.current ≠ 0) (operations : Nat) :
    Run.step? p t
        ⟨⟨tape, functions, ⟨⟨body, i⟩ :: callers, overdrawn⟩, input, output, operations⟩, marks,
          polls⟩
      = some (.next ⟨⟨tape, functions, ⟨⟨body, partner + 1⟩ :: callers, overdrawn⟩, input, output,
          operations + 1⟩, marks, polls + 1⟩) := by
  rw [Run.step?_of_lt rfl hi]
  simp only [hstops, hop, Machine.move?, ho, hpartner, hbudget]
  rw [if_neg h0]
  rfl

/-- The `[` of a loop that is entered. -/
theorem step?_loopOpen_enter {op : Opcode} (hi : i < body.stop)
    (hstops : t.stops? marks i = some false) (hop : p.opcodes[i]? = some op)
    (ho : op.operator = .loopOpen) (hreset : t.resets? p marks i = some false) {tape : Tape}
    (h0 : tape.current ≠ 0) (operations polls : Nat) :
    Run.step? p t
        ⟨⟨tape, functions, ⟨⟨body, i⟩ :: callers, overdrawn⟩, input, output, operations⟩, marks,
          polls⟩
      = some (.next ⟨⟨tape, functions, ⟨⟨body, i + 1⟩ :: callers, overdrawn⟩, input, output,
          operations + 1⟩, marks, polls⟩) := by
  rw [Run.step?_of_lt rfl hi]
  simp only [hstops, hop, Machine.move?, ho, hreset]
  rw [if_neg h0]
  rfl

/-- **Counting down**: from behind the `[`, `v + 1` rounds of `-` and `]`. -/
theorem leads_countdown (hbudget : ∀ n, t.budget n = false) (hi : i + 2 < body.stop)
    (hstops : t.stops? marks (i + 1) = some false) (hstops' : t.stops? marks (i + 2) = some false)
    (hdec : p.opcodes[i + 1]? = some (.one .dec)) {op : Opcode}
    (hop : p.opcodes[i + 2]? = some op) (ho : op.operator = .loopClose)
    (hback : p.partners[i + 2]? = some i) (v : Nat) :
    ∀ (tape : Tape) (operations polls : Nat), tape.WellFormed → tape.current = v + 1 →
      ∃ polls', Run.Leads p t (2 * (v + 1))
        ⟨⟨tape, functions, ⟨⟨body, i + 1⟩ :: callers, overdrawn⟩, input, output, operations⟩,
          marks, polls⟩
        ⟨⟨tape.clear, functions, ⟨⟨body, i + 3⟩ :: callers, overdrawn⟩, input, output,
          operations + 2 * (v + 1)⟩, marks, polls'⟩ := by
  induction v with
  | zero =>
    intro tape operations polls htape hv
    have hdown : tape.write (tape.current - 1) = tape.clear := by rw [hv]; rfl
    have hzero : tape.clear.current = 0 := htape.current_write 0
    refine ⟨polls, ?_⟩
    refine .step (step?_dec (by omega) hstops hdec htape (by omega) operations polls) ?_
    rw [hdown]
    exact .single (step?_loopClose_zero hi hstops' hop ho hzero (operations + 1) polls)
  | succ v ih =>
    intro tape operations polls htape hv
    have hle : tape.current - 1 ≤ tape.mode.max := Nat.le_trans (Nat.sub_le _ _) htape.current_le
    have htape' := htape.write hle
    have hv' : (tape.write (tape.current - 1)).current = v + 1 := by
      rw [htape.current_write, hv]
      rfl
    obtain ⟨polls', hrest⟩ := ih (tape.write (tape.current - 1)) (operations + 1 + 1) (polls + 1)
      htape' hv'
    have hclear : (tape.write (tape.current - 1)).clear = tape.clear := Tape.write_write _ _ _
    rw [hclear, show operations + 1 + 1 + 2 * (v + 1) = operations + 2 * (v + 1 + 1) by omega]
      at hrest
    refine ⟨polls', ?_⟩
    refine .step (step?_dec (by omega) hstops hdec htape (by omega) operations polls) ?_
    exact .step (step?_loopClose_back hi hstops' hop ho hback (hbudget _) (by omega) _) hrest

end Iterate

/-- **`[-]` step by step** ends where the one step ends, with its count. -/
theorem leads_reset {p : Program} {t : Terms} {marks : Option (Array Bool)} {m : Machine}
    {frame : Frame} {callers : List Frame} {x y : Opcode} (hshort : t.shortcut = false)
    (hbudget : ∀ n, t.budget n = false) (hfits : m.tape.WellFormed)
    (hf : m.stack.frames = frame :: callers) (hi : frame.offset + 2 < frame.body.stop)
    (hstops : ∀ k, frame.offset ≤ k → k ≤ frame.offset + 2 → t.stops? marks k = some false)
    (hx : p.opcodes[frame.offset]? = some x) (hxo : x.operator = .loopOpen)
    (hdec : p.opcodes[frame.offset + 1]? = some (.one .dec))
    (hy : p.opcodes[frame.offset + 2]? = some y) (hyo : y.operator = .loopClose)
    (hback : p.partners[frame.offset + 2]? = some frame.offset) (h0 : m.tape.current ≠ 0)
    (polls : Nat) :
    ∃ n polls', Run.Leads p t (n + 1) ⟨m, marks, polls⟩
      ⟨({ m.credit (m.tape.current * 2 + 1) with tape := m.tape.clear } : Machine).goto
        (frame.offset + 3), marks, polls'⟩ := by
  obtain ⟨tape, functions, ⟨frames, overdrawn⟩, input, output, operations⟩ := m
  obtain ⟨body, i⟩ := frame
  obtain rfl : frames = _ := hf
  dsimp only at hi hstops hx hdec hy hback h0 hfits ⊢
  -- the loop is entered, so the cell is a successor to count down from
  obtain ⟨v, hv⟩ : ∃ v, tape.current = v + 1 := ⟨tape.current - 1, by omega⟩
  have hreset : t.resets? p marks i = some false := by rw [Terms.resets?, hshort]; rfl
  obtain ⟨polls', hdown⟩ : ∃ polls', Run.Leads p t (2 * (v + 1))
      ⟨⟨tape, functions, ⟨⟨body, i + 1⟩ :: callers, overdrawn⟩, input, output, operations + 1⟩,
        marks, polls⟩
      ⟨⟨tape.clear, functions, ⟨⟨body, i + 3⟩ :: callers, overdrawn⟩, input, output,
        operations + 1 + 2 * (v + 1)⟩, marks, polls'⟩ :=
    leads_countdown hbudget hi (hstops _ (by omega) (by omega)) (hstops _ (by omega) (by omega))
      hdec hy hyo hback v tape (operations + 1) polls hfits hv
  rw [show operations + 1 + 2 * (v + 1) = operations + (tape.current * 2 + 1) by omega] at hdown
  refine ⟨2 * (v + 1), polls', ?_⟩
  refine .step ?_ hdown
  exact step?_loopOpen_enter (by omega) (hstops _ (by omega) (by omega)) hx hxo hreset h0
    operations polls

/-! ## §2. Every call, step by step. -/

section Follow

variable {p : Program} {t : Terms} {m : Machine} {marks : Option (Array Bool)} {polls : Nat}

/-- One opcode of the engine that takes each by itself. -/
theorem step?_stepwise {frame : Frame} {callers : List Frame}
    (hf : m.stack.frames = frame :: callers) (hlt : frame.offset < frame.body.stop) (polls : Nat) :
    Run.step? p .stepwise ⟨m, none, polls⟩ =
      match p.opcodes[frame.offset]? with
      | none => none
      | some op => (m.move? p (some false) false frame.offset op).map (Move.toStep none polls) := by
  rw [Run.step?_of_lt hf hlt]
  rfl

/-- A step that does `[-]` at once is many opcodes taken by themselves, by
any engine that iterates and has no breakpoint to meet there. -/
theorem follow_reset (hp : p.Coherent) (hm : m.Fits p) {frame : Frame} {callers : List Frame}
    {op : Opcode} (hf : m.stack.frames = frame :: callers) (hlt : frame.offset < frame.body.stop)
    (hop : p.opcodes[frame.offset]? = some op) (ho : op.operator = .loopOpen)
    (h0 : m.tape.current ≠ 0) (hreset : t.resets? p marks frame.offset = some true) {u : Terms}
    {marks' : Option (Array Bool)} (hshort : u.shortcut = false)
    (hbudget : ∀ n, u.budget n = false)
    (hstops : ∀ k, frame.offset ≤ k → k ≤ frame.offset + 2 → u.stops? marks' k = some false)
    (polls' : Nat) :
    ∃ n polls'', Run.Leads p u (n + 1) ⟨m, marks', polls'⟩
      ⟨({ m.credit (m.tape.current * 2 + 1) with tape := m.tape.clear } : Machine).goto
        (frame.offset + 3), marks', polls''⟩ := by
  obtain ⟨-, hdec, hback, x, y, hx, hy, hpair⟩ :=
    hp.of_isReset? (Terms.isReset?_of_resets? hreset)
  rw [hop] at hx
  cases hx
  have hyo : y.operator = .loopClose := by
    rw [ho] at hpair
    exact (Option.some.inj hpair).symm
  -- a body never ends between the brackets of a loop
  have hends := (hm.frame frame (by rw [hf]; exact List.mem_cons_self)).2
  have hin := hends.not_inside hlt hdec hy hyo
  exact leads_reset hshort hbudget hm.tape hf hin hstops hop ho hdec hy hyo hback h0 polls'

/-- Where no loop is done in one step, an opcode does the same for all. -/
theorem move?_stepwise (hp : p.Coherent) (hmarks : p.FitsMarks marks) {i : Nat} {op : Opcode}
    (hop : p.opcodes[i]? = some op)
    (h : ¬ (op.operator = .loopOpen ∧ m.tape.current ≠ 0 ∧ t.resets? p marks i = some true)) :
    m.move? p (t.resets? p marks i) false i op = m.move? p (some false) false i op := by
  refine Machine.move?_of_not_reset ?_
  intro ho h0
  have hsome := hp.resets?_isSome hop hmarks t
  match hr : t.resets? p marks i with
  | some true => exact absurd ⟨ho, h0, hr⟩ h
  | some false => rfl
  | none =>
    rw [hr] at hsome
    cases hsome

/-- **A step of a call is one or more opcodes taken by themselves.** -/
theorem follow_next (hp : p.Coherent) (hm : m.Fits p) (hmarks : p.FitsMarks marks)
    (hbudget : ∀ n, t.budget n = false) {r : Run}
    (h : Run.step? p t ⟨m, marks, polls⟩ = some (.next r)) (polls' : Nat) :
    r.marks = marks ∧ ∃ n polls'', Run.Leads p .stepwise (n + 1) ⟨m, none, polls'⟩
      ⟨r.machine, none, polls''⟩ := by
  cases Run.takes_of_step? h with
  | left hf hge => exact ⟨rfl, 0, polls', .single (Run.step?_of_done hf hge)⟩
  | @moved frame callers op m' asked hf hlt hop hmove =>
    refine ⟨rfl, ?_⟩
    rw [hbudget] at hmove
    by_cases hreset : op.operator = .loopOpen ∧ m.tape.current ≠ 0
        ∧ t.resets? p marks frame.offset = some true
    · obtain ⟨ho, h0, hreset⟩ := hreset
      rw [hreset, Machine.move?_of_reset ho h0] at hmove
      cases hmove
      exact follow_reset hp hm hf hlt hop ho h0 hreset rfl (fun _ => rfl) (fun _ _ _ => rfl) polls'
    · rw [move?_stepwise hp hmarks hop hreset] at hmove
      refine ⟨0, if asked then polls' + 1 else polls', .single ?_⟩
      rw [step?_stepwise hf hlt]
      simp only [hop, hmove]
      rfl

/-- **Where a call halts**: at a breakpoint, which is cleared, or
where the engine that takes each opcode by itself halts too. -/
theorem follow_halt (hp : p.Coherent) (hmarks : p.FitsMarks marks)
    (hbudget : ∀ n, t.budget n = false) {code : ExitCode} {r : Run}
    (h : Run.step? p t ⟨m, marks, polls⟩ = some (.halt code r)) :
    (code = .breakpoint ∧ r.machine = m ∧ t.bypass = false
        ∧ ∃ frame callers table, m.stack.frames = frame :: callers ∧ marks = some table
          ∧ table[frame.offset]? = some true
          ∧ r.marks = some (table.setIfInBounds frame.offset false))
      ∨ (code ≠ .breakpoint ∧ r.marks = marks
        ∧ ∀ polls', Run.step? p .stepwise ⟨m, none, polls'⟩
          = some (.halt code ⟨r.machine, none, polls'⟩)) := by
  cases Run.takes_of_step? h with
  | ended hf => exact .inr ⟨by simp, rfl, fun polls' => Run.step?_of_empty hf⟩
  | @paused frame callers table hf hbypass htable hmark =>
    exact .inl ⟨rfl, rfl, hbypass, frame, callers, table, hf, htable, hmark, rfl⟩
  | @halted frame callers op m' code hf hlt hop hmove =>
    have hfault : code.isFault := (Machine.does_of_move? hf hmove).control.1
    refine .inr ⟨?_, rfl, ?_⟩
    · rintro rfl
      cases hfault
    intro polls'
    rw [hbudget, move?_stepwise hp hmarks hop ?_] at hmove
    · rw [step?_stepwise hf hlt]
      simp only [hop, hmove]
      rfl
    · -- a loop that is done in one step does not halt
      rintro ⟨ho, h0, hr⟩
      rw [hr, Machine.move?_of_reset ho h0] at hmove
      cases hmove

end Follow

/-! ## §3. A call and the run it is a stretch of. -/

section Simulate

variable (p : Program) (t : Terms) (marks : Option (Array Bool))

/-- The run that takes each opcode by itself stands where the call stands. -/
def Follows (r s : Run) : Prop :=
  s.machine = r.machine ∧ s.marks = none ∧ r.marks = marks ∧ r.machine.Fits p

/-- Where that run stands when the call has halted: at the same
machine, if it has paused, and else about to end like it. -/
def Pauses (code : ExitCode) (r s : Run) : Prop :=
  (code = .breakpoint ∧ s.machine = r.machine ∧ s.marks = none ∧ t.bypass = false
      ∧ ∃ table i, marks = some table ∧ table[i]? = some true
        ∧ r.marks = some (table.setIfInBounds i false))
    ∨ (code ≠ .breakpoint ∧ r.marks = marks
      ∧ s.step? p .stepwise = some (.halt code ⟨r.machine, none, s.polls⟩))

variable {p t marks}

/-- **A call without a budget follows the run that takes each opcode by
itself.** -/
theorem simulation_stepwise (hp : p.Coherent) (hmarks : p.FitsMarks marks)
    (hbudget : ∀ n, t.budget n = false) :
    Simulation p t p .stepwise (Follows p marks) (Pauses p t marks) where
  next := by
    rintro ⟨m, _, polls⟩ ⟨_, _, polls'⟩ r ⟨rfl, rfl, rfl, hfits⟩ hstep
    obtain ⟨hr, n, polls'', hleads⟩ := follow_next hp hfits hmarks hbudget hstep polls'
    exact ⟨n, _, hleads, rfl, rfl, hr, hfits.step hp hstep⟩
  halt := by
    rintro ⟨m, _, polls⟩ ⟨_, _, polls'⟩ r code ⟨rfl, rfl, rfl, hfits⟩ hstep
    rcases follow_halt hp hmarks hbudget hstep with
      ⟨hcode, hm, hbypass, frame, callers, table, -, htable, hmark, hr⟩ | ⟨hcode, hr, hend⟩
    · exact .inl ⟨hcode, hm.symm, rfl, hbypass, table, frame.offset, htable, hmark, hr⟩
    · exact .inr ⟨hcode, hr, hend polls'⟩
  live := by
    rintro r s ⟨-, -, rfl, hfits⟩
    exact hfits.step?_isSome hp hmarks t

section Unmarked

variable {m : Machine} {code : ExitCode}

/-- A call without breakpoints that halts ends like that run. -/
theorem halts_stepwise (hp : p.Coherent) (hbudget : ∀ n, t.budget n = false) (hm : m.Fits p)
    {r : Run} (h : Run.Halts p t ⟨m, none, 0⟩ code r) :
    ∃ s, Run.Halts p .stepwise ⟨m, none, 0⟩ code s ∧ s.machine = r.machine := by
  have sim := simulation_stepwise hp (show p.FitsMarks none from trivial) hbudget
  obtain ⟨n, s, hleads, hend⟩ := sim.forward (s := ⟨m, none, 0⟩) ⟨rfl, rfl, rfl, hm⟩ h
  rcases hend with ⟨-, -, -, -, table, i, hnone, -⟩ | ⟨-, -, hstep⟩
  · cases hnone
  · exact ⟨_, hleads.halts (Run.halts_of_step hstep), rfl⟩

/-- If that run halts, so does the call. -/
theorem halts_of_stepwise (hp : p.Coherent) (hbudget : ∀ n, t.budget n = false) (hm : m.Fits p)
    {s : Run} (h : Run.Halts p .stepwise ⟨m, none, 0⟩ code s) :
    ∃ r, Run.Halts p t ⟨m, none, 0⟩ code r ∧ r.machine = s.machine := by
  have sim := simulation_stepwise hp (show p.FitsMarks none from trivial) hbudget
  obtain ⟨k, hk⟩ := h
  obtain ⟨code', r, -, -, hr, -, -⟩ := sim.backward (r := ⟨m, none, 0⟩) ⟨rfl, rfl, rfl, hm⟩ hk
  obtain ⟨s', hs', hmachine⟩ := halts_stepwise hp hbudget hm hr
  obtain ⟨rfl, rfl⟩ := hs'.unique ⟨k, hk⟩
  exact ⟨r, hr, hmachine.symm⟩

end Unmarked

end Simulate

end TapeMachine
