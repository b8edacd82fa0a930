/-
  TapeMachine.Proofs.Termination
  ──────────────────────────────
  **A CANCELLED CALL HALTS.**

  A loop goes back and a function is entered only after the budget was asked
  and had something left.  Every other step that goes on goes forward: it
  leaves the running frame at its end, or goes on in that frame further ahead
  (`Step.Onward`).  What is ahead of the frames gets less by each opcode, so

    • `Run.length_visits_le` — with the budget spent a call carries out no more
      opcodes than were ahead of its frames,
    • `Run.halts_of_spent` — and it halts,
    • `Run.exists_poll` — with any budget, a call halts or asks again
      before long.

  Forward is what the partner table of a script that passes the check makes of
  `[` and `(`.  A stray `[` has partner 0: skipping it is a way back that asks
  nothing.
-/
import TapeMachine.Proofs.Packing
import TapeMachine.Proofs.Visits

namespace TapeMachine

/-! ## §1. Steps that go forward. -/

/-- The terms of a call whose budget is spent, past all breakpoints. -/
def Terms.cancelled : Terms := { budget := .spent }

/-- How much is left of the frames of a stack, leaving them included. -/
def Frame.left : List Frame → Nat
  | [] => 0
  | frame :: callers => frame.body.stop - frame.offset + 1 + left callers

/-- How many opcodes are ahead of the frames of a stack. -/
def Frame.ahead : List Frame → Nat
  | [] => 0
  | frame :: callers => frame.body.stop - frame.offset + ahead callers

/-- A step that goes forward: the running frame is left at its end, or goes on
further ahead, or the machine halts with its frames as they are.  No
frame is entered. -/
def Step.Onward (frames : List Frame) : Step → Prop
  | .next r => ∃ frame callers, frames = frame :: callers
      ∧ ((frame.body.stop ≤ frame.offset ∧ r.machine.stack.frames = callers)
        ∨ (frame.offset < frame.body.stop ∧ ∃ j, frame.offset < j
            ∧ r.machine.stack.frames = { frame with offset := j } :: callers))
  | .halt _ r => r.machine.stack.frames = frames

/-- **With the budget spent, an opcode that goes on goes forward**, in the
same frame. -/
theorem Machine.onward_of_move? {p : Program} {m m' : Machine} {reset : Option Bool} {frame : Frame}
    {callers : List Frame} {op : Opcode} {asked : Bool} (hp : p.Balanced)
    (hf : m.stack.frames = frame :: callers) (hop : p.opcodes[frame.offset]? = some op)
    (h : m.move? p reset true frame.offset op = some (.next m' asked)) :
    ∃ j, frame.offset < j ∧ m'.stack.frames = { frame with offset := j } :: callers := by
  have hpartner : op.operator.closer?.isSome → ∀ {j : Nat}, p.partners[frame.offset]? = some j →
      frame.offset < j + 1 := by
    intro hopens j hj
    obtain ⟨k, hlt, hk, -⟩ := hp.opened hop hopens
    rw [hj] at hk
    cases hk
    exact Nat.lt_succ_of_lt hlt
  by_cases hclose : op.operator = .loopClose
  · -- a loop is left, since going back would ask the budget
    unfold move? at h
    rw [hclose] at h
    dsimp only at h
    split at h <;> cases h
    exact ⟨frame.offset + 1, Nat.lt_succ_self _, goto_frames (m := m.credit 1) hf _⟩
  by_cases hcall : op.operator = .call
  · unfold move? at h
    rw [hcall] at h
    dsimp only at h
    split at h
    · cases h
    · split at h <;> cases h
  rcases (does_of_move? hf h).control with
    ⟨-, j, htarget, hframes⟩ | ⟨ho, stop, hstop, -, hframes⟩ | ⟨ho, -⟩
  · refine ⟨j, ?_, hframes⟩
    rcases htarget with ⟨rfl, -⟩ | ⟨ho | ho, partner, hj, rfl⟩ | ⟨-, -, rfl⟩
    · exact Nat.lt_succ_self _
    · exact hpartner (by rw [ho]; rfl) hj
    · exact absurd ho hclose
    · omega
  · exact ⟨stop + 1, hpartner (by rw [ho]; rfl) hstop, hframes⟩
  · exact absurd ho hcall

/-- A move that asked nothing would be made with the budget spent. -/
theorem Machine.move?_of_unasked {p : Program} {reset : Option Bool} {spent : Bool} {i : Nat}
    {op : Opcode} {m m' : Machine} (h : m.move? p reset spent i op = some (.next m' false)) :
    m.move? p reset true i op = some (.next m' false) := by
  unfold move? at h ⊢
  cases ho : op.operator with
  | loopClose =>
    rw [ho] at h
    dsimp only at h ⊢
    by_cases h0 : m.tape.current = 0
    · rw [if_pos h0] at h ⊢
      exact h
    · -- going back asks
      rw [if_neg h0] at h
      split at h
      · cases h
      · obtain ⟨partner, -, hnext⟩ := Option.map_eq_some_iff.1 h
        cases hnext
  | call =>
    rw [ho] at h
    dsimp only at h ⊢
    cases hbody : m.functions.get? m.tape.current with
    | none =>
      rw [hbody] at h
      cases h
    | some body =>
      -- so does entering a function
      rw [hbody] at h
      dsimp only at h
      split at h
      · cases h
      · split at h
        · cases h
        · obtain ⟨stack, -, hnext⟩ := Option.map_eq_some_iff.1 h
          cases hnext
  | _ =>
    rw [ho] at h
    exact h

section Forward

variable {p : Program} {t : Terms} {r r' : Run}

/-- **A step goes forward if the budget is spent or is not asked.** -/
theorem Run.onward_of_next (hp : p.Balanced) (h : r.step? p t = some (.next r'))
    (hquiet : t.budget r.polls = true ∨ r'.polls = r.polls) :
    (Step.next r').Onward r.machine.stack.frames := by
  obtain ⟨m, marks, polls⟩ := r
  cases takes_of_step? h with
  | @left frame callers hf hge =>
    refine ⟨frame, callers, hf, .inl ⟨hge, ?_⟩⟩
    show m.stack.pop.frames = callers
    simp only [CallStack.pop, hf]
  | @moved frame callers op m' asked hf hlt hop hmove hstops =>
    have hspent : m.move? p (t.resets? p marks frame.offset) true frame.offset op
        = some (.next m' asked) := by
      rcases hquiet with hbudget | hpolls
      · rw [show t.budget polls = true from hbudget] at hmove
        exact hmove
      · cases asked with
        | false => exact Machine.move?_of_unasked hmove
        | true =>
          have : polls + 1 = polls := hpolls
          omega
    obtain ⟨j, hj, hframes⟩ := Machine.onward_of_move? hp hf hop hspent
    exact ⟨frame, callers, hf, .inr ⟨hlt, j, hj, hframes⟩⟩

/-- A step that halts leaves the frames as they are. -/
theorem Run.onward_of_halt {code : ExitCode} (h : r.step? p t = some (.halt code r')) :
    (Step.halt code r').Onward r.machine.stack.frames := by
  obtain ⟨m, marks, polls⟩ := r
  cases takes_of_step? h with
  | ended _ => rfl
  | paused _ _ _ _ _ => rfl
  | halted hf _ _ hmove =>
    obtain ⟨-, -, hstack⟩ := (Machine.does_of_move? hf hmove).control
    exact congrArg CallStack.frames hstack

/-- A step forward leaves less to do. -/
theorem Step.Onward.left_lt {frames : List Frame} (h : (Step.next r').Onward frames) :
    Frame.left r'.machine.stack.frames < Frame.left frames := by
  obtain ⟨frame, callers, rfl, ⟨-, hframes⟩ | ⟨hlt, j, hj, hframes⟩⟩ := h
  · simp only [hframes, Frame.left]
    omega
  · simp only [hframes, Frame.left]
    omega

end Forward

/-! ## §2. What is ahead is not visited twice. -/

/-- The opcode that is due is ahead. -/
theorem Machine.length_visit?_le (m : Machine) :
    m.visit?.toList.length ≤ Frame.ahead m.stack.frames := by
  unfold visit?
  cases hdue : m.due? with
  | none => exact Nat.zero_le _
  | some i =>
    obtain ⟨frame, callers, hf, hlt, -⟩ := frame_of_due? hdue
    show 1 ≤ _
    rw [hf]
    simp only [Frame.ahead]
    omega

/-- It is behind once a step forward is made. -/
theorem Step.Onward.visit_ahead_le {m : Machine} {r' : Run}
    (h : (Step.next r').Onward m.stack.frames) :
    m.visit?.toList.length + Frame.ahead r'.machine.stack.frames
      ≤ Frame.ahead m.stack.frames := by
  obtain ⟨frame, callers, hf, ⟨hge, hframes⟩ | ⟨hlt, j, hj, hframes⟩⟩ := h
  · -- a frame at its end has nothing due
    have hdue : m.due? = none := by
      unfold Machine.due?
      rw [hf]
      exact if_neg (Nat.not_lt.2 hge)
    unfold Machine.visit?
    rw [hdue, hf, hframes]
    show 0 + Frame.ahead callers ≤ Frame.ahead (frame :: callers)
    simp only [Frame.ahead]
    omega
  · unfold Machine.visit?
    rw [Machine.due?_of_lt hf hlt, hf, hframes]
    show 1 + Frame.ahead ({ frame with offset := j } :: callers) ≤ Frame.ahead (frame :: callers)
    simp only [Frame.ahead]
    omega

section Bounds

variable {p : Program} {t : Terms}

/-- **With the budget spent, a call visits no more opcodes than are ahead of
its frames.** -/
theorem Run.length_visits_le (hp : p.Balanced) (hspent : ∀ n, t.budget n = true) (fuel : Nat) :
    ∀ r : Run, (r.visits p t fuel).length ≤ Frame.ahead r.machine.stack.frames := by
  induction fuel with
  | zero =>
    intro r
    exact Nat.zero_le _
  | succ fuel ih =>
    intro r
    unfold visits
    rw [List.length_append]
    split
    · next r' hstep =>
      have hvisit := (onward_of_next hp hstep (.inl (hspent _))).visit_ahead_le
      have hrest := ih r'
      omega
    · exact r.machine.length_visit?_le

/-- **Before long a call halts or asks the budget once more**, whatever
the budget answers. -/
theorem Run.exists_poll (hp : p.Balanced) {r : Run} (hfits : r.machine.Fits p)
    (hmarks : p.FitsMarks r.marks) :
    ∃ n, n ≤ Frame.left r.machine.stack.frames + 1
      ∧ ((∃ code r', r.steps p t n = .halted code r')
        ∨ ∃ r', Leads p t n r r' ∧ r'.polls = r.polls + 1) := by
  -- by what is left of the frames
  induction hleft : Frame.left r.machine.stack.frames using Nat.strongRecOn generalizing r with
  | ind left ih =>
    obtain ⟨step, hstep⟩ := Option.isSome_iff_exists.1 (hfits.step?_isSome hp.toCoherent hmarks t)
    cases step with
    | halt code r₁ => exact ⟨1, by omega, .inl ⟨code, r₁, steps_of_halt hstep 0⟩⟩
    | next r₁ =>
      by_cases hpolls : r₁.polls = r.polls
      · have hless := (onward_of_next hp hstep (.inr hpolls)).left_lt
        have hfits₁ : r₁.machine.Fits p := hfits.step hp.toCoherent hstep
        have hmarks₁ : p.FitsMarks r₁.marks := by rwa [marks_of_next hstep]
        obtain ⟨n, hn, hends⟩ := ih _ (by omega) hfits₁ hmarks₁ rfl
        refine ⟨n + 1, by omega, ?_⟩
        rcases hends with ⟨code, r', hr'⟩ | ⟨r', hlead, hpoll⟩
        · exact .inl ⟨code, r', by rw [steps_of_next hstep, hr']⟩
        · exact .inr ⟨r', hlead.step hstep, by omega⟩
      · -- the budget is asked once in a step at most
        refine ⟨1, by omega, .inr ⟨r₁, .single hstep, ?_⟩⟩
        obtain ⟨m, marks, polls⟩ := r
        cases takes_of_step? hstep with
        | left _ _ => exact absurd rfl hpolls
        | @moved _ _ _ _ asked _ _ _ _ _ =>
          cases asked with
          | false => exact absurd rfl hpolls
          | true => rfl

/-- **A call whose budget is spent halts.** -/
theorem Run.halts_of_spent (hp : p.Balanced) (hspent : ∀ n, t.budget n = true) {r : Run}
    (hfits : r.machine.Fits p) (hmarks : p.FitsMarks r.marks) :
    ∃ code r', Run.Halts p t r code r' := by
  induction hleft : Frame.left r.machine.stack.frames using Nat.strongRecOn generalizing r with
  | ind left ih =>
    obtain ⟨step, hstep⟩ := Option.isSome_iff_exists.1 (hfits.step?_isSome hp.toCoherent hmarks t)
    cases step with
    | halt code r₁ => exact ⟨code, r₁, halts_of_step hstep⟩
    | next r₁ =>
      have hless := (onward_of_next hp hstep (.inl (hspent _))).left_lt
      have hfits₁ : r₁.machine.Fits p := hfits.step hp.toCoherent hstep
      have hmarks₁ : p.FitsMarks r₁.marks := by rwa [marks_of_next hstep]
      obtain ⟨code, r', hhalts⟩ := ih _ (by omega) hfits₁ hmarks₁ rfl
      exact ⟨code, r', (Leads.single hstep).halts hhalts⟩

end Bounds

/-! ## §3. The result. -/

/-- **A cancelled call always halts.**  Take a script that passes the
check, in either granularity, and any machine that calls of the engine lead to.
If the budget is spent whenever it is asked, the next call halts, with
any breakpoints, met or passed by.  None of its steps enters a function or goes
back.  The opcodes it visits, the one it halts at included, are no more
than those ahead of the frames that are live when it begins.

Whatever the budget answers, no call goes on for ever without asking it: from
every point on, a call halts or asks once more in a number of steps that
what is left of its frames bounds. -/
theorem cancelled_calls_come_to_rest (source : String) (g : Granularity) (tape : Tape)
    (input : String) (limit : Nat) (hsource : (Script.validate source).isSuccess)
    (htape : tape.WellFormed) :
    ∃ p, Program.compile g source = .ok p ∧
      ∀ m, Machine.Reachable p (.load p tape input limit) m →
        ∀ marks : Option (Array Bool), p.FitsMarks marks →
        (∀ t : Terms, (∀ n, t.budget n = true) →
            (∃ code m' marks', m.HaltsWith p t marks code m' marks')
            ∧ (∀ n r step, Run.Leads p t n ⟨m, marks, 0⟩ r → r.step? p t = some step →
                step.Onward r.machine.stack.frames)
            ∧ ∀ fuel, (Run.visits p t fuel ⟨m, marks, 0⟩).length ≤ Frame.ahead m.stack.frames)
          ∧ ∀ (t : Terms) (n : Nat) (r : Run), Run.Leads p t n ⟨m, marks, 0⟩ r →
              ∃ k, k ≤ Frame.left r.machine.stack.frames + 1
                ∧ ((∃ code r', r.steps p t k = .halted code r')
                  ∨ ∃ r', Run.Leads p t k r r' ∧ r'.polls = r.polls + 1) := by
  obtain ⟨b, ⟨hitems, -⟩, hb⟩ := Script.validate_isSuccess_iff.1 hsource
  have hp := Program.balanced_ofTokens hitems hb g (Script.validate source).count
  refine ⟨_, Program.compile_of_isSuccess hsource g, fun m hm marks hmarks => ?_⟩
  have hfits := hm.fits hp.toCoherent (Machine.fits_load _ htape input limit)
  refine ⟨fun t hspent => ⟨?_, ?_, ?_⟩, ?_⟩
  · obtain ⟨code, ⟨m', marks', polls⟩, fuel, hfuel⟩ :=
      Run.halts_of_spent hp hspent (r := ⟨m, marks, 0⟩) hfits hmarks
    exact ⟨code, m', marks', fuel, polls, hfuel⟩
  · intro n r step _ hstep
    cases step with
    | next r' => exact Run.onward_of_next hp hstep (.inl (hspent _))
    | halt code r' => exact Run.onward_of_halt hstep
  · intro fuel
    exact Run.length_visits_le hp hspent fuel ⟨m, marks, 0⟩
  · intro t n r hlead
    obtain ⟨hfits', hmarks'⟩ : r.machine.Fits _ ∧ Program.FitsMarks _ r.marks :=
      Run.Leads.keeps (P := fun r => r.machine.Fits _ ∧ Program.FitsMarks _ r.marks)
        (fun h hstep => ⟨h.1.step hp.toCoherent hstep, by rw [Run.marks_of_next hstep]; exact h.2⟩)
        ⟨hfits, hmarks⟩ hlead
    exact Run.exists_poll hp hfits' hmarks'

/-- A call that pauses in a loop of a function.  The loop would go around until
the cell wraps; cancelled, the call carries out the two opcodes that are left of
the function and halts. -/
theorem cancelled_calls_come_to_rest_in_loop :
    ∃ p m, Program.compile .plain "(>+[+]):" = .ok p
      ∧ (∃ marks, (Machine.load p (.blank 32 .byteWrapping) "" 0).HaltsWith p { bypass := false }
          (some #[false, false, false, false, true, false, false, false]) .breakpoint m marks)
      ∧ m.stack.frames = [⟨⟨1, 6⟩, 4⟩, ⟨⟨0, 8⟩, 8⟩]
      ∧ (∃ code m' marks', m.HaltsWith p .cancelled none code m' marks')
      ∧ ∀ fuel, (Run.visits p .cancelled fuel ⟨m, none, 0⟩).length ≤ 2 := by
  have hsize : Tape.AllowedSize 32 := by decide
  obtain ⟨p, hp, hall⟩ := cancelled_calls_come_to_rest "(>+[+]):" .plain (.blank 32 .byteWrapping)
    "" 0 (by decide +kernel) (Tape.wellFormed_blank _ hsize)
  have hrun : ((Program.compile .plain "(>+[+]):").toOption.bind fun p =>
      ((Machine.load p (.blank 32 .byteWrapping) "" 0).execute p { bypass := false }
        (some #[false, false, false, false, true, false, false, false]) 40).rest?.bind fun rest =>
        some (rest.1, rest.2.machine.stack.frames, p.size))
      = some (.breakpoint, [⟨⟨1, 6⟩, 4⟩, ⟨⟨0, 8⟩, 8⟩], 8) := by
    decide +kernel
  replace hrun := seen_of_ok hrun hp
  obtain ⟨code, m, marks, polls, hhalts, heq⟩ := Machine.exists_haltsWith hrun
  simp only [Option.some.injEq, Prod.mk.injEq] at heq
  obtain ⟨rfl, hframes, hsize⟩ := heq
  have hfits : p.FitsMarks (some #[false, false, false, false, true, false, false, false]) :=
    hsize.symm
  obtain ⟨hspent, -⟩ := hall m (.call .start hfits hhalts) none trivial
  obtain ⟨hrests, -, hvisits⟩ := hspent .cancelled fun _ => rfl
  refine ⟨p, m, hp, ⟨_, hhalts⟩, hframes, hrests, fun fuel => ?_⟩
  have hle := hvisits fuel
  rw [hframes] at hle
  exact hle

end TapeMachine
