/-
  TapeMachine.Proofs.Stability
  ────────────────────────────
  **A FAULT DOES NOT GO AWAY BY ITSELF.**

  A machine that halted with a fault stays at the opcode that failed,
  and may have carried out a part of it.  Called again it fails again, at
  once and with nothing changed:

      · a counted operation that stopped has left a tape on which it makes
        no step at all (`Tape.Stepwise.again`);
      · all other opcodes fail before they change anything, and for a reason
        that is still there (`Machine.move?_again`).

  One opcode is different: a `,` that reads a character too large for its
  cell has read it.  What follows depends on the characters that are left
  and not on those that were read (`Run.steps_withText`, runs side by side
  on inputs with the same rest), so the next call is as if the input had
  begun behind that character.
-/
import TapeMachine.Proofs.Lockstep

namespace TapeMachine

/-! ## §1. One opcode. -/

/-- **A counted operation that stopped makes no further step.** -/
theorem Tape.Stepwise.again {f : Tape → Nat → Tape.Stride} (hf : Tape.Stepwise f) {n : Nat} :
    ∀ {t : Tape}, t.WellFormed → (f t n).made < n →
      ∀ k, f (f t n).tape k = ⟨(f t n).tape, 0⟩ := by
  induction n with
  | zero =>
    intro t _ hlt
    exact absurd hlt (Nat.not_lt_zero _)
  | succ n ih =>
    intro t ht hlt k
    by_cases hfirst : (f t 1).made = 0
    · -- not even the first step was made, and the tape is as it was
      rw [hf.stop n ht hfirst]
      cases k with
      | zero => exact hf.zero ht
      | succ k => exact hf.stop k ht hfirst
    · rw [hf.step n ht hfirst] at hlt ⊢
      exact ih (hf.wellFormed 1 ht) (Nat.lt_of_succ_lt_succ hlt) k

namespace Machine

variable {p : Program} {m m' : Machine} {reset : Option Bool} {spent : Bool} {i : Nat}
  {op : Opcode} {code : ExitCode}

/-- A counted opcode that failed. -/
theorem stride_again {f : Tape → Nat → Tape.Stride} {fault : ExitCode} (ht : m.tape.WellFormed)
    (hs : op.operator.stride? = some (f, fault))
    (h : m.move? p reset spent i op = some (.halt code m')) (reset' : Option Bool)
    (spent' : Bool) : m'.move? p reset' spent' i op = some (.halt code m') := by
  rw [move?_stride hs, stride_eq] at h
  split at h
  · next hlt =>
    cases h
    -- no step is made and none is credited
    have hagain := (Tape.stepwise_of_stride? hs).again ht hlt op.count
    rw [move?_stride hs, stride_eq]
    dsimp only
    rw [hagain, if_pos (Nat.lt_of_le_of_lt (Nat.zero_le _) hlt)]
    rfl
  · cases h

/-- **An opcode that failed fails again**, whatever the answers it gets, unless
the fault was a spent budget and this one is not, or a character was read. -/
theorem move?_again (ht : m.tape.WellFormed)
    (h : m.move? p reset spent i op = some (.halt code m'))
    (hread : ¬(op.operator = .get ∧ code = .aboveMaximum)) (reset' : Option Bool) {spent' : Bool}
    (hspent : code = .budgetSpent → spent' = true) :
    m'.move? p reset' spent' i op = some (.halt code m') := by
  cases ho : op.operator with
  | right | left | inc | dec => exact stride_again ht (by rw [ho]; rfl) h reset' spent'
  | put =>
    unfold move? at h ⊢
    rw [ho] at h ⊢
    dsimp only at h ⊢
    split at h
    · next hwrite =>
      cases h
      rw [hwrite]
    · cases h
  | get =>
    unfold move? at h ⊢
    rw [ho] at h ⊢
    dsimp only at h ⊢
    split at h
    · next hdry =>
      cases h
      rw [hdry]
    · split at h <;> cases h
      exact absurd ⟨ho, rfl⟩ hread
  | loopOpen | bodyClose =>
    -- neither can fail
    have hfault := (fault_of_move? h).1
    rw [ho] at hfault
    cases hfault
  | loopClose =>
    unfold move? at h ⊢
    rw [ho] at h ⊢
    dsimp only at h ⊢
    split at h
    · cases h
    · next h0 =>
      split at h
      · cases h
        rw [if_neg h0, if_pos (hspent rfl)]
      · obtain ⟨partner, -, hnext⟩ := Option.map_eq_some_iff.1 h
        cases hnext
  | bodyOpen =>
    unfold move? at h ⊢
    rw [ho] at h ⊢
    dsimp only at h ⊢
    obtain ⟨stop, hstop, hhalt⟩ := Option.map_eq_some_iff.1 h
    split at hhalt
    · next hdefine =>
      cases hhalt
      rw [hstop, Option.map_some, hdefine]
    · cases hhalt
  | call =>
    unfold move? at h ⊢
    rw [ho] at h ⊢
    dsimp only at h ⊢
    split at h
    · next hget =>
      cases h
      rw [hget]
    · next hget =>
      split at h
      · next hfull =>
        -- found before the budget is asked, which may be another one now
        cases h
        rw [hget]
        exact if_pos hfull
      · next hroom =>
        split at h
        · cases h
          rw [hget]
          dsimp only
          rw [if_neg hroom, if_pos (hspent rfl)]
        · obtain ⟨stack, -, hnext⟩ := Option.map_eq_some_iff.1 h
          cases hnext

/-- A character that does not fit the cell has been read, and nothing else has
changed. -/
theorem read_of_refused (ho : op.operator = .get)
    (h : m.move? p reset spent i op = some (.halt .aboveMaximum m')) :
    ∃ c, m.input.unread = c :: m'.input.unread ∧ m.tape.store? c = none
      ∧ m' = { m with input := { m.input with unread := m'.input.unread } } := by
  unfold move? at h
  rw [ho] at h
  dsimp only at h
  split at h
  · cases h
  · next c input hinput =>
    split at h
    · next hstore =>
      cases h
      unfold Input.read? at hinput
      split at hinput
      · cases hinput
      · next hunread =>
        cases hinput
        exact ⟨c, hunread, hstore, rfl⟩
    · cases h

end Machine

/-! ## §2. Only the rest of the input matters. -/

/-- The machine with another text as the whole input and the same rest of it. -/
def Machine.withText (text : String) (m : Machine) : Machine :=
  { m with input := { m.input with text } }

/-- A call of such a machine. -/
def Run.withText (text : String) (r : Run) : Run :=
  { r with machine := r.machine.withText text }

/-- What becomes of such a call. -/
def Outcome.withText (text : String) : Outcome → Outcome
  | .halted code r => .halted code (r.withText text)
  | .unfinished r => .unfinished (r.withText text)
  | .stuck => .stuck

/-- The same tape, the same output, and inputs with the same rest. -/
def Likeness.retold (text : String) : Likeness where
  tape := Eq
  input := fun i i' => i' = { i with text }
  output := Eq

/-- **Nothing can part the machines.** -/
theorem Likeness.steady_retold (text : String) : (retold text).Steady fun _ => False := by
  refine steady_of_tape_eq ?_ ?_ ?_ ?_
  · rintro ⟨whole, _ | ⟨d, rest⟩⟩ _ j c rfl hread
    · cases hread
    · cases hread
      exact ⟨⟨text, rest⟩, rfl, rfl⟩
  · rintro ⟨whole, _ | ⟨d, rest⟩⟩ _ rfl hread
    · exact .inr rfl
    · cases hread
  · rintro o _ w v rfl hwrite
    exact ⟨w, hwrite, rfl⟩
  · rintro o _ v rfl hwrite
    exact .inr hwrite

namespace Run

variable {p : Program} {t : Terms}

theorem resembles_withText (text : String) (r : Run) :
    r.Resembles (.retold text) (r.withText text) :=
  ⟨⟨rfl, rfl, rfl, rfl, rfl, rfl⟩, rfl, rfl⟩

theorem Resembles.eq_withText {text : String} {r s : Run} (h : r.Resembles (.retold text) s) :
    s = r.withText text := by
  obtain ⟨⟨tape, functions, stack, input, output, operations⟩, marks, polls⟩ := r
  obtain ⟨⟨tape', functions', stack', input', output', operations'⟩, marks', polls'⟩ := s
  obtain ⟨⟨htape, hinput, houtput, hfunctions, hstack, hoperations⟩, hmarks, hpolls⟩ := h
  dsimp only at hfunctions hstack hoperations hmarks hpolls
  obtain rfl : tape = tape' := htape
  obtain rfl : output = output' := houtput
  obtain rfl : input' = { input with text } := hinput
  subst hfunctions hstack hoperations hmarks hpolls
  rfl

/-- A call that gets stuck does so on any text. -/
theorem step?_withText_of_stuck {r : Run} (text : String) (h : r.step? p t = none) :
    (r.withText text).step? p t = none := by
  cases hstep : (r.withText text).step? p t with
  | none => rfl
  | some step =>
    -- with its own text again, the call would make a step
    have hback : (r.withText text).Resembles (.retold r.machine.input.text) r :=
      resembles_withText r.machine.input.text (r.withText text)
    rcases (Likeness.steady_retold _).step hback hstep with ⟨_, _, _, hfalse⟩ | ⟨step', hstep', -⟩
    · exact hfalse.elim
    · rw [h] at hstep'
      cases hstep'

/-- **A call depends on the rest of the input only.** -/
theorem steps_withText (text : String) (n : Nat) :
    ∀ r : Run, (r.withText text).steps p t n = (r.steps p t n).withText text := by
  induction n with
  | zero =>
    intro r
    rfl
  | succ n ih =>
    intro r
    cases hstep : r.step? p t with
    | none =>
      rw [steps_of_stuck hstep, steps_of_stuck (step?_withText_of_stuck text hstep)]
      rfl
    | some step =>
      rcases (Likeness.steady_retold text).step (resembles_withText text r) hstep with
        ⟨_, _, _, hfalse⟩ | ⟨step', hstep', hlike⟩
      · exact hfalse.elim
      · cases hlike with
        | next h =>
          rw [steps_of_next hstep, steps_of_next hstep', h.eq_withText, ih]
        | halt h code =>
          rw [steps_of_halt hstep, steps_of_halt hstep', h.eq_withText]
          rfl

/-! ## §3. The last step of a call, again. -/

/-- **A call that failed fails again**, at its first step. -/
theorem step?_again {m m' : Machine} {marks : Option (Array Bool)} {frame : Frame}
    {callers : List Frame} {op : Opcode} {reset : Option Bool} {spent : Bool} {code : ExitCode}
    (ht : m.tape.WellFormed) (hf : m.stack.frames = frame :: callers)
    (hlt : frame.offset < frame.body.stop) (hop : p.opcodes[frame.offset]? = some op)
    (hmove : m.move? p reset spent frame.offset op = some (.halt code m'))
    (hstops : t.stops? marks frame.offset = some false)
    (hread : ¬(op.operator = .get ∧ code = .aboveMaximum)) {u : Terms}
    (hbypass : u.bypass = t.bypass) (hspent : code = .budgetSpent → u.budget 0 = true) :
    step? p u ⟨m', marks, 0⟩ = some (.halt code ⟨m', marks, 0⟩) := by
  have hf' : m'.stack.frames = frame :: callers := by
    rw [(Machine.does_of_move? hf hmove).control.2.2, hf]
  have hstops' : u.stops? marks frame.offset = some false := by
    unfold Terms.stops? at hstops ⊢
    rw [hbypass]
    exact hstops
  rw [step?_of_lt hf' hlt]
  simp only [hstops', hop]
  rw [Machine.move?_again ht hmove hread _ hspent]
  rfl

end Run

/-- **Faults are stable.**  With a successful report, `compileAs` compiles
every script, valid or not, in either granularity.  Take any machine that
calls lead to, and one call more, on any terms, that halts.

If the script ran to its end, every further call says so and changes nothing.
If it halted with a fault, the machine is at an opcode.  Unless that is a
`,` that refused a character, a further call with the breakpoints that are left,
passing them by or not as before, and with any budget — one that is spent, if
that was the fault — halts at once, with the same fault and nothing
changed.  A `,` that refused a character has read it and changed nothing else,
and every further call does what it would do if the input began behind it. -/
theorem faults_are_stable (report : Validation) (g : Granularity) (source : String) (tape : Tape)
    (input : String) (limit : Nat) (hreport : report.isSuccess) (htape : tape.WellFormed) :
    ∃ p, Program.compileAs report g source = .ok p ∧
      ∀ m, Machine.Reachable p (.load p tape input limit) m →
        ∀ (t : Terms) (marks : Option (Array Bool)) (code : ExitCode) (m' : Machine)
          (marks' : Option (Array Bool)), m.HaltsWith p t marks code m' marks' →
          (code = .success → ∀ (u : Terms) (table : Option (Array Bool)) (fuel : Nat),
            m'.execute p u table (fuel + 1) = .halted .success ⟨m', table, 0⟩)
          ∧ (code.isFault → ∃ frame callers op, m'.stack.frames = frame :: callers
              ∧ p.opcodes[frame.offset]? = some op
              ∧ (¬(op.operator = .get ∧ code = .aboveMaximum) →
                  ∀ (u : Terms) (fuel : Nat), u.bypass = t.bypass →
                    (code = .budgetSpent → u.budget 0 = true) →
                    m'.execute p u marks' (fuel + 1) = .halted code ⟨m', marks', 0⟩)
              ∧ (op.operator = .get → code = .aboveMaximum →
                  (∃ before n polls c, Run.Leads p t n ⟨m, marks, 0⟩ ⟨before, marks', polls⟩
                    ∧ before.input.unread = c :: m'.input.unread ∧ before.tape.store? c = none
                    ∧ m' = { before with
                        input := { before.input with unread := m'.input.unread } })
                  ∧ ∀ (u : Terms) (table : Option (Array Bool)) (fuel : Nat),
                      Machine.execute p u table fuel
                          { m' with input := .ofText (String.ofList m'.input.unread) }
                        = (m'.execute p u table fuel).withText
                          (String.ofList m'.input.unread))) := by
  have hcompile : Program.compileAs report g source
      = .ok (.ofTokens g report.count (Script.tokens source)) := if_pos hreport
  have hp := Program.coherent_ofTokens g report.count (Script.tokens source)
  refine ⟨_, hcompile, ?_⟩
  intro m hm t marks code m' marks' hhalts
  obtain ⟨fuel, polls, hfuel⟩ := hhalts
  obtain ⟨n, r₁, hleads, hstep⟩ := Run.exists_leads_halt fuel hfuel
  have hfits : r₁.machine.Fits _ :=
    hleads.keeps (P := fun r => r.machine.Fits _) (fun hr hnext => hr.step hp hnext)
      (hm.fits hp (Machine.fits_load _ htape input limit))
  obtain ⟨m₁, marks₁, polls₁⟩ := r₁
  cases Run.takes_of_step? hstep with
  | ended hf =>
    refine ⟨?_, fun hfault => by cases hfault⟩
    intro _ u table fuel
    exact Run.steps_of_halt (Run.step?_of_empty hf) fuel
  | paused _ _ _ _ _ =>
    constructor
    · intro hcode
      cases hcode
    · intro hfault
      cases hfault
  | @halted frame callers op _ _ hf hlt hop hmove hstops =>
    obtain ⟨hfault, -, hstack⟩ := (Machine.does_of_move? hf hmove).control
    constructor
    · intro hcode
      rw [hcode] at hfault
      cases hfault
    · intro _
      refine ⟨frame, callers, op, by rw [hstack, hf], hop, ?_, ?_⟩
      · intro hread u fuel hbypass hspent
        exact Run.steps_of_halt
          (Run.step?_again hfits.tape hf hlt hop hmove hstops hread hbypass hspent) fuel
      · rintro ho rfl
        obtain ⟨c, hunread, hstore, hsame⟩ := Machine.read_of_refused ho hmove
        refine ⟨⟨m₁, n, polls, c, hleads, hunread, hstore, hsame⟩, ?_⟩
        intro u table fuel
        rw [Machine.execute, Machine.execute, ← Run.steps_withText]
        simp only [Run.withText, Machine.withText, Input.ofText, String.toList_ofList]

/-- A character too large for its cell, and then the end of the tape in the
middle of an opcode: the second call goes on with the next character, the third
one stays where it is. -/
theorem faults_are_stable_halfway :
    ∃ p m₁ m₂,
      Program.compileAs (.success 36) .packed ",>>>>>>>>>>>>>>>>>>>>>>>>>>>>>>>>>>>" = .ok p
      ∧ Machine.HaltsWith p {} (.load p (.blank 32 .byteChecked) "€a" 0) none .aboveMaximum m₁ none
      ∧ (m₁.input.unread = ['a'] ∧ m₁.operations = 0)
      ∧ m₁.HaltsWith p {} none .pastEnd m₂ none
      ∧ (m₂.tape.cells.getD 0 0 = 97 ∧ m₂.tape.pointer = 31 ∧ m₂.operations = 32)
      ∧ m₂.execute p {} none 1 = .halted .pastEnd ⟨m₂, none, 0⟩ := by
  obtain ⟨p, hp, hall⟩ := faults_are_stable (.success 36) .packed
    ",>>>>>>>>>>>>>>>>>>>>>>>>>>>>>>>>>>>" (.blank 32 .byteChecked) "€a" 0 rfl
    (Tape.wellFormed_blank _ (by decide))
  have hfirst : ((Program.compileAs (.success 36) .packed
      ",>>>>>>>>>>>>>>>>>>>>>>>>>>>>>>>>>>>").toOption.bind fun p =>
      ((Machine.load p (.blank 32 .byteChecked) "€a" 0).execute p {} none 9).rest?.bind fun first =>
        some (first.1, first.2.marks, first.2.machine.input.unread, first.2.machine.operations))
      = some (.aboveMaximum, none, ['a'], 0) := by
    decide +kernel
  have hsecond : ((Program.compileAs (.success 36) .packed
      ",>>>>>>>>>>>>>>>>>>>>>>>>>>>>>>>>>>>").toOption.bind fun p =>
      ((Machine.load p (.blank 32 .byteChecked) "€a" 0).execute p {} none 9).rest?.bind fun first =>
      (first.2.machine.execute p {} none 9).rest?.bind fun second =>
        some (second.1, second.2.marks, second.2.machine.tape.cells.getD 0 0,
          second.2.machine.tape.pointer, second.2.machine.operations))
      = some (.pastEnd, none, 97, 31, 32) := by
    decide +kernel
  replace hsecond := seen_of_ok hsecond hp
  obtain ⟨⟨code, m₁, marks₁, polls₁⟩, hrest, hsecond⟩ := Option.bind_eq_some_iff.1 hsecond
  obtain ⟨code', m₂, marks₂, polls₂, hcall', hafter⟩ := Machine.exists_haltsWith hsecond
  have hbefore := seen_of_ok hfirst hp
  rw [hrest] at hbefore
  simp only [Option.bind_some, Option.some.injEq, Prod.mk.injEq] at hbefore hafter
  obtain ⟨rfl, rfl, hbefore⟩ := hbefore
  obtain ⟨rfl, rfl, hafter⟩ := hafter
  have hcall := Machine.haltsWith_of_rest? hrest
  have hm₁ : Machine.Reachable p (.load p (.blank 32 .byteChecked) "€a" 0) m₁ :=
    .call .start (show p.FitsMarks none from trivial) hcall
  obtain ⟨frame, callers, op, -, -, hagain, -⟩ := (hall m₁ hm₁ {} none _ m₂ none hcall').2 rfl
  refine ⟨p, m₁, m₂, hp, hcall, hbefore, hcall', hafter, ?_⟩
  apply hagain _ {} 0 rfl
  · intro hcode
    cases hcode
  · rintro ⟨-, hcode⟩
    cases hcode

end TapeMachine
