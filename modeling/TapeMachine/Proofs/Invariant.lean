/-
  TapeMachine.Proofs.Invariant
  ────────────────────────────
  **MACHINES THAT BELONG TO A PROGRAM.**

  `Machine.Fits p m` is what every step keeps, whatever the terms of the
  call: the tape is well-formed, no frame stands behind the program's end,
  the code of a frame or of a function ends at the end of the program, at a
  `)`, or, for a function that is never closed, at 0, and what is on record
  as a definition is a `(`.  It holds of a machine that was just loaded
  (`fits_load`) and after every step (`Fits.step`), for programs of any
  stream.  On such a machine there is always a step (`Fits.step?_isSome`),
  so a call never gets stuck, and if it halts then at the end of the
  script or on an opcode (`Fits.steps`).  What every step keeps holds of every
  reachable machine (`Reachable.keeps`).
-/
import TapeMachine.Machine.Reachable
import TapeMachine.Proofs.Partners
import TapeMachine.Proofs.Runs
import TapeMachine.Proofs.Tape

namespace TapeMachine

/-! ## §1. Loops done in one step. -/

/-- A loop that is done in one step is `[-]`. -/
theorem Program.Coherent.of_isReset? {p : Program} (hp : p.Coherent) {i : Nat}
    {marks : Option (Array Bool)} (h : p.isReset? marks i = some true) :
    p.partners[i]? = some (i + 2) ∧ p.opcodes[i + 1]? = some (.one .dec)
      ∧ p.partners[i + 2]? = some i
      ∧ (∃ x y : Opcode, p.opcodes[i]? = some x ∧ p.opcodes[i + 2]? = some y
        ∧ x.operator.closer? = some y.operator) := by
  unfold isReset? at h
  split at h
  · cases h
  · next partner hpartner =>
    split at h
    · next he =>
      subst he
      split at h
      · cases h
      · next body hbody =>
        split at h
        · next he =>
          subst he
          obtain ⟨hback, hpair⟩ := hp.pair (by omega) hpartner
          exact ⟨hpartner, hbody, hback, hpair⟩
        · cases h
    · cases h

theorem Terms.isReset?_of_resets? {t : Terms} {p : Program} {marks : Option (Array Bool)} {i : Nat}
    (h : t.resets? p marks i = some true) : p.isReset? marks i = some true := by
  unfold Terms.resets? at h
  split at h
  · exact h
  · cases h

/-- The look-ups that decide whether a loop is done in one step succeed. -/
theorem Program.Coherent.resets?_isSome {p : Program} (hp : p.Coherent) {i : Nat} {op : Opcode}
    (hop : p.opcodes[i]? = some op) {marks : Option (Array Bool)} (hmarks : p.FitsMarks marks)
    (t : Terms) : (t.resets? p marks i).isSome := by
  have hi : i < p.partners.size := by
    rw [hp.partners_size]
    exact (Array.getElem?_eq_some_iff.1 hop).1
  have hpartner : p.partners[i]? = some p.partners[i] := Array.getElem?_eq_getElem hi
  unfold Terms.resets?
  split
  · unfold isReset?
    rw [hpartner]
    dsimp only
    split
    · next he =>
      -- a partner two places on is inside the program, and so are the marks up to it
      rw [he] at hpartner
      have hlt : i + 2 < p.size := by
        rcases hp.entry hpartner with h | h
        · omega
        · exact h
      obtain ⟨body, hbody⟩ : ∃ body, p.opcodes[i + 1]? = some body :=
        ⟨_, Array.getElem?_eq_getElem (Nat.lt_of_succ_lt hlt)⟩
      rw [hbody]
      dsimp only
      split
      · cases marks with
        | none => rfl
        | some table =>
          have hsize : table.size = p.size := hmarks
          obtain ⟨first, hfirst⟩ : ∃ first, table[i + 1]? = some first :=
            ⟨_, Array.getElem?_eq_getElem (by omega)⟩
          obtain ⟨second, hsecond⟩ : ∃ second, table[i + 1 + 1]? = some second :=
            ⟨_, Array.getElem?_eq_getElem (by omega)⟩
          simp only [unmarked?, hfirst, hsecond]
          rfl
      · rfl
    · rfl
  · rfl

/-! ## §2. The invariant. -/

/-- Where the code of a frame can end. -/
def Program.EndsCode (p : Program) (stop : Nat) : Prop :=
  stop = 0 ∨ stop = p.size ∨ ∃ x : Opcode, p.opcodes[stop]? = some x ∧ x.operator = .bodyClose

theorem Program.EndsCode.le {p : Program} {stop : Nat} (h : p.EndsCode stop) : stop ≤ p.size := by
  rcases h with rfl | rfl | ⟨x, hx, -⟩
  · exact Nat.zero_le _
  · exact Nat.le_refl _
  · exact Nat.le_of_lt (Array.getElem?_eq_some_iff.1 hx).1

/-- Code does not end inside `[-]`. -/
theorem Program.EndsCode.not_inside {p : Program} {stop i : Nat} (h : p.EndsCode stop)
    (hi : i < stop) (hdec : p.opcodes[i + 1]? = some (.one .dec)) {y : Opcode}
    (hy : p.opcodes[i + 2]? = some y) (hclose : y.operator = .loopClose) : i + 2 < stop := by
  rcases h with rfl | rfl | ⟨x, hx, ho⟩
  · omega
  · exact (Array.getElem?_eq_some_iff.1 hy).1
  · have h1 : stop ≠ i + 1 := by
      rintro rfl
      rw [hdec] at hx
      cases hx
      cases ho
    have h2 : stop ≠ i + 2 := by
      rintro rfl
      rw [hy] at hx
      cases hx
      rw [hclose] at ho
      cases ho
    omega

/-- A definition that is made comes first in the record. -/
theorem FunctionTable.newest_define? {f g : FunctionTable} {e : FunctionEntry} {body : Span}
    (h : f.define? e body = some g) : g.newest = e :: f.newest := by
  unfold define? at h
  split at h
  · cases h
  · cases h
    rfl

/-- The machine belongs to the program. -/
structure Machine.Fits (p : Program) (m : Machine) : Prop where
  tape : m.tape.WellFormed
  frame : ∀ f ∈ m.stack.frames, f.offset ≤ p.size ∧ p.EndsCode f.body.stop
  body : ∀ {key : Nat} {body : Span}, m.functions.get? key = some body →
    body.start ≤ p.size ∧ p.EndsCode body.stop
  entry : ∀ e ∈ m.functions.newest, ∃ x : Opcode, p.opcodes[e.declaration]? = some x
    ∧ x.operator = .bodyOpen

namespace Machine

variable {p : Program} {m : Machine}

/-- A machine that was just loaded fits. -/
theorem fits_load (p : Program) {tape : Tape} (h : tape.WellFormed) (input : String)
    (limit : Nat) : (load p tape input limit).Fits p where
  tape := h
  frame := by
    intro f hf
    obtain rfl : f = ⟨⟨0, p.size⟩, 0⟩ := List.mem_singleton.1 hf
    exact ⟨Nat.zero_le _, .inr (.inl rfl)⟩
  body := by
    intro key body hbody
    rw [load, FunctionTable.get?_empty] at hbody
    cases hbody
  entry := by
    intro e he
    cases he

/-- A machine with the same functions fits if its tape and its frames do. -/
theorem Fits.of_functions {m' : Machine} (h : m.Fits p) (hfun : m'.functions = m.functions)
    (htape : m'.tape.WellFormed)
    (hframe : ∀ f ∈ m'.stack.frames, f.offset ≤ p.size ∧ p.EndsCode f.body.stop) :
    m'.Fits p where
  tape := htape
  frame := hframe
  body := by
    rw [hfun]
    exact h.body
  entry := by
    rw [hfun]
    exact h.entry

/-! ## §3. One step keeps it. -/

/-- A frame goes on inside the program. -/
theorem Target.le {reset : Option Bool} {i j : Nat} {op : Opcode} (hp : p.Coherent)
    (hop : p.opcodes[i]? = some op) (hreset : reset = some true → p.partners[i]? = some (i + 2))
    (h : Target p reset i op j) : j ≤ p.size := by
  have hi : i < p.size := (Array.getElem?_eq_some_iff.1 hop).1
  rcases h with ⟨rfl, -⟩ | ⟨-, partner, hpartner, rfl⟩ | ⟨-, hr, rfl⟩
  · exact hi
  · rcases hp.entry hpartner with rfl | h
    · omega
    · exact h
  · rcases hp.entry (hreset hr) with h | h <;> omega

/-- **A move keeps the invariant.** -/
theorem Fits.move {reset : Option Bool} {spent : Bool} {move : Move} {op : Opcode} {frame : Frame}
    {callers : List Frame} (hp : p.Coherent) (h : m.Fits p)
    (hf : m.stack.frames = frame :: callers) (hop : p.opcodes[frame.offset]? = some op)
    (hreset : reset = some true → p.partners[frame.offset]? = some (frame.offset + 2))
    (hmove : m.move? p reset spent frame.offset op = some move) : move.machine.Fits p := by
  obtain ⟨hchanges, hcontrol, -⟩ := does_of_move? hf hmove
  have htape := h.tape.changes hchanges
  have hi : frame.offset < p.size := (Array.getElem?_eq_some_iff.1 hop).1
  have hframe := h.frame frame (by rw [hf]; exact List.mem_cons_self)
  have hcallers : ∀ f ∈ callers, f.offset ≤ p.size ∧ p.EndsCode f.body.stop :=
    fun f hmem => h.frame f (by rw [hf]; exact List.mem_cons_of_mem _ hmem)
  -- a frame keeps its body, so only the index it goes on at matters
  have hgo : ∀ j, j ≤ p.size → ∀ f ∈ { frame with offset := j } :: callers,
      f.offset ≤ p.size ∧ p.EndsCode f.body.stop := by
    intro j hj f hmem
    rcases List.mem_cons.1 hmem with rfl | hmem
    · exact ⟨hj, hframe.2⟩
    · exact hcallers f hmem
  cases move with
  | halt code m' =>
    obtain ⟨-, hfun, hstack⟩ := hcontrol
    refine h.of_functions hfun htape ?_
    rw [Move.machine, hstack]
    exact h.frame
  | next m' asked =>
    rcases hcontrol with ⟨hfun, j, htarget, hframes⟩ | ⟨ho, stop, hstop, hdef, hframes⟩
      | ⟨ho, body, hbody, hfun, -, hframes⟩
    · refine h.of_functions hfun htape ?_
      rw [Move.machine, hframes]
      exact hgo j (htarget.le hp hop hreset)
    · -- the body that is defined ends at its `)`, or at 0 if there is none
      have hopen : op.operator.closer? = some .bodyClose := by rw [ho]; rfl
      have hends : p.EndsCode stop := by
        rcases hp.opener hop (by rw [hopen]; rfl) hstop with h0 | hlt
        · exact .inl h0
        · obtain ⟨-, x, y, hx, hy, hpair⟩ := hp.pair hlt hstop
          rw [hop] at hx
          cases hx
          rw [hopen] at hpair
          exact .inr (.inr ⟨y, hy, (Option.some.inj hpair).symm⟩)
      refine ⟨htape, ?_, ?_, ?_⟩
      · rw [Move.machine, hframes]
        refine hgo (stop + 1) ?_
        rcases hp.entry hstop with rfl | h
        · omega
        · exact h
      · intro key body hbody
        rw [Move.machine, FunctionTable.get?_define? hdef] at hbody
        split at hbody
        · obtain ⟨hbody, -⟩ := Option.filter_eq_some_iff.1 hbody
          cases hbody
          exact ⟨hi, hends⟩
        · exact h.body hbody
      · intro e he
        rw [Move.machine, FunctionTable.newest_define? hdef] at he
        rcases List.mem_cons.1 he with rfl | he
        · exact ⟨op, hop, ho⟩
        · exact h.entry e he
    · refine h.of_functions hfun htape ?_
      rw [Move.machine, hframes]
      intro f hmem
      rcases List.mem_cons.1 hmem with rfl | hmem
      · exact h.body hbody
      · exact hgo (frame.offset + 1) hi f hmem

end Machine

/-- The state of the call after a step. -/
def Step.run : Step → Run
  | .next r => r
  | .halt _ r => r

/-- **A step keeps the invariant.** -/
theorem Machine.Fits.step {p : Program} {t : Terms} {r : Run} {step : Step} (hp : p.Coherent)
    (h : r.machine.Fits p) (hstep : r.step? p t = some step) : step.run.machine.Fits p := by
  obtain ⟨m, marks, polls⟩ := r
  have hreset : ∀ {i : Nat}, t.resets? p marks i = some true → p.partners[i]? = some (i + 2) :=
    fun hr => (hp.of_isReset? (Terms.isReset?_of_resets? hr)).1
  cases Run.takes_of_step? hstep with
  | ended _ => exact h
  | paused _ _ _ _ => exact h
  | moved hf _ hop hmove => exact h.move hp hf hop hreset hmove
  | halted hf _ hop hmove => exact h.move hp hf hop hreset hmove
  | left hf _ =>
    -- the frames that remain were there before
    refine h.of_functions rfl h.tape ?_
    intro f hmem
    refine h.frame f ?_
    simp only [Step.run, CallStack.pop, hf] at hmem
    rw [hf]
    exact List.mem_cons_of_mem _ hmem

/-! ## §4. A machine that fits is never stuck. -/

/-- Every opcode of the program can be carried out. -/
theorem Machine.move?_isSome {p : Program} {m : Machine} {reset : Option Bool} {frame : Frame}
    {callers : List Frame} {i : Nat} {op : Opcode} (hp : p.Coherent)
    (hf : m.stack.frames = frame :: callers) (hop : p.opcodes[i]? = some op)
    (hreset : reset.isSome) (spent : Bool) : (m.move? p reset spent i op).isSome := by
  have hi : i < p.partners.size := by
    rw [hp.partners_size]
    exact (Array.getElem?_eq_some_iff.1 hop).1
  have hpartner : p.partners[i]? = some p.partners[i] := Array.getElem?_eq_getElem hi
  unfold move?
  cases op.operator with
  | right | left | inc | dec | bodyClose => rfl
  | put =>
    dsimp only
    split <;> rfl
  | get =>
    dsimp only
    split
    · rfl
    · split <;> rfl
  | loopOpen =>
    dsimp only
    rw [hpartner]
    split
    · rfl
    · rwa [Option.isSome_map]
  | loopClose =>
    dsimp only
    rw [hpartner]
    split
    · rfl
    · split <;> rfl
  | bodyOpen =>
    dsimp only
    rw [hpartner]
    rfl
  | call =>
    dsimp only
    split
    · rfl
    · split
      · rfl
      · next hfull =>
        split
        · rfl
        · rw [Option.isSome_map, CallStack.push?, hf]
          dsimp only
          rw [if_neg hfull]
          rfl

/-- **A call never gets stuck.** -/
theorem Machine.Fits.step?_isSome {p : Program} {r : Run} (hp : p.Coherent)
    (h : r.machine.Fits p) (hmarks : p.FitsMarks r.marks) (t : Terms) :
    (r.step? p t).isSome := by
  obtain ⟨m, marks, polls⟩ := r
  cases hf : m.stack.frames with
  | nil =>
    rw [Run.step?_of_empty hf]
    rfl
  | cons frame callers =>
    rcases Nat.lt_or_ge frame.offset frame.body.stop with hlt | hge
    · have hi : frame.offset < p.size :=
        Nat.lt_of_lt_of_le hlt (h.frame frame (by rw [hf]; exact List.mem_cons_self)).2.le
      have hop : p.opcodes[frame.offset]? = some p.opcodes[frame.offset] :=
        Array.getElem?_eq_getElem hi
      rw [Run.step?_of_lt hf hlt]
      split
      · next hnone =>
        -- every opcode has a mark, set or not
        unfold Terms.stops? at hnone
        split at hnone
        · cases hnone
        · cases hnone
        · next table _ =>
          have hsize : table.size = p.size := hmarks
          rw [Array.getElem?_eq_none_iff] at hnone
          omega
      · rfl
      · rw [hop]
        dsimp only
        rw [Option.isSome_map]
        exact move?_isSome hp hf hop (hp.resets?_isSome hop hmarks t) _
    · rw [Run.step?_of_done hf hge]
      rfl

/-! ## §5. Where a machine halts. -/

/-- The machine halted at the end of the script or on an opcode. -/
def Machine.Rests (p : Program) (m : Machine) (code : ExitCode) : Prop :=
  code = .success ∨ ∃ frame callers op, m.stack.frames = frame :: callers
    ∧ p.opcodes[frame.offset]? = some op

/-- **A call halts at the end of the script or on an opcode.** -/
theorem Run.rests_of_halt {p : Program} {t : Terms} {r r' : Run} {code : ExitCode}
    (hmarks : p.FitsMarks r.marks) (h : r.step? p t = some (.halt code r')) :
    r'.machine.Rests p code := by
  obtain ⟨m, marks, polls⟩ := r
  cases takes_of_step? h with
  | ended _ => exact .inl rfl
  | @paused frame callers table hf _ htable hmark =>
    -- a breakpoint is set on an opcode
    subst htable
    have hsize : table.size = p.size := hmarks
    have hi : frame.offset < p.size := hsize ▸ (Array.getElem?_eq_some_iff.1 hmark).1
    exact .inr ⟨frame, callers, _, hf, Array.getElem?_eq_getElem hi⟩
  | @halted frame callers op m' _ hf _ hop hmove =>
    obtain ⟨-, -, hstack⟩ := (Machine.does_of_move? hf hmove).control
    refine .inr ⟨frame, callers, op, ?_, hop⟩
    rw [hstack, hf]

/-- A call that goes on keeps its breakpoints. -/
theorem Run.marks_of_next {p : Program} {t : Terms} {r r' : Run}
    (h : r.step? p t = some (.next r')) : r'.marks = r.marks := by
  obtain ⟨m, marks, polls⟩ := r
  cases takes_of_step? h with
  | left _ _ => rfl
  | moved _ _ _ _ => rfl

/-- What a call makes of a machine that fits: it goes on to fit, and if it
halted then where a machine can. -/
def Outcome.Sound (p : Program) : Outcome → Prop
  | .halted code r => r.machine.Fits p ∧ r.machine.Rests p code
  | .unfinished r => r.machine.Fits p
  | .stuck => False

/-- **What a whole call keeps.** -/
theorem Machine.Fits.steps {p : Program} {t : Terms} (hp : p.Coherent) (n : Nat) :
    ∀ {r : Run}, r.machine.Fits p → p.FitsMarks r.marks → (r.steps p t n).Sound p := by
  induction n with
  | zero =>
    intro r hfits _
    exact hfits
  | succ n ih =>
    intro r hfits hmarks
    obtain ⟨step, hstep⟩ := Option.isSome_iff_exists.1 (hfits.step?_isSome hp hmarks t)
    have hfits' := hfits.step hp hstep
    cases step with
    | next r₁ =>
      rw [Run.steps_of_next hstep]
      exact ih hfits' (by rwa [Run.marks_of_next hstep])
    | halt c r₁ =>
      rw [Run.steps_of_halt hstep]
      exact ⟨hfits', Run.rests_of_halt hmarks hstep⟩

section Call

variable {p : Program} {t : Terms} {n : Nat} {r : Run}

theorem Machine.Fits.halted (hp : p.Coherent) (h : r.machine.Fits p) (hmarks : p.FitsMarks r.marks)
    {r' : Run} {code : ExitCode} (hr : r.steps p t n = .halted code r') :
    r'.machine.Fits p ∧ r'.machine.Rests p code := by
  have hsound := h.steps (t := t) hp n hmarks
  rw [hr] at hsound
  exact hsound

/-- A call without breakpoints that halted. -/
theorem Run.Halts.fits {m : Machine} {code : ExitCode} (h : Run.Halts p t ⟨m, none, 0⟩ code r)
    (hp : p.Coherent) (hm : m.Fits p) : r.machine.Fits p ∧ r.machine.Rests p code := by
  obtain ⟨k, hk⟩ := h
  exact Machine.Fits.halted hp (r := ⟨m, none, 0⟩) hm trivial hk

theorem Machine.Fits.not_stuck (hp : p.Coherent) (h : r.machine.Fits p)
    (hmarks : p.FitsMarks r.marks) : r.steps p t n ≠ .stuck := by
  intro hr
  have hsound := h.steps (t := t) hp n hmarks
  rw [hr] at hsound
  exact hsound

end Call

/-! ## §6. Invariants of reachable machines. -/

/-- What every step keeps, a call that halted has kept. -/
theorem Run.keeps_of_halted {p : Program} {t : Terms} {P : Machine → Prop}
    (hkeeps : ∀ {r : Run} {step : Step}, P r.machine → r.step? p t = some step →
      P step.run.machine) {code : ExitCode} {r' : Run} (n : Nat) {r : Run} (h : P r.machine)
    (hr : r.steps p t n = .halted code r') : P r'.machine := by
  obtain ⟨k, r₁, hleads, hhalt⟩ := exists_leads_halt n hr
  have hlast : P r₁.machine :=
    hleads.keeps (P := fun r => P r.machine) (fun hr hnext => hkeeps hr hnext) h
  exact hkeeps hlast hhalt

/-- **What holds at the start and is kept by every step holds of every
reachable machine.** -/
theorem Machine.Reachable.keeps {p : Program} {start m : Machine} {P : Machine → Prop}
    (h : Reachable p start m) (hstart : P start)
    (hkeeps : ∀ {t : Terms} {r : Run} {step : Step}, P r.machine → r.step? p t = some step →
      P step.run.machine) : P m := by
  induction h with
  | start => exact hstart
  | call _ _ halts ih =>
    obtain ⟨fuel, polls, hfuel⟩ := halts
    exact Run.keeps_of_halted hkeeps fuel ih hfuel

/-- A reachable machine belongs to its program. -/
theorem Machine.Reachable.fits {p : Program} {start m : Machine} (h : Reachable p start m)
    (hp : p.Coherent) (hstart : start.Fits p) : m.Fits p :=
  h.keeps hstart fun hm hstep => hm.step hp hstep

end TapeMachine
