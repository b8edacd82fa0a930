/-
  TapeMachine.Proofs.Lockstep
  ───────────────────────────
  **RUNS SIDE BY SIDE.**

  Two machines may differ in their tapes, inputs and outputs and still make
  the same steps: the program sees of a tape the current cell and whether an
  operation could be made, of an input its next character, of an output
  whether it has room.  A `Likeness` says how the three are related, and
  `Likeness.Steady` what each operation on them has to keep.  An operation may
  fail on the first machine alone, if its fault is one that is excused.

    • `Steady.keeps` — with all else in common this is a `Linkage`,
    • `Steady.move`, `Steady.step` — so one opcode, and one step of a call, keep
      the machines alike,
    • `Steady.steps` — a whole call, with the same number of steps,
    • `Steady.report` — so the reports differ in tape, input and output only.
-/
import TapeMachine.Proofs.Linkage
import TapeMachine.Proofs.Location

namespace TapeMachine

/-! ## §1. Machines that are alike. -/

/-- The machines have related tapes, inputs and outputs, and all else in
common. -/
structure Machine.Resembles (l : Likeness) (m m' : Machine) : Prop where
  tape : l.tape m.tape m'.tape
  input : l.input m.input m'.input
  output : l.output m.output m'.output
  functions : m'.functions = m.functions
  stack : m'.stack = m.stack
  operations : m'.operations = m.operations

/-- Calls that are at the same point, of machines that are alike. -/
structure Run.Resembles (l : Likeness) (r r' : Run) : Prop where
  machine : r.machine.Resembles l r'.machine
  marks : r'.marks = r.marks
  polls : r'.polls = r.polls

theorem Machine.Resembles.run {l : Likeness} {m m' : Machine} (h : m.Resembles l m')
    (marks : Option (Array Bool)) (polls : Nat) :
    Run.Resembles l ⟨m, marks, polls⟩ ⟨m', marks, polls⟩ :=
  ⟨h, rfl, rfl⟩

/-- Steps of the same kind, to calls that are alike. -/
inductive Step.Resembles (l : Likeness) : Step → Step → Prop
  | next {r r' : Run} (h : r.Resembles l r') : Resembles l (.next r) (.next r')
  | halt {r r' : Run} (h : r.Resembles l r') (code : ExitCode) :
      Resembles l (.halt code r) (.halt code r')

/-! ## §2. One opcode. -/

/-- Related tapes, inputs and outputs, and all else in common. -/
def Likeness.linkage (l : Likeness) : Linkage where
  toLikeness := l
  index := id
  operations := Eq
  functions := Eq
  stack := Eq

/-- Machines are alike if they are linked so. -/
theorem Machine.resembles_iff_linked {l : Likeness} {m m' : Machine} :
    m.Resembles l m' ↔ m.Linked l.linkage m' :=
  ⟨fun h => ⟨h.tape, h.input, h.output, h.operations.symm, h.functions.symm, h.stack.symm⟩,
    fun h => ⟨h.tape, h.input, h.output, h.functions.symm, h.stack.symm, h.operations.symm⟩⟩

namespace Likeness.Steady

variable {l : Likeness} {excused : ExitCode → Prop} {p : Program} {t : Terms}

/-- What is in common stays so. -/
theorem keeps (hl : l.Steady excused) : l.linkage.Keeps excused where
  toSteady := hl
  credit := by
    rintro k _ n rfl
    rfl
  get? := by
    rintro f _ key rfl
    cases f.get? key <;> rfl
  define := by
    rintro f _ g e body rfl - hg
    exact ⟨g, hg, rfl⟩
  defined := by
    rintro f _ e body rfl hnone
    exact hnone
  isFull := by
    rintro s _ rfl
    rfl
  push := by
    rintro s _ t resume body rfl ht
    exact ⟨t, ht, rfl⟩
  goto := by
    intro m m' j h
    have hstack : m.stack = m'.stack := h
    show (m.goto j).stack = (m'.goto j).stack
    unfold Machine.goto
    rw [hstack]
    cases m'.stack.frames with
    | nil => exact hstack
    | cons frame callers => rfl

/-- A program corresponds to itself. -/
theorem linkage_at (l : Likeness) (p : Program) (reset : Option Bool) (i : Nat) (op : Opcode) :
    l.linkage.At p p reset i op where
  next := rfl
  partner := fun _ hj => ⟨hj, rfl⟩
  body := fun _ _ => Iff.rfl
  reset := fun _ _ => rfl

/-- **Machines that are alike carry out an opcode alike.** -/
theorem move (hl : l.Steady excused) {m m' : Machine} (hm : m.Resembles l m') {reset : Option Bool}
    {spent : Bool} {i : Nat} {op : Opcode} {move : Move}
    (h : m.move? p reset spent i op = some move) :
    move.Followed l.linkage excused (m'.move? p reset spent i op) :=
  hl.keeps.move (linkage_at l p reset i op) (Machine.resembles_iff_linked.1 hm) h

/-! ## §3. One step, and a whole call. -/

/-- **Calls that are alike make steps that are alike**, unless the first
halts with a fault that is excused. -/
theorem step (hl : l.Steady excused) {r s : Run} {step : Step} (hr : r.Resembles l s)
    (h : r.step? p t = some step) :
    (∃ code r', step = .halt code r' ∧ excused code)
      ∨ ∃ step', s.step? p t = some step' ∧ step.Resembles l step' := by
  obtain ⟨m, marks, polls⟩ := r
  obtain ⟨m', marks', polls'⟩ := s
  obtain ⟨hm, rfl, rfl⟩ : m.Resembles l m' ∧ marks' = marks ∧ polls' = polls :=
    ⟨hr.machine, hr.marks, hr.polls⟩
  cases hf : m.stack.frames with
  | nil =>
    have hf' : m'.stack.frames = [] := by rw [hm.stack, hf]
    rw [Run.step?_of_empty hf] at h
    cases h
    exact .inr ⟨_, Run.step?_of_empty hf', .halt hr _⟩
  | cons frame callers =>
    have hf' : m'.stack.frames = frame :: callers := by rw [hm.stack, hf]
    by_cases hlt : frame.offset < frame.body.stop
    · rw [Run.step?_of_lt hf hlt] at h
      rw [Run.step?_of_lt hf' hlt]
      cases hstops : t.stops? marks' frame.offset with
      | none =>
        rw [hstops] at h
        cases h
      | some stops =>
        rw [hstops] at h
        cases stops with
        | true =>
          cases h
          exact .inr ⟨_, rfl, .halt (hm.run _ _) _⟩
        | false =>
          cases hop : p.opcodes[frame.offset]? with
          | none =>
            rw [hop] at h
            cases h
          | some op =>
            rw [hop] at h
            obtain ⟨move, hmove, rfl⟩ := Option.map_eq_some_iff.1 h
            rcases hl.move hm hmove with ⟨code, m₁, rfl, hcode⟩ | ⟨move', hmove', hlike⟩
            · exact .inl ⟨code, _, rfl, hcode⟩
            · refine .inr ⟨move'.toStep marks' polls', ?_, ?_⟩
              · dsimp only
                rw [hmove']
                rfl
              · cases hlike with
                | next h₁ asked => exact .next ((Machine.resembles_iff_linked.2 h₁).run _ _)
                | halt h₁ code => exact .halt ((Machine.resembles_iff_linked.2 h₁).run _ _) code
    · have hge := Nat.le_of_not_lt hlt
      rw [Run.step?_of_done hf hge] at h
      cases h
      refine .inr ⟨_, Run.step?_of_done hf' hge, .next (Machine.Resembles.run ?_ _ _)⟩
      refine ⟨hm.tape, hm.input, hm.output, hm.functions, ?_, hm.operations⟩
      show m'.stack.pop = m.stack.pop
      rw [hm.stack]

/-- **Calls that are alike halt alike**, in the same number of steps,
unless the first does so with a fault that is excused. -/
theorem steps (hl : l.Steady excused) {code : ExitCode} {r' : Run} (hcode : ¬excused code)
    (n : Nat) : ∀ {r s : Run}, r.Resembles l s → r.steps p t n = .halted code r' →
      ∃ s', s.steps p t n = .halted code s' ∧ r'.Resembles l s' := by
  induction n with
  | zero =>
    intro r s _ h
    cases h
  | succ n ih =>
    intro r s hr h
    cases hstep : r.step? p t with
    | none =>
      rw [Run.steps_of_stuck hstep] at h
      cases h
    | some step =>
      rcases hl.step hr hstep with ⟨c, r₁, rfl, hc⟩ | ⟨step', hstep', hlike⟩
      · -- the fault would be the one the call halts with
        rw [Run.steps_of_halt hstep] at h
        cases h
        exact absurd hc hcode
      · cases hlike with
        | next hnext =>
          rw [Run.steps_of_next hstep] at h
          rw [Run.steps_of_next hstep']
          exact ih hnext h
        | halt hhalt c =>
          rw [Run.steps_of_halt hstep] at h
          cases h
          exact ⟨_, Run.steps_of_halt hstep' n, hhalt⟩

/-! ## §4. The reports. -/

/-- **The reports on two jobs whose machines are alike** differ in tape, input
and output only. -/
theorem report (hl : l.Steady excused) {source : String} {m m' : Machine} (hm : m.Resembles l m')
    {budget : Budget} {fuel : Nat} {report : Report}
    (h : (⟨source, p, m⟩ : Job).run? budget fuel = some report)
    (hcode : ¬excused report.exitCode) :
    ∃ m₁ m₁' : Machine, m₁.Resembles l m₁' ∧ report.tape = m₁.tape ∧ report.input = m₁.input.text
      ∧ report.output = m₁.output.text
      ∧ (⟨source, p, m'⟩ : Job).run? budget fuel
        = some { report with
            tape := m₁'.tape, input := m₁'.input.text, output := m₁'.output.text } := by
  obtain ⟨code, r, hr, hreport⟩ := Job.run?_eq_some_iff.1 h
  unfold Report.build? at hreport
  simp only [Option.bind_eq_bind, Option.bind_eq_some_iff] at hreport
  obtain ⟨definitions, hdefinitions, halting, hhalting, hreport⟩ := hreport
  cases hreport
  obtain ⟨s, hs, hlike⟩ := hl.steps hcode fuel (hm.run none 0) hr
  have hmachine := hlike.machine
  refine ⟨r.machine, s.machine, hmachine, rfl, rfl, rfl, ?_⟩
  refine Job.run?_eq_some_iff.2 ⟨code, s, hs, ?_⟩
  unfold Report.build?
  rw [hmachine.functions, hmachine.stack, hmachine.operations]
  simp only [hdefinitions, hhalting, Option.bind_eq_bind, Option.bind_some]
  rfl

end Likeness.Steady

/-- A run for which there is a report: the size of its tape is allowed and its
script compiles. -/
theorem job_of_run {config : Config} {source input : String} {budget : Budget} {fuel : Nat}
    {report : Report} (h : run config source input budget fuel = .ok (some report)) :
    Tape.AllowedSize config.tapeSize ∧ ∃ p, Program.compile .packed source = .ok p
      ∧ (⟨source, p, .load p (.blank config.tapeSize config.mode) input config.outputLimit⟩ :
          Job).run? budget fuel = some report := by
  by_cases hsize : Tape.AllowedSize config.tapeSize
  · refine ⟨hsize, ?_⟩
    cases hp : Program.compile .packed source with
    | error e =>
      unfold run runFrom Job.load Tape.create at h
      rw [if_pos hsize, hp] at h
      cases h
    | ok p =>
      rw [run_eq hp hsize] at h
      exact ⟨p, rfl, Except.ok.inj h⟩
  · unfold run Tape.create at h
    rw [if_neg hsize] at h
    cases h

end TapeMachine
