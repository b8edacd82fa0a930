/-
  TapeMachine.Proofs.Diagnosis
  ────────────────────────────
  **REPORTS ON A HALT ARE TRUE.**

  `Machine.Stands p m code` says where a machine halted: behind the end
  of the script, if `code` is success, and else before an opcode whose
  operator can be the reason for `code`.  Every step that halts
  leaves such a machine (`Machine.stands_of_halt`), so every call does.

  From that the report is judged:

    • `Program.exists_text` — the first entry of a trace ends with the
      operator that the machine stands before, and no entry is empty,
    • `Report.truthful` — a report on a machine that stands somewhere says
      nothing, if the script is done, and else what `Halting.Truthful`
      demands.

  Runs call the engine once; a session keeps `Session.Stands` from call to
  call, whatever the budget answers.
-/
import Mathlib.Data.List.Induction
import TapeMachine.Proofs.Control
import TapeMachine.Proofs.Growth
import TapeMachine.Proofs.Location

namespace TapeMachine

/-! ## §1. Operators that can be the reason for a code. -/

/-- The symbols of the operators at which a machine can halt with a code. -/
def ExitCode.culprits : ExitCode → List Char
  | success => []
  | breakpoint => ['>', '<', '+', '-', '.', ',', '[', ']', '(', ':']
  | pastEnd => ['>']
  | beforeStart => ['<']
  | aboveMaximum => ['+', ',']
  | belowZero => ['-']
  | outputFull => ['.']
  | inputExhausted => [',']
  | budgetSpent => [']', ':']
  | alreadyDefined => ['(']
  | undefinedFunction => [':']
  | stackFull => [':']

theorem Operator.symbol_mem_culprits {o : Operator} {code : ExitCode} (h : code ∈ o.faults) :
    o.symbol ∈ code.culprits := by
  cases o <;> simp only [faults, List.mem_cons, List.not_mem_nil, or_false] at h
  case get => rcases h with rfl | rfl <;> decide
  case call => rcases h with rfl | rfl | rfl <;> decide
  all_goals
    subst h
    decide

theorem Operator.symbol_mem_of_ne_close {o : Operator} (h : o ≠ .bodyClose) :
    o.symbol ∈ ExitCode.breakpoint.culprits := by
  cases o with
  | bodyClose => exact absurd rfl h
  | _ => decide

/-- Only checked cells fail for their value. -/
theorem Machine.checked_of_fault {p : Program} {reset : Option Bool} {spent : Bool} {i : Nat}
    {op : Opcode} {m m' : Machine} {code : ExitCode}
    (h : m.move? p reset spent i op = some (.halt code m'))
    (hcode : code = .belowZero ∨ code = .aboveMaximum) : m.tape.mode.wraps = false := by
  -- a wrapping cell makes all the steps it is asked for
  have hstride : ∀ {f : Tape → Nat → Tape.Stride} {fault : ExitCode},
      op.operator.stride? = some (f, fault) →
      (m.tape.mode.wraps = true → (f m.tape op.count).made = op.count) →
      m.tape.mode.wraps = false := by
    intro f fault hs hall
    rw [move?_stride hs, stride_eq] at h
    split at h
    · next hmade =>
      cases hw : m.tape.mode.wraps with
      | true => exact absurd (hall hw) (Nat.ne_of_lt hmade)
      | false => rfl
    · cases h
  cases ho : op.operator with
  | inc =>
    refine hstride (f := Tape.increase) (by rw [ho]; rfl) fun hw => ?_
    unfold Tape.increase
    rw [if_pos hw]
  | dec =>
    refine hstride (f := Tape.decrease) (by rw [ho]; rfl) fun hw => ?_
    unfold Tape.decrease
    rw [if_pos hw]
  | get =>
    unfold move? at h
    rw [ho] at h
    dsimp only at h
    split at h
    · cases h
      rcases hcode with hcode | hcode <;> cases hcode
    · next x input hread =>
      split at h
      · next hstore =>
        unfold Tape.store? at hstore
        split at hstore
        · cases hstore
        · split at hstore
          · cases hstore
          · next hw => simpa using hw
      · cases h
  | right | left | put | loopOpen | loopClose | bodyOpen | bodyClose | call =>
    have hfault := (fault_of_move? h).1
    rw [ho] at hfault
    rcases hcode with rfl | rfl <;> simp [Operator.faults] at hfault

/-! ## §2. Where machines halt. -/

/-- Where a machine halted, and with which code. -/
inductive Machine.Stands (p : Program) (m : Machine) : ExitCode → Prop
  /-- Behind the end of the script. -/
  | done (frames : m.stack.frames = []) : Stands p m .success
  /-- Before an opcode. -/
  | stopped {code : ExitCode} {frame : Frame} {callers : List Frame} {op : Opcode}
      (failed : code.isSuccess = false) (frames : m.stack.frames = frame :: callers)
      (lt_stop : frame.offset < frame.body.stop) (opcode : p.opcodes[frame.offset]? = some op)
      (culprit : op.operator.symbol ∈ code.culprits)
      (checked : code = .belowZero ∨ code = .aboveMaximum → m.tape.mode.wraps = false) :
      Stands p m code

/-- **A step that halts** leaves a machine that stands somewhere. -/
theorem Machine.stands_of_halt {p : Program} {t : Terms} {r r' : Run} {code : ExitCode}
    (hp : p.Layout) (h : r.machine.Orderly p) (hstep : r.step? p t = some (.halt code r')) :
    r'.machine.Stands p code := by
  obtain ⟨m, marks, polls⟩ := r
  cases Run.takes_of_step? hstep with
  | ended hf => exact .done hf
  | @paused frame callers table hf _ _ _ hlt =>
    -- a frame never stands on a `)`
    have hwithin := h.frame frame (by rw [hf]; exact List.mem_cons_self)
    obtain ⟨op, hop⟩ : ∃ op, p.opcodes[frame.offset]? = some op :=
      ⟨_, Array.getElem?_eq_getElem (Nat.lt_of_lt_of_le hlt (hwithin.stop_le hp.toCoherent))⟩
    have hstacks : m.functions.Stacks p (frame :: callers) := hf ▸ h.frames
    have hclose := hstacks.not_close hp h.table hwithin.start_le hlt hop
    refine .stopped rfl hf hlt hop (Operator.symbol_mem_of_ne_close hclose) ?_
    rintro (hcode | hcode) <;> cases hcode
  | @halted frame callers op m' _ hf hlt hop hmove =>
    have hdoes := does_of_move? hf hmove
    obtain ⟨hfault, -, hstack⟩ := hdoes.control
    have hmode : m'.tape.mode = m.tape.mode := hdoes.tape.shape.2
    have hfailed : code.isSuccess = false := by
      cases code <;> first | rfl | cases hfault
    refine .stopped hfailed (by rw [hstack, hf]) hlt hop
      (Operator.symbol_mem_culprits (fault_of_move? hmove).1) fun hcode => ?_
    rw [hmode]
    exact checked_of_fault hmove hcode

/-- A call that halts has a last step, made from a machine that has
what every step keeps. -/
theorem Run.exists_last {p : Program} {t : Terms} {P : Machine → Prop}
    (hkeeps : ∀ {r : Run} {step : Step}, P r.machine → r.step? p t = some step →
      P step.run.machine) {code : ExitCode} {r' : Run} (n : Nat) {r : Run} (h : P r.machine)
    (hr : r.steps p t n = .halted code r') :
    ∃ r₁ : Run, P r₁.machine ∧ r₁.step? p t = some (.halt code r') := by
  obtain ⟨k, r₁, hleads, hhalt⟩ := exists_leads_halt n hr
  exact ⟨r₁, hleads.keeps (P := fun r => P r.machine) (fun hr hnext => hkeeps hr hnext) h, hhalt⟩

/-- **A call that halts** leaves an orderly machine that stands
somewhere; if it passed breakpoints by, it did not pause. -/
theorem Machine.Orderly.halted {p : Program} {t : Terms} {r r' : Run} {code : ExitCode} {n : Nat}
    (hp : p.Layout) (h : r.machine.Orderly p) (hr : r.steps p t n = .halted code r') :
    r'.machine.Orderly p ∧ r'.machine.Stands p code
      ∧ r'.machine.tape.mode = r.machine.tape.mode
      ∧ (code = .breakpoint → t.bypass = false) := by
  obtain ⟨r₁, ⟨horderly, hmode⟩, hstep⟩ := Run.exists_last
    (P := fun m => m.Orderly p ∧ m.tape.mode = r.machine.tape.mode)
    (fun hm hstep => ⟨hm.1.step hp hstep, (Precedes.of_step hstep).mode.trans hm.2⟩) n
    ⟨h, rfl⟩ hr
  refine ⟨horderly.step hp hstep, stands_of_halt hp horderly hstep,
    (Precedes.of_step hstep).mode.trans hmode, ?_⟩
  intro hcode
  obtain ⟨m₁, marks₁, polls₁⟩ := r₁
  cases Run.takes_of_step? hstep with
  | ended _ => cases hcode
  | paused _ hbypass _ _ _ => exact hbypass
  | halted hf _ _ hmove =>
    have hfault : code.isFault := (does_of_move? hf hmove).control.1
    rw [hcode] at hfault
    cases hfault

/-! ## §3. Traces. -/

namespace Program

variable {p : Program}

/-- The text of opcodes that count something ends with the symbol of the last
one. -/
theorem getLast?_sourceOf? (hcount : ∀ {k : Nat} {op : Opcode}, p.opcodes[k]? = some op →
    0 < op.count) {a k : Nat} {op : Opcode} {text : String} (hle : a ≤ k)
    (hop : p.opcodes[k]? = some op) (h : p.sourceOf? a (k + 1) = some text) :
    text.toList.getLast? = some op.operator.symbol := by
  have hk : k < p.size := (Array.getElem?_eq_some_iff.1 hop).1
  have hlast : (p.opcodes.toList.drop a).take (k + 1 - a)
      = (p.opcodes.toList.drop a).take (k - a) ++ [op] := by
    rw [show k + 1 - a = (k - a) + 1 by omega, List.take_add_one, List.getElem?_drop,
      Array.getElem?_toList, show a + (k - a) = k by omega, hop]
    rfl
  rw [sourceOf?_eq (by omega) hk, hlast] at h
  obtain rfl := Option.some.inj h
  have hpos := hcount hop
  simp only [Opcode.sourceText, String.toList_ofList, List.flatMap_append, List.flatMap_singleton,
    Opcode.symbols, List.getLast?_append, List.getLast?_replicate]
  rw [if_neg (by omega)]
  rfl

/-- It is not empty. -/
theorem sourceOf?_ne_empty (hcount : ∀ {k : Nat} {op : Opcode}, p.opcodes[k]? = some op →
    0 < op.count) {a b : Nat} {text : String} (hlt : a < b) (h : p.sourceOf? a b = some text) :
    text ≠ "" := by
  obtain ⟨k, rfl⟩ : ∃ k, b = k + 1 := ⟨b - 1, by omega⟩
  have hsize : k + 1 ≤ p.size := by
    unfold sourceOf? at h
    split at h
    · next hslice => exact hslice.2
    · cases h
  have hlast := getLast?_sourceOf? hcount (Nat.le_of_lt_succ hlt) (Array.getElem?_eq_getElem hsize) h
  rintro rfl
  cases hlast

/-- No entry is empty, since empty windows are left out. -/
theorem ne_empty_of_texts? (hcount : ∀ {k : Nat} {op : Opcode}, p.opcodes[k]? = some op →
    0 < op.count) {cuts : List Nat} {texts : List String} (h : p.texts? cuts = some texts) :
    ∀ text ∈ texts, text ≠ "" := by
  intro text hmem
  obtain ⟨w, hw, htext⟩ := exists_of_mem_mapM h hmem
  exact sourceOf?_ne_empty hcount (of_decide_eq_true (List.mem_filter.1 hw).2) htext

/-- A last cut made twice adds nothing. -/
theorem texts?_concat_self (p : Program) (cuts : List Nat) (c : Nat) :
    p.texts? (cuts ++ [c] ++ [c]) = p.texts? (cuts ++ [c]) := by
  unfold texts?
  rw [zip_tail_concat, List.reverse_append, List.reverse_singleton, List.singleton_append,
    List.filter_cons_of_neg (by simp)]

/-- **The first entry goes up to the last cut**, wherever the cuts before it
are. -/
theorem exists_text {stop : Nat} {texts : List String} (cuts : List Nat) :
    (∃ first, cuts.head? = some first ∧ first < stop) → (∀ c ∈ cuts, c ≤ stop) →
      p.texts? (cuts ++ [stop]) = some texts →
      ∃ c text rest, c < stop ∧ texts = text :: rest ∧ p.sourceOf? c stop = some text := by
  induction cuts using List.reverseRecOn with
  | nil =>
    intro hfirst
    obtain ⟨first, hfirst, -⟩ := hfirst
    cases hfirst
  | append_singleton cuts c ih =>
    intro hfirst hle h
    rcases Nat.lt_or_ge c stop with hlt | hge
    · rw [texts?_concat hlt] at h
      obtain ⟨text, htext, h⟩ := Option.bind_eq_some_iff.1 h
      obtain ⟨rest, -, rfl⟩ := Option.map_eq_some_iff.1 h
      exact ⟨c, text, rest, hlt, rfl, htext⟩
    · -- a `[` at the end: the window behind it is empty
      obtain rfl : c = stop := Nat.le_antisymm (hle c (by simp)) hge
      rw [texts?_concat_self] at h
      refine ih ?_ (fun c' hc' => hle c' (List.mem_append_left _ hc')) h
      obtain ⟨first, hfirst, hlt⟩ := hfirst
      cases cuts with
      | nil =>
        obtain rfl : c = first := Option.some.inj hfirst
        omega
      | cons x xs => exact ⟨first, hfirst, hlt⟩

/-- **The trace of a machine that stands before an opcode** has entries, none
of them empty, and the first ends with that operator. -/
theorem trace_of_stackTrace? (hp : p.Coherent) (hcount : ∀ {k : Nat} {op : Opcode},
    p.opcodes[k]? = some op → 0 < op.count) {s : CallStack} {frame : Frame}
    {callers : List Frame} {op : Opcode} {trace : List String} (hf : s.frames = frame :: callers)
    (hwithin : frame.Within p) (hlt : frame.offset < frame.body.stop)
    (hop : p.opcodes[frame.offset]? = some op) (h : p.stackTrace? s = some trace) :
    (∃ text rest, trace = text :: rest ∧ text.toList.getLast? = some op.operator.symbol)
      ∧ ∀ text ∈ trace, text ≠ "" := by
  unfold stackTrace? at h
  simp only [hf, Option.bind_eq_bind, Option.bind_eq_some_iff] at h
  obtain ⟨inner, hinner, outer, houter, h⟩ := h
  cases h
  have hsize := hwithin.stop_le hp
  rw [frameParts?_eq (Nat.le_succ_of_le hwithin.start_le) hlt hsize, parts?_eq, cutPoints_eq]
    at hinner
  have hcuts : ∀ c ∈ p.heads frame.body.start (frame.offset + 1), c ≤ frame.offset + 1 := by
    intro c hc
    refine p.cutPoints_le (Nat.le_succ_of_le hwithin.start_le) ?_
    rw [cutPoints_eq]
    exact List.mem_append_left _ hc
  obtain ⟨c, text, rest, hc, rfl, htext⟩ := exists_text _
    ⟨_, rfl, Nat.lt_succ_of_le hwithin.start_le⟩ hcuts hinner
  refine ⟨⟨text, rest ++ outer.flatten, rfl, ?_⟩, ?_⟩
  · exact getLast?_sourceOf? hcount (Nat.le_of_lt_succ hc) hop htext
  · intro entry hmem
    rcases List.mem_append.1 hmem with hmem | hmem
    · exact ne_empty_of_texts? hcount hinner entry hmem
    · obtain ⟨texts, htexts, hmem⟩ := List.mem_flatten.1 hmem
      obtain ⟨caller, -, hcaller⟩ := exists_of_mem_mapM houter htexts
      exact ne_empty_of_texts? hcount hcaller entry hmem

end Program

/-! ## §4. Reports. -/

/-- The halting part of a report is true: the character of the script at the offset
is the operator, the first entry of the trace ends with it, no entry is empty,
and the operator can be the reason for the code. -/
structure Halting.Truthful (source : String) (code : ExitCode) (h : Halting) : Prop where
  offset : source.toList[h.offset]? = some h.operator
  trace : ∃ text rest, h.trace = text :: rest ∧ text.toList.getLast? = some h.operator
  entries : ∀ text ∈ h.trace, text ≠ ""
  culprit : h.operator ∈ code.culprits

/-- A report has a halting part exactly if the script did not run to its end, and
that part is true; no report has an overflow code for a wrapping cell. -/
structure Report.Truthful (source : String) (mode : CellMode) (report : Report) : Prop where
  halting_none : report.halting = none ↔ report.exitCode = .success
  halting_some : ∀ h, report.halting = some h → h.Truthful source report.exitCode
  checked : report.exitCode = .belowZero ∨ report.exitCode = .aboveMaximum → mode.wraps = false

section Build

variable {source : String} {g : Granularity} {n : Nat} {m : Machine} {code : ExitCode}

/-- The offset of an opcode is the place of its operator in the text. -/
theorem Program.symbol_of_offset {k offset : Nat} {op : Opcode}
    (hop : (ofTokens g n (Script.tokens source)).opcodes[k]? = some op)
    (hoffset : (ofTokens g n (Script.tokens source)).offsets[k]? = some offset) :
    source.toList[offset]? = some op.operator.symbol := by
  have hunpacks := unpacks_plain g n (Script.tokens source)
  have hk := (Array.getElem?_eq_some_iff.1 hop).1
  rw [← hunpacks.offset hk] at hoffset
  have htoken := token_of_plain (hunpacks.opcode hop (hunpacks.count_pos hop)) hoffset
  exact Script.getElem?_of_token (List.mem_of_getElem? htoken)

/-- **A report on a machine that stands somewhere is truthful.** -/
theorem Report.truthful (hm : m.Nests (.ofTokens g n (Script.tokens source)))
    (h : m.Stands (.ofTokens g n (Script.tokens source)) code) {elapsed : Duration}
    {report : Report} (hreport : build? source (.ofTokens g n (Script.tokens source)) m code elapsed
      = some report) : report.Truthful source m.tape.mode ∧ report.exitCode = code := by
  have hp := Program.coherent_ofTokens g n (Script.tokens source)
  have hunpacks := Program.unpacks_plain g n (Script.tokens source)
  obtain ⟨-, hhalting, rfl⟩ := parts_of_build? hreport
  refine ⟨?_, rfl⟩
  generalize hcode : report.exitCode = code at h hhalting
  cases h with
  | done hf =>
    unfold halting? at hhalting
    rw [hf] at hhalting
    obtain hnone := Option.some.inj hhalting
    refine ⟨?_, ?_, ?_⟩
    · rw [← hnone, hcode]
      exact ⟨fun _ => rfl, fun _ => rfl⟩
    · intro h hsome
      rw [← hnone] at hsome
      cases hsome
    · rw [hcode]
      rintro (h | h) <;> cases h
  | @stopped _ frame callers op hfailed hf hlt hop hculprit hchecked =>
    obtain ⟨trace, op', offset, htrace, hop', hoffset, hsome⟩ :=
      halting?_eq_some hf hfailed hhalting
    rw [hop] at hop'
    cases hop'
    have hwithin := hm.frame frame (by rw [hf]; exact List.mem_cons_self)
    -- the trace starts with the opcode that the machine stands before
    obtain ⟨hfirst, hentries⟩ := Program.trace_of_stackTrace? hp (fun hop => hunpacks.count_pos hop)
      hf hwithin hlt hop htrace
    refine ⟨?_, ?_, ?_⟩
    · rw [hsome, hcode]
      refine ⟨fun h => (by cases h), fun h => ?_⟩
      rw [h] at hfailed
      cases hfailed
    · intro h hh
      rw [hsome] at hh
      cases hh
      rw [hcode]
      exact ⟨Program.symbol_of_offset hop hoffset, hfirst, hentries, hculprit⟩
    · rw [hcode]
      exact hchecked

end Build

/-! ## §5. Runs and sessions. -/

section Calls

variable {source input : String}

/-- **The report on a run from a tape is true**, and the run never pauses. -/
theorem runFrom_truthful (hsource : (Script.validate source).isSuccess) {tape : Tape} {limit : Nat}
    {budget : Budget} {fuel : Nat} {report : Report}
    (h : runFrom tape source input limit budget fuel = .ok (some report)) :
    report.Truthful source tape.mode ∧ report.exitCode ≠ .breakpoint := by
  obtain ⟨b, ⟨hitems, -⟩, hb⟩ := Script.validate_isSuccess_iff.1 hsource
  have hp := Program.layout_ofTokens hitems hb .packed (Script.validate source).count
  rw [runFrom_eq (Program.compile_of_isSuccess hsource .packed)] at h
  obtain ⟨code, r, hr, hreport⟩ := Job.run?_eq_some_iff.1 (Except.ok.inj h)
  obtain ⟨horderly, hstands, hmode, hpaused⟩ := Machine.Orderly.halted hp
    (r := ⟨.load _ tape input limit, none, 0⟩) (Machine.orderly_load _ tape input limit) hr
  obtain ⟨htruthful, hcode⟩ := Report.truthful horderly.toNests hstands hreport
  refine ⟨?_, ?_⟩
  · rw [show tape.mode = r.machine.tape.mode from hmode.symm]
    exact htruthful
  · rw [hcode]
    intro hbreak
    cases hpaused hbreak

/-- A run is a run from a blank tape. -/
theorem runFrom_of_run {config : Config} {budget : Budget} {fuel : Nat} {report : Report}
    (h : run config source input budget fuel = .ok (some report)) :
    runFrom (.blank config.tapeSize config.mode) source input config.outputLimit budget fuel
      = .ok (some report) := by
  unfold run Tape.create at h
  by_cases hsize : Tape.AllowedSize config.tapeSize
  · rw [if_pos hsize] at h
    exact h
  · rw [if_neg hsize] at h
    cases h

end Calls

namespace Session

/-- The sessions that calls lead to from `s`, with whatever budgets. -/
inductive Reaches (s : Session) : Session → Prop
  | start : Reaches s s
  | call {s₁ s₂ : Session} {report : Report} {bypass : Bool} {budget : Budget} {fuel : Nat}
      (before : Reaches s s₁) (call : s₁.resume? bypass budget fuel = some (s₂, report)) :
      Reaches s s₂

/-- The session runs the program of its script, and its machine stands where
the last call halted. -/
structure Stands (source : String) (p : Program) (mode : CellMode) (s : Session) : Prop where
  source : s.job.source = source
  program : s.job.program = p
  orderly : s.job.machine.Orderly p
  mode : s.job.machine.tape.mode = mode
  stands : ∀ {code : ExitCode}, s.exitCode = some code → s.job.machine.Stands p code

variable {source : String} {p : Program} {mode : CellMode} {s : Session}

/-- **A call leaves a session that stands somewhere**, and reports on it; past
all breakpoints it does not pause. -/
theorem Stands.resume {s' : Session} {report : Report} {bypass : Bool} {budget : Budget}
    {fuel : Nat} (hp : p.Layout) (h : Stands source p mode s)
    (hcall : s.resume? bypass budget fuel = some (s', report)) :
    Stands source p mode s' ∧ s'.withReport? = some (s', report)
      ∧ (bypass = true → s'.exitCode ≠ some .breakpoint) := by
  by_cases hopen : s.isCompleted
  · rw [resume?_of_isCompleted hopen] at hcall
    obtain ⟨rfl, -⟩ := withReport?_eq_some hcall
    refine ⟨h, hcall, fun _ hbreak => ?_⟩
    obtain ⟨code, hcode⟩ := Option.isSome_iff_exists.1 hopen
    obtain ⟨hexit, hpaused⟩ := Option.filter_eq_some_iff.1 hcode
    rw [hbreak] at hexit
    cases hexit
    cases hpaused
  · rw [Bool.not_eq_true] at hopen
    obtain ⟨code, r, hhalted, rfl, hreport⟩ := resume?_eq_some hopen hcall
    unfold call at hhalted
    rw [h.program] at hhalted
    obtain ⟨horderly, hstands, hmode, hpaused⟩ := Machine.Orderly.halted hp
      (r := ⟨s.job.machine, some s.marks, 0⟩) h.orderly hhalted
    refine ⟨⟨h.source, h.program, horderly, hmode.trans h.mode, ?_⟩, hreport, ?_⟩
    · intro code' hcode'
      cases hcode'
      exact hstands
    · intro hbypass hbreak
      cases hbreak
      rw [hbypass] at hpaused
      cases hpaused rfl

/-- So do calls in a row. -/
theorem Stands.reaches {s' : Session} (hp : p.Layout) (h : Stands source p mode s)
    (hreaches : s.Reaches s') : Stands source p mode s' := by
  induction hreaches with
  | start => exact h
  | call _ hcall ih => exact (ih.resume hp hcall).1

/-- A session that was just started has an orderly machine and no code. -/
theorem stands_of_create {config : Config} {breakpoints : List Nat} {input : String}
    (hprogram : Program.compile .plain source = .ok p)
    (h : create config source breakpoints input = .ok s) : Stands source p config.mode s := by
  have hjob := job_of_create hprogram h
  have hexit : s.exitCode = none := by
    unfold create ofProgram at h
    rw [hprogram] at h
    simp only [bind, Except.bind] at h
    split at h
    · cases h
    · split at h
      · cases h
      · cases h
        rfl
  refine ⟨by rw [hjob], by rw [hjob], ?_, by rw [hjob]; rfl, ?_⟩
  · rw [hjob]
    exact Machine.orderly_load p _ input _
  · intro code hcode
    rw [hexit] at hcode
    cases hcode

end Session

/-! ## §6. The result. -/

/-- **Reports on a halt are true.**  Take a script that passes the check.
The reports of runs, of runs from a tape and of all calls of its sessions, in
any order and whatever the budgets answer, have a halting part exactly if the
code is not success.  Then the character of the script at the offset is the
operator, the trace has entries, none of them empty, the first ends with the
operator, and the operator is one that can halt with the code.  A wrapping
cell never fails, and only a call that meets breakpoints pauses. -/
theorem halting_is_truthful (source input : String) (hsource : (Script.validate source).isSuccess) :
    (∀ config budget fuel report, run config source input budget fuel = .ok (some report) →
        report.Truthful source config.mode ∧ report.exitCode ≠ .breakpoint)
      ∧ (∀ tape limit budget fuel report,
          runFrom tape source input limit budget fuel = .ok (some report) →
          report.Truthful source tape.mode ∧ report.exitCode ≠ .breakpoint)
      ∧ ∀ config breakpoints s, Session.create config source breakpoints input = .ok s →
          ∀ s₁, s.Reaches s₁ → ∀ bypass budget fuel s₂ report,
            s₁.resume? bypass budget fuel = some (s₂, report) →
            report.Truthful source config.mode
              ∧ (bypass = true → report.exitCode ≠ .breakpoint) := by
  refine ⟨?_, ?_, ?_⟩
  · intro config budget fuel report h
    exact runFrom_truthful hsource (runFrom_of_run h)
  · intro tape limit budget fuel report h
    exact runFrom_truthful hsource h
  · intro config breakpoints s hcreate s₁ hreaches bypass budget fuel s₂ report hcall
    obtain ⟨b, ⟨hitems, -⟩, hb⟩ := Script.validate_isSuccess_iff.1 hsource
    have hp := Program.layout_ofTokens hitems hb .plain (Script.validate source).count
    have hstart := Session.stands_of_create (Program.compile_of_isSuccess hsource .plain) hcreate
    obtain ⟨h₂, hreport, hpaused⟩ := (hstart.reaches hp hreaches).resume hp hcall
    obtain ⟨-, code, hexit, hbuild⟩ := Session.withReport?_eq_some hreport
    rw [Job.report?, h₂.source, h₂.program] at hbuild
    obtain ⟨htruthful, hcode⟩ := Report.truthful h₂.orderly.toNests (h₂.stands hexit) hbuild
    rw [h₂.mode] at htruthful
    refine ⟨htruthful, fun hbypass hbreak => hpaused hbypass ?_⟩
    rw [hexit, ← hcode, hbreak]

/-- A pause before a `[`, behind which the trace has nothing to show, and then a
fault inside the loop. -/
theorem halting_is_truthful_in_loop :
    (Script.validate "++[>:<-]").isSuccess
      ∧ ∃ s s₁ s₂ report₁ report₂,
        Session.create { tapeSize := 32 } "++[>:<-]" [2] "" = .ok s
          ∧ s.continue? .spent 20 = some (s₁, report₁)
          ∧ s₁.complete? .unlimited 20 = some (s₂, report₂)
          ∧ (report₁.exitCode = .breakpoint ∧ report₁.halting = some ⟨["++["], '[', 2⟩
            ∧ report₁.Truthful "++[>:<-]" default)
          ∧ (report₂.exitCode = .undefinedFunction
            ∧ report₂.halting = some ⟨[">:", "++["], ':', 4⟩
            ∧ report₂.Truthful "++[>:<-]" default) := by
  have hpass : (Script.validate "++[>:<-]").isSuccess := by decide
  have hrun : ((Session.create { tapeSize := 32 } "++[>:<-]" [2] "").toOption.bind fun s =>
      (s.continue? .spent 20).bind fun first =>
      (first.1.complete? .unlimited 20).map fun second =>
        ((first.2.exitCode, first.2.halting), (second.2.exitCode, second.2.halting)))
      = some ((.breakpoint, some ⟨["++["], '[', 2⟩),
          (.undefinedFunction, some ⟨[">:", "++["], ':', 4⟩)) := by
    decide +kernel
  obtain ⟨s, hcreate, hrun⟩ := exists_ok hrun
  obtain ⟨⟨s₁, report₁⟩, hcall₁, hrun⟩ := Option.bind_eq_some_iff.1 hrun
  obtain ⟨⟨s₂, report₂⟩, hcall₂, heq⟩ := Option.map_eq_some_iff.1 hrun
  simp only [Prod.mk.injEq] at heq
  obtain ⟨⟨hcode₁, hhalting₁⟩, hcode₂, hhalting₂⟩ := heq
  obtain ⟨-, -, hsessions⟩ := halting_is_truthful "++[>:<-]" "" hpass
  have hcalls := hsessions { tapeSize := 32 } [2] s hcreate
  refine ⟨hpass, s, s₁, s₂, report₁, report₂, hcreate, hcall₁, hcall₂, ⟨hcode₁, hhalting₁, ?_⟩,
    hcode₂, hhalting₂, ?_⟩
  · exact (hcalls s .start _ _ _ _ _ hcall₁).1
  · exact (hcalls s₁ (.call .start hcall₁) _ _ _ _ _ hcall₂).1

end TapeMachine
