/-
  TapeMachine.Proofs.Reports
  ──────────────────────────
  **THERE IS ALWAYS A REPORT.**

  Building a report looks up where the machine stands, where its functions
  begin and which text their bodies have.  On a machine that belongs to a
  balanced program and halted on it, no look-up fails
  (`Report.build?_isSome`).  A stack trace can be given of any stack at all,
  since it is cut to the program (`Program.stackTrace?_isSome`).
-/
import TapeMachine.Proofs.Balance
import TapeMachine.Proofs.Invariant
import TapeMachine.Report.Basic

namespace TapeMachine

/-! ## §1. Lists of look-ups. -/

theorem mapM_isSome {α β : Type} {f : α → Option β} {l : List α} (h : ∀ x ∈ l, (f x).isSome) :
    (l.mapM f).isSome := by
  induction l with
  | nil => rfl
  | cons x xs ih =>
    obtain ⟨y, hy⟩ := Option.isSome_iff_exists.1 (h x List.mem_cons_self)
    obtain ⟨ys, hys⟩ := Option.isSome_iff_exists.1
      (ih fun z hz => h z (List.mem_cons_of_mem _ hz))
    rw [List.mapM_cons, hy, hys]
    rfl

theorem mapM_congr {α β : Type} {f g : α → Option β} {l : List α} (h : ∀ x ∈ l, f x = g x) :
    l.mapM f = l.mapM g := by
  induction l with
  | nil => rfl
  | cons x xs ih =>
    rw [List.mapM_cons, List.mapM_cons, h x List.mem_cons_self,
      ih fun z hz => h z (List.mem_cons_of_mem _ hz)]

/-- What a list of look-ups gives is given by one of them. -/
theorem exists_of_mem_mapM {α β : Type} {f : α → Option β} {l : List α} {ys : List β} {y : β}
    (h : l.mapM f = some ys) (hy : y ∈ ys) : ∃ x ∈ l, f x = some y := by
  induction l generalizing ys with
  | nil =>
    cases h
    cases hy
  | cons x xs ih =>
    rw [List.mapM_cons] at h
    simp only [Option.bind_eq_bind, Option.bind_eq_some_iff] at h
    obtain ⟨z, hz, zs, hzs, h⟩ := h
    cases h
    rcases List.mem_cons.1 hy with rfl | hy
    · exact ⟨x, List.mem_cons_self, hz⟩
    · obtain ⟨x', hmem, hx'⟩ := ih hzs hy
      exact ⟨x', List.mem_cons_of_mem x hmem, hx'⟩

/-- Look-ups that all give what others give, changed by `h`. -/
theorem mapM_eq_map {α β γ : Type} {f : α → Option γ} {g : α → Option β} (h : β → γ) {l : List α}
    (hf : ∀ x ∈ l, f x = (g x).map h) : l.mapM f = (l.mapM g).map (List.map h) := by
  induction l with
  | nil => rfl
  | cons x xs ih =>
    rw [List.mapM_cons, List.mapM_cons, hf x List.mem_cons_self,
      ih fun z hz => hf z (List.mem_cons_of_mem _ hz)]
    cases g x with
    | none => rfl
    | some y => cases xs.mapM g <;> rfl

namespace Program

variable (p : Program)

theorem sourceOf?_isSome {start stop : Nat} (h : start ≤ stop) (hstop : stop ≤ p.size) :
    (p.sourceOf? start stop).isSome := by
  rw [sourceOf?, if_pos ⟨h, hstop⟩]
  rfl

/-- No cut lies behind the end. -/
theorem cutPoints_le {start stop cut : Nat} (h : start ≤ stop)
    (hcut : cut ∈ p.cutPoints start stop) : cut ≤ stop := by
  simp only [cutPoints, List.mem_append, List.mem_cons, List.mem_map, List.mem_filter,
    List.mem_range'_1, List.not_mem_nil, or_false] at hcut
  rcases hcut with (rfl | ⟨i, ⟨⟨-, hi⟩, -⟩, rfl⟩) | rfl
  · exact h
  · omega
  · exact Nat.le_refl _

theorem frameParts?_isSome (body : Span) (resume : Nat) : (p.frameParts? body resume).isSome := by
  unfold frameParts? parts?
  refine mapM_isSome ?_
  rintro ⟨a, b⟩ hab
  obtain ⟨hmem, hlt⟩ := List.mem_filter.1 hab
  have hb : b ∈ p.cutPoints (min body.start (min (min resume body.stop) p.size))
      (min (min resume body.stop) p.size) :=
    List.mem_of_mem_tail (List.of_mem_zip (List.mem_reverse.1 hmem)).2
  have hle := p.cutPoints_le (Nat.min_le_right _ _) hb
  exact p.sourceOf?_isSome (Nat.le_of_lt (of_decide_eq_true hlt))
    (Nat.le_trans hle (Nat.min_le_right _ _))

/-- **Every stack has a trace.** -/
theorem stackTrace?_isSome (s : CallStack) : (p.stackTrace? s).isSome := by
  unfold stackTrace?
  split
  · rfl
  · next frame callers _ =>
    obtain ⟨inner, hinner⟩ := Option.isSome_iff_exists.1
      (p.frameParts?_isSome frame.body (frame.offset + 1))
    obtain ⟨outer, houter⟩ := Option.isSome_iff_exists.1 (mapM_isSome
      fun caller (_ : caller ∈ callers) => p.frameParts?_isSome caller.body caller.offset)
    rw [hinner, houter]
    rfl

end Program

/-! ## §2. The report. -/

namespace Report

variable {p : Program} {m : Machine}

theorem definition?_isSome (hp : p.Balanced) {e : FunctionEntry} {x : Opcode}
    (hx : p.opcodes[e.declaration]? = some x) (ho : x.operator = .bodyOpen) (index : Nat) :
    (definition? p index e).isSome := by
  obtain ⟨stop, hlt, hpartner, hback⟩ := hp.opened hx (by rw [ho]; rfl)
  have hstop : stop < p.size := hp.partners_size ▸ (Array.getElem?_eq_some_iff.1 hback).1
  have hd : e.declaration < p.offsets.size := by
    rw [hp.offsets_size]
    omega
  obtain ⟨body, hbody⟩ := Option.isSome_iff_exists.1 (p.sourceOf?_isSome hlt (Nat.le_of_lt hstop))
  unfold definition?
  rw [Array.getElem?_eq_getElem hd, hpartner]
  simp only [Option.bind_eq_bind, Option.bind_some, hbody]
  rfl

theorem halting?_isSome (hp : p.Balanced) {code : ExitCode} (h : m.Rests p code) :
    (halting? p m.stack code).isSome := by
  unfold halting?
  split
  · rfl
  · next frame callers hf =>
    split
    · rfl
    · next hcode =>
      rcases h with rfl | ⟨frame', callers', op, hf', hop⟩
      · exact absurd rfl hcode
      · rw [hf] at hf'
        cases hf'
        obtain ⟨trace, htrace⟩ := Option.isSome_iff_exists.1 (p.stackTrace?_isSome m.stack)
        have hi : frame.offset < p.offsets.size := by
          rw [hp.offsets_size]
          exact (Array.getElem?_eq_some_iff.1 hop).1
        rw [htrace, hop, Array.getElem?_eq_getElem hi]
        rfl

/-- The halting part of a report, if a frame is left. -/
theorem halting?_eq_some {s : CallStack} {frame : Frame} {callers : List Frame} {code : ExitCode}
    {halting : Option Halting} (hf : s.frames = frame :: callers) (hcode : code.isSuccess = false)
    (h : halting? p s code = some halting) :
    ∃ trace op offset, p.stackTrace? s = some trace ∧ p.opcodes[frame.offset]? = some op
      ∧ p.offsets[frame.offset]? = some offset
      ∧ halting = some ⟨trace, op.operator.symbol, offset⟩ := by
  unfold halting? at h
  simp only [hf, hcode, Bool.false_eq_true, if_false, Option.bind_eq_bind,
    Option.bind_eq_some_iff] at h
  obtain ⟨trace, htrace, op, hop, offset, hoffset, h⟩ := h
  exact ⟨trace, op, offset, htrace, hop, hoffset, (Option.some.inj h).symm⟩

/-- **There is a report on every machine that halted.** -/
theorem build?_isSome (hp : p.Balanced) (hm : m.Fits p) {code : ExitCode} (h : m.Rests p code)
    (source : String) (elapsed : Duration) : (build? source p m code elapsed).isSome := by
  have hdef : (m.functions.entries.zipIdx.mapM fun (e, index) => definition? p index e).isSome := by
    refine mapM_isSome ?_
    rintro ⟨e, index⟩ hmem
    have he : e ∈ m.functions.newest := List.mem_reverse.1 (List.fst_mem_of_mem_zipIdx hmem)
    obtain ⟨x, hx, ho⟩ := hm.entry e he
    exact definition?_isSome hp hx ho index
  obtain ⟨definitions, hdefinitions⟩ := Option.isSome_iff_exists.1 hdef
  obtain ⟨halting, hhalting⟩ := Option.isSome_iff_exists.1 (halting?_isSome hp h)
  unfold build?
  rw [hdefinitions, hhalting]
  rfl

/-- What was looked up for a report, and the code it is given. -/
theorem parts_of_build? {source : String} {code : ExitCode} {elapsed : Duration} {report : Report}
    (h : build? source p m code elapsed = some report) :
    (m.functions.entries.zipIdx.mapM fun (e, index) => definition? p index e)
        = some report.definitions
      ∧ halting? p m.stack code = some report.halting ∧ report.exitCode = code := by
  unfold build? at h
  simp only [Option.bind_eq_bind, Option.bind_eq_some_iff] at h
  obtain ⟨definitions, hdefinitions, halting, hhalting, h⟩ := h
  cases h
  exact ⟨hdefinitions, hhalting, rfl⟩

/-- What a report takes over from the machine. -/
theorem contents_of_build? {source : String} {code : ExitCode} {elapsed : Duration}
    {report : Report} (h : build? source p m code elapsed = some report) :
    report.tape = m.tape ∧ report.output = m.output.text ∧ report.operations = m.operations := by
  unfold build? at h
  simp only [Option.bind_eq_bind, Option.bind_eq_some_iff] at h
  obtain ⟨definitions, -, halting, -, h⟩ := h
  cases h
  exact ⟨rfl, rfl, rfl⟩

end Report

/-- A run that has a report, given a value computed from the report. -/
theorem exists_report {result : Except Error (Option Report)} {α : Type} {f : Report → α} {a : α}
    (h : result.toOption.join.map f = some a) :
    ∃ report, result = .ok (some report) ∧ f report = a := by
  cases result with
  | error e => cases h
  | ok report? =>
    cases report? with
    | none => cases h
    | some report => exact ⟨report, rfl, Option.some.inj h⟩

end TapeMachine
