/-
  TapeMachine.Proofs.Breakpoints
  ──────────────────────────────
  **PAUSES CHANGE NOTHING.**

  All calls of a session are stretches of one run, the one that takes each
  opcode by itself from the session's start (`Session.Tracks`):

    • `Tracks.settle` — the session after a call is on that run again, and
      a pause has taken one breakpoint away,
    • `Tracks.exists_resume` — a call returns if the run ends.

  A run ends in one way only, hence `breakpoints_transparent`: however a
  session is cut into calls, its last report is the one that a session
  without breakpoints gives at once.  Each pause uses up a breakpoint, so
  there are no more pauses than marked operators.
-/
import TapeMachine.Proofs.Reports
import TapeMachine.Proofs.Stepwise
import TapeMachine.Session

namespace TapeMachine

/-- A report without the time. -/
def Report.untimed (r : Report) : Report := { r with elapsed := {} }

/-- The time is all in a report that depends on the time. -/
theorem Report.build?_untimed (source : String) (p : Program) (m : Machine) (code : ExitCode)
    (elapsed : Duration) :
    (build? source p m code elapsed).map untimed = build? source p m code {} := by
  unfold build?
  simp only [Option.bind_eq_bind, Option.map_bind, Function.comp_def]
  rfl

namespace Session

/-! ## §1. Calls in a row. -/

/-- Calls in a row, of either kind, without a budget to run out of.  The
report is the last one's. -/
inductive Calls : Session → Session → Report → Prop
  | last {s s' : Session} {report : Report} {bypass : Bool} {fuel : Nat}
      (call : s.resume? bypass .unlimited fuel = some (s', report)) : Calls s s' report
  | more {s s₁ s' : Session} {earlier report : Report} {bypass : Bool} {fuel : Nat}
      (call : s.resume? bypass .unlimited fuel = some (s₁, earlier))
      (rest : Calls s₁ s' report) : Calls s s' report

/-- Calls of `continue?` in a row, `n` of them. -/
inductive Continues : Nat → Session → Session → Prop
  | none (s : Session) : Continues 0 s s
  | more {n fuel : Nat} {s s₁ s' : Session} {report : Report}
      (call : s.continue? .unlimited fuel = some (s₁, report))
      (rest : Continues n s₁ s') : Continues (n + 1) s s'

/-! ## §2. The run that a session is on. -/

/-- The session is on the run of `p` from `m₀`: somewhere along it, if the
session is not completed, and at its end with its code, if it is. -/
structure Tracks (source : String) (p : Program) (m₀ : Machine) (s : Session) : Prop where
  source : s.job.source = source
  program : s.job.program = p
  marks : s.marks.size = p.size
  fits : s.job.machine.Fits p
  along : s.finalCode? = none → ∃ n polls,
    Run.Leads p .stepwise n ⟨m₀, none, 0⟩ ⟨s.job.machine, none, polls⟩
  ended : ∀ {code : ExitCode}, s.finalCode? = some code → s.job.machine.Rests p code
    ∧ ∃ polls, Run.Halts p .stepwise ⟨m₀, none, 0⟩ code ⟨s.job.machine, none, polls⟩

variable {source : String} {p : Program} {m₀ : Machine} {s : Session}

theorem finalCode?_eq_none_iff : s.finalCode? = none ↔ s.isCompleted = false := by
  unfold isCompleted
  cases s.finalCode? <;> simp

/-- A code at which a session stays is the one its last call ended with. -/
theorem exitCode_of_finalCode? {code : ExitCode} (h : s.finalCode? = some code) :
    s.exitCode = some code :=
  (Option.filter_eq_some_iff.1 h).1

theorem finalCode?_settle (code : ExitCode) (r : Run) (took : Duration) :
    (s.settle code r took).finalCode? = if code.isBreakpoint then none else some code := by
  simp only [finalCode?, settle, Option.filter_some]
  cases code.isBreakpoint <;> rfl

theorem isCompleted_settle {code : ExitCode} (h : code ≠ .breakpoint) (r : Run)
    (took : Duration) : (s.settle code r took).isCompleted := by
  rw [isCompleted, finalCode?_settle, if_neg]
  · rfl
  · simpa [ExitCode.isBreakpoint] using h

/-- A session is handed back with the report on its last call. -/
theorem withReport?_eq_some {s' : Session} {report : Report}
    (h : s.withReport? = some (s', report)) :
    s = s' ∧ ∃ code, s.exitCode = some code ∧ s.job.report? code s.elapsed = some report := by
  unfold withReport? at h
  simp only [Option.bind_eq_bind, Option.bind_eq_some_iff] at h
  obtain ⟨code, hcode, report', hreport, h⟩ := h
  cases h
  exact ⟨rfl, code, hcode, hreport⟩

theorem resume?_of_isCompleted (h : s.isCompleted) (bypass : Bool) (budget : Budget)
    (fuel : Nat) : s.resume? bypass budget fuel = s.withReport? := by
  rw [resume?, if_pos h]

/-- A call that returns, on a session that is not completed. -/
theorem resume?_eq_some {s' : Session} {report : Report} {bypass : Bool} {budget : Budget}
    {fuel : Nat} (hopen : s.isCompleted = false)
    (h : s.resume? bypass budget fuel = some (s', report)) :
    ∃ code r, s.call bypass budget fuel = .halted code r ∧ s.settle code r {} = s'
      ∧ s'.withReport? = some (s', report) := by
  rw [resume?, if_neg (by rw [hopen]; exact Bool.false_ne_true)] at h
  split at h
  · next code r hcall =>
    obtain ⟨rfl, -⟩ := withReport?_eq_some h
    exact ⟨code, r, hcall, rfl, h⟩
  · cases h
  · cases h

/-- A call that halts returns, if there is a report on it. -/
theorem resume?_of_call {bypass : Bool} {budget : Budget} {fuel : Nat} {code : ExitCode} {r : Run}
    {report : Report} (hopen : s.isCompleted = false)
    (hcall : s.call bypass budget fuel = .halted code r)
    (hreport : (s.settle code r {}).job.report? code (s.settle code r {}).elapsed = some report) :
    s.resume? bypass budget fuel = some (s.settle code r {}, report) := by
  unfold resume?
  rw [hopen, hcall]
  show (s.settle code r {}).withReport? = _
  unfold withReport?
  rw [show (s.settle code r {}).exitCode = some code from rfl]
  simp only [Option.bind_eq_bind, Option.bind_some, hreport]
  rfl

/-- Clearing a mark that is set leaves one less. -/
theorem count_clear {table : Array Bool} {i : Nat} (h : table[i]? = some true) :
    (table.setIfInBounds i false).count true + 1 = table.count true := by
  obtain ⟨hi, hmark⟩ := Array.getElem?_eq_some_iff.1 h
  have hpos : 0 < table.count true := Array.count_pos_iff.2 (Array.mem_of_getElem hmark)
  rw [Array.setIfInBounds_def, dif_pos hi, Array.count_set, hmark]
  simp only [beq_self_eq_true, if_true, Bool.false_beq, Bool.not_true, Bool.false_eq_true, if_false]
  omega

theorem Tracks.follows (h : Tracks source p m₀ s) (polls : Nat) :
    Follows p (some s.marks) ⟨s.job.machine, some s.marks, 0⟩ ⟨s.job.machine, none, polls⟩ :=
  ⟨rfl, rfl, rfl, h.fits⟩

section Step

variable (hp : p.Balanced) {bypass : Bool} {fuel : Nat} {code : ExitCode} {r : Run}

include hp

/-- A call of the session follows the run that the session is on. -/
theorem Tracks.simulation (h : Tracks source p m₀ s) (bypass : Bool) :
    Simulation p { bypass } p .stepwise (Follows p (some s.marks))
      (Pauses p { bypass } (some s.marks)) :=
  simulation_stepwise hp.toCoherent h.marks fun _ => rfl

/-- **A call keeps the session on its run.**  If it paused, there is one
breakpoint less. -/
theorem Tracks.settle (h : Tracks source p m₀ s) (hopen : s.isCompleted = false)
    (hcall : s.call bypass .unlimited fuel = .halted code r) (took : Duration) :
    Tracks source p m₀ (s.settle code r took)
      ∧ (s.settle code r took).job.machine.Rests p code
      ∧ (code = .breakpoint → bypass = false
          ∧ (s.settle code r took).marks.count true + 1 = s.marks.count true) := by
  obtain ⟨n, polls, hleads⟩ := h.along (finalCode?_eq_none_iff.2 hopen)
  unfold call at hcall
  rw [h.program] at hcall
  obtain ⟨hfits, hrests⟩ := Machine.Fits.halted hp.toCoherent
    (r := ⟨s.job.machine, some s.marks, 0⟩) h.fits h.marks hcall
  obtain ⟨k, s₁, hleads', hend⟩ :=
    (h.simulation hp bypass).forward (h.follows polls) ⟨fuel, hcall⟩
  have hrun := hleads.trans hleads'
  have hfinal := s.finalCode?_settle code r took
  rcases hend with ⟨rfl, hm, hnone, hbypass, table, i, htable, hmark, hr⟩ | ⟨hcode, hr, hstep⟩
  · -- a pause: the run stands at the same machine
    cases htable
    have hmarks : (s.settle .breakpoint r took).marks = s.marks.setIfInBounds i false := by
      simp only [Session.settle, hr, Option.getD_some]
    obtain ⟨m₁, marks₁, polls₁⟩ := s₁
    obtain rfl : m₁ = r.machine := hm
    obtain rfl : marks₁ = none := hnone
    refine ⟨⟨h.source, h.program, ?_, hfits, fun _ => ⟨_, _, hrun⟩, ?_⟩, hrests,
      fun _ => ⟨hbypass, ?_⟩⟩
    · rw [hmarks, Array.size_setIfInBounds, h.marks]
    · intro code' hcode'
      rw [hfinal] at hcode'
      cases hcode'
    · rw [hmarks, count_clear hmark]
  · -- the end: the run halts at its next step
    have hbreak : code.isBreakpoint = false := by simpa [ExitCode.isBreakpoint] using hcode
    rw [hbreak] at hfinal
    refine ⟨⟨h.source, h.program, ?_, hfits, ?_, ?_⟩, hrests, fun hc => absurd hc hcode⟩
    · simp only [Session.settle, hr, Option.getD_some]
      exact h.marks
    · intro hnone
      rw [hfinal] at hnone
      cases hnone
    · intro code' hcode'
      rw [hfinal] at hcode'
      cases hcode'
      exact ⟨hrests, _, hrun.halts (Run.halts_of_step hstep)⟩

/-- The session after any call is on its run, and the report is on it. -/
theorem Tracks.resume {s' : Session} {report : Report} (h : Tracks source p m₀ s)
    (hcall : s.resume? bypass .unlimited fuel = some (s', report)) :
    Tracks source p m₀ s' ∧ s'.withReport? = some (s', report) := by
  by_cases hopen : s.isCompleted
  · rw [resume?_of_isCompleted hopen] at hcall
    obtain ⟨rfl, -⟩ := withReport?_eq_some hcall
    exact ⟨h, hcall⟩
  · rw [Bool.not_eq_true] at hopen
    obtain ⟨code, r, hhalted, rfl, hreport⟩ := resume?_eq_some hopen hcall
    exact ⟨(h.settle hp hopen hhalted {}).1, hreport⟩

/-- **So are all calls in a row.** -/
theorem Tracks.calls {s' : Session} {report : Report} (h : Tracks source p m₀ s)
    (hcalls : s.Calls s' report) : Tracks source p m₀ s' ∧ s'.withReport? = some (s', report) := by
  induction hcalls with
  | last hcall => exact h.resume hp hcall
  | more hcall _ ih => exact ih (h.resume hp hcall).1

/-- A call that halts returns with a report. -/
theorem Tracks.resume_of_call (h : Tracks source p m₀ s) (hopen : s.isCompleted = false)
    (hcall : s.call bypass .unlimited fuel = .halted code r) :
    ∃ report, s.resume? bypass .unlimited fuel = some (s.settle code r {}, report)
      ∧ report.exitCode = code := by
  obtain ⟨htracks, hrests, -⟩ := h.settle hp hopen hcall {}
  obtain ⟨report, hreport⟩ := Option.isSome_iff_exists.1
    (Report.build?_isSome hp htracks.fits hrests source (s.settle code r {}).elapsed)
  refine ⟨report, resume?_of_call hopen hcall ?_, (Report.parts_of_build? hreport).2.2⟩
  rw [Job.report?, htracks.source, htracks.program]
  exact hreport

/-- **A call returns if the run ends.** -/
theorem Tracks.exists_resume (h : Tracks source p m₀ s) (hopen : s.isCompleted = false)
    (hends : ∃ code r, Run.Halts p .stepwise ⟨m₀, none, 0⟩ code r) (bypass : Bool) :
    ∃ fuel code r report, s.call bypass .unlimited fuel = .halted code r
      ∧ s.resume? bypass .unlimited fuel = some (s.settle code r {}, report) := by
  obtain ⟨n, polls, hleads⟩ := h.along (finalCode?_eq_none_iff.2 hopen)
  obtain ⟨code₀, r₀, hhalts⟩ := hends
  obtain ⟨k, hk⟩ := hleads.halts_iff.1 hhalts
  obtain ⟨code, r, -, -, ⟨fuel, hfuel⟩, -, -⟩ :=
    (h.simulation hp bypass).backward (h.follows polls) hk
  have hcall : s.call bypass .unlimited fuel = .halted code r := by
    unfold call
    rw [h.program]
    exact hfuel
  obtain ⟨report, hreport, -⟩ := h.resume_of_call hp hopen hcall
  exact ⟨fuel, code, r, report, hcall, hreport⟩

/-- A call past all breakpoints that returns has completed the session. -/
theorem Tracks.isCompleted_of_complete {s' : Session} {report : Report} (h : Tracks source p m₀ s)
    (hopen : s.isCompleted = false) (hcall : s.complete? .unlimited fuel = some (s', report)) :
    s'.isCompleted := by
  obtain ⟨code, r, hhalted, rfl, -⟩ := resume?_eq_some hopen hcall
  obtain ⟨-, -, hpause⟩ := h.settle hp hopen hhalted {}
  refine isCompleted_settle ?_ r {}
  intro hbreak
  obtain ⟨hbypass, -⟩ := hpause hbreak
  cases hbypass

/-- There is such a call if the run ends. -/
theorem Tracks.exists_complete (h : Tracks source p m₀ s) (hopen : s.isCompleted = false)
    (hends : ∃ code r, Run.Halts p .stepwise ⟨m₀, none, 0⟩ code r) :
    ∃ fuel s' report, s.complete? .unlimited fuel = some (s', report) ∧ s'.isCompleted := by
  obtain ⟨fuel, code, r, report, -, hresume⟩ := h.exists_resume hp hopen hends true
  exact ⟨fuel, _, report, hresume, h.isCompleted_of_complete hp hopen hresume⟩

/-- **Each `continue?` that pauses uses up a breakpoint.** -/
theorem Tracks.exists_continues (hends : ∃ code r, Run.Halts p .stepwise ⟨m₀, none, 0⟩ code r)
    (h : Tracks source p m₀ s) :
    ∃ n s', n ≤ s.marks.count true + 1 ∧ Continues n s s' ∧ s'.isCompleted := by
  -- by the number of breakpoints that are left
  induction hcount : s.marks.count true using Nat.strongRecOn generalizing s with
  | ind count ih =>
    by_cases hopen : s.isCompleted
    · exact ⟨0, s, by omega, .none s, hopen⟩
    · rw [Bool.not_eq_true] at hopen
      obtain ⟨fuel, code, r, report, hcall, hresume⟩ := h.exists_resume hp hopen hends false
      obtain ⟨htracks, -, hpause⟩ := h.settle hp hopen hcall {}
      by_cases hbreak : code = .breakpoint
      · obtain ⟨-, hless⟩ := hpause hbreak
        obtain ⟨n, s', hn, hrest, hdone⟩ := ih _ (by omega) htracks rfl
        exact ⟨n + 1, s', by omega, .more hresume hrest, hdone⟩
      · exact ⟨1, _, by omega, .more hresume (.none _), isCompleted_settle hbreak r {}⟩

end Step

/-! ## §3. Starting a session. -/

/-- Breakpoints inside the script can all be placed, in a table of the same
size. -/
theorem placeBreakpoints_ok {length : Nat} {offsets : List Nat}
    (h : ∀ offset ∈ offsets, offset < length) (marks : Array Bool) :
    ∃ marks', placeBreakpoints p length offsets marks = .ok marks' ∧ marks'.size = marks.size := by
  induction offsets generalizing marks with
  | nil => exact ⟨marks, rfl, rfl⟩
  | cons offset rest ih =>
    obtain ⟨hfirst, hrest⟩ := List.forall_mem_cons.1 h
    obtain ⟨marks', hok, hsize⟩ := ih hrest (marks.setIfInBounds (firstFrom p offset) true)
    refine ⟨marks', ?_, by rw [hsize, Array.size_setIfInBounds]⟩
    unfold placeBreakpoints placeBreakpoint
    rw [if_pos hfirst]
    exact hok

/-- **A session can be started on every script that compiles**, and is at the
start of its run. -/
theorem exists_create {config : Config} {source : String} {breakpoints : List Nat}
    (hprogram : Program.compile .plain source = .ok p) (hsize : Tape.AllowedSize config.tapeSize)
    (hbreakpoints : ∀ offset ∈ breakpoints, offset < source.length) (input : String) :
    ∃ s, create config source breakpoints input = .ok s ∧ s.isCompleted = false
      ∧ Tracks source p
        (.load p (.blank config.tapeSize config.mode) input config.outputLimit) s := by
  obtain ⟨marks, hmarks, hlength⟩ := placeBreakpoints_ok (p := p) hbreakpoints
    (Array.replicate p.size false)
  rw [Array.size_replicate] at hlength
  refine ⟨⟨⟨source, p, .load p (.blank config.tapeSize config.mode) input config.outputLimit⟩,
    marks, none, {}⟩, ?_, rfl, ?_⟩
  · unfold create ofProgram Tape.create
    rw [hprogram, if_pos hsize]
    simp only [bind, Except.bind, hmarks]
    rfl
  · exact {
      source := rfl
      program := rfl
      marks := hlength
      fits := Machine.fits_load p (Tape.wellFormed_blank _ hsize) input config.outputLimit
      along := fun _ => ⟨0, 0, .refl _⟩
      ended := fun h => by cases h }

/-- A session starts with its script loaded on a blank tape. -/
theorem job_of_create {config : Config} {source input : String} {breakpoints : List Nat}
    (hprogram : Program.compile .plain source = .ok p)
    (h : create config source breakpoints input = .ok s) :
    s.job = ⟨source, p,
      .load p (.blank config.tapeSize config.mode) input config.outputLimit⟩ := by
  unfold create ofProgram Tape.create at h
  rw [hprogram] at h
  simp only [bind, Except.bind] at h
  split at h
  · cases h
  · next tape htape =>
    split at htape
    · cases htape
      split at h
      · cases h
      · cases h
        rfl
    · cases htape

/-! ## §4. The result. -/

/-- **The report of a completed session** is the report on the end of its
run. -/
theorem Tracks.report {report : Report} (h : Tracks source p m₀ s) (hdone : s.isCompleted)
    (hreport : s.withReport? = some (s, report)) :
    ∃ code polls, Run.Halts p .stepwise ⟨m₀, none, 0⟩ code ⟨s.job.machine, none, polls⟩
      ∧ Report.build? source p s.job.machine code {} = some report.untimed := by
  obtain ⟨code, hcode⟩ := Option.isSome_iff_exists.1 hdone
  obtain ⟨-, polls, hhalts⟩ := h.ended hcode
  refine ⟨code, polls, hhalts, ?_⟩
  obtain ⟨-, code', hcode', hbuild⟩ := withReport?_eq_some hreport
  rw [exitCode_of_finalCode? hcode] at hcode'
  cases hcode'
  rw [Job.report?, h.source, h.program] at hbuild
  rw [← Report.build?_untimed source p s.job.machine code s.elapsed, hbuild]
  rfl

/-- **Two completed sessions on one run have the same report**, but for the
time. -/
theorem Tracks.report_eq {s' : Session} {report report' : Report} (h : Tracks source p m₀ s)
    (h' : Tracks source p m₀ s') (hdone : s.isCompleted) (hdone' : s'.isCompleted)
    (hreport : s.withReport? = some (s, report)) (hreport' : s'.withReport? = some (s', report')) :
    report.untimed = report'.untimed := by
  obtain ⟨code, polls, hhalts, hbuild⟩ := h.report hdone hreport
  obtain ⟨code', polls', hhalts', hbuild'⟩ := h'.report hdone' hreport'
  obtain ⟨rfl, hrun⟩ := hhalts.unique hhalts'
  have hmachine : s.job.machine = s'.job.machine := congrArg Run.machine hrun
  rw [← hmachine, hbuild] at hbuild'
  exact Option.some.inj hbuild'

/-- **Breakpoints change nothing but the pauses.**  A session can be started
with any breakpoints inside the script.  Whatever calls complete it, its
report is, but for the time, the one that `complete?` gives on the session
without breakpoints, and every later call returns the same.  If the session
without breakpoints completes, `continue?` completes this one in at most one
call more than there are marked operators. -/
theorem breakpoints_transparent (config : Config) (source input : String)
    (breakpoints : List Nat) (hsource : (Script.validate source).isSuccess)
    (hconfig : Tape.AllowedSize config.tapeSize)
    (hbreakpoints : ∀ offset ∈ breakpoints, offset < source.length) :
    ∃ s s₀, create config source breakpoints input = .ok s
      ∧ create config source [] input = .ok s₀
      ∧ (∀ s' report, s.Calls s' report → s'.isCompleted →
          (∃ fuel s₀' report₀, s₀.complete? .unlimited fuel = some (s₀', report₀)
            ∧ s₀'.isCompleted ∧ report.untimed = report₀.untimed)
          ∧ ∀ bypass budget fuel, s'.resume? bypass budget fuel = some (s', report))
      ∧ ((∃ s₀' report₀, s₀.Calls s₀' report₀ ∧ s₀'.isCompleted) →
          ∃ n s', n ≤ s.marks.count true + 1 ∧ Continues n s s' ∧ s'.isCompleted) := by
  obtain ⟨b, ⟨hitems, -⟩, hb⟩ := Script.validate_isSuccess_iff.1 hsource
  have hprogram := Program.compile_of_isSuccess hsource .plain
  have hp := Program.balanced_plain hitems hb (Script.validate source).count
  obtain ⟨s, hs, -, htracks⟩ := exists_create hprogram hconfig hbreakpoints input
  obtain ⟨s₀, hs₀, hopen₀, htracks₀⟩ := exists_create hprogram hconfig
    (fun _ h => absurd h List.not_mem_nil) input
  refine ⟨s, s₀, hs, hs₀, ?_, ?_⟩
  · intro s' report hcalls hdone
    obtain ⟨htracks', hreport⟩ := htracks.calls hp hcalls
    obtain ⟨code, polls, hhalts, -⟩ := htracks'.report hdone hreport
    obtain ⟨fuel, s₀', report₀, hcall₀, hdone₀⟩ :=
      htracks₀.exists_complete hp hopen₀ ⟨code, _, hhalts⟩
    obtain ⟨htracks₀', hreport₀⟩ := htracks₀.resume hp hcall₀
    refine ⟨⟨fuel, s₀', report₀, hcall₀, hdone₀, ?_⟩, fun bypass budget fuel => ?_⟩
    · exact htracks'.report_eq htracks₀' hdone hdone₀ hreport hreport₀
    · rw [resume?_of_isCompleted hdone, hreport]
  · rintro ⟨s₀', report₀, hcalls₀, hdone₀⟩
    obtain ⟨htracks₀', hreport₀⟩ := htracks₀.calls hp hcalls₀
    obtain ⟨code, polls, hhalts, -⟩ := htracks₀'.report hdone₀ hreport₀
    exact htracks.exists_continues hp ⟨code, _, hhalts⟩

/-- Breakpoints inside a loop and inside `[-]`. -/
theorem breakpoints_transparent_countdown :
    ∃ s n s', create { tapeSize := 32 } "++[>+<-]>[-]" [3, 10] "" = .ok s
      ∧ n ≤ s.marks.count true + 1 ∧ Continues n s s' ∧ s'.isCompleted := by
  have hdone : ((create { tapeSize := 32 } "++[>+<-]>[-]" [] "").toOption.bind fun s =>
      s.complete? .unlimited 60).any fun result => result.1.isCompleted := by decide +kernel
  obtain ⟨s, s₀, hs, hs₀, -, hcontinues⟩ := breakpoints_transparent { tapeSize := 32 }
    "++[>+<-]>[-]" "" [3, 10] (by decide) (by decide) (by decide)
  rw [hs₀] at hdone
  obtain ⟨⟨s₀', report₀⟩, hcall, hcompleted⟩ := (Option.any_eq_true _ _).1 hdone
  obtain ⟨n, s', hn, hrest, hend⟩ := hcontinues ⟨s₀', report₀, .last hcall, hcompleted⟩
  exact ⟨s, n, s', hs, hn, hrest, hend⟩

end Session

end TapeMachine
