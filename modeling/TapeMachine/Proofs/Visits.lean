/-
  TapeMachine.Proofs.Visits
  ─────────────────────────
  **PAUSES ARE FIRST VISITS.**

  The run that takes each opcode by itself visits one operator after the
  other (`Run.visits`).  A session pauses at the marked ones, each where
  that run visits it first (`firstVisits`):

    • `lockstep` — up to the first marked operator a call makes the steps of
      that run,
    • `Meets` — there it pauses, and the mark is gone; what is left of the
      first visits are those of the rest of the run (`Meets.firstVisits`),
    • `pauses_are_first_visits` — so the pauses of a whole session are the
      first visits, in their order.
-/
import TapeMachine.Proofs.Breakpoints
import TapeMachine.Proofs.Iteration

namespace TapeMachine

/-! ## §1. The operators a run visits. -/

/-- The index of the opcode that is carried out next, if one is. -/
def Machine.due? (m : Machine) : Option Nat :=
  match m.stack.frames with
  | [] => none
  | frame :: _ => if frame.offset < frame.body.stop then some frame.offset else none

/-- An operator about to be carried out, and the machine before it. -/
structure Visit where
  index : Nat
  machine : Machine

/-- The visit that a machine is about to make. -/
def Machine.visit? (m : Machine) : Option Visit := m.due?.map (⟨·, m⟩)

/-- The visits of a run in up to `fuel` steps, in order. -/
def Run.visits (p : Program) (t : Terms) : (fuel : Nat) → Run → List Visit
  | 0, _ => []
  | fuel + 1, r =>
    r.machine.visit?.toList ++
      match r.step? p t with
      | some (.next r') => r'.visits p t fuel
      | _ => []

/-- Of some visits those to marked operators, and of each operator the
first. -/
def firstVisits (marks : Array Bool) (visits : List Visit) : List Visit :=
  (visits.filter fun v => marks[v.index]? = some true).eraseDupsBy fun v w => v.index == w.index

theorem Machine.due?_of_lt {m : Machine} {frame : Frame} {callers : List Frame}
    (hf : m.stack.frames = frame :: callers) (hlt : frame.offset < frame.body.stop) :
    m.due? = some frame.offset := by
  unfold due?
  rw [hf]
  exact if_pos hlt

/-- An opcode that is due is one of the running frame. -/
theorem Machine.frame_of_due? {m : Machine} {i : Nat} (h : m.due? = some i) :
    ∃ frame callers, m.stack.frames = frame :: callers ∧ frame.offset < frame.body.stop
      ∧ frame.offset = i := by
  unfold due? at h
  split at h
  · cases h
  · next frame callers hf =>
    split at h
    · next hlt => exact ⟨frame, callers, hf, hlt, Option.some.inj h⟩
    · cases h

namespace Run

variable {p : Program} {t : Terms} {r r' : Run}

theorem visits_of_next (h : r.step? p t = some (.next r')) (n : Nat) :
    r.visits p t (n + 1) = r.machine.visit?.toList ++ r'.visits p t n := by
  rw [visits, h]

/-- **The visits of a run are those of its parts.** -/
theorem Leads.visits {n : Nat} (h : Leads p t n r r') (k : Nat) :
    r.visits p t (n + k) = r.visits p t n ++ r'.visits p t k := by
  induction n generalizing r with
  | zero =>
    cases h
    rw [Nat.zero_add]
    rfl
  | succ n ih =>
    have hsteps : r.steps p t (n + 1) = .unfinished r' := h
    cases hstep : r.step? p t with
    | none =>
      rw [steps_of_stuck hstep] at hsteps
      cases hsteps
    | some step =>
      cases step with
      | next r₁ =>
        rw [steps_of_next hstep] at hsteps
        rw [show n + 1 + k = n + k + 1 by omega, visits_of_next hstep, visits_of_next hstep,
          ih hsteps, List.append_assoc]
      | halt code r₁ =>
        rw [steps_of_halt hstep] at hsteps
        cases hsteps

theorem mem_visits_of_le {n : Nat} {v : Visit} : ∀ {r : Run} {k : Nat}, n ≤ k →
    v ∈ r.visits p t n → v ∈ r.visits p t k := by
  induction n with
  | zero =>
    intro r k _ hv
    cases hv
  | succ n ih =>
    intro r k hk hv
    obtain ⟨k, rfl⟩ : ∃ k', k = k' + 1 := ⟨k - 1, by omega⟩
    unfold visits at hv ⊢
    rcases List.mem_append.1 hv with hv | hv
    · exact List.mem_append_left _ hv
    · refine List.mem_append_right _ ?_
      split at hv
      · exact ih (by omega) hv
      · cases hv

end Run

/-! ## §2. First visits. -/

section FirstVisits

variable {marks : Array Bool}

/-- Visits to operators that are not marked do not count. -/
theorem firstVisits_append {visits : List Visit}
    (h : ∀ v ∈ visits, marks[v.index]? ≠ some true) (rest : List Visit) :
    firstVisits marks (visits ++ rest) = firstVisits marks rest := by
  unfold firstVisits
  rw [List.filter_append, List.filter_eq_nil_iff.2 (by simpa using h), List.nil_append]

theorem firstVisits_eq_nil {visits : List Visit} (h : ∀ v ∈ visits, marks[v.index]? ≠ some true) :
    firstVisits marks visits = [] := by
  have happend := firstVisits_append h []
  rw [List.append_nil] at happend
  exact happend

/-- **A first visit takes the mark away.** -/
theorem firstVisits_cons {v : Visit} (h : marks[v.index]? = some true) (rest : List Visit) :
    firstVisits marks (v :: rest)
      = v :: firstVisits (marks.setIfInBounds v.index false) (v :: rest) := by
  have hi : v.index < marks.size := (Array.getElem?_eq_some_iff.1 h).1
  have hcleared : ∀ w : Visit, (marks.setIfInBounds v.index false)[w.index]? = some true
      ↔ w.index ≠ v.index ∧ marks[w.index]? = some true := by
    intro w
    rw [Array.getElem?_setIfInBounds, if_pos hi]
    by_cases he : v.index = w.index
    · simp [he]
    · rw [if_neg he]
      simp [Ne.symm he]
  have hself : ∀ w ∈ [v], (marks.setIfInBounds v.index false)[w.index]? ≠ some true := by
    intro w hw
    rw [List.mem_singleton.1 hw, Ne, hcleared]
    simp
  rw [show v :: rest = [v] ++ rest from rfl, firstVisits_append hself]
  show firstVisits marks (v :: rest) = _
  unfold firstVisits
  rw [List.filter_cons_of_pos (by simpa using h), List.eraseDupsBy_cons, List.filter_filter]
  congr 2
  refine List.filter_congr fun w _ => ?_
  simp only [hcleared, Bool.decide_and]
  simp

end FirstVisits

/-! ## §3. A call, and the run that visits. -/

/-- The terms of a call that meets breakpoints and takes each opcode by
itself. -/
def Terms.attentive : Terms := { bypass := false, budget := .unlimited, shortcut := false }

/-- A run given breakpoints. -/
def Run.mark (table : Array Bool) (r : Run) : Run := { r with marks := some table }

def Step.mark (table : Array Bool) : Step → Step
  | .next r => .next (r.mark table)
  | .halt code r => .halt code (r.mark table)

def Outcome.mark (table : Array Bool) : Outcome → Outcome
  | .halted code r => .halted code (r.mark table)
  | .unfinished r => .unfinished (r.mark table)
  | .stuck => .stuck

section Lockstep

variable {p : Program} {table : Array Bool} {m : Machine} {polls : Nat}

theorem Terms.stops?_attentive (i : Nat) : Terms.attentive.stops? (some table) i = table[i]? := rfl

/-- At an operator that is not marked a call makes the step of the run. -/
theorem step?_unmarked (hsize : table.size = p.size)
    (h : ∀ i, m.due? = some i → table[i]? ≠ some true) (polls : Nat) :
    Run.step? p .attentive ⟨m, some table, polls⟩
      = (Run.step? p .stepwise ⟨m, none, polls⟩).map (Step.mark table) := by
  cases hf : m.stack.frames with
  | nil =>
    rw [Run.step?_of_empty hf, Run.step?_of_empty hf]
    rfl
  | cons frame callers =>
    by_cases hlt : frame.offset < frame.body.stop
    · have hmark := h _ (Machine.due?_of_lt hf hlt)
      rw [Run.step?_of_lt hf hlt, step?_stepwise hf hlt, Terms.stops?_attentive]
      cases hop : p.opcodes[frame.offset]? with
      | none =>
        -- there is no operator, and so no mark
        have hout : table[frame.offset]? = none := by
          rw [Array.getElem?_eq_none_iff] at hop ⊢
          exact hsize ▸ hop
        rw [hout]
        rfl
      | some op =>
        obtain ⟨hi, -⟩ := Array.getElem?_eq_some_iff.1 hop
        obtain ⟨mark, hget⟩ : ∃ mark, table[frame.offset]? = some mark :=
          ⟨_, Array.getElem?_eq_getElem (hsize ▸ hi)⟩
        rw [hget] at hmark ⊢
        obtain rfl : mark = false := by simpa using hmark
        show (m.move? p (some false) false frame.offset op).map _
          = ((m.move? p (some false) false frame.offset op).map _).map _
        rw [Option.map_map]
        congr 1
        funext move
        cases move <;> rfl
    · rw [Run.step?_of_done hf (Nat.not_lt.1 hlt), Run.step?_of_done hf (Nat.not_lt.1 hlt)]
      rfl

/-- At a marked one it pauses, and the mark is gone. -/
theorem step?_marked {i : Nat} (hdue : m.due? = some i) (hmark : table[i]? = some true) :
    Run.step? p .attentive ⟨m, some table, polls⟩
      = some (.halt .breakpoint ⟨m, some (table.setIfInBounds i false), polls⟩) := by
  obtain ⟨frame, callers, hf, hlt, rfl⟩ := Machine.frame_of_due? hdue
  rw [Run.step?_of_lt hf hlt, Terms.stops?_attentive, hmark]
  rfl

/-- **Up to the first marked operator a call makes the steps of the run.** -/
theorem lockstep (hsize : table.size = p.size) (n : Nat) :
    ∀ {s : Run}, s.marks = none →
      (∀ v ∈ s.visits p .stepwise n, table[v.index]? ≠ some true) →
      (s.mark table).steps p .attentive n = (s.steps p .stepwise n).mark table := by
  induction n with
  | zero => intro s _ _; rfl
  | succ n ih =>
    rintro ⟨m, _, polls⟩ rfl hvisits
    have hhere : ∀ i, m.due? = some i → table[i]? ≠ some true := by
      intro i hi
      refine hvisits ⟨i, m⟩ (List.mem_append_left _ ?_)
      show _ ∈ m.visit?.toList
      rw [Machine.visit?, hi]
      exact List.mem_singleton_self _
    have hstep := step?_unmarked hsize hhere polls
    cases hrun : Run.step? p .stepwise ⟨m, none, polls⟩ with
    | none =>
      rw [hrun] at hstep
      rw [Run.steps_of_stuck hrun]
      exact Run.steps_of_stuck hstep n
    | some step =>
      rw [hrun] at hstep
      cases step with
      | next r =>
        rw [Run.steps_of_next hrun]
        show Run.steps p .attentive (n + 1) ⟨m, some table, polls⟩ = _
        rw [Run.steps_of_next hstep]
        refine ih (Run.marks_of_next hrun) fun v hv => hvisits v ?_
        rw [Run.visits_of_next hrun]
        exact List.mem_append_right _ hv
      | halt code r =>
        rw [Run.steps_of_halt hrun]
        exact Run.steps_of_halt hstep n

/-- The run that visits never pauses. -/
theorem Run.Halts.ne_breakpoint {code : ExitCode} {s : Run} (hp : p.Coherent) (hm : m.Fits p)
    (h : Run.Halts p .stepwise ⟨m, none, polls⟩ code s) : code ≠ .breakpoint := by
  have sim := simulation_stepwise (t := .stepwise) hp (show p.FitsMarks none from trivial)
    fun _ => rfl
  obtain ⟨n, s', -, hend⟩ := sim.forward (s := ⟨m, none, polls⟩) ⟨rfl, rfl, rfl, hm⟩ h
  rcases hend with ⟨-, -, -, hbypass, -⟩ | ⟨hcode, -⟩
  · cases hbypass
  · exact hcode

/-- How often the budget was asked makes no difference to the visits. -/
theorem visits_polls (n : Nat) : ∀ (m : Machine) (polls polls' : Nat),
    Run.visits p .stepwise n ⟨m, none, polls⟩ = Run.visits p .stepwise n ⟨m, none, polls'⟩ := by
  induction n with
  | zero => intro m polls polls'; rfl
  | succ n ih =>
    intro m polls polls'
    unfold Run.visits
    congr 1
    cases hf : m.stack.frames with
    | nil => rw [Run.step?_of_empty hf, Run.step?_of_empty hf]
    | cons frame callers =>
      by_cases hlt : frame.offset < frame.body.stop
      · rw [step?_stepwise hf hlt, step?_stepwise hf hlt]
        cases p.opcodes[frame.offset]? with
        | none => rfl
        | some op =>
          dsimp only
          cases m.move? p (some false) false frame.offset op with
          | none => rfl
          | some move =>
            cases move with
            | next m' asked => exact ih m' _ _
            | halt code m' => rfl
      · rw [Run.step?_of_done hf (Nat.not_lt.1 hlt), Run.step?_of_done hf (Nat.not_lt.1 hlt)]
        exact ih _ polls polls'

end Lockstep

/-! ## §4. The next marked operator. -/

/-- After `k` steps the run from `s` makes the visit `v`, to a marked
operator, and it has visited none before. -/
structure Meets (p : Program) (table : Array Bool) (k : Nat) (s : Run) (v : Visit) : Prop where
  leads : ∃ polls, Run.Leads p .stepwise k s ⟨v.machine, none, polls⟩
  due : v.machine.due? = some v.index
  marked : table[v.index]? = some true
  before : ∀ w ∈ s.visits p .stepwise k, table[w.index]? ≠ some true

section Meets

variable {p : Program} {table : Array Bool} {s : Run} {v : Visit} {k : Nat}

/-- **Among visits to marked operators there is a first.** -/
theorem exists_meets (n : Nat) : ∀ {s : Run}, s.marks = none →
    (∃ w ∈ s.visits p .stepwise n, table[w.index]? = some true) →
      ∃ k v, k < n ∧ Meets p table k s v := by
  induction n with
  | zero =>
    rintro s - ⟨w, hw, -⟩
    cases hw
  | succ n ih =>
    rintro ⟨m, _, polls⟩ rfl ⟨w, hw, hmarked⟩
    by_cases hhere : ∃ i, m.due? = some i ∧ table[i]? = some true
    · obtain ⟨i, hdue, hmark⟩ := hhere
      exact ⟨0, ⟨i, m⟩, Nat.succ_pos n, ⟨⟨polls, .refl _⟩, hdue, hmark, fun w hw => by cases hw⟩⟩
    · -- the visit made now is not to a marked operator, so the one to `w` comes later
      have hnow : ∀ w ∈ m.visit?.toList, table[w.index]? ≠ some true := by
        intro w hw hmark
        obtain ⟨i, hdue, rfl⟩ := Option.map_eq_some_iff.1 (Option.mem_toList.1 hw)
        exact hhere ⟨i, hdue, hmark⟩
      unfold Run.visits at hw
      rcases List.mem_append.1 hw with hw | hw
      · exact absurd hmarked (hnow w hw)
      · split at hw
        · next r hstep =>
          obtain ⟨k, v, hk, ⟨polls', hleads⟩, hdue, hmark, hbefore⟩ :=
            ih (Run.marks_of_next hstep) ⟨w, hw, hmarked⟩
          refine ⟨k + 1, v, Nat.succ_lt_succ hk, ⟨polls', .step hstep hleads⟩, hdue, hmark, ?_⟩
          rw [Run.visits_of_next hstep]
          exact List.forall_mem_append.2 ⟨hnow, hbefore⟩
        · cases hw

/-- Up to there, no visit counts. -/
theorem Meets.firstVisits_eq_nil (h : Meets p table k s v) {n : Nat} (hn : n ≤ k) :
    firstVisits table (s.visits p .stepwise n) = [] :=
  TapeMachine.firstVisits_eq_nil fun w hw => h.before w (Run.mem_visits_of_le hn hw)

/-- **That visit is the first that counts, and the others are those of the
run from there, with the mark gone.** -/
theorem Meets.firstVisits_succ (h : Meets p table k s v) (n : Nat) :
    firstVisits table (s.visits p .stepwise (k + (n + 1)))
      = v :: firstVisits (table.setIfInBounds v.index false)
          (Run.visits p .stepwise (n + 1) ⟨v.machine, none, 0⟩) := by
  obtain ⟨polls, hleads⟩ := h.leads
  have hhere : Run.visits p .stepwise (n + 1) ⟨v.machine, none, 0⟩
      = v :: (Run.visits p .stepwise (n + 1) ⟨v.machine, none, 0⟩).tail := by
    unfold Run.visits
    rw [Machine.visit?, h.due]
    rfl
  rw [hleads.visits, firstVisits_append h.before, visits_polls _ _ polls 0, hhere,
    firstVisits_cons h.marked]

/-- **A call pauses there.** -/
theorem Meets.halts (h : Meets p table k s v) (hsize : table.size = p.size)
    (hs : s.marks = none) :
    ∃ polls, Run.Halts p .attentive (s.mark table) .breakpoint
      ⟨v.machine, some (table.setIfInBounds v.index false), polls⟩ := by
  obtain ⟨polls, hleads⟩ := h.leads
  have hsteps := lockstep hsize k hs h.before
  rw [show s.steps p .stepwise k = _ from hleads] at hsteps
  exact ⟨polls, Run.Leads.halts hsteps (Run.halts_of_step (step?_marked h.due h.marked))⟩

/-- **A call that pauses has met a marked operator.** -/
theorem meets_of_pause {m : Machine} {polls : Nat} {r : Run} (hp : p.Coherent) (hm : m.Fits p)
    (hsize : table.size = p.size)
    (h : Run.Halts p .attentive ⟨m, some table, polls⟩ .breakpoint r) :
    ∃ k v, Meets p table k ⟨m, none, polls⟩ v ∧ r.machine = v.machine
      ∧ r.marks = some (table.setIfInBounds v.index false) := by
  obtain ⟨n, hn⟩ := h
  by_cases hvisit : ∃ w ∈ Run.visits p .stepwise n ⟨m, none, polls⟩, table[w.index]? = some true
  · obtain ⟨k, v, -, hmeets⟩ := exists_meets n rfl hvisit
    obtain ⟨polls', hhalts⟩ := hmeets.halts hsize rfl
    obtain ⟨-, rfl⟩ := hhalts.unique ⟨n, hn⟩
    exact ⟨k, v, hmeets, rfl, rfl⟩
  · -- without a visit to one, the run would have paused
    have hunmarked : ∀ w ∈ Run.visits p .stepwise n ⟨m, none, polls⟩,
        table[w.index]? ≠ some true := fun w hw hmark => hvisit ⟨w, hw, hmark⟩
    have hsteps := hn.symm.trans (lockstep (s := ⟨m, none, polls⟩) hsize n rfl hunmarked)
    cases hrun : Run.steps p .stepwise n ⟨m, none, polls⟩ with
    | halted code s =>
      rw [hrun] at hsteps
      cases hsteps
      exact absurd rfl (Run.Halts.ne_breakpoint hp hm ⟨n, hrun⟩)
    | unfinished s =>
      rw [hrun] at hsteps
      cases hsteps
    | stuck =>
      rw [hrun] at hsteps
      cases hsteps

end Meets

/-! ## §5. The pauses of a session. -/

namespace Session

/-- The first visits to marked operators that are made from where the session
stands, as far as `fuel` steps go. -/
def firsts (s : Session) (fuel : Nat) : List Visit :=
  firstVisits s.marks (Run.visits s.job.program .stepwise fuel ⟨s.job.machine, none, 0⟩)

/-- After `n` calls of `continue?` one more takes the session to `s'` and
pauses there. -/
def PausesAfter (n : Nat) (s s' : Session) (report : Report) : Prop :=
  ∃ s₁ fuel, Continues n s s₁ ∧ s₁.continue? .unlimited fuel = some (s', report)
    ∧ report.exitCode = .breakpoint

variable {source : String} {p : Program} {m₀ : Machine} {s s' : Session} {report : Report}
  {n k fuel : Nat} {v : Visit}

theorem PausesAfter.succ {s₁ : Session} {earlier : Report}
    (hcall : s.continue? .unlimited fuel = some (s₁, earlier)) (h : PausesAfter n s₁ s' report) :
    PausesAfter (n + 1) s s' report := by
  obtain ⟨s₂, fuel', hcontinues, hlast⟩ := h
  exact ⟨s₂, fuel', .more hcall hcontinues, hlast⟩

/-- A report gives the code of the last call. -/
theorem exitCode_of_withReport? (h : s.withReport? = some (s', report)) :
    s.exitCode = some report.exitCode := by
  obtain ⟨-, code, hexit, hreport⟩ := withReport?_eq_some h
  rw [hexit, (Report.parts_of_build? hreport).2.2]

/-- A completed session stays as it is. -/
theorem Continues.of_isCompleted (hdone : s.isCompleted) (h : Continues n s s') : s' = s := by
  induction h with
  | none s => rfl
  | more hcall _ ih =>
    rw [continue?, resume?_of_isCompleted hdone] at hcall
    obtain ⟨rfl, -⟩ := withReport?_eq_some hcall
    exact ih hdone

/-- It does not pause any more. -/
theorem not_pausesAfter_of_isCompleted (hdone : s.isCompleted) : ¬ PausesAfter n s s' report := by
  rintro ⟨s₁, fuel, hcontinues, hcall, hcode⟩
  obtain rfl := hcontinues.of_isCompleted hdone
  rw [continue?, resume?_of_isCompleted hdone] at hcall
  -- the code of a pause is not one to stay at
  rw [isCompleted, finalCode?, exitCode_of_withReport? hcall, hcode] at hdone
  cases hdone

section Pause

variable (hp : p.Balanced)

include hp

/-- **A call that pauses does so at the next marked operator.** -/
theorem Tracks.pause (h : Tracks source p m₀ s) (hopen : s.isCompleted = false)
    (hcall : s.continue? .unlimited fuel = some (s', report))
    (hcode : report.exitCode = .breakpoint) :
    Tracks source p m₀ s' ∧ s'.isCompleted = false
      ∧ Report.build? source p s'.job.machine .breakpoint s'.elapsed = some report
      ∧ ∃ k v, Meets p s.marks k ⟨s.job.machine, none, 0⟩ v ∧ s'.job.machine = v.machine
        ∧ s'.marks = s.marks.setIfInBounds v.index false := by
  obtain ⟨code, r, hhalted, rfl, hreport⟩ := resume?_eq_some hopen hcall
  obtain ⟨htracks, -, -⟩ := h.settle hp hopen hhalted {}
  obtain rfl : code = .breakpoint :=
    (Option.some.inj (exitCode_of_withReport? hreport)).trans hcode
  obtain ⟨-, code', hexit, hbuild⟩ := withReport?_eq_some hreport
  cases hexit
  rw [Job.report?, htracks.source, htracks.program] at hbuild
  refine ⟨htracks, ?_, hbuild, ?_⟩
  · rw [← finalCode?_eq_none_iff, finalCode?_settle]
    rfl
  · -- the call, iterating, pauses at the same place
    unfold call at hhalted
    rw [h.program] at hhalted
    have hfits : p.FitsMarks (some s.marks) := h.marks
    obtain ⟨polls, hiterated⟩ :=
      halts_iterated hp.toCoherent hfits (fun _ => rfl) h.fits ⟨fuel, hhalted⟩ 0
    obtain ⟨k, v, hmeets, hmachine, hmarks⟩ := meets_of_pause hp.toCoherent h.fits h.marks hiterated
    refine ⟨k, v, hmeets, hmachine, ?_⟩
    show r.marks.getD s.marks = _
    rw [show r.marks = _ from hmarks]
    rfl

/-- **There is such a call if a marked operator is visited.** -/
theorem Tracks.exists_pause (h : Tracks source p m₀ s) (hopen : s.isCompleted = false)
    (hmeets : Meets p s.marks k ⟨s.job.machine, none, 0⟩ v) :
    ∃ fuel s' report, s.continue? .unlimited fuel = some (s', report)
      ∧ report.exitCode = .breakpoint := by
  obtain ⟨polls, hiterated⟩ := hmeets.halts h.marks rfl
  have hfits : p.FitsMarks (some s.marks) := h.marks
  obtain ⟨polls', fuel, hfuel⟩ := halts_of_iterated (t := { bypass := false, budget := .unlimited })
    hp.toCoherent hfits (fun _ => rfl) h.fits hiterated
  have hcall : s.call false .unlimited fuel = .halted .breakpoint
      ⟨v.machine, some (s.marks.setIfInBounds v.index false), polls'⟩ := by
    unfold call
    rw [h.program]
    exact hfuel
  obtain ⟨report, hresume, hcode⟩ := h.resume_of_call hp hopen hcall
  exact ⟨fuel, _, report, hresume, hcode⟩

end Pause

/-- Up to the next pause there is no first visit. -/
theorem Tracks.firsts_eq_nil (h : Tracks source p m₀ s)
    (hmeets : Meets p s.marks k ⟨s.job.machine, none, 0⟩ v) (hfuel : fuel ≤ k) :
    s.firsts fuel = [] := by
  unfold firsts
  rw [h.program]
  exact hmeets.firstVisits_eq_nil hfuel

/-- The pause is at the first of them, and the others are still to be made
after it. -/
theorem Tracks.firsts_of_lt (h : Tracks source p m₀ s) (h' : Tracks source p m₀ s')
    (hmeets : Meets p s.marks k ⟨s.job.machine, none, 0⟩ v) (hmachine : s'.job.machine = v.machine)
    (hmarks : s'.marks = s.marks.setIfInBounds v.index false) (hfuel : k < fuel) :
    s.firsts fuel = v :: s'.firsts (fuel - k) := by
  obtain ⟨n, rfl⟩ : ∃ n, fuel = k + (n + 1) := ⟨fuel - k - 1, by omega⟩
  unfold firsts
  rw [h.program, h'.program, hmachine, hmarks, hmeets.firstVisits_succ,
    Nat.add_sub_cancel_left]

/-! ## §6. The result. -/

/-- **The pause after `n` others is the first visit after `n` others.** -/
theorem Tracks.visit_of_pause (hp : p.Balanced) (n : Nat) : ∀ {s : Session},
    Tracks source p m₀ s → s.isCompleted = false → PausesAfter n s s' report →
      ∃ k v, (∀ fuel, (s.firsts fuel)[n]? = if k < fuel then some v else none)
        ∧ s'.job.machine = v.machine ∧ v.machine.due? = some v.index
        ∧ Report.build? source p v.machine .breakpoint s'.elapsed = some report := by
  induction n with
  | zero =>
    rintro s h hopen ⟨s₁, fuel, hcontinues, hcall, hcode⟩
    cases hcontinues
    obtain ⟨h', -, hreport, k, v, hmeets, hmachine, hmarks⟩ := h.pause hp hopen hcall hcode
    refine ⟨k, v, ?_, hmachine, hmeets.due, hmachine ▸ hreport⟩
    intro fuel
    by_cases hlt : k < fuel
    · rw [if_pos hlt, h.firsts_of_lt h' hmeets hmachine hmarks hlt]
      rfl
    · rw [if_neg hlt, h.firsts_eq_nil hmeets (Nat.not_lt.1 hlt)]
      rfl
  | succ n ih =>
    rintro s h hopen ⟨s₂, fuel, hcontinues, hlast⟩
    cases hcontinues with
    | @more _ fuel₁ _ s₁ _ earlier hcall hrest =>
      have hafter : PausesAfter n s₁ s' report := ⟨s₂, fuel, hrest, hlast⟩
      -- the first call paused, or there would be no pause after it
      have hcode : earlier.exitCode = .breakpoint := by
        refine Decidable.byContradiction fun hne => ?_
        obtain ⟨code, r, -, rfl, hreport⟩ := resume?_eq_some hopen hcall
        obtain rfl : code = earlier.exitCode := Option.some.inj (exitCode_of_withReport? hreport)
        exact not_pausesAfter_of_isCompleted (isCompleted_settle hne r {}) hafter
      obtain ⟨h₁, hopen₁, -, k, v, hmeets, hmachine, hmarks⟩ := h.pause hp hopen hcall hcode
      obtain ⟨k', v', hvisit, hrest⟩ := ih h₁ hopen₁ hafter
      refine ⟨k + k', v', ?_, hrest⟩
      intro fuel
      by_cases hlt : k < fuel
      · rw [h.firsts_of_lt h₁ hmeets hmachine hmarks hlt, List.getElem?_cons_succ, hvisit]
        congr 1
        rw [eq_iff_iff]
        omega
      · rw [h.firsts_eq_nil hmeets (Nat.not_lt.1 hlt), if_neg (by omega)]
        rfl

/-- Where there is a first visit, the run reaches a marked operator. -/
theorem Tracks.exists_meets (h : Tracks source p m₀ s) (hvisit : s.firsts fuel ≠ []) :
    ∃ k v, Meets p s.marks k ⟨s.job.machine, none, 0⟩ v := by
  refine Classical.byContradiction fun hnone => ?_
  refine hvisit (firstVisits_eq_nil fun w hw hmark => hnone ?_)
  rw [h.program] at hw
  obtain ⟨k, v, -, hmeets⟩ := TapeMachine.exists_meets fuel rfl ⟨w, hw, hmark⟩
  exact ⟨k, v, hmeets⟩

/-- **Where there is such a visit, there is such a pause.** -/
theorem Tracks.exists_pausesAfter (hp : p.Balanced) (n : Nat) : ∀ {s : Session} {fuel : Nat},
    Tracks source p m₀ s → s.isCompleted = false → n < (s.firsts fuel).length →
      ∃ s' report, PausesAfter n s s' report := by
  induction n with
  | zero =>
    intro s fuel h hopen hlt
    obtain ⟨k, v, hmeets⟩ := h.exists_meets (List.ne_nil_of_length_pos hlt)
    obtain ⟨fuel₁, s₁, earlier, hcall, hcode⟩ := h.exists_pause hp hopen hmeets
    exact ⟨s₁, earlier, s, fuel₁, .none s, hcall, hcode⟩
  | succ n ih =>
    intro s fuel h hopen hlt
    obtain ⟨k, v, hmeets⟩ := h.exists_meets (List.ne_nil_of_length_pos (Nat.zero_lt_of_lt hlt))
    obtain ⟨fuel₁, s₁, earlier, hcall, hcode⟩ := h.exists_pause hp hopen hmeets
    obtain ⟨h₁, hopen₁, -, k, v, hmeets, hmachine, hmarks⟩ := h.pause hp hopen hcall hcode
    -- the other visits are made after that pause
    have hafter : k < fuel := by
      refine Nat.lt_of_not_le fun hle => ?_
      rw [h.firsts_eq_nil hmeets hle] at hlt
      cases hlt
    rw [h.firsts_of_lt h₁ hmeets hmachine hmarks hafter, List.length_cons] at hlt
    obtain ⟨s', report, hpauses⟩ := ih h₁ hopen₁ (Nat.lt_of_succ_lt_succ hlt)
    exact ⟨s', report, hpauses.succ hcall⟩

/-- Those of a fresh session are made from the start of the script. -/
theorem firsts_of_create {config : Config} {input : String} {breakpoints : List Nat}
    (hprogram : Program.compile .plain source = .ok p)
    (h : create config source breakpoints input = .ok s) (fuel : Nat) :
    firstVisits s.marks (Run.visits p .stepwise fuel ⟨.load p
      (.blank config.tapeSize config.mode) input config.outputLimit, none, 0⟩) = s.firsts fuel := by
  unfold firsts
  rw [job_of_create hprogram h]

/-- **Pauses are exactly the first visits.**  Take a fresh session with any
breakpoints inside the script, and beside it the run of the script that takes
each operator by itself and meets no breakpoint.  After `n` calls of
`continue?` the next one pauses if and only if that run visits more than `n`
marked operators.  It then stands at the one that comes after `n` others in
the order of their first visits, with the machine as that run had it when it
was about to carry the operator out for the first time, and reports on that
machine. -/
theorem pauses_are_first_visits (config : Config) (source input : String) (breakpoints : List Nat)
    (hsource : (Script.validate source).isSuccess) (hconfig : Tape.AllowedSize config.tapeSize)
    (hbreakpoints : ∀ offset ∈ breakpoints, offset < source.length) :
    ∃ p s, Program.compile .plain source = .ok p ∧ create config source breakpoints input = .ok s
      ∧ ∀ n,
        ((∃ s' report, PausesAfter n s s' report) ↔
          ∃ fuel, n < (firstVisits s.marks (Run.visits p .stepwise fuel ⟨.load p
            (.blank config.tapeSize config.mode) input config.outputLimit, none, 0⟩)).length)
        ∧ ∀ s' report fuel v, PausesAfter n s s' report →
          (firstVisits s.marks (Run.visits p .stepwise fuel ⟨.load p
            (.blank config.tapeSize config.mode) input config.outputLimit, none, 0⟩))[n]? = some v →
          s'.job.machine = v.machine ∧ v.machine.due? = some v.index
            ∧ report.halting.map (·.offset) = p.offsets[v.index]?
            ∧ Report.build? source p v.machine .breakpoint {} = some report.untimed := by
  obtain ⟨b, ⟨hitems, -⟩, hb⟩ := Script.validate_isSuccess_iff.1 hsource
  have hprogram := Program.compile_of_isSuccess hsource .plain
  have hp := Program.balanced_plain hitems hb (Script.validate source).count
  obtain ⟨s, hs, hopen, htracks⟩ := exists_create hprogram hconfig hbreakpoints input
  refine ⟨_, s, hprogram, hs, fun n => ?_⟩
  simp only [firsts_of_create hprogram hs]
  refine ⟨⟨?_, ?_⟩, ?_⟩
  · rintro ⟨s', report, hpauses⟩
    obtain ⟨k, v, hvisit, -⟩ := htracks.visit_of_pause hp n hopen hpauses
    have hv : (s.firsts (k + 1))[n]? = some v := by rw [hvisit, if_pos (Nat.lt_succ_self k)]
    exact ⟨k + 1, (List.getElem?_eq_some_iff.1 hv).1⟩
  · rintro ⟨fuel, hlt⟩
    exact htracks.exists_pausesAfter hp n hopen hlt
  · intro s' report fuel v hpauses hv
    obtain ⟨k, v', hvisit, hmachine, hdue, hreport⟩ := htracks.visit_of_pause hp n hopen hpauses
    obtain rfl : v' = v := by
      rw [hvisit] at hv
      split at hv
      · exact Option.some.inj hv
      · cases hv
    refine ⟨hmachine, hdue, ?_, ?_⟩
    · -- the report gives the offset of the operator that is due
      obtain ⟨frame, callers, hf, -, hi⟩ := Machine.frame_of_due? hdue
      obtain ⟨trace, op, offset, -, -, hoffset, hhalting⟩ :=
        Report.halting?_eq_some hf rfl (Report.parts_of_build? hreport).2.1
      rw [hhalting, ← hi, hoffset]
      rfl
    · rw [← Report.build?_untimed source _ v'.machine .breakpoint s'.elapsed, hreport]
      rfl

/-- Marks inside a loop and inside `[-]`, placed in the other order: the second
pause is in `[-]`. -/
theorem pauses_are_first_visits_reset :
    ∃ s s' report, create { tapeSize := 32 } "++[>+<-]>[-]" [10, 3] "" = .ok s
      ∧ PausesAfter 1 s s' report ∧ s'.job.machine.due? = some 10 := by
  have hvisits : ((Program.compile .plain "++[>+<-]>[-]").toOption.bind fun p =>
      (create { tapeSize := 32 } "++[>+<-]>[-]" [10, 3] "").toOption.map fun s =>
        (firstVisits s.marks (Run.visits p .stepwise 60 ⟨.load p (.blank 32 default) ""
          Output.standardLimit, none, 0⟩)).map (·.index)) = some [3, 10] := by decide +kernel
  obtain ⟨p, s, hp, hs, hpauses⟩ := pauses_are_first_visits { tapeSize := 32 } "++[>+<-]>[-]" ""
    [10, 3] (by decide) (by decide) (by decide)
  rw [hp, hs] at hvisits
  have hindices := Option.some.inj hvisits
  obtain ⟨hiff, hat⟩ := hpauses 1
  have hlength := congrArg List.length hindices
  rw [List.length_map] at hlength
  obtain ⟨s', report, hpause⟩ := hiff.2 ⟨60, by rw [hlength]; decide⟩
  have hsecond := congrArg (·[1]?) hindices
  dsimp only at hsecond
  rw [List.getElem?_map] at hsecond
  obtain ⟨v, hv, hindex⟩ := Option.map_eq_some_iff.1 hsecond
  obtain ⟨hmachine, hdue, -⟩ := hat s' report 60 v hpause hv
  exact ⟨s, s', report, hs, hpause, by rw [hmachine, hdue, hindex]⟩

end Session

end TapeMachine
