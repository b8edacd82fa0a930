/-
  TapeMachine.Proofs.Room
  ───────────────────────
  **MORE ROOM.**

  A longer tape, more room for output and more input to come: a script sees
  none of it before it has used up what it had.  The cells that are added are
  never reached by a run that stays on the shorter tape, so they are zero in
  the end (`Tape.extend`), and so on.

  Hence a run that did not run out of anything is the same with more of
  everything (`more_room_runs_alike`).
-/
import TapeMachine.Proofs.Lockstep

namespace TapeMachine

/-! ## §1. A longer tape. -/

/-- The tape with `k` zero cells more at its end. -/
def Tape.extend (t : Tape) (k : Nat) : Tape := { t with cells := t.cells ++ Array.replicate k 0 }

/-- The report with a longer tape and a longer input. -/
def Report.extend (report : Report) (k : Nat) (more : String) : Report :=
  { report with tape := report.tape.extend k, input := report.input ++ more }

namespace Tape

@[simp] theorem extend_mode (t : Tape) (k : Nat) : (t.extend k).mode = t.mode := rfl

@[simp] theorem extend_pointer (t : Tape) (k : Nat) : (t.extend k).pointer = t.pointer := rfl

@[simp] theorem extend_size (t : Tape) (k : Nat) : (t.extend k).size = t.size + k := by
  unfold extend size
  rw [Array.size_append, Array.size_replicate]

theorem blank_extend (size k : Nat) (mode : CellMode) :
    (blank size mode).extend k = blank (size + k) mode := by
  unfold blank extend
  rw [Array.replicate_append_replicate]

namespace WellFormed

variable {t : Tape} (h : t.WellFormed) (k : Nat)
include h

/-- The pointer is on a cell of the shorter tape. -/
theorem extend_current : (t.extend k).current = t.current := by
  have hlt : t.pointer < t.cells.size := h.pointer_lt
  show (t.cells ++ Array.replicate k 0).getD t.pointer 0 = t.cells.getD t.pointer 0
  rw [Array.getD_eq_getD_getElem?, Array.getD_eq_getD_getElem?, Array.getElem?_append_left hlt]

theorem extend_write (v : Nat) : (t.extend k).write v = (t.write v).extend k := by
  have hlt : t.pointer < t.cells.size := h.pointer_lt
  unfold extend Tape.write
  rw [Array.setIfInBounds_append_left hlt]

/-- Adding does not depend on the length of the tape. -/
theorem extend_increase (n : Nat) :
    (t.extend k).increase n = ⟨(t.increase n).tape.extend k, (t.increase n).made⟩ := by
  unfold increase
  simp only [extend_mode, h.extend_current, h.extend_write]
  split <;> rfl

/-- Nor does taking away. -/
theorem extend_decrease (n : Nat) :
    (t.extend k).decrease n = ⟨(t.decrease n).tape.extend k, (t.decrease n).made⟩ := by
  unfold decrease
  simp only [extend_mode, h.extend_current, h.extend_write]
  split <;> rfl

/-- Nor does storing a character. -/
theorem extend_store? (c : Char) : (t.extend k).store? c = (t.store? c).map (·.extend k) := by
  unfold Tape.store?
  simp only [extend_mode, h.extend_write]
  split
  · rfl
  · split <;> rfl

end WellFormed

/-- Going to the right, the shorter tape ends or both tapes go as far. -/
theorem extend_forward (t : Tape) (k n : Nat) :
    (t.forward n).made < n
      ∨ (t.extend k).forward n = ⟨(t.forward n).tape.extend k, (t.forward n).made⟩ := by
  unfold forward
  simp only [extend_size, extend_pointer]
  by_cases hroom : n ≤ t.size - 1 - t.pointer
  · right
    rw [Nat.min_eq_left hroom, Nat.min_eq_left (show n ≤ t.size + k - 1 - t.pointer by omega)]
    rfl
  · left
    omega

/-- A well-formed tape and one that is longer by `k` cells. -/
structure Lengthens (k : Nat) (t t' : Tape) : Prop where
  wellFormed : t.WellFormed
  extend : t' = t.extend k

end Tape

/-! ## §2. More input and more room for output. -/

/-- The second input goes on with `more` where the first one ends. -/
structure Input.Lengthens (more : String) (i i' : Input) : Prop where
  text : i'.text = i.text ++ more
  unread : i'.unread = i.unread ++ more.toList

/-- The same characters were written, and the second output has at least as
much room. -/
structure Output.Lengthens (o o' : Output) : Prop where
  written : o'.written = o.written
  room : o.room ≤ o'.room

theorem Input.Lengthens.read? {more : String} {i i' j : Input} {c : Char}
    (h : i.Lengthens more i') (hread : i.read? = some (c, j)) :
    ∃ j', i'.read? = some (c, j') ∧ j.Lengthens more j' := by
  obtain ⟨text, unread⟩ := i
  obtain ⟨text', unread'⟩ := i'
  obtain ⟨htext, hunread⟩ := h
  dsimp only at htext hunread
  subst htext hunread
  cases unread with
  | nil => cases hread
  | cons d rest =>
    cases hread
    exact ⟨⟨text ++ more, rest ++ more.toList⟩, rfl, rfl, rfl⟩

theorem Output.Lengthens.write? {o o' w : Output} {v : Nat} (h : o.Lengthens o')
    (hwrite : o.write? v = some w) : ∃ w', o'.write? v = some w' ∧ w.Lengthens w' := by
  obtain ⟨written, room⟩ := o
  obtain ⟨written', room'⟩ := o'
  obtain ⟨hwritten, hroom⟩ := h
  dsimp only at hwritten hroom
  subst hwritten
  cases room with
  | zero => cases hwrite
  | succ room =>
    cases room' with
    | zero => omega
    | succ room' =>
      cases hwrite
      refine ⟨⟨Output.glyph v :: written', room'⟩, rfl, rfl, ?_⟩
      show room ≤ room'
      omega

/-! ## §3. Runs side by side. -/

/-- A tape longer by `k` cells, an input that goes on with `more`, and an output
with as much room or more. -/
def Likeness.lengthening (k : Nat) (more : String) : Likeness where
  tape := Tape.Lengthens k
  input := Input.Lengthens more
  output := Output.Lengthens

/-- The faults of a run that ran out of something. -/
def ExitCode.RanOut (code : ExitCode) : Prop :=
  code = .pastEnd ∨ code = .outputFull ∨ code = .inputExhausted

/-- **Only a machine that runs out of something can part from the other.** -/
theorem Likeness.steady_lengthening (k : Nat) (more : String) :
    (lengthening k more).Steady ExitCode.RanOut where
  current := by
    intro t t' h
    rw [h.extend, h.wellFormed.extend_current]
  stride := by
    intro t t' o f fault n h hs
    have hwell := (Tape.stepwise_of_stride? hs).wellFormed n h.wellFormed
    have hextend := h.extend
    subst hextend
    cases o <;> cases hs
    · rcases t.extend_forward k n with hshort | hboth
      · exact .inl ⟨hshort, .inl rfl⟩
      · rw [hboth]
        exact .inr ⟨rfl, hwell, rfl⟩
    · exact .inr ⟨rfl, hwell, rfl⟩
    · rw [h.wellFormed.extend_increase]
      exact .inr ⟨rfl, hwell, rfl⟩
    · rw [h.wellFormed.extend_decrease]
      exact .inr ⟨rfl, hwell, rfl⟩
  clear := by
    intro t t' h
    refine ⟨h.wellFormed.clear, ?_⟩
    rw [h.extend]
    exact h.wellFormed.extend_write k 0
  store := by
    intro t t' u c h hu
    refine ⟨u.extend k, ?_, h.wellFormed.store? hu, rfl⟩
    rw [h.extend, h.wellFormed.extend_store?, hu]
    rfl
  refuse := by
    intro t t' c h hnone
    right
    rw [h.extend, h.wellFormed.extend_store?, hnone]
    rfl
  read := by
    intro i i' j c h hread
    exact h.read? hread
  dry := by
    intro i i' _ _
    exact .inl (.inr (.inr rfl))
  write := by
    intro o o' w v h hwrite
    exact h.write? hwrite
  full := by
    intro o o' v _ _
    exact .inl (.inr (.inl rfl))

/-! ## §4. The result. -/

/-- **More room changes nothing.**  A run that did not run off the end of its
tape, out of room for output or out of input is the same on a longer tape, with
a higher limit and with more input, whatever the budget: it takes as many steps,
and the reports differ in the zero cells at the end of the tape and in the text
of the input only. -/
theorem more_room_runs_alike (config : Config) (size limit : Nat) (source input more : String)
    (budget : Budget) (fuel : Nat) (report : Report) (hsize : config.tapeSize ≤ size)
    (hmax : size ≤ maxTapeSize) (hlimit : config.outputLimit ≤ limit)
    (hrun : run config source input budget fuel = .ok (some report))
    (htape : report.exitCode ≠ .pastEnd) (houtput : report.exitCode ≠ .outputFull)
    (hinput : report.exitCode ≠ .inputExhausted) :
    run { config with tapeSize := size, outputLimit := limit } source (input ++ more) budget fuel
      = .ok (some (report.extend (size - config.tapeSize) more)) := by
  obtain ⟨hallowed, p, hp, hjob⟩ := job_of_run hrun
  obtain ⟨k, rfl⟩ : ∃ k, size = config.tapeSize + k := ⟨size - config.tapeSize, by omega⟩
  rw [Nat.add_sub_cancel_left]
  have hallowed' : Tape.AllowedSize (config.tapeSize + k) :=
    ⟨Nat.le_trans hallowed.1 hsize, hmax⟩
  have hblank : (Tape.blank config.tapeSize config.mode).Lengthens k
      (.blank (config.tapeSize + k) config.mode) :=
    ⟨Tape.wellFormed_blank config.mode hallowed, (Tape.blank_extend _ _ _).symm⟩
  have htext : (Input.ofText input).Lengthens more (.ofText (input ++ more)) :=
    ⟨rfl, String.toList_append⟩
  have hload : (Machine.load p (.blank config.tapeSize config.mode) input
      config.outputLimit).Resembles (.lengthening k more)
        (.load p (.blank (config.tapeSize + k) config.mode) (input ++ more) limit) :=
    ⟨hblank, htext, ⟨rfl, hlimit⟩, rfl, rfl, rfl⟩
  have hcode : ¬report.exitCode.RanOut := by
    intro hfault
    rcases hfault with hfault | hfault | hfault
    · exact htape hfault
    · exact houtput hfault
    · exact hinput hfault
  obtain ⟨m, m', hm, htape', hinput', houtput', hjob'⟩ :=
    (Likeness.steady_lengthening k more).report hload hjob hcode
  have hwritten : m'.output.text = m.output.text := by
    unfold Output.text
    rw [hm.output.written]
  rw [run_eq hp (show Tape.AllowedSize ({ config with
    tapeSize := config.tapeSize + k, outputLimit := limit } : Config).tapeSize from hallowed')]
  show Except.ok ((⟨source, p, .load p (.blank (config.tapeSize + k) config.mode) (input ++ more)
    limit⟩ : Job).run? budget fuel) = _
  rw [hjob', hm.tape.extend, hm.input.text, hwritten, ← htape', ← hinput', ← houtput']
  rfl

/-- A script that has read all its input and written all it had room for, up to
a fault: with more of everything it is the same. -/
theorem more_room_runs_alike_to_fault :
    ∃ report, run { tapeSize := 32, outputLimit := 1 } ",+.<" "a" Budget.unlimited 20
        = .ok (some report)
      ∧ report.exitCode = .beforeStart ∧ report.output = "b"
      ∧ run { tapeSize := 40, outputLimit := 7 } ",+.<" ("a" ++ "xyz") Budget.unlimited 20
        = .ok (some (report.extend 8 "xyz")) := by
  have hrun : (run { tapeSize := 32, outputLimit := 1 } ",+.<" "a" Budget.unlimited
      20).toOption.join.map (fun report => (report.exitCode, report.output))
      = some (.beforeStart, "b") := by
    decide +kernel
  obtain ⟨report, hreport, heq⟩ := exists_report hrun
  obtain ⟨hcode, houtput⟩ : report.exitCode = .beforeStart ∧ report.output = "b" := by
    simpa using heq
  refine ⟨report, hreport, hcode, houtput, ?_⟩
  exact more_room_runs_alike _ 40 7 _ _ "xyz" _ _ report (by decide) (by decide) (by decide)
    hreport (by rw [hcode]; decide) (by rw [hcode]; decide) (by rw [hcode]; decide)

end TapeMachine
