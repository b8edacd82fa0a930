/-
  TapeMachine.Proofs.Widening
  ───────────────────────────
  **WIDER CELLS.**

  A checked cell refuses to leave its range.  As long as it need not refuse,
  a cell of any mode with at least that range holds the same values: what is
  added stays below the maximum and what is taken away is there, so nothing
  wraps around (`Tape.increase_of_le`, `Tape.decrease_of_le`).

  Hence a run in a checked mode that does not end in one of the two faults of
  a cell is the same in every mode at least as wide (`wider_cells_run_alike`).
-/
import TapeMachine.Proofs.Lockstep

namespace TapeMachine

/-! ## §1. Cells of another mode. -/

/-- The same cells and pointer, in another mode. -/
def Tape.recast (t : Tape) (mode : CellMode) : Tape := { t with mode }

/-- The report with its tape in another mode. -/
def Report.recast (report : Report) (mode : CellMode) : Report :=
  { report with tape := report.tape.recast mode }

namespace Tape

@[simp] theorem recast_current (t : Tape) (mode : CellMode) :
    (t.recast mode).current = t.current := rfl

/-- What can be added without leaving the range is added, in every mode. -/
theorem increase_of_le {t : Tape} {n : Nat} (h : t.current + n ≤ t.mode.max) :
    t.increase n = ⟨t.write (t.current + n), n⟩ := by
  unfold increase
  dsimp only
  by_cases hwraps : t.mode.wraps
  · rw [if_pos hwraps, Nat.mod_eq_of_lt]
    exact Nat.lt_succ_of_le h
  · rw [if_neg hwraps, Nat.min_eq_left (by omega)]

/-- What is there is taken away, in every mode. -/
theorem decrease_of_le {t : Tape} {n : Nat} (hmax : t.current ≤ t.mode.max) (h : n ≤ t.current) :
    t.decrease n = ⟨t.write (t.current - n), n⟩ := by
  unfold decrease
  dsimp only
  by_cases hwraps : t.mode.wraps
  · have hmodulus : t.mode.modulus = t.mode.max + 1 := rfl
    have hsum : t.current + t.mode.modulus - n = t.current - n + t.mode.modulus := by omega
    rw [if_pos hwraps, Nat.mod_eq_of_lt (show n < t.mode.modulus by omega), hsum,
      Nat.add_mod_right, Nat.mod_eq_of_lt (by omega)]
  · rw [if_neg hwraps, Nat.min_eq_left h]

/-- A checked tape, and the same tape in a mode at least as wide. -/
structure Widens (mode : CellMode) (t t' : Tape) : Prop where
  wellFormed : t.WellFormed
  checked : t.mode.wraps = false
  max_le : t.mode.max ≤ mode.max
  recast : t' = t.recast mode

namespace Widens

variable {mode : CellMode} {t t' : Tape}

theorem current_eq (h : t.Widens mode t') : t'.current = t.current := by
  rw [h.recast, recast_current]

/-- What fits in the narrower one fits in both. -/
theorem le_max (h : t.Widens mode t') {v : Nat} (hv : v ≤ t.mode.max) : v ≤ t'.mode.max := by
  rw [h.recast]
  exact Nat.le_trans hv h.max_le

/-- Both take a value that fits in the narrower one. -/
theorem write (h : t.Widens mode t') {v : Nat} (hv : v ≤ t.mode.max) :
    (t.write v).Widens mode (t'.write v) where
  wellFormed := h.wellFormed.write hv
  checked := h.checked
  max_le := h.max_le
  recast := by
    rw [h.recast]
    rfl

/-- **Adding**: the narrower one refuses, or both add the same. -/
theorem increase (h : t.Widens mode t') (n : Nat) :
    (t.increase n).made < n
      ∨ ((t'.increase n).made = (t.increase n).made
        ∧ (t.increase n).tape.Widens mode (t'.increase n).tape) := by
  have hle := h.wellFormed.current_le
  by_cases hroom : t.current + n ≤ t.mode.max
  · right
    have hroom' : t'.current + n ≤ t'.mode.max := by
      rw [h.current_eq]
      exact h.le_max hroom
    rw [increase_of_le hroom, increase_of_le hroom', h.current_eq]
    exact ⟨rfl, h.write hroom⟩
  · left
    unfold Tape.increase
    simp only [h.checked, Bool.false_eq_true, if_false]
    omega

/-- **Taking away**: the narrower one refuses, or both take away the same. -/
theorem decrease (h : t.Widens mode t') (n : Nat) :
    (t.decrease n).made < n
      ∨ ((t'.decrease n).made = (t.decrease n).made
        ∧ (t.decrease n).tape.Widens mode (t'.decrease n).tape) := by
  have hle := h.wellFormed.current_le
  by_cases hthere : n ≤ t.current
  · right
    have hle' : t'.current ≤ t'.mode.max := by
      rw [h.current_eq]
      exact h.le_max hle
    have hthere' : n ≤ t'.current := by
      rw [h.current_eq]
      exact hthere
    rw [decrease_of_le hle hthere, decrease_of_le hle' hthere', h.current_eq]
    refine ⟨rfl, h.write ?_⟩
    omega
  · left
    unfold Tape.decrease
    simp only [h.checked, Bool.false_eq_true, if_false]
    omega

/-- A character that the narrower one takes is taken by both. -/
theorem store? (h : t.Widens mode t') {u : Tape} {c : Char} (hu : t.store? c = some u) :
    ∃ u', t'.store? c = some u' ∧ u.Widens mode u' := by
  by_cases hc : c.toNat ≤ t.mode.max
  · unfold Tape.store? at hu
    rw [if_pos hc] at hu
    cases hu
    exact ⟨t'.write c.toNat, if_pos (h.le_max hc), h.write hc⟩
  · unfold Tape.store? at hu
    rw [if_neg hc, h.checked] at hu
    cases hu

end Widens

end Tape

/-! ## §2. Runs side by side. -/

/-- Tapes in two modes, the same input and the same output. -/
def Likeness.widening (mode : CellMode) : Likeness where
  tape := Tape.Widens mode
  input := Eq
  output := Eq

/-- **The two faults of a cell are all that can part the machines.** -/
theorem Likeness.steady_widening (mode : CellMode) :
    (widening mode).Steady fun code => code = .aboveMaximum ∨ code = .belowZero where
  current := by
    intro t t' h
    exact h.current_eq
  stride := by
    intro t t' o f fault n h hs
    have hwell := (Tape.stepwise_of_stride? hs).wellFormed n h.wellFormed
    cases o <;> cases hs
    · -- neither direction depends on the mode
      obtain rfl := h.recast
      exact .inr ⟨rfl, hwell, h.checked, h.max_le, rfl⟩
    · obtain rfl := h.recast
      exact .inr ⟨rfl, hwell, h.checked, h.max_le, rfl⟩
    · rcases h.increase n with hshort | hboth
      · exact .inl ⟨hshort, .inl rfl⟩
      · exact .inr hboth
    · rcases h.decrease n with hshort | hboth
      · exact .inl ⟨hshort, .inr rfl⟩
      · exact .inr hboth
  clear := by
    intro t t' h
    exact h.write (Nat.zero_le _)
  store := by
    intro t t' u c h hu
    exact h.store? hu
  refuse := by
    intro t t' c _ _
    exact .inl (.inl rfl)
  read := by
    intro i i' j c h hread
    obtain rfl : i = i' := h
    exact ⟨j, hread, rfl⟩
  dry := by
    intro i i' h hread
    obtain rfl : i = i' := h
    exact .inr hread
  write := by
    intro o o' w v h hwrite
    obtain rfl : o = o' := h
    exact ⟨w, hwrite, rfl⟩
  full := by
    intro o o' v h hwrite
    obtain rfl : o = o' := h
    exact .inr hwrite

/-! ## §3. The result. -/

/-- **Wider cells change nothing.**  A run in a checked mode that ends with
neither fault of a cell is the same in every mode at least as wide, checked or
wrapping, whatever the budget: it takes as many steps, and the reports differ
in the mode of the tape only. -/
theorem wider_cells_run_alike (config : Config) (mode : CellMode) (source input : String)
    (budget : Budget) (fuel : Nat) (report : Report) (hchecked : config.mode.wraps = false)
    (hmax : config.mode.max ≤ mode.max)
    (hrun : run config source input budget fuel = .ok (some report))
    (habove : report.exitCode ≠ .aboveMaximum) (hbelow : report.exitCode ≠ .belowZero) :
    run { config with mode } source input budget fuel = .ok (some (report.recast mode)) := by
  obtain ⟨hsize, p, hp, hjob⟩ := job_of_run hrun
  have hblank : (Tape.blank config.tapeSize config.mode).Widens mode
      (.blank config.tapeSize mode) :=
    ⟨Tape.wellFormed_blank config.mode hsize, hchecked, hmax, rfl⟩
  have hload : (Machine.load p (.blank config.tapeSize config.mode) input
      config.outputLimit).Resembles (.widening mode)
        (.load p (.blank config.tapeSize mode) input config.outputLimit) :=
    ⟨hblank, rfl, rfl, rfl, rfl, rfl⟩
  have hcode : ¬(report.exitCode = .aboveMaximum ∨ report.exitCode = .belowZero) := by
    intro hfault
    rcases hfault with hfault | hfault
    · exact habove hfault
    · exact hbelow hfault
  obtain ⟨m, m', hm, htape, hinput, houtput, hjob'⟩ :=
    (Likeness.steady_widening mode).report hload hjob hcode
  have hinput' : m'.input = m.input := Eq.symm hm.input
  have houtput' : m'.output = m.output := Eq.symm hm.output
  rw [run_eq hp (show Tape.AllowedSize ({ config with mode } : Config).tapeSize from hsize)]
  show Except.ok ((⟨source, p, .load p (.blank config.tapeSize mode) input config.outputLimit⟩ :
    Job).run? budget fuel) = _
  rw [hjob', hm.tape.recast, hinput', houtput', ← htape, ← hinput, ← houtput]
  rfl

/-- Six is computed as three times two, and then the pointer leaves the tape:
with cells of sixteen bits that wrap around it is the same. -/
theorem wider_cells_run_alike_to_fault :
    ∃ report, run { tapeSize := 32, mode := .byteChecked } "+++[>++<-]<" "" Budget.unlimited 40
        = .ok (some report)
      ∧ report.exitCode = .beforeStart ∧ report.tape.cells.toList.take 2 = [0, 6]
      ∧ run { tapeSize := 32, mode := .wordWrapping } "+++[>++<-]<" "" Budget.unlimited 40
        = .ok (some (report.recast .wordWrapping)) := by
  have hrun : (run { tapeSize := 32, mode := .byteChecked } "+++[>++<-]<" "" Budget.unlimited
      40).toOption.join.map (fun report => (report.exitCode, report.tape.cells.toList.take 2))
      = some (.beforeStart, [0, 6]) := by
    decide +kernel
  obtain ⟨report, hreport, heq⟩ := exists_report hrun
  obtain ⟨hcode, hcells⟩ : report.exitCode = .beforeStart
      ∧ report.tape.cells.toList.take 2 = [0, 6] := by
    simpa using heq
  refine ⟨report, hreport, hcode, hcells, ?_⟩
  exact wider_cells_run_alike _ .wordWrapping _ _ _ _ report rfl (by decide) hreport
    (by rw [hcode]; decide) (by rw [hcode]; decide)

end TapeMachine
