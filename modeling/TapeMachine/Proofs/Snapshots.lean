/-
  TapeMachine.Proofs.Snapshots
  ────────────────────────────
  **SAVED TAPES.**

  The bytes of a tape are numerals in a row: how many cells there are, the
  cells, the pointer, and the index of the mode (`Tape.Spells`).  Reading
  accepts such bytes for any tape, well-formed or not; loading accepts only
  the well-formed ones, and every well-formed tape fits the format
  (`WellFormed.fits`), so it can be saved and is loaded again.
-/
import TapeMachine.Proofs.Format
import TapeMachine.Proofs.Tape
import TapeMachine.Tape.Snapshot

namespace TapeMachine.Tape

open Wire

/-! ## §1. The bytes of a tape. -/

/-- The bytes are this tape. -/
def Spells (t : Tape) (bytes : Bytes) : Prop :=
  ∃ (count : Bytes) (cells : List (Nat × Bytes)) (pointer : Bytes) (index : Nat) (mode : Bytes),
    bytes = count ++ cells.flatMap (·.2) ++ (pointer ++ mode)
      ∧ Width.long.Spells t.size count
      ∧ t.cells.toList = cells.map (·.1) ∧ (∀ cell ∈ cells, Width.short.Spells cell.1 cell.2)
      ∧ Width.long.Spells t.pointer pointer
      ∧ CellMode.all[index]? = some t.mode ∧ Width.word.Spells index mode

/-- **A tape is read from its bytes and written as them.** -/
theorem follows_codec : Tape.codec.Follows Spells := by
  have hcells := (Codec.follows_number Width.exact_short).array
  have hpointer := Codec.follows_number Width.exact_long
  have hmode := Codec.follows_choice CellMode.all
  refine ((hcells.pair (hpointer.pair hmode)).iso _ _).congr ?_
  intro t bytes
  constructor
  · intro ⟨⟨cells, pointer, mode⟩, hmake, x, y, hbytes, hcells, z, w, hy, hpointer, hmode⟩
    obtain ⟨count, items, hx, hcount, hitems, hall⟩ := hcells
    obtain ⟨index, hindex, hw⟩ := hmode
    cases hmake
    refine ⟨count, items, z, index, w, ?_, hcount, hitems, hall, hpointer, hindex, hw⟩
    rw [hbytes, hx, hy]
  · intro ⟨count, items, z, index, w, hbytes, hcount, hitems, hall, hpointer, hindex, hw⟩
    exact ⟨(t.cells, t.pointer, t.mode), rfl, _, _, hbytes,
      ⟨count, items, rfl, hcount, hitems, hall⟩, z, w, rfl, hpointer, index, hindex, hw⟩

/-- **A well-formed tape fits the format.** -/
theorem WellFormed.fits {t : Tape} (h : t.WellFormed) : Tape.codec.Fits t := by
  have hsize : t.size ≤ 1024 := h.size_allowed.2
  have hlong : (1024 : Nat) < Nat.pow 2 64 := by decide
  have hmax : t.mode.max < Nat.pow 2 16 := by cases t.mode <;> decide
  have hmode : Codec.Fits CellMode.codec t.mode :=
    Codec.fits_choice (by cases t.mode <;> decide) (by decide)
  have hcount : t.cells.toList.length < Nat.pow 2 64 := by
    rw [Array.length_toList]
    exact Nat.lt_of_le_of_lt hsize hlong
  have hcells : ∀ c ∈ t.cells.toList, c < Nat.pow 2 16 := by
    intro c hc
    exact Nat.lt_of_le_of_lt (h.cell_le c (Array.mem_toList_iff.1 hc)) hmax
  have hpointer : t.pointer < Nat.pow 2 64 :=
    Nat.lt_trans (Nat.lt_of_lt_of_le h.pointer_lt hsize) hlong
  exact ⟨⟨⟨⟨hcount, hcells⟩, rfl⟩, hpointer, hmode⟩, rfl⟩

/-! ## §2. What is loaded. -/

/-- The checks made on a tape that was read are those of a well-formed one. -/
theorem wellFormed_iff {t : Tape} : t.WellFormed ↔ AllowedSize t.size ∧ t.isSound = true := by
  unfold isSound
  rw [Bool.and_eq_true, decide_eq_true_iff, Array.all_eq_true_iff_forall_mem]
  constructor
  · intro h
    refine ⟨h.size_allowed, h.pointer_lt, ?_⟩
    intro c hc
    exact decide_eq_true (h.cell_le c hc)
  · intro ⟨hsize, hpointer, hcells⟩
    refine ⟨hsize, hpointer, ?_⟩
    intro c hc
    exact of_decide_eq_true (hcells c hc)

/-- A tape that was read is loaded if it is well-formed; else the size is
found wrong before anything else is. -/
theorem load_of_read {bytes : Bytes} {t : Tape} (h : Tape.codec.read bytes = .ok t) :
    load bytes = if AllowedSize t.size then
        if t.isSound then .ok t else .error (.snapshot .badEncoding)
      else .error (.tapeSize t.size) := by
  unfold load
  rw [h]
  by_cases hsize : AllowedSize t.size
  · simp [hsize]
  · simp [hsize]

/-- What is loaded was read, and is well-formed. -/
theorem read_of_load {bytes : Bytes} {t : Tape} (h : load bytes = .ok t) :
    Tape.codec.read bytes = .ok t ∧ t.WellFormed := by
  cases hread : Tape.codec.read bytes with
  | error cause =>
    unfold load at h
    rw [hread] at h
    cases h
  | ok t' =>
    rw [load_of_read hread] at h
    split at h
    · next hsize =>
      split at h
      · next hsound =>
        cases h
        exact ⟨rfl, wellFormed_iff.2 ⟨hsize, hsound⟩⟩
      · cases h
    · cases h

/-- **A tape that was saved is loaded**, whatever comes behind it. -/
theorem WellFormed.load_save {t : Tape} (h : t.WellFormed) (rest : Bytes) :
    load (t.save ++ rest) = .ok t := by
  have hread : Tape.codec.read (t.save ++ rest) = .ok t := follows_codec.read_encode h.fits rest
  obtain ⟨hsize, hsound⟩ := wellFormed_iff.1 h
  rw [load_of_read hread, if_pos hsize, if_pos hsound]

/-! ## §3. The result. -/

/-- **Saved tapes are loaded again, and nothing else is.**  Bytes
are read as a tape if and only if they begin with the numerals of one.  A
well-formed tape that was saved is loaded, whatever bytes come behind it.
What is loaded is well-formed, and saving and loading it gives it back.  Bytes
of a tape that is not well-formed are refused: for the number of cells, if
that is not allowed, and else as badly encoded. -/
theorem snapshots_round_trip :
    (∀ (bytes : Bytes) (t : Tape), Tape.codec.read bytes = .ok t ↔
        ∃ front rest, bytes = front ++ rest ∧ t.Spells front)
      ∧ (∀ (t : Tape) (rest : Bytes), t.WellFormed → load (t.save ++ rest) = .ok t)
      ∧ (∀ (bytes : Bytes) (t : Tape), load bytes = .ok t →
          t.WellFormed ∧ load t.save = .ok t)
      ∧ ∀ (bytes : Bytes) (t : Tape), Tape.codec.read bytes = .ok t → ¬ t.WellFormed →
          load bytes = .error (if AllowedSize t.size then .snapshot .badEncoding
            else .tapeSize t.size) := by
  refine ⟨fun bytes t => follows_codec.read_iff, fun t rest h => h.load_save rest, ?_, ?_⟩
  · intro bytes t h
    have hformed := (read_of_load h).2
    refine ⟨hformed, ?_⟩
    have hload := hformed.load_save []
    rw [List.append_nil] at hload
    exact hload
  · intro bytes t hread hformed
    rw [load_of_read hread]
    by_cases hsize : AllowedSize t.size
    · have hsound : ¬ t.isSound = true := fun hsound => hformed (wellFormed_iff.2 ⟨hsize, hsound⟩)
      rw [if_pos hsize, if_neg hsound, if_pos hsize]
    · rw [if_neg hsize, if_neg hsize]

/-- Numerals longer than needed and a byte behind them; and the same tape with
its pointer behind the last cell. -/
theorem snapshots_round_trip_padded :
    ∃ t : Tape, load ([0xa0, 0x00, 0x85, 0x80, 0x00] ++ List.replicate 31 0 ++ [31, 1, 0xff]) = .ok t
      ∧ t.WellFormed ∧ t.current = 0 ∧ load t.save = .ok t
      ∧ load ([0xa0, 0x00, 0x85, 0x80, 0x00] ++ List.replicate 31 0 ++ [32, 1, 0xff])
        = .error (.snapshot .badEncoding) := by
  obtain ⟨-, -, hload, hread⟩ := snapshots_round_trip
  have hgood : Tape.codec.read
      ([0xa0, 0x00, 0x85, 0x80, 0x00] ++ List.replicate 31 0 ++ [31, 1, 0xff])
      = .ok ⟨(5 :: List.replicate 31 0).toArray, 31, .byteChecked⟩ := by rfl
  replace hgood := load_of_read hgood
  rw [if_pos (by decide), if_pos (by decide +kernel)] at hgood
  have hbad : Tape.codec.read
      ([0xa0, 0x00, 0x85, 0x80, 0x00] ++ List.replicate 31 0 ++ [32, 1, 0xff])
      = .ok ⟨(5 :: List.replicate 31 0).toArray, 32, .byteChecked⟩ := by rfl
  obtain ⟨hformed, hagain⟩ := hload _ _ hgood
  refine ⟨_, hgood, hformed, rfl, hagain, ?_⟩
  have hrefused := hread _ _ hbad (fun h => absurd h.pointer_lt (by decide))
  rw [if_pos (by decide)] at hrefused
  exact hrefused

end TapeMachine.Tape
