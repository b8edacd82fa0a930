/-
  TapeMachine.Proofs.Placement
  ────────────────────────────
  **WHERE BREAKPOINTS ARE SET.**

  A breakpoint is given as an offset in the text and set on an operator.  The
  operator is found by halving the range of indices, which looks at a few
  offsets only; that those say enough about all the others rests on the order
  of the offsets.

    • `bisect_spec` — halving finds the place where a test stops to hold, if
      it stops once,
    • `lt_firstFrom_iff` — on offsets that rise, the operators before that
      place are those that stand before the breakpoint,
    • `placeBreakpoints_eq_error_iff`, `marks_of_placeBreakpoints` — the whole
      list: the first offset outside the script, or the operators marked.
-/
import TapeMachine.Proofs.Canonical

namespace TapeMachine

namespace Session

/-! ## §1. Halving a range. -/

/-- **Halving finds where a test stops to hold**: up to there it holds, and from
there on it does not. -/
theorem bisect_spec (before : Nat → Bool) (low high : Nat) (hle : low ≤ high)
    (hclosed : ∀ i j, i ≤ j → j < high → before j → before i) :
    (∀ i, low ≤ i → i < bisect before low high → before i)
      ∧ ∀ i, bisect before low high ≤ i → i < high → before i = false := by
  -- on the range that is left; each half keeps what is asked of the test
  fun_induction bisect before low high with
  | case1 low high hlt middle hbefore ih =>
    have hmiddle : middle < high := by
      show (low + high) / 2 < high
      omega
    obtain ⟨hholds, hfails⟩ := ih (by omega) hclosed
    refine ⟨?_, hfails⟩
    intro i hi hlt'
    by_cases him : i ≤ middle
    · exact hclosed i middle him hmiddle hbefore
    · exact hholds i (by omega) hlt'
  | case2 low high hlt middle hbefore ih =>
    have hmiddle : low ≤ middle ∧ middle < high := by
      show low ≤ (low + high) / 2 ∧ (low + high) / 2 < high
      omega
    obtain ⟨hholds, hfails⟩ := ih hmiddle.1 fun i j hij hj => hclosed i j hij (by omega)
    refine ⟨hholds, ?_⟩
    intro i hi hlt'
    by_cases him : i < middle
    · exact hfails i hi him
    · -- it stopped at the middle, and stays so
      apply Bool.eq_false_iff.2
      intro hi'
      exact hbefore (hclosed middle i (by omega) hlt' hi')
  | case3 low high hge =>
    -- nothing is left of the range
    constructor <;> intro i hi hlt' <;> omega

/-! ## §2. The first operator at or after an offset. -/

section Search

variable {p : Program}

/-- **The operators before the place that is found** are those whose offsets are
below. -/
theorem lt_firstFrom_iff (hsorted : p.offsets.toList.Pairwise (· < ·)) (o : Nat) {i offset : Nat}
    (hi : p.offsets[i]? = some offset) : i < firstFrom p o ↔ offset < o := by
  have hget : ∀ {j x : Nat}, p.offsets[j]? = some x → p.offsets.getD j 0 = x := by
    intro j x hj
    rw [Array.getD_eq_getD_getElem?, hj]
    rfl
  have hle : ∀ {j j' x x' : Nat}, p.offsets[j]? = some x → p.offsets[j']? = some x' → j ≤ j' →
      x ≤ x' := by
    intro j j' x x' hj hj' hjj'
    rw [← Array.getElem?_toList] at hj hj'
    obtain ⟨hlt, rfl⟩ := List.getElem?_eq_some_iff.1 hj
    obtain ⟨hlt', rfl⟩ := List.getElem?_eq_some_iff.1 hj'
    rcases Nat.lt_or_eq_of_le hjj' with hless | rfl
    · exact Nat.le_of_lt (List.pairwise_iff_getElem.1 hsorted j j' hlt hlt' hless)
    · exact Nat.le_refl _
  have hin : i < p.offsets.size := (Array.getElem?_eq_some_iff.1 hi).1
  obtain ⟨hholds, hfails⟩ := bisect_spec (fun i => p.offsets.getD i 0 < o) 0 p.offsets.size
    (Nat.zero_le _) (by
      intro j j' hjj' hj' hbefore
      have hsome : p.offsets[j']? = some p.offsets[j'] := Array.getElem?_eq_getElem hj'
      have hsome' : p.offsets[j]? = some p.offsets[j] :=
        Array.getElem?_eq_getElem (Nat.lt_of_le_of_lt hjj' hj')
      have horder := hle hsome' hsome hjj'
      simp only [hget hsome, hget hsome', decide_eq_true_eq] at hbefore ⊢
      omega)
  constructor
  · intro hlt
    have hbefore := hholds i (Nat.zero_le _) hlt
    rw [hget hi] at hbefore
    exact of_decide_eq_true hbefore
  · intro hbelow
    rcases Nat.lt_or_ge i (firstFrom p o) with hlt | hge
    · exact hlt
    · have hafter := hfails i hge hin
      rw [hget hi] at hafter
      exact absurd hbelow (of_decide_eq_false hafter)

/-- An operator is the one that is found iff it stands at or after the offset,
and the one before it does not. -/
theorem firstFrom_eq_iff (hsorted : p.offsets.toList.Pairwise (· < ·)) (o : Nat) {k offset : Nat}
    (hk : p.offsets[k]? = some offset) :
    firstFrom p o = k ↔
      o ≤ offset ∧ (k = 0 ∨ ∃ previous, p.offsets[k - 1]? = some previous ∧ previous < o) := by
  have hself := lt_firstFrom_iff hsorted o hk
  have hin : k < p.offsets.size := (Array.getElem?_eq_some_iff.1 hk).1
  constructor
  · intro heq
    refine ⟨by omega, ?_⟩
    by_cases h0 : k = 0
    · exact .inl h0
    · have hprevious : p.offsets[k - 1]? = some p.offsets[k - 1] :=
        Array.getElem?_eq_getElem (by omega)
      exact .inr ⟨_, hprevious, (lt_firstFrom_iff hsorted o hprevious).1 (by omega)⟩
  · intro h
    obtain ⟨hafter, hbefore⟩ := h
    rcases hbefore with h0 | ⟨previous, hprevious, hless⟩
    · omega
    · have hlt := (lt_firstFrom_iff hsorted o hprevious).2 hless
      omega

/-- The first operator at or after the offset is the one that is found. -/
theorem firstFrom_of_findIdx? (hsorted : p.offsets.toList.Pairwise (· < ·)) {o k : Nat}
    (h : p.offsets.toList.findIdx? (o ≤ ·) = some k) : firstFrom p o = k := by
  obtain ⟨hk, hafter, hbefore⟩ := List.findIdx?_eq_some_iff_getElem.1 h
  have hget : ∀ {j : Nat} (hj : j < p.offsets.toList.length),
      p.offsets[j]? = some p.offsets.toList[j] := by
    intro j hj
    rw [← Array.getElem?_toList, List.getElem?_eq_getElem hj]
  apply (firstFrom_eq_iff hsorted o (hget hk)).2
  refine ⟨of_decide_eq_true hafter, ?_⟩
  by_cases h0 : k = 0
  · exact .inl h0
  · have hless := hbefore (k - 1) (by omega)
    exact .inr ⟨_, hget (by omega), by simpa using hless⟩

/-- Behind the last operator there is none to be found. -/
theorem size_le_firstFrom (hsorted : p.offsets.toList.Pairwise (· < ·)) {o : Nat}
    (h : ∀ offset ∈ p.offsets.toList, offset < o) : p.offsets.size ≤ firstFrom p o := by
  by_cases h0 : p.offsets.size = 0
  · omega
  · have hlast : p.offsets[p.offsets.size - 1]? = some p.offsets[p.offsets.size - 1] :=
      Array.getElem?_eq_getElem (by omega)
    have hlt := (lt_firstFrom_iff hsorted o hlast).2
      (h _ (Array.mem_toList_iff.2 (Array.mem_of_getElem? hlast)))
    omega

/-! ## §3. The whole list. -/

variable {length : Nat}

/-- **Placing fails at the first offset outside the script.** -/
theorem placeBreakpoints_eq_error_iff {error : Error} (offsets : List Nat) :
    ∀ marks : Array Bool, placeBreakpoints p length offsets marks = .error error ↔
      ∃ offset, offsets.find? (length ≤ ·) = some offset ∧ error = .breakpoint offset length := by
  induction offsets with
  | nil =>
    intro marks
    constructor
    · intro h
      cases h
    · intro h
      obtain ⟨offset, hfind, -⟩ := h
      cases hfind
  | cons o rest ih =>
    intro marks
    unfold placeBreakpoints placeBreakpoint
    by_cases hin : o < length
    · rw [if_pos hin, List.find?_cons_of_neg (by simpa using hin)]
      exact ih _
    · rw [if_neg hin, List.find?_cons_of_pos (by simpa using hin)]
      constructor
      · intro h
        exact ⟨o, rfl, (Except.error.inj h).symm⟩
      · intro h
        obtain ⟨offset, hfind, herror⟩ := h
        rw [herror, ← Option.some.inj hfind]
        rfl

/-- **What is marked** was marked before, or is the operator of an offset of the
list. -/
theorem marks_of_placeBreakpoints {marks' : Array Bool} (offsets : List Nat) :
    ∀ {marks : Array Bool}, placeBreakpoints p length offsets marks = .ok marks' →
      marks'.size = marks.size ∧ ∀ k, k < marks.size →
        (marks'[k]? = some true ↔ marks[k]? = some true ∨ ∃ o ∈ offsets, firstFrom p o = k) := by
  induction offsets with
  | nil =>
    intro marks h
    obtain rfl : marks = marks' := Except.ok.inj h
    refine ⟨rfl, ?_⟩
    intro k hk
    simp
  | cons o rest ih =>
    intro marks h
    unfold placeBreakpoints placeBreakpoint at h
    by_cases hin : o < length
    · rw [if_pos hin] at h
      obtain ⟨hsize, hrest⟩ := ih h
      rw [Array.size_setIfInBounds] at hsize hrest
      refine ⟨hsize, ?_⟩
      intro k hk
      rw [hrest k hk, Array.getElem?_setIfInBounds]
      by_cases hplace : firstFrom p o = k
      · subst hplace
        simp [hk]
      · simp [hplace]
    · rw [if_neg hin] at h
      cases h

/-- Offsets behind the last operator mark nothing. -/
theorem placeBreakpoints_filter (hsorted : p.offsets.toList.Pairwise (· < ·)) (offsets : List Nat) :
    ∀ {marks : Array Bool}, marks.size = p.offsets.size → (∀ o ∈ offsets, o < length) →
      placeBreakpoints p length (offsets.filter fun o => p.offsets.toList.any (o ≤ ·)) marks
        = placeBreakpoints p length offsets marks := by
  induction offsets with
  | nil =>
    intro marks _ _
    rfl
  | cons o rest ih =>
    intro marks hsize hall
    obtain ⟨hin, hrest⟩ := List.forall_mem_cons.1 hall
    have hstep : ∀ os : List Nat, placeBreakpoints p length (o :: os) marks
        = placeBreakpoints p length os (marks.setIfInBounds (firstFrom p o) true) := by
      intro os
      rw [placeBreakpoints, placeBreakpoint, if_pos hin]
      rfl
    rw [hstep]
    by_cases hany : p.offsets.toList.any (o ≤ ·)
    · rw [List.filter_cons, if_pos hany, hstep]
      exact ih (by rw [Array.size_setIfInBounds, hsize]) hrest
    · rw [List.filter_cons, if_neg hany]
      have hbelow : ∀ offset ∈ p.offsets.toList, offset < o := by
        intro offset hmem
        apply Nat.lt_of_not_le
        intro hle
        exact hany (List.any_eq_true.2 ⟨offset, hmem, decide_eq_true hle⟩)
      have hout := size_le_firstFrom hsorted hbelow
      rw [Array.setIfInBounds_eq_of_size_le (by omega)]
      exact ih hsize hrest

end Search

/-! ## §4. The result. -/

/-- A session on a script that compiles, with a tape of an allowed size, waits
for its breakpoints only. -/
theorem create_eq {config : Config} {source : String} {p : Program}
    (hprogram : Program.compile .plain source = .ok p) (hsize : Tape.AllowedSize config.tapeSize)
    (breakpoints : List Nat) (input : String) :
    create config source breakpoints input
      = (placeBreakpoints p source.length breakpoints (Array.replicate p.size false)).map
          fun marks => ⟨⟨source, p, .load p (.blank config.tapeSize config.mode) input
            config.outputLimit⟩, marks, none, {}⟩ := by
  unfold create ofProgram Tape.create
  rw [hprogram, if_pos hsize]
  simp only [bind, Except.bind]
  cases placeBreakpoints p source.length breakpoints (Array.replicate p.size false) <;> rfl

/-- **Breakpoints are placed exactly.**  Starting a session on a script that
passes the check, with a tape of an allowed size, fails for a breakpoint iff
some offset of the list is not one of a character of the script; it fails for no
other reason, and reports the first such offset and the length of the script.
If there is none, an operator is marked iff the list has an offset that is not
behind it and is behind the operator before it.  So each offset marks the first
operator at or after it, and those behind the last operator could be left out. -/
theorem breakpoints_are_placed_exactly (config : Config) (source input : String)
    (breakpoints : List Nat) (hsource : (Script.validate source).isSuccess)
    (hconfig : Tape.AllowedSize config.tapeSize) :
    ((∃ offset length, create config source breakpoints input = .error (.breakpoint offset length))
        ↔ ∃ o ∈ breakpoints, source.length ≤ o)
      ∧ (∀ error, create config source breakpoints input = .error error →
          ∃ offset, breakpoints.find? (source.length ≤ ·) = some offset
            ∧ error = .breakpoint offset source.length)
      ∧ ((∀ o ∈ breakpoints, o < source.length) →
          ∃ s, create config source breakpoints input = .ok s
            ∧ s.job.program.offsets.toList = Script.operatorOffsets source
            ∧ s.marks.size = (Script.operatorOffsets source).length
            ∧ (∀ k offset, (Script.operatorOffsets source)[k]? = some offset →
                (s.marks[k]? = some true ↔ ∃ o ∈ breakpoints, o ≤ offset
                  ∧ (k = 0 ∨ ∃ previous, (Script.operatorOffsets source)[k - 1]? = some previous
                    ∧ previous < o)))
            ∧ (∀ o ∈ breakpoints, ∀ k,
                (Script.operatorOffsets source).findIdx? (o ≤ ·) = some k →
                  s.marks[k]? = some true)
            ∧ create config source
                (breakpoints.filter fun o => (Script.operatorOffsets source).any (o ≤ ·)) input
              = .ok s) := by
  have hprogram := Program.compile_of_isSuccess hsource .plain
  have hoffsets := Program.offsets_plain (Script.validate source).count source
  have hsorted := Program.sorted_offsets .plain (Script.validate source).count source
  have hcount := Program.offsets_size_ofTokens .plain (Script.validate source).count
    (Script.tokens source)
  have hcreate := create_eq hprogram hconfig
  generalize Program.ofTokens .plain (Script.validate source).count (Script.tokens source) = p
    at hprogram hoffsets hsorted hcount hcreate
  -- a session fails for what placing its breakpoints fails for
  have herror : ∀ error, create config source breakpoints input = .error error ↔
      ∃ offset, breakpoints.find? (source.length ≤ ·) = some offset
        ∧ error = .breakpoint offset source.length := by
    intro error
    rw [← placeBreakpoints_eq_error_iff (p := p) breakpoints (Array.replicate p.size false),
      hcreate]
    cases placeBreakpoints p source.length breakpoints (Array.replicate p.size false) with
    | error e => constructor <;> intro h <;> exact congrArg _ (Except.error.inj h)
    | ok marks => constructor <;> intro h <;> cases h
  refine ⟨?_, fun error h => (herror error).1 h, ?_⟩
  · constructor
    · intro h
      obtain ⟨offset, length, h⟩ := h
      obtain ⟨o, hfind, -⟩ := (herror _).1 h
      exact ⟨o, List.mem_of_find?_eq_some hfind, by simpa using List.find?_some hfind⟩
    · intro h
      obtain ⟨o, hmem, hout⟩ := h
      obtain ⟨offset, hfind⟩ : ∃ offset, breakpoints.find? (source.length ≤ ·) = some offset := by
        apply Option.isSome_iff_exists.1
        rw [List.find?_isSome]
        exact ⟨o, hmem, decide_eq_true hout⟩
      exact ⟨offset, source.length, (herror _).2 ⟨offset, hfind, rfl⟩⟩
  · intro hall
    obtain ⟨marks, hmarks, -⟩ := placeBreakpoints_ok (p := p) hall (Array.replicate p.size false)
    obtain ⟨hsize, hplaced⟩ := marks_of_placeBreakpoints breakpoints hmarks
    rw [Array.size_replicate] at hsize hplaced
    have hlength : p.size = (Script.operatorOffsets source).length := by
      rw [← hcount, ← hoffsets]
      rfl
    -- nothing was marked at the start
    have hmark : ∀ k, k < p.size →
        (marks[k]? = some true ↔ ∃ o ∈ breakpoints, firstFrom p o = k) := by
      intro k hk
      rw [hplaced k hk, Array.getElem?_replicate, if_pos hk]
      simp
    refine ⟨_, by rw [hcreate, hmarks]; rfl, hoffsets, hsize.trans hlength, ?_, ?_, ?_⟩
    · intro k offset hk
      have hlt : k < p.size := hlength ▸ (List.getElem?_eq_some_iff.1 hk).1
      show marks[k]? = some true ↔ _
      rw [hmark k hlt]
      rw [← hoffsets] at hk ⊢
      simp only [Array.getElem?_toList] at hk ⊢
      simp only [firstFrom_eq_iff hsorted _ hk]
    · intro o hmem k hfind
      have hlt : k < p.size := hlength ▸ (List.findIdx?_eq_some_iff_getElem.1 hfind).1
      rw [← hoffsets] at hfind
      exact (hmark k hlt).2 ⟨o, hmem, firstFrom_of_findIdx? hsorted hfind⟩
    · rw [hcreate, ← hoffsets, placeBreakpoints_filter hsorted breakpoints
        (by rw [Array.size_replicate, hcount]) hall, hmarks]
      rfl

/-- Comments with characters of more than one byte, an offset given twice, and
one behind the last operator; and a list with two offsets outside. -/
theorem breakpoints_are_placed_exactly_in_comments :
    (∃ s, create { tapeSize := 32 } "é+ é->é" [1, 2, 3, 2, 6] "" = .ok s
        ∧ (s.marks[0]? = some true ∧ s.marks[1]? = some true ∧ s.marks[2]? ≠ some true)
        ∧ create { tapeSize := 32 } "é+ é->é" [1, 2, 3, 2] "" = .ok s)
      ∧ create { tapeSize := 32 } "é+ é->é" [1, 9, 7] "" = .error (.breakpoint 9 7) := by
  have hsource : (Script.validate "é+ é->é").isSuccess := by decide
  have hconfig : Tape.AllowedSize 32 := by decide
  have hplaces : Script.operatorOffsets "é+ é->é" = [1, 4, 5] := by decide
  constructor
  · obtain ⟨-, -, hplaced⟩ := breakpoints_are_placed_exactly { tapeSize := 32 } "é+ é->é" ""
      [1, 2, 3, 2, 6] hsource hconfig
    obtain ⟨s, hs, -, -, hmark, -, hfilter⟩ := hplaced (by decide)
    rw [hplaces] at hmark hfilter
    refine ⟨s, hs, ⟨(hmark 0 1 rfl).2 ⟨1, by decide, by decide, .inl rfl⟩,
      (hmark 1 4 rfl).2 ⟨3, by decide, by decide, .inr ⟨1, rfl, by decide⟩⟩, ?_⟩, hfilter⟩
    intro hmarked
    obtain ⟨o, hmem, hle, hprevious⟩ := (hmark 2 5 rfl).1 hmarked
    obtain ⟨previous, hget, hless⟩ := hprevious.resolve_left (by decide)
    obtain rfl : 4 = previous := Option.some.inj hget
    -- no offset of the list is 5
    have hnone : ∀ o ∈ [1, 2, 3, 2, 6], o ≤ 5 → ¬ 4 < o := by decide
    exact hnone o hmem hle hless
  · obtain ⟨hfails, hreport, -⟩ := breakpoints_are_placed_exactly { tapeSize := 32 } "é+ é->é" ""
      [1, 9, 7] hsource hconfig
    obtain ⟨offset, length, herror⟩ := hfails.2 ⟨9, by decide, by decide⟩
    obtain ⟨o, hfind, heq⟩ := hreport _ herror
    obtain rfl : 9 = o := Option.some.inj hfind
    rw [herror, heq]
    rfl

end Session

end TapeMachine
