/-
  TapeMachine.Proofs.Growth
  ─────────────────────────
  **WHAT A MACHINE NEVER TAKES BACK.**

  `Machine.Precedes m m'` says what an earlier machine shares with a later
  one: the tape keeps its size and its mode, input is only read on, output is
  only added to and never goes beyond its room, the record of definitions
  grows at its end, and operations are only credited.  It is a preorder that
  every step goes up (`Machine.Precedes.of_step`), so every call does
  (`Machine.Reachable.precedes`).

  What a move does to the buffers is said once (`Machine.buffers_of_move?`),
  beside what it does to tape and control (`Machine.does_of_move?`).
-/
import TapeMachine.Proofs.Invariant

namespace TapeMachine

/-! ## §1. The tape's size and mode. -/

section Tape

variable {t t' : Tape}

theorem Tape.store?_shape {c : Char} (h : t.store? c = some t') :
    t'.size = t.size ∧ t'.mode = t.mode := by
  unfold Tape.store? at h
  split at h
  · cases h
    exact ⟨write_size t _, write_mode t _⟩
  · split at h
    · cases h
      exact ⟨write_size t _, write_mode t _⟩
    · cases h

theorem Tape.stride_shape {o : Operator} {f : Tape → Nat → Tape.Stride} {fault : ExitCode}
    (h : o.stride? = some (f, fault)) (t : Tape) (n : Nat) :
    (f t n).tape.size = t.size ∧ (f t n).tape.mode = t.mode := by
  cases o <;> cases h
  · exact ⟨rfl, rfl⟩
  · exact ⟨rfl, rfl⟩
  · unfold increase
    split
    · exact ⟨write_size t _, write_mode t _⟩
    · exact ⟨write_size t _, write_mode t _⟩
  · unfold decrease
    split
    · exact ⟨write_size t _, write_mode t _⟩
    · exact ⟨write_size t _, write_mode t _⟩

/-- No operator changes the size or the mode of a tape. -/
theorem Tape.Changes.shape (h : t.Changes t') : t'.size = t.size ∧ t'.mode = t.mode := by
  cases h with
  | same => exact ⟨rfl, rfl⟩
  | stride hs n => exact Tape.stride_shape hs t n
  | store hstore => exact Tape.store?_shape hstore
  | clear => exact ⟨Tape.write_size t 0, Tape.write_mode t 0⟩

end Tape

/-! ## §2. Buffers. -/

namespace Input

/-- How many characters have been read. -/
def position (i : Input) : Nat := i.text.length - i.remaining

/-- `i'` is `i` read on. -/
structure Precedes (i i' : Input) : Prop where
  text : i'.text = i.text
  unread : i'.unread <:+ i.unread

theorem Precedes.refl (i : Input) : i.Precedes i := ⟨rfl, List.suffix_refl _⟩

theorem Precedes.trans {i₁ i₂ i₃ : Input} (h : i₁.Precedes i₂) (h' : i₂.Precedes i₃) :
    i₁.Precedes i₃ :=
  ⟨h'.text.trans h.text, h'.unread.trans h.unread⟩

theorem Precedes.of_read? {i i' : Input} {c : Char} (h : i.read? = some (c, i')) :
    i.Precedes i' := by
  unfold read? at h
  split at h
  · cases h
  · next rest hunread =>
    cases h
    refine ⟨rfl, ?_⟩
    rw [hunread]
    exact List.suffix_cons c rest

theorem Precedes.position_le {i i' : Input} (h : i.Precedes i') : i.position ≤ i'.position := by
  have hle : i'.unread.length ≤ i.unread.length := h.unread.length_le
  unfold position remaining
  rw [h.text]
  omega

/-- What is left of a text that is being read. -/
theorem Precedes.unread_eq {text : String} {i : Input} (h : (ofText text).Precedes i) :
    i.text = text ∧ i.position ≤ text.length ∧ i.unread = text.toList.drop i.position := by
  obtain ⟨read, hread⟩ : i.unread <:+ text.toList := h.unread
  have htext : i.text = text := h.text
  have hlength : text.length = read.length + i.unread.length := by
    rw [← String.length_toList, ← hread, List.length_append]
  have hposition : i.position = read.length := by
    unfold position remaining
    rw [htext]
    omega
  refine ⟨htext, by omega, ?_⟩
  rw [hposition, ← hread, List.drop_left]

end Input

namespace Output

/-- `o'` is `o` with more written, in the same room. -/
structure Precedes (o o' : Output) : Prop where
  written : o.written <:+ o'.written
  space : o'.written.length + o'.room = o.written.length + o.room

theorem Precedes.refl (o : Output) : o.Precedes o := ⟨List.suffix_refl _, rfl⟩

theorem Precedes.trans {o₁ o₂ o₃ : Output} (h : o₁.Precedes o₂) (h' : o₂.Precedes o₃) :
    o₁.Precedes o₃ :=
  ⟨h.written.trans h'.written, h'.space.trans h.space⟩

theorem Precedes.of_write? {o o' : Output} {value : Nat} (h : o.write? value = some o') :
    o.Precedes o' := by
  unfold write? at h
  split at h
  · cases h
  · next room hroom =>
    cases h
    refine ⟨List.suffix_cons _ _, ?_⟩
    show (glyph value :: o.written).length + room = _
    rw [hroom, List.length_cons]
    omega

theorem Precedes.text_prefix {o o' : Output} (h : o.Precedes o') :
    o.text.toList <+: o'.text.toList := by
  simp only [text, String.toList_ofList]
  exact List.reverse_prefix.2 h.written

theorem length_text (o : Output) : o.text.length = o.written.length := by
  rw [← String.length_toList, text, String.toList_ofList, List.length_reverse]

/-- What has been written and what there is room for make up the limit. -/
theorem Precedes.length_add_room {limit : Nat} {o : Output} (h : (empty limit).Precedes o) :
    o.text.length + o.room = limit := by
  rw [length_text, h.space]
  exact Nat.zero_add limit

end Output

/-! ## §3. What a move does to the buffers. -/

namespace Machine

/-- Input read on, output written to, operations credited. -/
structure Credits (m m' : Machine) : Prop where
  input : m.input.Precedes m'.input
  output : m.output.Precedes m'.output
  operations : m.operations ≤ m'.operations

variable {p : Program} {reset : Option Bool} {spent : Bool} {i : Nat} {op : Opcode} {m : Machine}
  {move : Move}

/-- A machine with the same buffers. -/
theorem Credits.of_eq {m' : Machine} (hinput : m'.input = m.input) (houtput : m'.output = m.output)
    (hoperations : m.operations ≤ m'.operations) : m.Credits m' where
  input := by
    rw [hinput]
    exact .refl _
  output := by
    rw [houtput]
    exact .refl _
  operations := hoperations

/-- Going somewhere leaves the buffers alone. -/
theorem Credits.goto {m' : Machine} (h : m.Credits m') (j : Nat) : m.Credits (m'.goto j) where
  input := by
    rw [goto_input]
    exact h.input
  output := by
    rw [goto_output]
    exact h.output
  operations := by
    rw [goto_operations]
    exact h.operations

/-- **What an opcode can do to the buffers.** -/
theorem buffers_of_move? (h : m.move? p reset spent i op = some move) : m.Credits move.machine := by
  have hrest : m.Credits m := .of_eq rfl rfl (Nat.le_refl _)
  have hcredit : ∀ n, m.Credits (m.credit n) := fun n => .of_eq rfl rfl (Nat.le_add_right _ _)
  cases ho : op.operator with
  | right | left | inc | dec =>
    rw [move?_stride (by rw [ho]; rfl), stride_eq] at h
    cases h
    split
    · exact .of_eq rfl rfl (Nat.le_add_right _ _)
    · apply Credits.goto
      exact .of_eq rfl rfl (Nat.le_add_right _ _)
  | put =>
    unfold move? at h
    rw [ho] at h
    dsimp only at h
    split at h
    · cases h
      exact hrest
    · next output hwrite =>
      cases h
      apply Credits.goto
      exact ⟨.refl _, .of_write? hwrite, Nat.le_succ _⟩
  | get =>
    unfold move? at h
    rw [ho] at h
    dsimp only at h
    split at h
    · cases h
      exact hrest
    · next c input hread =>
      -- a character that the cell cannot hold has been read all the same
      split at h
      · cases h
        exact ⟨.of_read? hread, .refl _, Nat.le_refl _⟩
      · cases h
        apply Credits.goto
        exact ⟨.of_read? hread, .refl _, Nat.le_succ _⟩
  | loopOpen =>
    unfold move? at h
    rw [ho] at h
    dsimp only at h
    split at h
    · obtain ⟨partner, -, rfl⟩ := Option.map_eq_some_iff.1 h
      exact (hcredit 1).goto _
    · obtain ⟨reset, -, rfl⟩ := Option.map_eq_some_iff.1 h
      -- a loop done in one step credits all its rounds
      cases reset with
      | true =>
        apply Credits.goto
        exact .of_eq rfl rfl (Nat.le_add_right _ _)
      | false => exact (hcredit 1).goto _
  | loopClose =>
    unfold move? at h
    rw [ho] at h
    dsimp only at h
    split at h
    · cases h
      exact (hcredit 1).goto _
    · split at h
      · cases h
        exact hrest
      · obtain ⟨partner, -, rfl⟩ := Option.map_eq_some_iff.1 h
        exact (hcredit 1).goto _
  | bodyOpen =>
    unfold move? at h
    rw [ho] at h
    dsimp only at h
    obtain ⟨stop, -, rfl⟩ := Option.map_eq_some_iff.1 h
    split
    · exact hrest
    · apply Credits.goto
      exact .of_eq rfl rfl (Nat.le_succ _)
  | bodyClose =>
    unfold move? at h
    rw [ho] at h
    cases h
    exact hrest.goto _
  | call =>
    unfold move? at h
    rw [ho] at h
    dsimp only at h
    split at h
    · cases h
      exact hrest
    · split at h
      · cases h
        exact hrest
      · split at h
        · cases h
          exact hrest
        · obtain ⟨stack, -, rfl⟩ := Option.map_eq_some_iff.1 h
          exact .of_eq rfl rfl (Nat.le_succ _)

/-! ## §4. Steps and calls. -/

/-- What an earlier machine shares with a later one. -/
structure Precedes (m m' : Machine) : Prop extends Credits m m' where
  size : m'.tape.size = m.tape.size
  mode : m'.tape.mode = m.tape.mode
  entries : m.functions.entries <+: m'.functions.entries

theorem Precedes.refl (m : Machine) : m.Precedes m where
  input := .refl _
  output := .refl _
  operations := Nat.le_refl _
  size := rfl
  mode := rfl
  entries := List.prefix_refl _

theorem Precedes.trans {m₁ m₂ m₃ : Machine} (h : m₁.Precedes m₂) (h' : m₂.Precedes m₃) :
    m₁.Precedes m₃ where
  input := h.input.trans h'.input
  output := h.output.trans h'.output
  operations := Nat.le_trans h.operations h'.operations
  size := h'.size.trans h.size
  mode := h'.mode.trans h.mode
  entries := h.entries.trans h'.entries

/-- A move puts no definition on record, or one behind all earlier ones. -/
theorem Control.entries_prefix {frame : Frame} {callers : List Frame}
    (h : Control p reset i op m frame callers move) :
    m.functions.entries <+: move.machine.functions.entries := by
  cases move with
  | halt code m' =>
    obtain ⟨-, hfun, -⟩ := h
    show _ <+: m'.functions.entries
    exact hfun ▸ List.prefix_refl _
  | next m' asked =>
    show _ <+: m'.functions.entries
    rcases h with ⟨hfun, -⟩ | ⟨-, stop, -, hdef, -⟩ | ⟨-, body, -, hfun, -⟩
    · exact hfun ▸ List.prefix_refl _
    · rw [FunctionTable.entries_define? hdef]
      exact List.prefix_append _ _
    · exact hfun ▸ List.prefix_refl _

/-- **A move goes up.** -/
theorem Precedes.of_move? {frame : Frame} {callers : List Frame}
    (hf : m.stack.frames = frame :: callers) (h : m.move? p reset spent i op = some move) :
    m.Precedes move.machine := by
  have hdoes := does_of_move? hf h
  obtain ⟨hsize, hmode⟩ := hdoes.tape.shape
  exact ⟨buffers_of_move? h, hsize, hmode, hdoes.control.entries_prefix⟩

/-- **A step goes up.** -/
theorem Precedes.of_step {t : Terms} {r : Run} {step : Step} (h : r.step? p t = some step) :
    r.machine.Precedes step.run.machine := by
  obtain ⟨m, marks, polls⟩ := r
  cases Run.takes_of_step? h with
  | ended _ => exact .refl m
  | left _ _ => exact ⟨.of_eq rfl rfl (Nat.le_refl _), rfl, rfl, List.prefix_refl _⟩
  | paused _ _ _ _ => exact .refl m
  | moved hf _ _ hmove => exact .of_move? hf hmove
  | halted hf _ _ hmove => exact .of_move? hf hmove

/-- **Calls go up.** -/
theorem Reachable.precedes {m' : Machine} (h : Reachable p m m') : m.Precedes m' :=
  h.keeps (.refl m) fun hm hstep => hm.trans (.of_step hstep)

end Machine

/-- **Machines only grow.**  With a successful report, `compileAs`
compiles every script, valid or not, in either granularity.  After any
calls in a row, on any terms, the tape has the size and the mode it had at the
start, the pointer is on a cell, and no cell is above the mode's maximum;
output is within its limit; the input is the text it was, of which the first
so many characters have been read.  Further calls write behind what is written,
read on from where reading stands, put definitions on record behind those that
are there, and credit operations.

The count of operations is a natural number, so it never wraps; a counter of 64
bits agrees with it for as long as the count is below 2 ^ 64
(`Machine.operations`). -/
theorem machines_only_grow (report : Validation) (g : Granularity) (source : String) (tape : Tape)
    (input : String) (limit : Nat) (hreport : report.isSuccess) (htape : tape.WellFormed) :
    ∃ p, Program.compileAs report g source = .ok p ∧
      ∀ m, Machine.Reachable p (.load p tape input limit) m →
        (m.tape.size = tape.size ∧ m.tape.mode = tape.mode ∧ m.tape.pointer < tape.size
          ∧ ∀ c ∈ m.tape.cells, c ≤ tape.mode.max)
        ∧ m.output.text.length ≤ limit
        ∧ (m.input.text = input ∧ m.input.position ≤ input.length
          ∧ m.input.unread = input.toList.drop m.input.position)
        ∧ ∀ m', Machine.Reachable p m m' →
            m.output.text.toList <+: m'.output.text.toList
              ∧ m.input.position ≤ m'.input.position
              ∧ m.functions.entries <+: m'.functions.entries
              ∧ m.operations ≤ m'.operations := by
  have hcompile : Program.compileAs report g source
      = .ok (.ofTokens g report.count (Script.tokens source)) := if_pos hreport
  have hp := Program.coherent_ofTokens g report.count (Script.tokens source)
  refine ⟨_, hcompile, ?_⟩
  intro m hm
  have hpast := hm.precedes
  have hsize : m.tape.size = tape.size := hpast.size
  have hmode : m.tape.mode = tape.mode := hpast.mode
  have hwell : m.tape.WellFormed := (hm.fits hp (Machine.fits_load _ htape input limit)).tape
  have houtput : m.output.text.length + m.output.room = limit := hpast.output.length_add_room
  refine ⟨⟨hsize, hmode, ?_, ?_⟩, by omega, hpast.input.unread_eq, ?_⟩
  · rw [← hsize]
    exact hwell.pointer_lt
  · rw [← hmode]
    exact hwell.cell_le
  · intro m' hm'
    have hnext := hm'.precedes
    exact ⟨hnext.output.text_prefix, hnext.input.position_le, hnext.entries, hnext.operations⟩

/-- A loop that is never opened, twice: the first call runs out of budget at
the `]`, the second one goes round until there is no room for a third
character. -/
theorem machines_only_grow_unopened :
    ∃ p m m', Program.compileAs (.success 3) .plain ",.]" = .ok p
      ∧ Machine.Reachable p (.load p (.blank 32 .byteWrapping) "ab" 2) m
      ∧ Machine.Reachable p m m'
      ∧ (m.output.text = "a" ∧ m.input.position = 1 ∧ m.operations = 2)
      ∧ (m'.output.text = "aa" ∧ m'.input.position = 1 ∧ m'.operations = 5)
      ∧ m.output.text.toList <+: m'.output.text.toList ∧ m'.output.text.length ≤ 2 := by
  obtain ⟨p, hp, hall⟩ := machines_only_grow (.success 3) .plain ",.]" (.blank 32 .byteWrapping)
    "ab" 2 rfl (Tape.wellFormed_blank _ (by decide))
  have hrun : ((Program.compileAs (.success 3) .plain ",.]").toOption.bind fun p =>
      ((Machine.load p (.blank 32 .byteWrapping) "ab" 2).execute p { budget := .spent } none
        9).rest?.bind fun first =>
      (first.2.machine.execute p {} none 9).rest?.bind fun second =>
        some ((first.1, first.2.machine.output.text, first.2.machine.input.position,
            first.2.machine.operations),
          (second.1, second.2.machine.output.text, second.2.machine.input.position,
            second.2.machine.operations)))
      = some ((.budgetSpent, "a", 1, 2), (.outputFull, "aa", 1, 5)) := by
    decide +kernel
  replace hrun := seen_of_ok hrun hp
  obtain ⟨code, m, marks, polls, hfirst, hrun⟩ := Machine.exists_haltsWith hrun
  obtain ⟨code', m', marks', polls', hsecond, heq⟩ := Machine.exists_haltsWith hrun
  simp only [Option.some.injEq, Prod.mk.injEq] at heq
  obtain ⟨⟨-, hbefore⟩, -, hafter⟩ := heq
  have hnone : p.FitsMarks none := trivial
  have hm : Machine.Reachable p (.load p (.blank 32 .byteWrapping) "ab" 2) m :=
    .call .start hnone hfirst
  have hm' : Machine.Reachable p m m' := .call .start hnone hsecond
  refine ⟨p, m, m', hp, hm, hm', hbefore, hafter, ((hall m hm).2.2.2 m' hm').1, ?_⟩
  rw [hafter.1]
  decide

end TapeMachine
