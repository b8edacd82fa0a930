/-
  TapeMachine.Proofs.Cancellation
  ───────────────────────────────
  **WHAT A CANCELLED SESSION CAN STILL DO.**

  The budget of a cancelled call is spent before it starts.  No loop goes
  back and no function is entered, so a run only goes forward and always
  halts (`Run.halts_of_spent`).  One thing still depends on the breakpoints: `[-]`
  with none inside is one step that asks nothing, and with one inside it is
  a loop, whose `]` asks the budget.

    • `simulation_cancelled` — a call is a stretch of the run that knows the
      breakpoints and passes them by; one that has been met lies behind and
      is not asked for again,
    • `Machine.Splits` — a machine about to do a `[-]` in one step that a
      breakpoint makes a loop of two rounds or more,
    • `compare_tables` — the run that knows the breakpoints ends like the one
      that does not, unless the latter reaches such a machine; then its
      budget is spent there.
-/
import TapeMachine.Proofs.Growth
import TapeMachine.Proofs.Relocation
import TapeMachine.Proofs.Termination

namespace TapeMachine

/-! ## §1. Breakpoints inside `[-]`. -/

/-- At index `i` the program has a `[-]` with a breakpoint inside. -/
structure Program.MarkedReset (p : Program) (table : Array Bool) (i : Nat) : Prop where
  opens : p.opcodes[i]?.map (·.operator) = some .loopOpen
  partner : p.partners[i]? = some (i + 2)
  body : p.opcodes[i + 1]? = some (.one .dec)
  mark : table[i + 1]? = some true ∨ table[i + 2]? = some true

/-- The machine is about to enter a `[-]` with a breakpoint inside, and the
cell is two or more: as a loop, it would have to go back. -/
def Machine.Splits (p : Program) (table : Array Bool) (m : Machine) : Prop :=
  2 ≤ m.tape.current ∧ ∃ i, m.due? = some i ∧ p.MarkedReset table i

namespace Program

variable {p : Program} {table : Array Bool} {i : Nat}

/-- Whether a loop is done in one step depends on the two marks behind its
`[` only. -/
theorem isReset?_congr {base : Array Bool} (h : ∀ k, i < k → table[k]? = base[k]?) :
    p.isReset? (some table) i = p.isReset? (some base) i := by
  unfold isReset? unmarked?
  simp only [h (i + 1) (by omega), h (i + 1 + 1) (by omega)]

/-- A loop is done in one step if it would be without breakpoints and there
is none inside. -/
theorem isReset?_some_iff : p.isReset? (some table) i = some true ↔
    p.isReset? none i = some true ∧ table[i + 1]? = some false ∧ table[i + 2]? = some false := by
  rw [isReset?_eq_some_true_iff]
  unfold isReset?
  refine ⟨fun h => ?_, fun ⟨⟨hpartner, hbody⟩, hfirst, hsecond⟩ => ?_⟩
  · split at h
    · cases h
    · next partner hpartner =>
      split at h
      · next he =>
        split at h
        · cases h
        · next body hbody =>
          split at h
          · next hdec =>
            refine ⟨⟨by rw [hpartner, he], by rw [hbody, hdec]⟩, ?_⟩
            unfold unmarked? at h
            dsimp only at h
            split at h
            · next first second hfirst hsecond =>
              cases first <;> cases second <;> first | exact ⟨hfirst, hsecond⟩ | cases h
            · cases h
          · cases h
      · cases h
  · rw [hpartner, hbody]
    simp only [if_true, unmarked?, hfirst, hsecond]
    rfl

section Fits

variable (hp : p.Coherent) (htable : p.FitsMarks (some table)) {op : Opcode}
  (hop : p.opcodes[i]? = some op)

include hp htable hop

/-- A `[-]` with a breakpoint inside is a loop, and would be one step
without. -/
theorem MarkedReset.isReset? (h : p.MarkedReset table i) :
    p.isReset? none i = some true ∧ p.isReset? (some table) i = some false := by
  obtain ⟨-, hpartner, hdec, hmark⟩ := h
  refine ⟨isReset?_eq_some_true_iff.2 ⟨hpartner, hdec⟩, ?_⟩
  have hsome : (p.isReset? (some table) i).isSome := hp.resets?_isSome hop htable {}
  obtain ⟨reset, hreset⟩ := Option.isSome_iff_exists.1 hsome
  cases reset with
  | false => exact hreset
  | true =>
    obtain ⟨-, hfirst, hsecond⟩ := isReset?_some_iff.1 hreset
    rw [hfirst, hsecond] at hmark
    rcases hmark with h | h <;> cases h

/-- Any other loop is the same with and without breakpoints. -/
theorem isReset?_of_not_markedReset (ho : op.operator = .loopOpen)
    (h : ¬ p.MarkedReset table i) : p.isReset? (some table) i = p.isReset? none i := by
  have hsome : (p.isReset? (some table) i).isSome := hp.resets?_isSome hop htable {}
  obtain ⟨reset, hreset⟩ := Option.isSome_iff_exists.1 hsome
  have hnone : (p.isReset? none i).isSome :=
    hp.resets?_isSome hop (show p.FitsMarks none from trivial) {}
  obtain ⟨plain, hplain⟩ := Option.isSome_iff_exists.1 hnone
  cases reset with
  | true => rw [hreset, (isReset?_some_iff.1 hreset).1]
  | false =>
    cases plain with
    | false => rw [hreset, hplain]
    | true =>
      -- both marks are there, and one of them is set
      obtain ⟨hpartner, hdec⟩ := isReset?_eq_some_true_iff.1 hplain
      obtain ⟨-, x, y, -, hy, -⟩ := hp.pair (by omega) hpartner
      have hsize : table.size = p.size := htable
      have hlt : i + 2 < table.size := hsize ▸ (Array.getElem?_eq_some_iff.1 hy).1
      have hfirst : table[i + 1]? = some table[i + 1] := Array.getElem?_eq_getElem (by omega)
      have hsecond : table[i + 2]? = some table[i + 2] := Array.getElem?_eq_getElem hlt
      refine absurd ⟨by rw [hop, ← ho]; rfl, hpartner, hdec, ?_⟩ h
      cases hx : table[i + 1] with
      | true => exact .inl (by rw [hfirst, hx])
      | false =>
        cases hy : table[i + 2] with
        | true => exact .inr (by rw [hsecond, hy])
        | false =>
          rw [hx] at hfirst
          rw [hy] at hsecond
          rw [isReset?_some_iff.2 ⟨hplain, hfirst, hsecond⟩] at hreset
          cases hreset

end Fits

end Program

/-! ## §2. A call and the run that passes the breakpoints by. -/

/-- The machine is in the script itself, and ahead of it the two tables have
the same marks. -/
def Machine.AgreesAhead (table base : Array Bool) (m : Machine) : Prop :=
  m.stack.frames = [] ∨ ∃ frame, m.stack.frames = [frame]
    ∧ ∀ k, frame.offset < k → table[k]? = base[k]?

section Simulate

variable {p : Program} {table base : Array Bool}

theorem Machine.AgreesAhead.of_cons {m : Machine} {frame : Frame} {callers : List Frame}
    (h : m.AgreesAhead table base) (hf : m.stack.frames = frame :: callers) :
    callers = [] ∧ ∀ k, frame.offset < k → table[k]? = base[k]? := by
  rcases h with h | ⟨frame', h, hagree⟩
  · rw [hf] at h
    cases h
  · rw [hf] at h
    cases h
    exact ⟨rfl, hagree⟩

/-- The machine goes forward, so the tables still agree. -/
theorem Machine.AgreesAhead.goto {m m' : Machine} {frame : Frame} {callers : List Frame} {j : Nat}
    (h : m.AgreesAhead table base) (hf : m.stack.frames = frame :: callers) (hj : frame.offset ≤ j)
    (hframes : m'.stack.frames = { frame with offset := j } :: callers) :
    m'.AgreesAhead table base := by
  obtain ⟨rfl, hagree⟩ := h.of_cons hf
  exact .inr ⟨_, hframes, fun k hk => hagree k (Nat.lt_of_le_of_lt hj hk)⟩

/-- A breakpoint that is met lies behind as soon as the machine goes on. -/
theorem Machine.AgreesAhead.clear {m : Machine} {frame : Frame} {callers : List Frame}
    (h : m.AgreesAhead table base) (hf : m.stack.frames = frame :: callers) :
    m.AgreesAhead (table.setIfInBounds frame.offset false) base := by
  obtain ⟨rfl, hagree⟩ := h.of_cons hf
  refine .inr ⟨frame, hf, fun k hk => ?_⟩
  rw [Array.getElem?_setIfInBounds_ne (Nat.ne_of_lt hk)]
  exact hagree k hk

/-- The next opcode does the same with either table. -/
theorem Machine.AgreesAhead.isReset?_eq {m : Machine} {frame : Frame} {callers : List Frame}
    (h : m.AgreesAhead table base) (hf : m.stack.frames = frame :: callers) :
    p.isReset? (some table) frame.offset = p.isReset? (some base) frame.offset :=
  Program.isReset?_congr (h.of_cons hf).2

variable (p table base)

/-- The run past the breakpoints stands where the call stands. -/
def Accompanies (r s : Run) : Prop :=
  s.machine = r.machine ∧ s.marks = some base ∧ r.marks = some table ∧ r.machine.Fits p
    ∧ r.machine.AgreesAhead table base

/-- Where that run stands when the call has halted: at the same
machine, if it has paused, and else about to end like it. -/
def Leaves (code : ExitCode) (r s : Run) : Prop :=
  (code = .breakpoint ∧ s.machine = r.machine ∧ s.marks = some base
      ∧ ∃ i, table[i]? = some true ∧ r.marks = some (table.setIfInBounds i false)
        ∧ r.machine.AgreesAhead (table.setIfInBounds i false) base)
    ∨ (code ≠ .breakpoint
      ∧ s.step? p .cancelled = some (.halt code ⟨r.machine, some base, s.polls⟩))

variable {p table base}

/-- An opcode of the run past the breakpoints. -/
theorem step?_cancelled {m : Machine} {frame : Frame} {callers : List Frame}
    {marks : Option (Array Bool)} (hf : m.stack.frames = frame :: callers)
    (hlt : frame.offset < frame.body.stop) {op : Opcode} (hop : p.opcodes[frame.offset]? = some op)
    (polls : Nat) :
    Run.step? p .cancelled ⟨m, marks, polls⟩
      = (m.move? p (p.isReset? marks frame.offset) true frame.offset op).map
          (Move.toStep marks polls) := by
  rw [Run.step?_of_lt hf hlt, hop]
  rfl

/-- **A cancelled call follows the run that passes the breakpoints by.** -/
theorem simulation_cancelled (hp : p.Balanced) (htable : p.FitsMarks (some table)) :
    Simulation p { bypass := false, budget := .spent } p .cancelled (Accompanies p table base)
      (Leaves p table base) where
  next := by
    rintro ⟨_, _, polls⟩ ⟨m, _, polls'⟩ r ⟨rfl, rfl, rfl, hfits, hagree⟩ hstep
    have hfits' : r.machine.Fits p := hfits.step hp.toCoherent hstep
    cases Run.takes_of_step? hstep with
    | @left frame callers hf hge =>
      refine ⟨0, _, .single (Run.step?_of_done hf hge), rfl, rfl, rfl, hfits', .inl ?_⟩
      -- the script has no caller to return to
      obtain ⟨rfl, -⟩ := hagree.of_cons hf
      show m.stack.pop.frames = []
      unfold CallStack.pop
      rw [hf]
    | @moved frame callers op m' asked hf hlt hop hmove hstops =>
      have hmove' : m.move? p (p.isReset? (some table) frame.offset) true frame.offset op
          = some (.next m' asked) := hmove
      -- the marks that an opcode looks at lie ahead of it, where the tables agree
      obtain ⟨j, hj, hframes⟩ := Machine.onward_of_move? hp hf hop hmove'
      refine ⟨0, ⟨m', some base, if asked then polls' + 1 else polls'⟩, .single ?_, rfl, rfl, rfl,
        hfits', hagree.goto hf (Nat.le_of_lt hj) hframes⟩
      rw [step?_cancelled hf hlt hop, ← hagree.isReset?_eq hf, hmove']
      rfl
  halt := by
    rintro ⟨_, _, polls⟩ ⟨m, _, polls'⟩ r code ⟨rfl, rfl, rfl, hfits, hagree⟩ hstep
    cases Run.takes_of_step? hstep with
    | ended hf => exact .inr ⟨by simp, Run.step?_of_empty hf⟩
    | @paused frame callers table' hf hbypass htable' hmark hlt =>
      cases htable'
      exact .inl ⟨rfl, rfl, rfl, frame.offset, hmark, rfl, hagree.clear hf⟩
    | @halted frame callers op m' code hf hlt hop hmove hstops =>
      have hmove' : m.move? p (p.isReset? (some table) frame.offset) true frame.offset op
          = some (.halt code m') := hmove
      have hfault : code.isFault := (Machine.does_of_move? hf hmove).control.1
      refine .inr ⟨?_, ?_⟩
      · rintro rfl
        cases hfault
      · rw [step?_cancelled hf hlt hop, ← hagree.isReset?_eq hf, hmove']
        rfl
  live := by
    rintro r s ⟨-, -, hr, hfits, -⟩
    exact hfits.step?_isSome hp.toCoherent (by rw [hr]; exact htable) _

end Simulate

/-! ## §3. The run with breakpoints and the run without. -/

section Compare

variable {p : Program} {table : Array Bool} {m : Machine}

/-- The `]` of a loop that would go back, if the budget is spent. -/
theorem step?_loopClose_spent {t : Terms} {marks : Option (Array Bool)} {frame : Frame}
    {callers : List Frame} {op : Opcode} {polls : Nat} (hf : m.stack.frames = frame :: callers)
    (hlt : frame.offset < frame.body.stop) (hstops : t.stops? marks frame.offset = some false)
    (hop : p.opcodes[frame.offset]? = some op) (ho : op.operator = .loopClose)
    (hbudget : t.budget polls = true) (h0 : m.tape.current ≠ 0) :
    Run.step? p t ⟨m, marks, polls⟩ = some (.halt .budgetSpent ⟨m, marks, polls⟩) := by
  rw [Run.step?_of_lt hf hlt]
  simp only [hstops, hop, Machine.move?, ho, hbudget, if_true]
  rw [if_neg h0]
  rfl

/-- **`[-]` with a breakpoint inside, cancelled.**  It does what the one step
does if the cell is one, and else stops at its `]`. -/
theorem run_markedReset (hp : p.Coherent) (hm : m.Fits p) (htable : p.FitsMarks (some table))
    {frame : Frame} {callers : List Frame} (hf : m.stack.frames = frame :: callers)
    (hlt : frame.offset < frame.body.stop) (hmarked : p.MarkedReset table frame.offset)
    (h0 : m.tape.current ≠ 0) (polls : Nat) :
    (m.tape.current = 1 ∧ Run.Leads p .cancelled 3 ⟨m, some table, polls⟩
        ⟨({ m.credit (m.tape.current * 2 + 1) with tape := m.tape.clear } : Machine).goto
          (frame.offset + 3), some table, polls⟩)
      ∨ (2 ≤ m.tape.current ∧ ∃ r, Run.Halts p .cancelled ⟨m, some table, polls⟩ .budgetSpent r
        ∧ r.machine.operations = m.operations + 2) := by
  obtain ⟨x, hx, hxo⟩ := Option.map_eq_some_iff.1 hmarked.opens
  have hdec := hmarked.body
  obtain ⟨-, x', y, hx', hy, hpair⟩ := hp.pair (by omega) hmarked.partner
  rw [hx] at hx'
  cases hx'
  have hyo : y.operator = .loopClose := by
    rw [hxo] at hpair
    exact (Option.some.inj hpair).symm
  have hends := (hm.frame frame (by rw [hf]; exact List.mem_cons_self)).2
  have hin := hends.not_inside hlt hdec hy hyo
  have hreset : Terms.cancelled.resets? p (some table) frame.offset = some false :=
    (hmarked.isReset? hp htable hx).2
  obtain ⟨tape, functions, ⟨frames, overdrawn⟩, input, output, operations⟩ := m
  obtain ⟨body, i⟩ := frame
  obtain rfl : frames = _ := hf
  dsimp only at hlt hx hdec hy h0 hin hreset ⊢
  have htape : tape.WellFormed := hm.tape
  -- `[` and `-`, which lead to the `]` with the cell one less
  have hdown : Run.Leads p .cancelled 2
      ⟨⟨tape, functions, ⟨⟨body, i⟩ :: callers, overdrawn⟩, input, output, operations⟩,
        some table, polls⟩
      ⟨⟨tape.write (tape.current - 1), functions, ⟨⟨body, i + 2⟩ :: callers, overdrawn⟩, input,
        output, operations + 2⟩, some table, polls⟩ :=
    .step (step?_loopOpen_enter hlt rfl hx hxo hreset h0 operations polls)
      (.single (step?_dec (by omega) rfl hdec htape h0 (operations + 1) polls))
  have hcurrent := htape.current_write (tape.current - 1)
  rcases Nat.lt_or_ge tape.current 2 with hone | htwo
  · obtain hone : tape.current = 1 := by omega
    refine .inl ⟨hone, hdown.trans (.single ?_)⟩
    rw [step?_loopClose_zero hin rfl hy hyo (by omega), hone]
    rfl
  · have h0' : (tape.write (tape.current - 1)).current ≠ 0 := by omega
    exact .inr ⟨htwo, _, hdown.halts (Run.halts_of_step
      (step?_loopClose_spent rfl hin rfl hy hyo rfl h0')), rfl⟩

/-- Where no breakpoint lies inside `[-]`, an opcode does the same with and
without breakpoints. -/
theorem move?_of_not_markedReset (hp : p.Coherent) (htable : p.FitsMarks (some table)) {i : Nat}
    {op : Opcode} (hop : p.opcodes[i]? = some op)
    (h : ¬ (p.MarkedReset table i ∧ m.tape.current ≠ 0)) :
    m.move? p (p.isReset? (some table) i) true i op
      = m.move? p (p.isReset? none i) true i op := by
  by_cases henter : op.operator = .loopOpen ∧ m.tape.current ≠ 0
  · obtain ⟨ho, h0⟩ := henter
    rw [Program.isReset?_of_not_markedReset hp htable hop ho fun hmarked => h ⟨hmarked, h0⟩]
  · have hsame : ∀ reset, m.move? p reset true i op = m.move? p (some false) true i op :=
      fun _ => Machine.move?_of_not_reset fun ho h0 => absurd ⟨ho, h0⟩ henter
    rw [hsame, hsame (p.isReset? none i)]

/-- A machine that is about to leave a frame does not split a loop. -/
theorem Machine.not_splits_of_done {frame : Frame} {callers : List Frame}
    (hf : m.stack.frames = frame :: callers) (hge : frame.body.stop ≤ frame.offset) :
    ¬ m.Splits p table := by
  rintro ⟨-, i, hdue, -⟩
  unfold due? at hdue
  rw [hf] at hdue
  dsimp only at hdue
  rw [if_neg (by omega)] at hdue
  cases hdue

/-- What is split is the loop that is due. -/
theorem Machine.splits_iff {frame : Frame} {callers : List Frame}
    (hf : m.stack.frames = frame :: callers) (hlt : frame.offset < frame.body.stop) :
    m.Splits p table ↔ 2 ≤ m.tape.current ∧ p.MarkedReset table frame.offset := by
  unfold Splits
  rw [due?_of_lt hf hlt]
  simp

/-- **A step without breakpoints, and what there is with them**: the same, in
one step or three, or else a budget that is spent with fewer operations. -/
theorem compare_next (hp : p.Coherent) (hm : m.Fits p) (htable : p.FitsMarks (some table))
    {polls : Nat} {r : Run} (h : Run.step? p .cancelled ⟨m, none, polls⟩ = some (.next r))
    (polls' : Nat) :
    (¬ m.Splits p table ∧ ∃ n polls'', Run.Leads p .cancelled n ⟨m, some table, polls'⟩
        ⟨r.machine, some table, polls''⟩)
      ∨ (m.Splits p table ∧ ∃ s, Run.Halts p .cancelled ⟨m, some table, polls'⟩ .budgetSpent s
        ∧ s.machine.operations < r.machine.operations) := by
  cases Run.takes_of_step? h with
  | @left frame callers hf hge =>
    exact .inl ⟨Machine.not_splits_of_done hf hge, 1, polls', .single (Run.step?_of_done hf hge)⟩
  | @moved frame callers op m' asked hf hlt hop hmove hstops =>
    rw [Machine.splits_iff hf hlt]
    have hmove' : m.move? p (p.isReset? none frame.offset) true frame.offset op
        = some (.next m' asked) := hmove
    by_cases hloop : p.MarkedReset table frame.offset ∧ m.tape.current ≠ 0
    · obtain ⟨hmarked, h0⟩ := hloop
      -- without breakpoints the loop is one step
      obtain ⟨x, hx, hxo⟩ := Option.map_eq_some_iff.1 hmarked.opens
      rw [hop] at hx
      cases hx
      rw [(hmarked.isReset? hp htable hop).1, Machine.move?_of_reset hxo h0] at hmove'
      cases hmove'
      rcases run_markedReset hp hm htable hf hlt hmarked h0 polls' with
        ⟨hone, hleads⟩ | ⟨htwo, s, hhalts, hoperations⟩
      · exact .inl ⟨by omega, 3, polls', hleads⟩
      · refine .inr ⟨⟨htwo, hmarked⟩, s, hhalts, ?_⟩
        rw [hoperations, Machine.goto_operations]
        show m.operations + 2 < m.operations + (m.tape.current * 2 + 1)
        omega
    · refine .inl ⟨fun ⟨htwo, hmarked⟩ => hloop ⟨hmarked, by omega⟩, 1,
        if asked then polls' + 1 else polls', .single ?_⟩
      rw [step?_cancelled hf hlt hop, move?_of_not_markedReset hp htable hop hloop, hmove']
      rfl

/-- A run that halts without breakpoints does so with them. -/
theorem compare_halt (hp : p.Coherent) (htable : p.FitsMarks (some table)) {polls : Nat} {r : Run}
    {code : ExitCode} (h : Run.step? p .cancelled ⟨m, none, polls⟩ = some (.halt code r))
    (polls' : Nat) :
    ¬ m.Splits p table ∧ Run.step? p .cancelled ⟨m, some table, polls'⟩
      = some (.halt code ⟨r.machine, some table, polls'⟩) := by
  cases Run.takes_of_step? h with
  | ended hf =>
    refine ⟨?_, Run.step?_of_empty hf⟩
    rintro ⟨-, i, hdue, -⟩
    unfold Machine.due? at hdue
    rw [hf] at hdue
    cases hdue
  | paused _ hbypass => cases hbypass
  | @halted frame callers op m' code hf hlt hop hmove hstops =>
    have hmove' : m.move? p (p.isReset? none frame.offset) true frame.offset op
        = some (.halt code m') := hmove
    -- a `[` never halts
    have hnot : ¬ p.MarkedReset table frame.offset := by
      intro hmarked
      have hopens := hmarked.opens
      rw [hop] at hopens
      have ho : op.operator = .loopOpen := Option.some.inj hopens
      have hfault := (Machine.fault_of_move? hmove).1
      rw [ho] at hfault
      cases hfault
    rw [Machine.splits_iff hf hlt]
    refine ⟨fun h => hnot h.2, ?_⟩
    rw [step?_cancelled hf hlt hop, move?_of_not_markedReset hp htable hop fun h => hnot h.1, hmove']
    rfl

/-- **The run with breakpoints and the run without.**  If the run without
reaches a loop that is split, the one with breakpoints ends there; otherwise
they end alike. -/
theorem compare_tables (hp : p.Coherent) (htable : p.FitsMarks (some table)) {code : ExitCode}
    {r : Run} (n : Nat) : ∀ {m : Machine} {polls : Nat} (polls' : Nat), m.Fits p →
      Run.steps p .cancelled n ⟨m, none, polls⟩ = .halted code r →
      ((∀ k s, Run.Leads p .cancelled k ⟨m, none, polls⟩ s → ¬ s.machine.Splits p table)
          ∧ ∃ polls'', Run.Halts p .cancelled ⟨m, some table, polls'⟩ code
            ⟨r.machine, some table, polls''⟩)
        ∨ ((∃ k s, Run.Leads p .cancelled k ⟨m, none, polls⟩ s ∧ s.machine.Splits p table)
          ∧ ∃ s, Run.Halts p .cancelled ⟨m, some table, polls'⟩ .budgetSpent s
            ∧ s.machine.operations < r.machine.operations) := by
  -- by the steps that the run without breakpoints makes
  induction n with
  | zero =>
    intro m polls polls' _ hr
    cases hr
  | succ n ih =>
    intro m polls polls' hm hr
    have hnone : p.FitsMarks none := trivial
    obtain ⟨step, hstep⟩ := Option.isSome_iff_exists.1
      (hm.step?_isSome (r := ⟨m, none, polls⟩) hp hnone .cancelled)
    cases step with
    | halt code₁ r₁ =>
      rw [Run.steps_of_halt hstep] at hr
      cases hr
      obtain ⟨hnot, hend⟩ := compare_halt hp htable hstep polls'
      refine .inl ⟨?_, polls', Run.halts_of_step hend⟩
      intro k s hleads
      cases k with
      | zero =>
        cases hleads
        exact hnot
      | succ k =>
        rw [Run.Leads, Run.steps_of_halt hstep] at hleads
        cases hleads
    | next r₁ =>
      rw [Run.steps_of_next hstep] at hr
      have hm₁ : r₁.machine.Fits p := hm.step hp hstep
      rcases compare_next hp hm htable hstep polls' with
        ⟨hnot, n₁, polls₁, hleads⟩ | ⟨hsplits, s, hhalts, hless⟩
      · obtain ⟨m₁, marks₁, polls₁'⟩ := r₁
        obtain rfl : marks₁ = none := Run.marks_of_next hstep
        rcases ih polls₁ hm₁ hr with
          ⟨hnever, polls'', hhalts⟩ | ⟨⟨k, s, hs, hsplits⟩, s', hhalts, hless⟩
        · refine .inl ⟨?_, polls'', hleads.halts hhalts⟩
          intro k s hs
          cases k with
          | zero =>
            cases hs
            exact hnot
          | succ k =>
            rw [Run.Leads, Run.steps_of_next hstep] at hs
            exact hnever k s hs
        · exact .inr ⟨⟨k + 1, s, .step hstep hs, hsplits⟩, s', hleads.halts hhalts, hless⟩
      · -- operations are only added to from here on
        have hgrows : r₁.machine.Precedes r.machine :=
          Run.keeps_of_halted (fun h hstep => h.trans (.of_step hstep)) n (.refl _) hr
        exact .inr ⟨⟨0, _, .refl _, hsplits⟩, s, hhalts, Nat.lt_of_lt_of_le hless hgrows.operations⟩

/-- Without marks nothing is split. -/
theorem Machine.not_splits_replicate (size : Nat) (m : Machine) :
    ¬ m.Splits p (Array.replicate size false) := by
  rintro ⟨-, i, -, hmarked⟩
  have hmark := hmarked.mark
  simp only [Array.getElem?_replicate] at hmark
  rcases hmark with h | h <;> split at h <;> cases h

/-- A run with a table that has no marks ends like the one without. -/
theorem halts_of_unmarked (hp : p.Balanced) (hm : m.Fits p) {code : ExitCode} {r : Run}
    {polls : Nat}
    (h : Run.Halts p .cancelled ⟨m, some (Array.replicate p.size false), polls⟩ code r) :
    ∃ r', Run.Halts p .cancelled ⟨m, none, 0⟩ code r' ∧ r'.machine = r.machine := by
  have hnone : p.FitsMarks none := trivial
  have htable : p.FitsMarks (some (Array.replicate p.size false)) := Array.size_replicate
  obtain ⟨code', r', n, hn⟩ := Run.halts_of_spent (t := .cancelled) hp (fun _ => rfl)
    (r := ⟨m, none, 0⟩) hm hnone
  rcases compare_tables hp.toCoherent htable n polls hm hn with
    ⟨-, polls', hends⟩ | ⟨⟨k, s, -, hsplits⟩, -⟩
  · obtain ⟨rfl, rfl⟩ := h.unique hends
    exact ⟨r', ⟨n, hn⟩, rfl⟩
  · exact absurd hsplits (Machine.not_splits_replicate _ _)

end Compare

/-- The cancelled run without breakpoints reaches a loop that is split. -/
def Machine.ComesToSplit (p : Program) (table : Array Bool) (m : Machine) : Prop :=
  ∃ n r, Run.Leads p .cancelled n ⟨m, none, 0⟩ r ∧ r.machine.Splits p table

/-! ## §4. Sessions. -/

namespace Session

/-- Calls of `continue?` in a row with the budget spent, `n` of them.  The
report is the last one's. -/
inductive CancelledCalls : Nat → Session → Session → Report → Prop
  | last {fuel : Nat} {s s' : Session} {report : Report}
      (call : s.continue? .spent fuel = some (s', report)) : CancelledCalls 1 s s' report
  | more {n fuel : Nat} {s s₁ s' : Session} {earlier report : Report}
      (call : s.continue? .spent fuel = some (s₁, earlier))
      (rest : CancelledCalls n s₁ s' report) : CancelledCalls (n + 1) s s' report

theorem CancelledCalls.pos {n : Nat} {s s' : Session} {report : Report}
    (h : CancelledCalls n s s' report) : 0 < n := by
  cases h <;> exact Nat.succ_pos _

/-- A completed session stays as it is. -/
theorem CancelledCalls.of_isCompleted {n : Nat} {s s' : Session} {report : Report}
    (h : CancelledCalls n s s' report) (hdone : s.isCompleted) :
    s.withReport? = some (s', report) := by
  induction h with
  | last hcall =>
    rw [continue?, resume?_of_isCompleted hdone] at hcall
    exact hcall
  | more hcall _ ih =>
    rw [continue?, resume?_of_isCompleted hdone] at hcall
    obtain ⟨rfl, -⟩ := withReport?_eq_some hcall
    exact ih hdone

/-- The session runs its script, and ahead of its machine there are the
breakpoints of `base`. -/
structure Heeds (source : String) (p : Program) (base : Array Bool) (s : Session) : Prop where
  source : s.job.source = source
  program : s.job.program = p
  marks : p.FitsMarks (some s.marks)
  fits : s.job.machine.Fits p
  ahead : s.job.machine.AgreesAhead s.marks base

section Heeds

variable {source : String} {p : Program} {base : Array Bool} {s : Session}
  (hp : p.Balanced) {fuel : Nat} {code : ExitCode} {r : Run}

/-- The report after a call is on the machine that it left. -/
theorem Heeds.build?_of_settle (h : Heeds source p base s) {s' : Session} {report : Report}
    (hreport : (s.settle code r {}).withReport? = some (s', report)) :
    Report.build? source p r.machine code {} = some report.untimed := by
  obtain ⟨-, code', hcode', hbuild⟩ := withReport?_eq_some hreport
  cases hcode'
  rw [← Report.build?_untimed source p r.machine code (s.settle code r {}).elapsed,
    ← h.source, ← h.program]
  exact congrArg (Option.map Report.untimed) hbuild

include hp

/-- **A cancelled call is a stretch of the run past the breakpoints.**  If it
paused, there is one breakpoint less, and else the run ends there. -/
theorem Heeds.settle (h : Heeds source p base s)
    (hcall : s.call false .spent fuel = .halted code r) (polls : Nat) :
    (code = .breakpoint ∧ Heeds source p base (s.settle code r {})
        ∧ (s.settle code r {}).marks.count true + 1 = s.marks.count true
        ∧ ∃ n polls', Run.Leads p .cancelled n ⟨s.job.machine, some base, polls⟩
          ⟨r.machine, some base, polls'⟩)
      ∨ (code ≠ .breakpoint ∧ ∃ polls', Run.Halts p .cancelled
          ⟨s.job.machine, some base, polls⟩ code ⟨r.machine, some base, polls'⟩) := by
  unfold call at hcall
  rw [h.program] at hcall
  obtain ⟨hfits, -⟩ := Machine.Fits.halted hp.toCoherent
    (r := ⟨s.job.machine, some s.marks, 0⟩) h.fits h.marks hcall
  have hstart : Accompanies p s.marks base ⟨s.job.machine, some s.marks, 0⟩
      ⟨s.job.machine, some base, polls⟩ := ⟨rfl, rfl, rfl, h.fits, h.ahead⟩
  obtain ⟨n, ⟨m₁, marks₁, polls₁⟩, hleads, hend⟩ :=
    (simulation_cancelled hp h.marks).forward hstart ⟨fuel, hcall⟩
  rcases hend with ⟨rfl, hm, hmarks, i, hmark, hr, hahead⟩ | ⟨hcode, hstep⟩
  · -- a pause: the run stands at the same machine, and the mark lies behind it
    obtain rfl : m₁ = r.machine := hm
    obtain rfl : marks₁ = some base := hmarks
    have htable : (s.settle .breakpoint r {}).marks = s.marks.setIfInBounds i false := by
      simp only [Session.settle, hr, Option.getD_some]
    refine .inl ⟨rfl, ⟨h.source, h.program, ?_, hfits, ?_⟩, ?_, n, polls₁, hleads⟩
    · rw [htable]
      exact (Array.size_setIfInBounds ..).trans h.marks
    · rw [htable]
      exact hahead
    · rw [htable, count_clear hmark]
  · exact .inr ⟨hcode, polls₁, hleads.halts (Run.halts_of_step hstep)⟩

/-- **A cancelled call returns.** -/
theorem Heeds.exists_continue (h : Heeds source p base s) (hopen : s.isCompleted = false) :
    ∃ fuel code r report, s.call false .spent fuel = .halted code r
      ∧ s.continue? .spent fuel = some (s.settle code r {}, report) := by
  obtain ⟨code, r, fuel, hfuel⟩ := Run.halts_of_spent
    (t := { bypass := false, budget := .spent }) hp (fun _ => rfl)
    (r := ⟨s.job.machine, some s.marks, 0⟩) h.fits h.marks
  obtain ⟨hfits, hrests⟩ := Machine.Fits.halted hp.toCoherent
    (r := ⟨s.job.machine, some s.marks, 0⟩) h.fits h.marks hfuel
  have hcall : s.call false .spent fuel = .halted code r := by
    unfold call
    rw [h.program]
    exact hfuel
  obtain ⟨report, hreport⟩ := Option.isSome_iff_exists.1
    (Report.build?_isSome hp hfits hrests source (s.settle code r {}).elapsed)
  refine ⟨fuel, code, r, report, hcall, resume?_of_call hopen hcall ?_⟩
  rw [← h.source, ← h.program] at hreport
  exact hreport

/-- **Cancelled calls complete a session**, one call for each breakpoint that
is met and one more. -/
theorem Heeds.exists_calls (h : Heeds source p base s) (hopen : s.isCompleted = false) :
    ∃ n s' report, n ≤ s.marks.count true + 1 ∧ CancelledCalls n s s' report
      ∧ s'.isCompleted := by
  -- by the number of breakpoints that are left
  induction hcount : s.marks.count true using Nat.strongRecOn generalizing s with
  | ind count ih =>
    obtain ⟨fuel, code, r, report, hcall, hcontinue⟩ := h.exists_continue hp hopen
    rcases h.settle hp hcall 0 with ⟨rfl, hheeds, hless, -⟩ | ⟨hcode, -⟩
    · have hopen' : (s.settle .breakpoint r {}).isCompleted = false := rfl
      obtain ⟨n, s', report', hn, hrest, hdone⟩ := ih _ (by omega) hheeds hopen' rfl
      exact ⟨n + 1, s', report', by omega, .more hcontinue hrest, hdone⟩
    · exact ⟨1, _, report, by omega, .last hcontinue, isCompleted_settle hcode r {}⟩

/-- **The report that completes a cancelled session** is the report on the
end of the run past its breakpoints. -/
theorem Heeds.report {n : Nat} {s' : Session} {report : Report}
    (hcalls : CancelledCalls n s s' report) (h : Heeds source p base s)
    (hopen : s.isCompleted = false) (hdone : s'.isCompleted) (polls : Nat) :
    ∃ code m polls', Run.Halts p .cancelled ⟨s.job.machine, some base, polls⟩ code
        ⟨m, some base, polls'⟩
      ∧ Report.build? source p m code {} = some report.untimed := by
  -- the run is cut at the pauses, and a later part starts where the earlier one paused
  induction hcalls generalizing polls with
  | last hcall =>
    obtain ⟨code, r, hhalted, rfl, hreport⟩ := resume?_eq_some hopen hcall
    rcases h.settle hp hhalted polls with ⟨rfl, -⟩ | ⟨-, polls', hhalts⟩
    · cases hdone
    · exact ⟨code, r.machine, polls', hhalts, h.build?_of_settle hreport⟩
  | more hcall hrest ih =>
    obtain ⟨code, r, hhalted, rfl, -⟩ := resume?_eq_some hopen hcall
    rcases h.settle hp hhalted polls with
      ⟨rfl, hheeds, -, k, polls', hleads⟩ | ⟨hcode, polls', hhalts⟩
    · obtain ⟨code', m, polls'', hhalts, hbuild⟩ := ih hheeds rfl hdone polls'
      exact ⟨code', m, polls'', hleads.halts hhalts, hbuild⟩
    · have hreport := hrest.of_isCompleted (isCompleted_settle hcode r {})
      exact ⟨code, r.machine, polls', hhalts, h.build?_of_settle hreport⟩

end Heeds

section Create

variable {config : Config} {source input : String} {p : Program} {s : Session}

/-- A session that was just started heeds all its breakpoints. -/
theorem exists_heeds {breakpoints : List Nat} (hprogram : Program.compile .plain source = .ok p)
    (hsize : Tape.AllowedSize config.tapeSize)
    (hbreakpoints : ∀ offset ∈ breakpoints, offset < source.length) (input : String) :
    ∃ s, create config source breakpoints input = .ok s ∧ s.isCompleted = false
      ∧ s.job.machine
        = .load p (.blank config.tapeSize config.mode) input config.outputLimit
      ∧ Heeds source p s.marks s := by
  obtain ⟨s, hs, hopen, htracks⟩ := exists_create hprogram hsize hbreakpoints input
  have hmachine : s.job.machine
      = .load p (.blank config.tapeSize config.mode) input config.outputLimit := by
    rw [job_of_create hprogram hs]
  refine ⟨s, hs, hopen, hmachine,
    ⟨htracks.source, htracks.program, htracks.marks, htracks.fits, ?_⟩⟩
  rw [hmachine]
  exact .inr ⟨_, rfl, fun _ _ => rfl⟩

/-- A session without breakpoints has no mark. -/
theorem marks_of_create (hprogram : Program.compile .plain source = .ok p)
    (h : create config source [] input = .ok s) : s.marks = Array.replicate p.size false := by
  unfold create ofProgram at h
  rw [hprogram] at h
  simp only [bind, Except.bind, placeBreakpoints] at h
  split at h
  · cases h
  · cases h
    rfl

end Create

end Session

/-! ## §5. The result. -/

/-- **Breakpoints and a cancelled session.**  `continue?` completes a
cancelled session in at most one call more than there are marked operators,
and one without breakpoints at once.  The last report is that of the session
without breakpoints, but for the time, unless the run of the latter reaches
a `[-]` with a breakpoint inside and a cell of two or more; then the session
with breakpoints ends for its budget, with fewer operations. -/
theorem cancelled_sessions_agree_unless_split (config : Config) (source input : String)
    (breakpoints : List Nat) (hsource : (Script.validate source).isSuccess)
    (hconfig : Tape.AllowedSize config.tapeSize)
    (hbreakpoints : ∀ offset ∈ breakpoints, offset < source.length) :
    ∃ p s s₀, Program.compile .plain source = .ok p
      ∧ Session.create config source breakpoints input = .ok s
      ∧ Session.create config source [] input = .ok s₀
      ∧ (∃ n s' report, n ≤ s.marks.count true + 1 ∧ s.CancelledCalls n s' report
          ∧ s'.isCompleted)
      ∧ (∃ s₀' report₀, s₀.CancelledCalls 1 s₀' report₀ ∧ s₀'.isCompleted)
      ∧ ∀ n n₀ s' s₀' report report₀, s.CancelledCalls n s' report → s'.isCompleted →
          s₀.CancelledCalls n₀ s₀' report₀ → s₀'.isCompleted →
          (¬ s₀.job.machine.ComesToSplit p s.marks → report.untimed = report₀.untimed)
            ∧ (s₀.job.machine.ComesToSplit p s.marks →
              report.exitCode = .budgetSpent ∧ report.operations < report₀.operations) := by
  obtain ⟨b, ⟨hitems, -⟩, hb⟩ := Script.validate_isSuccess_iff.1 hsource
  have hprogram := Program.compile_of_isSuccess hsource .plain
  have hp := Program.balanced_plain hitems hb (Script.validate source).count
  obtain ⟨s, hs, hopen, hmachine, hheeds⟩ :=
    Session.exists_heeds hprogram hconfig hbreakpoints input
  obtain ⟨s₀, hs₀, hopen₀, hmachine₀, hheeds₀⟩ :=
    Session.exists_heeds hprogram hconfig (fun _ h => absurd h List.not_mem_nil) input
  have hmarks₀ := Session.marks_of_create hprogram hs₀
  refine ⟨_, s, s₀, hprogram, hs, hs₀, hheeds.exists_calls hp hopen, ?_, ?_⟩
  · -- with no mark one call is enough
    obtain ⟨n, s₀', report₀, hn, hcalls, hdone⟩ := hheeds₀.exists_calls hp hopen₀
    have hcount : s₀.marks.count true = 0 := by rw [hmarks₀, Array.count_replicate]; rfl
    have hpos := hcalls.pos
    obtain rfl : n = 1 := by omega
    exact ⟨s₀', report₀, hcalls, hdone⟩
  · intro n n₀ s' s₀' report report₀ hcalls hdone hcalls₀ hdone₀
    obtain ⟨code, m, polls, hhalts, hbuild⟩ := hheeds.report hp hcalls hopen hdone 0
    obtain ⟨code₀, m₀, polls₀, hhalts₀, hbuild₀⟩ := hheeds₀.report hp hcalls₀ hopen₀ hdone₀ 0
    rw [hmachine, ← hmachine₀] at hhalts
    -- both are compared with the run that knows of no breakpoints
    rw [hmarks₀] at hhalts₀
    obtain ⟨r₁, ⟨k, hk⟩, rfl⟩ := halts_of_unmarked hp hheeds₀.fits hhalts₀
    rcases compare_tables hp.toCoherent hheeds.marks k 0 hheeds₀.fits hk with
      ⟨hnever, polls', hends⟩ | ⟨hcomes, r, hends, hless⟩
    · refine ⟨fun _ => ?_, fun ⟨k', r, hr, hsplits⟩ => absurd hsplits (hnever k' r hr)⟩
      obtain ⟨rfl, hrun⟩ := hhalts.unique hends
      obtain rfl : m = r₁.machine := congrArg Run.machine hrun
      rw [hbuild₀] at hbuild
      exact (Option.some.inj hbuild).symm
    · refine ⟨fun hnot => absurd hcomes hnot, fun _ => ?_⟩
      obtain ⟨rfl, hrun⟩ := hhalts.unique hends
      obtain rfl : m = r.machine := congrArg Run.machine hrun
      have hoperations : report.operations = r.machine.operations :=
        (Report.contents_of_build? hbuild).2.2
      have hoperations₀ : report₀.operations = r₁.machine.operations :=
        (Report.contents_of_build? hbuild₀).2.2
      refine ⟨(Report.parts_of_build? hbuild).2.2, ?_⟩
      rw [hoperations, hoperations₀]
      exact hless

/-- A breakpoint inside each of two `[-]`: the first has one round to go and
is no loss, the second has three. -/
theorem cancelled_sessions_agree_unless_split_twice :
    (Script.validate "+[-]+++[-]").isSuccess
      ∧ ∃ p s s₀ s' s₀' report report₀, Program.compile .plain "+[-]+++[-]" = .ok p
        ∧ Session.create {} "+[-]+++[-]" [2, 9] "" = .ok s
        ∧ Session.create {} "+[-]+++[-]" [] "" = .ok s₀
        ∧ s.CancelledCalls 3 s' report ∧ s'.isCompleted
        ∧ s₀.CancelledCalls 1 s₀' report₀ ∧ s₀'.isCompleted
        ∧ s₀.job.machine.ComesToSplit p s.marks
        ∧ report.exitCode = .budgetSpent ∧ report.operations < report₀.operations := by
  have hpass : (Script.validate "+[-]+++[-]").isSuccess := by decide
  have hrun : ((Session.create {} "+[-]+++[-]" [2, 9] "").toOption.bind fun s =>
      (s.continue? .spent 20).bind fun first =>
      (first.1.continue? .spent 20).bind fun second =>
      (second.1.continue? .spent 20).map fun third =>
        (third.1.isCompleted, third.2.exitCode)) = some (true, .budgetSpent) := by decide +kernel
  have hrun₀ : ((Session.create {} "+[-]+++[-]" [] "").toOption.bind fun s₀ =>
      (s₀.continue? .spent 20).map fun only =>
        (only.1.isCompleted, only.2.exitCode)) = some (true, .success) := by decide +kernel
  obtain ⟨p, s, s₀, hp, hs, hs₀, -, -, hagree⟩ := cancelled_sessions_agree_unless_split {}
    "+[-]+++[-]" "" [2, 9] hpass (by decide) (by decide)
  replace hrun := seen_of_ok hrun hs
  obtain ⟨⟨s₁, report₁⟩, hcall₁, hrun⟩ := Option.bind_eq_some_iff.1 hrun
  obtain ⟨⟨s₂, report₂⟩, hcall₂, hrun⟩ := Option.bind_eq_some_iff.1 hrun
  obtain ⟨⟨s', report⟩, hcall, hend⟩ := Option.map_eq_some_iff.1 hrun
  replace hrun₀ := seen_of_ok hrun₀ hs₀
  obtain ⟨⟨s₀', report₀⟩, hcall₀, hend₀⟩ := Option.map_eq_some_iff.1 hrun₀
  simp only [Prod.mk.injEq] at hend hend₀
  have hcalls : s.CancelledCalls 3 s' report := .more hcall₁ (.more hcall₂ (.last hcall))
  obtain ⟨hsame, hsplit⟩ := hagree 3 1 s' s₀' report report₀ hcalls hend.1 (.last hcall₀) hend₀.1
  -- the codes differ, so there is a loop that is split
  have hcomes : s₀.job.machine.ComesToSplit p s.marks := by
    refine Classical.byContradiction fun hnot => ?_
    have hcode : report.untimed.exitCode = report₀.untimed.exitCode := by rw [hsame hnot]
    simp only [Report.untimed] at hcode
    rw [hend.2, hend₀.2] at hcode
    cases hcode
  exact ⟨hpass, p, s, s₀, s', s₀', report, report₀, hp, hs, hs₀, hcalls, hend.1, .last hcall₀,
    hend₀.1, hcomes, hsplit hcomes⟩

/-- A breakpoint inside `[-]` can change how a cancelled session ends: with
one on the `-`, its budget is spent before the second round, and without, the
script runs to its end. -/
theorem cancelled_outcome_depends_on_breakpoints :
    ((Session.create {} "++[-]" [3] "").toOption.bind fun s =>
        (s.continue? .spent 20).bind fun first =>
        (first.1.continue? .spent 20).map fun second =>
          (second.1.isCompleted, second.2.exitCode, second.2.tape.current, second.2.operations))
        = some (true, .budgetSpent, 1, 4)
      ∧ ((Session.create {} "++[-]" [] "").toOption.bind fun s₀ =>
        (s₀.continue? .spent 20).map fun only =>
          (only.1.isCompleted, only.2.exitCode, only.2.tape.current, only.2.operations))
        = some (true, .success, 0, 7) := by
  decide +kernel

end TapeMachine
