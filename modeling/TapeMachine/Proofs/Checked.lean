/-
  TapeMachine.Proofs.Checked
  ──────────────────────────
  **THE ENGINE WITH EVERY CHECK ON.**

  A tape's operations are total: a cell that is not there reads as 0, and
  what is taken away from too little leaves 0.  The checked engine has no
  such way out.  Where an index is not in its table, or more is taken away
  than there is, it has no step:

      opcodes, partners, breakpoints   `[i]?`, met or bypassed
      cells                            `Tape.read?`, `Tape.overwrite?`
      subtraction                      `minus?`
      the 65536 keys of functions      `FunctionTable.checkedGet?`, `checkedDefine?`
      the 512 frames                   `CallStack.checkedActive?`, `checkedPush?`

  On a machine that belongs to its program (`Machine.Fits`) and whose frames
  have their places (`CallStack.Housed`) it makes the same steps as the
  engine (`Run.checked?_eq`), so no check ever fails: `checks_never_fail`,
  for programs of any text, balanced or not, and calls of any kind in a row.
-/
import TapeMachine.Proofs.Packing
import TapeMachine.Proofs.Reports

namespace TapeMachine

/-! ## §1. Checked operations. -/

/-- `a - b`, if there is that much to take away. -/
def minus? (a b : Nat) : Option Nat := if b ≤ a then some (a - b) else none

theorem minus?_eq {a b : Nat} (h : b ≤ a) : minus? a b = some (a - b) := if_pos h

namespace Tape

/-- The value of the current cell, if the pointer is on one. -/
def read? (t : Tape) : Option Nat := t.cells[t.pointer]?

/-- Sets the current cell, if the pointer is on one. -/
def overwrite? (t : Tape) (value : Nat) : Option Tape :=
  if t.pointer < t.cells.size then some (t.write value) else none

/-- `forward`, checked. -/
def forward? (t : Tape) (n : Nat) : Option Stride := do
  let last ← minus? t.cells.size 1
  let room ← minus? last t.pointer
  return ⟨{ t with pointer := t.pointer + min n room }, min n room⟩

/-- `backward`, checked. -/
def backward? (t : Tape) (n : Nat) : Option Stride := do
  let pointer ← minus? t.pointer (min n t.pointer)
  return ⟨{ t with pointer }, min n t.pointer⟩

/-- `increase`, checked. -/
def increase? (t : Tape) (n : Nat) : Option Stride := do
  let value ← t.read?
  if t.mode.wraps then
    let t' ← t.overwrite? ((value + n) % t.mode.modulus)
    return ⟨t', n⟩
  else
    let room ← minus? t.mode.max value
    let t' ← t.overwrite? (value + min n room)
    return ⟨t', min n room⟩

/-- `decrease`, checked. -/
def decrease? (t : Tape) (n : Nat) : Option Stride := do
  let value ← t.read?
  if t.mode.wraps then
    let less ← minus? (value + t.mode.modulus) (n % t.mode.modulus)
    let t' ← t.overwrite? (less % t.mode.modulus)
    return ⟨t', n⟩
  else
    let less ← minus? value (min n value)
    let t' ← t.overwrite? less
    return ⟨t', min n value⟩

/-- `store?`, checked: what it refuses needs no cell. -/
def checkedStore? (t : Tape) (c : Char) : Option (Option Tape) :=
  if c.toNat ≤ t.mode.max then (t.overwrite? c.toNat).map some
  else if t.mode.wraps then (t.overwrite? (c.toNat % t.mode.modulus)).map some
  else some none

end Tape

namespace FunctionTable

/-- How many keys there are: one for each value of the widest cell. -/
def keys : Nat := 65536

/-- `get?`, checked. -/
def checkedGet? (f : FunctionTable) (key : Nat) : Option (Option Span) :=
  if key < keys then some (f.get? key) else none

/-- `define?`, checked. -/
def checkedDefine? (f : FunctionTable) (e : FunctionEntry) (body : Span) :
    Option (Option FunctionTable) :=
  if e.key < keys then some (f.define? e body) else none

end FunctionTable

namespace CallStack

/-- The running frame, if its number is that of a place. -/
def checkedActive? (s : CallStack) : Option Frame :=
  if 0 ≤ s.depth ∧ s.depth < capacity then s.active? else none

/-- `push?`, checked: the caller and the frame after it both have a place. -/
def checkedPush? (s : CallStack) (resume : Nat) (body : Span) : Option CallStack :=
  if 0 ≤ s.depth ∧ s.depth + 1 < capacity then s.push? resume body else none

end CallStack

/-! ## §2. The checked engine. -/

/-- A breakpoint is looked up before it is asked whether it is to be met. -/
def Terms.checkedStops? (t : Terms) (marks : Option (Array Bool)) (i : Nat) : Option Bool :=
  match marks with
  | none => some false
  | some table => table[i]?.map fun mark => mark && !t.bypass

namespace Machine

/-- A counted operator, checked. -/
def checkedStride? (m : Machine) (i n : Nat) (f : Tape → Nat → Option Tape.Stride)
    (fault : ExitCode) : Option Move :=
  (f m.tape n).map fun s => .ofStride fault (m.stride i n fun _ _ => s)

/-- `move?`, checked. -/
def checkedMove? (p : Program) (reset : Option Bool) (spent : Bool) (i : Nat) (op : Opcode)
    (m : Machine) : Option Move :=
  match op.operator with
  | .right => m.checkedStride? i op.count Tape.forward? .pastEnd
  | .left => m.checkedStride? i op.count Tape.backward? .beforeStart
  | .inc => m.checkedStride? i op.count Tape.increase? .aboveMaximum
  | .dec => m.checkedStride? i op.count Tape.decrease? .belowZero
  | .put => do
    let value ← m.tape.read?
    match m.output.write? value with
    | none => return .halt .outputFull m
    | some output => return .next (({ m.credit 1 with output } : Machine).goto (i + 1)) false
  | .get =>
    match m.input.read? with
    | none => some (.halt .inputExhausted m)
    | some (c, input) => do
      match ← m.tape.checkedStore? c with
      | none => return .halt .aboveMaximum { m with input }
      | some tape => return .next (({ m.credit 1 with tape, input } : Machine).goto (i + 1)) false
  | .loopOpen => do
    let value ← m.tape.read?
    if value = 0 then
      let partner ← p.partners[i]?
      return .next ((m.credit 1).goto (partner + 1)) false
    else
      match ← reset with
      | true =>
        let tape ← m.tape.overwrite? 0
        return .next (({ m.credit (value * 2 + 1) with tape } : Machine).goto (i + 3)) false
      | false => return .next ((m.credit 1).goto (i + 1)) false
  | .loopClose => do
    let value ← m.tape.read?
    if value = 0 then return .next ((m.credit 1).goto (i + 1)) false
    else if spent then return .halt .budgetSpent m
    else
      let partner ← p.partners[i]?
      return .next ((m.credit 1).goto (partner + 1)) true
  | .bodyOpen => do
    let key ← m.tape.read?
    let stop ← p.partners[i]?
    match ← m.functions.checkedDefine? ⟨key, i⟩ ⟨i + 1, stop⟩ with
    | none => return .halt .alreadyDefined m
    | some functions =>
      return .next (({ m.credit 1 with functions } : Machine).goto (stop + 1)) false
  | .bodyClose => some (.next (m.goto (i + 1)) false)
  | .call => do
    let key ← m.tape.read?
    match ← m.functions.checkedGet? key with
    | none => return .halt .undefinedFunction m
    | some body =>
      if m.stack.isFull then return .halt .stackFull m
      else if spent then return .halt .budgetSpent m
      else
        let stack ← m.stack.checkedPush? (i + 1) body
        return .next { m.credit 1 with stack } true

end Machine

namespace Run

/-- `step?`, checked. -/
def checked? (p : Program) (t : Terms) (r : Run) : Option Step :=
  if r.machine.stack.isEmpty then some (.halt .success r)
  else do
    let frame ← r.machine.stack.checkedActive?
    if frame.offset < frame.body.stop then
      match ← t.checkedStops? r.marks frame.offset with
      | true =>
        let marks := r.marks.map (·.setIfInBounds frame.offset false)
        return .halt .breakpoint ⟨r.machine, marks, r.polls⟩
      | false =>
        let op ← p.opcodes[frame.offset]?
        let move ← r.machine.checkedMove? p (t.resets? p r.marks frame.offset)
          (t.budget r.polls) frame.offset op
        return move.toStep r.marks r.polls
    else return .next ⟨{ r.machine with stack := r.machine.stack.pop }, r.marks, r.polls⟩

/-- `steps`, checked. -/
def checkedSteps (p : Program) (t : Terms) : (fuel : Nat) → Run → Outcome
  | 0, r => .unfinished r
  | fuel + 1, r =>
    match r.checked? p t with
    | none => .stuck
    | some (.halt code r') => .halted code r'
    | some (.next r') => r'.checkedSteps p t fuel

end Run

/-- `execute`, checked. -/
def Machine.checkedExecute (p : Program) (t : Terms) (marks : Option (Array Bool)) (fuel : Nat)
    (m : Machine) : Outcome :=
  Run.checkedSteps p t fuel ⟨m, marks, 0⟩

/-! ## §3. On a well-formed tape the checks of its operations pass. -/

/-- A step back is never taken from the first cell, on any tape. -/
theorem Tape.backward?_eq (t : Tape) (n : Nat) : t.backward? n = some (t.backward n) := by
  unfold backward?
  rw [minus?_eq (Nat.min_le_right _ _)]
  rfl

namespace Tape.WellFormed

variable {t : Tape}

theorem read?_eq (h : t.WellFormed) : t.read? = some t.current := by
  have hlt : t.pointer < t.cells.size := h.pointer_lt
  unfold read? current
  rw [Array.getElem?_eq_getElem hlt, Array.getD_eq_getD_getElem?, Array.getElem?_eq_getElem hlt]
  rfl

theorem overwrite?_eq (h : t.WellFormed) (v : Nat) : t.overwrite? v = some (t.write v) :=
  if_pos h.pointer_lt

theorem forward?_eq (h : t.WellFormed) (n : Nat) : t.forward? n = some (t.forward n) := by
  have hlt : t.pointer < t.cells.size := h.pointer_lt
  unfold forward?
  rw [minus?_eq (show 1 ≤ t.cells.size by omega)]
  simp only [Option.bind_eq_bind, Option.bind_some,
    minus?_eq (show t.pointer ≤ t.cells.size - 1 by omega)]
  rfl

theorem increase?_eq (h : t.WellFormed) (n : Nat) : t.increase? n = some (t.increase n) := by
  unfold increase? increase
  simp only [h.read?_eq, h.overwrite?_eq, minus?_eq h.current_le, Option.bind_eq_bind,
    Option.bind_some]
  split <;> rfl

theorem decrease?_eq (h : t.WellFormed) (n : Nat) : t.decrease? n = some (t.decrease n) := by
  -- less than the modulus is taken from the modulus and the value together
  have hmod : n % t.mode.modulus ≤ t.current + t.mode.modulus :=
    Nat.le_trans (Nat.le_of_lt (Nat.mod_lt _ (Nat.succ_pos _))) (Nat.le_add_left _ _)
  unfold decrease? decrease
  simp only [h.read?_eq, h.overwrite?_eq, minus?_eq hmod, minus?_eq (Nat.min_le_right _ _),
    Option.bind_eq_bind, Option.bind_some]
  split <;> rfl

theorem checkedStore?_eq (h : t.WellFormed) (c : Char) :
    t.checkedStore? c = some (t.store? c) := by
  unfold checkedStore? Tape.store?
  simp only [h.overwrite?_eq, Option.map_some]
  split
  · rfl
  · split <;> rfl

/-- Every value of a cell is a key. -/
theorem current_lt_keys (h : t.WellFormed) : t.current < FunctionTable.keys := by
  have hle := h.current_le
  have hmax : t.mode.max < FunctionTable.keys := by cases t.mode <;> decide
  omega

end Tape.WellFormed

/-! ## §4. Every frame has its place. -/

namespace CallStack

/-- No more frames than places, and none was taken from an empty stack. -/
structure Housed (s : CallStack) : Prop where
  room : s.frames.length ≤ capacity
  overdrawn : s.overdrawn = 0

variable {s : CallStack} {frame : Frame} {callers : List Frame}

/-- Then the depth counts the callers of the running frame. -/
theorem Housed.depth_eq (h : s.Housed) (hf : s.frames = frame :: callers) :
    s.depth = callers.length := by
  unfold depth
  rw [h.overdrawn, hf, List.length_cons]
  omega

theorem Housed.checkedActive?_eq (h : s.Housed) (hf : s.frames = frame :: callers) :
    s.checkedActive? = some frame := by
  have hroom := h.room
  rw [hf, List.length_cons] at hroom
  unfold checkedActive?
  rw [h.depth_eq hf, if_pos (by omega), active?, hf]
  rfl

theorem Housed.checkedPush?_eq (h : s.Housed) (hf : s.frames = frame :: callers)
    (hfull : s.isFull = false) (resume : Nat) (body : Span) :
    s.checkedPush? resume body = s.push? resume body := by
  have hlt : callers.length + 1 < capacity := by
    simpa [isFull, hf] using hfull
  unfold checkedPush?
  rw [h.depth_eq hf, if_pos (by omega)]

end CallStack

/-- **A step keeps the frames in their places.** -/
theorem CallStack.Housed.step {p : Program} {t : Terms} {r : Run} {step : Step}
    (h : r.machine.stack.Housed) (hstep : r.step? p t = some step) :
    step.run.machine.stack.Housed := by
  obtain ⟨m, marks, polls⟩ := r
  -- the same number of frames, or one more if there is room
  have hmove : ∀ {frame : Frame} {callers : List Frame} {reset : Option Bool} {spent : Bool}
      {i : Nat} {op : Opcode} {move : Move}, m.stack.frames = frame :: callers →
      m.move? p reset spent i op = some move → move.machine.stack.Housed := by
    intro frame callers reset spent i op move hf hmove
    obtain ⟨-, hcontrol, hoverdrawn⟩ := Machine.does_of_move? hf hmove
    have hroom := h.room
    rw [hf, List.length_cons] at hroom
    refine ⟨?_, hoverdrawn.trans h.overdrawn⟩
    cases move with
    | halt code m' =>
      rw [Move.machine, hcontrol.2.2]
      exact h.room
    | next m' asked =>
      rcases hcontrol with ⟨-, j, -, hframes⟩ | ⟨-, stop, -, -, hframes⟩
        | ⟨-, body, -, -, hfull, hframes⟩
      · rw [Move.machine, hframes]
        exact hroom
      · rw [Move.machine, hframes]
        exact hroom
      · have hlt : callers.length + 1 < capacity := by simpa [isFull, hf] using hfull
        rw [Move.machine, hframes]
        exact hlt
  cases Run.takes_of_step? hstep with
  | ended _ => exact h
  | paused _ _ _ _ => exact h
  | moved hf _ _ hm => exact hmove hf hm
  | halted hf _ _ hm => exact hmove hf hm
  | left hf _ =>
    have hroom := h.room
    rw [hf, List.length_cons] at hroom
    refine ⟨?_, ?_⟩
    · simp only [Step.run, pop, hf]
      omega
    · simp only [Step.run, pop, hf]
      exact h.overdrawn

/-! ## §5. Both engines make the same steps. -/

/-- **An opcode passes its checks.** -/
theorem Machine.checkedMove?_eq {p : Program} {m : Machine} {reset : Option Bool} {spent : Bool}
    {i : Nat} {op : Opcode} {frame : Frame} {callers : List Frame} (htape : m.tape.WellFormed)
    (hstack : m.stack.Housed) (hf : m.stack.frames = frame :: callers) :
    m.checkedMove? p reset spent i op = m.move? p reset spent i op := by
  unfold checkedMove? move?
  cases op.operator with
  | right | left | inc | dec =>
    simp only [checkedStride?, htape.forward?_eq, Tape.backward?_eq, htape.increase?_eq,
      htape.decrease?_eq, Option.map_some]
    rfl
  | put =>
    simp only [htape.read?_eq, Option.bind_eq_bind, Option.bind_some]
    cases m.output.write? m.tape.current <;> rfl
  | get =>
    cases m.input.read? with
    | none => rfl
    | some read =>
      simp only [htape.checkedStore?_eq, Option.bind_eq_bind, Option.bind_some]
      cases m.tape.store? read.1 <;> rfl
  | loopOpen =>
    simp only [htape.read?_eq, htape.overwrite?_eq, Option.bind_eq_bind, Option.bind_some]
    split
    · cases p.partners[i]? <;> rfl
    · cases reset with
      | none => rfl
      | some reset => cases reset <;> rfl
  | loopClose =>
    simp only [htape.read?_eq, Option.bind_eq_bind, Option.bind_some]
    split
    · rfl
    · split
      · rfl
      · cases p.partners[i]? <;> rfl
  | bodyOpen =>
    simp only [htape.read?_eq, Option.bind_eq_bind, Option.bind_some]
    cases p.partners[i]? with
    | none => rfl
    | some stop =>
      simp only [FunctionTable.checkedDefine?, if_pos htape.current_lt_keys, Option.bind_some,
        Option.map_some]
      cases m.functions.define? ⟨m.tape.current, i⟩ ⟨i + 1, stop⟩ <;> rfl
  | bodyClose => rfl
  | call =>
    simp only [htape.read?_eq, FunctionTable.checkedGet?, if_pos htape.current_lt_keys,
      Option.bind_eq_bind, Option.bind_some]
    cases m.functions.get? m.tape.current with
    | none => rfl
    | some body =>
      dsimp only
      split
      · rfl
      · next hfull =>
        split
        · rfl
        · rw [hstack.checkedPush?_eq hf (by simpa using hfull)]
          cases m.stack.push? (i + 1) body <;> rfl

/-- A breakpoint that has an entry is met by both, or by none. -/
theorem Terms.checkedStops?_eq {p : Program} {marks : Option (Array Bool)} {i : Nat}
    (t : Terms) (hmarks : p.FitsMarks marks) (hi : i < p.size) :
    t.checkedStops? marks i = t.stops? marks i := by
  cases marks with
  | none => rw [Run.stops?_none]; rfl
  | some table =>
    have hlt : i < table.size := by
      rw [show table.size = p.size from hmarks]
      exact hi
    unfold checkedStops? stops?
    dsimp only
    rw [Array.getElem?_eq_getElem hlt]
    cases t.bypass <;> simp

/-- **A step passes its checks.** -/
theorem Run.checked?_eq {p : Program} {r : Run} (t : Terms) (hm : r.machine.Fits p)
    (hstack : r.machine.stack.Housed) (hmarks : p.FitsMarks r.marks) :
    r.checked? p t = r.step? p t := by
  obtain ⟨m, marks, polls⟩ := r
  dsimp only at hm hstack hmarks
  cases hf : m.stack.frames with
  | nil =>
    rw [step?_of_empty hf]
    unfold checked?
    rw [if_pos (by rw [CallStack.isEmpty, hf]; rfl)]
  | cons frame callers =>
    have hframe := hm.frame frame (by rw [hf]; exact List.mem_cons_self)
    unfold checked?
    rw [if_neg (by rw [CallStack.isEmpty, hf]; simp)]
    simp only [hstack.checkedActive?_eq hf, Option.bind_eq_bind, Option.bind_some]
    by_cases hlt : frame.offset < frame.body.stop
    · -- the frame's code lies in the program, and so do its marks
      have hi : frame.offset < p.size := Nat.lt_of_lt_of_le hlt hframe.2.le
      rw [if_pos hlt, step?_of_lt hf hlt, t.checkedStops?_eq hmarks hi]
      cases t.stops? marks frame.offset with
      | none => rfl
      | some stops =>
        cases stops with
        | true => rfl
        | false =>
          cases p.opcodes[frame.offset]? with
          | none => rfl
          | some op =>
            simp only [Option.bind_some, Machine.checkedMove?_eq hm.tape hstack hf]
            cases m.move? p (t.resets? p marks frame.offset) (t.budget polls) frame.offset op
              <;> rfl
    · rw [if_neg hlt, step?_of_done hf (Nat.le_of_not_lt hlt)]
      rfl

/-- **A whole call passes its checks.** -/
theorem Run.checkedSteps_eq {p : Program} {t : Terms} (hp : p.Coherent) (n : Nat) :
    ∀ {r : Run}, r.machine.Fits p → r.machine.stack.Housed → p.FitsMarks r.marks →
      r.checkedSteps p t n = r.steps p t n := by
  induction n with
  | zero =>
    intro r _ _ _
    rfl
  | succ n ih =>
    intro r hm hstack hmarks
    unfold checkedSteps steps
    rw [checked?_eq t hm hstack hmarks]
    cases hstep : r.step? p t with
    | none => rfl
    | some step =>
      cases step with
      | halt code r' => rfl
      | next r' =>
        exact ih (hm.step hp hstep) (hstack.step hstep) (by rwa [marks_of_next hstep])

/-- The frames of a reachable machine have their places. -/
theorem Machine.Reachable.housed {p : Program} {start m : Machine} (h : Reachable p start m)
    (hstart : start.stack.Housed) : m.stack.Housed :=
  h.keeps (P := fun m => m.stack.Housed) hstart fun hm hstep => hm.step hstep

theorem Machine.housed_load (p : Program) (tape : Tape) (input : String) (limit : Nat) :
    (load p tape input limit).stack.Housed where
  room := by
    show 1 ≤ CallStack.capacity
    decide
  overdrawn := rfl

/-! ## §6. The result. -/

/-- The indices at which the trace of a frame looks for loops that are open. -/
def Program.traced (p : Program) (body : Span) (resume : Nat) : List Nat :=
  let stop := min (min resume body.stop) p.size
  List.range' (min body.start stop) (stop - min body.start stop)

theorem Program.Coherent.traced_lt {p : Program} (hp : p.Coherent) {body : Span} {resume i : Nat}
    (hi : i ∈ p.traced body resume) : i < p.opcodes.size ∧ i < p.partners.size := by
  have hlt : i < p.size := by
    unfold traced at hi
    rw [List.mem_range'_1] at hi
    omega
  refine ⟨hlt, ?_⟩
  rw [hp.partners_size]
  exact hlt

/-- **No check ever fails.**  With a successful report, `compileAs`
compiles every script, valid or not, in either granularity.  After any
calls in a row, with breakpoints or without, on any terms, one more call on any
terms passes all its checks and does not get stuck.  If the script does pass,
there is a report on every call that halted: its frames have their
places, every slice is one of the program, and its trace looks at opcodes and
partners that exist. -/
theorem checks_never_fail (report : Validation) (g : Granularity) (source : String) (tape : Tape)
    (input : String) (limit : Nat) (hreport : report.isSuccess) (htape : tape.WellFormed) :
    ∃ p, Program.compileAs report g source = .ok p ∧
      ∀ (m : Machine) (t : Terms) (marks : Option (Array Bool)) (fuel : Nat),
        Machine.Reachable p (.load p tape input limit) m → p.FitsMarks marks →
        m.checkedExecute p t marks fuel = m.execute p t marks fuel
          ∧ m.execute p t marks fuel ≠ .stuck
          ∧ ((Script.validate source).isSuccess → ∀ code r,
              m.execute p t marks fuel = .halted code r →
              r.machine.stack.Housed
                ∧ (∀ elapsed, (Report.build? source p r.machine code elapsed).isSome)
                ∧ ∀ frame ∈ r.machine.stack.frames, ∀ resume, ∀ i ∈ p.traced frame.body resume,
                  i < p.opcodes.size ∧ i < p.partners.size) := by
  have hcompile : Program.compileAs report g source
      = .ok (.ofTokens g report.count (Script.tokens source)) := if_pos hreport
  have hp := Program.coherent_ofTokens g report.count (Script.tokens source)
  refine ⟨_, hcompile, ?_⟩
  intro m t marks fuel hm hmarks
  have hfits := hm.fits hp (Machine.fits_load _ htape input limit)
  have hhoused := hm.housed (Machine.housed_load _ tape input limit)
  refine ⟨Run.checkedSteps_eq hp fuel hfits hhoused hmarks,
    Machine.Fits.not_stuck hp (r := ⟨m, marks, 0⟩) hfits hmarks, ?_⟩
  intro hsource code r hr
  obtain ⟨b, ⟨hitems, -⟩, hb⟩ := Script.validate_isSuccess_iff.1 hsource
  have hbalanced := Program.balanced_ofTokens hitems hb g report.count
  obtain ⟨hfits', hrests⟩ := Machine.Fits.halted hp (r := ⟨m, marks, 0⟩) hfits hmarks hr
  refine ⟨?_, Report.build?_isSome hbalanced hfits' hrests source, fun _ _ _ _ => hp.traced_lt⟩
  exact Run.keeps_of_halted (P := fun m => m.stack.Housed) (fun h hstep => h.step hstep) fuel
    (r := ⟨m, marks, 0⟩) hhoused hr

/-- A function that is never closed, called, with a breakpoint on every
opcode: the first call pauses, the second one passes all its checks. -/
theorem checks_never_fail_unclosed :
    ∃ p m, Program.compileAs (.success 6) .packed "(>+]:[" = .ok p
      ∧ (Machine.load p (.blank 32 .byteWrapping) "" 0).HaltsWith p { bypass := false }
        (some (Array.replicate 6 true)) .breakpoint m
        (some ((Array.replicate 6 true).setIfInBounds 0 false))
      ∧ m.checkedExecute p {} (some (Array.replicate 6 true)) 40
        = m.execute p {} (some (Array.replicate 6 true)) 40
      ∧ m.execute p {} (some (Array.replicate 6 true)) 40 ≠ .stuck := by
  obtain ⟨p, hp, hall⟩ := checks_never_fail (.success 6) .packed "(>+]:[" (.blank 32 .byteWrapping)
    "" 0 rfl (Tape.wellFormed_blank _ (by decide))
  have hrun : ((Program.compileAs (.success 6) .packed "(>+]:[").toOption.bind fun p =>
      ((Machine.load p (.blank 32 .byteWrapping) "" 0).execute p { bypass := false }
        (some (Array.replicate 6 true)) 40).rest?.bind fun rest =>
          some (p.size, rest.1, rest.2.marks))
      = some (6, .breakpoint, some ((Array.replicate 6 true).setIfInBounds 0 false)) := by
    decide +kernel
  replace hrun := seen_of_ok hrun hp
  obtain ⟨code, m, marks', polls, hhalts, heq⟩ := Machine.exists_haltsWith hrun
  simp only [Option.some.injEq, Prod.mk.injEq] at heq
  obtain ⟨hsize, rfl, rfl⟩ := heq
  have hmarks : p.FitsMarks (some (Array.replicate 6 true)) := by
    show (Array.replicate 6 true).size = p.size
    rw [hsize]
    rfl
  obtain ⟨hchecked, hstuck, -⟩ := hall m {} _ 40 (.call .start hmarks hhalts) hmarks
  exact ⟨p, m, hp, hhalts, hchecked, hstuck⟩

end TapeMachine
