/-
  TapeMachine.Proofs.Moves
  ────────────────────────
  **WHAT AN OPCODE CAN DO.**

  Carrying out an opcode depends on the terms of the call in two answers
  only: whether the loop at hand is done in one step, and whether the budget
  is spent.  `Machine.move?` is the engine's `perform?` as a function of
  these answers (`perform?_eq`), so two calls that get the same answers do
  the same.

  What an opcode does to the tape and to the control of the machine — stack
  and function table — is said once (`Machine.does_of_move?`), and so is what
  it can halt with (`Machine.fault_of_move?`); invariants are derived
  from that.  What one step of a call can be, in terms of moves, is said once
  too (`Run.takes_of_step?`).
-/
import TapeMachine.Machine.Execute

namespace TapeMachine

/-! ## §1. Counted operators. -/

/-- The tape operation of a counted operator, and its fault. -/
def Operator.stride? : Operator → Option ((Tape → Nat → Tape.Stride) × ExitCode)
  | right => some (Tape.forward, .pastEnd)
  | left => some (Tape.backward, .beforeStart)
  | inc => some (Tape.increase, .aboveMaximum)
  | dec => some (Tape.decrease, .belowZero)
  | _ => none

theorem Operator.stride?_isSome (o : Operator) : o.stride?.isSome = o.isRepeatable := by
  cases o <;> rfl

/-- The codes that an operator can halt with. -/
def Operator.faults : Operator → List ExitCode
  | right => [.pastEnd]
  | left => [.beforeStart]
  | inc => [.aboveMaximum]
  | dec => [.belowZero]
  | put => [.outputFull]
  | get => [.inputExhausted, .aboveMaximum]
  | loopOpen | bodyClose => []
  | loopClose => [.budgetSpent]
  | bodyOpen => [.alreadyDefined]
  | call => [.undefinedFunction, .stackFull, .budgetSpent]

/-- What an operator can do to a tape: nothing, a counted operation, a
character put in the cell, or the cell cleared. -/
inductive Tape.Changes (t : Tape) : Tape → Prop
  | same : Changes t t
  | stride {o : Operator} {f : Tape → Nat → Tape.Stride} {fault : ExitCode}
      (h : o.stride? = some (f, fault)) (n : Nat) : Changes t (f t n).tape
  | store {c : Char} {t' : Tape} (h : t.store? c = some t') : Changes t t'
  | clear : Changes t t.clear

/-! ## §2. Moves. -/

/-- What carrying out an opcode leads to. -/
inductive Move where
  /-- The machine goes on; `asked` says whether the budget was asked. -/
  | next (m : Machine) (asked : Bool)
  /-- The machine halts. -/
  | halt (code : ExitCode) (m : Machine)

namespace Move

/-- A move as a step of a call. -/
def toStep (marks : Option (Array Bool)) (polls : Nat) : Move → Step
  | next m asked => .next ⟨m, marks, if asked then polls + 1 else polls⟩
  | halt code m => .halt code ⟨m, marks, polls⟩

/-- A counted operation as a move. -/
def ofStride (fault : ExitCode) : Machine × Bool → Move
  | (m, true) => next m false
  | (m, false) => halt fault m

/-- The machine after the move. -/
def machine : Move → Machine
  | next m _ => m
  | halt _ m => m

end Move

namespace Machine

/-- Carries out the opcode at index `i`: `reset` says whether a loop opened
there is done in one step, `spent` whether the budget is spent. -/
def move? (p : Program) (reset : Option Bool) (spent : Bool) (i : Nat) (op : Opcode)
    (m : Machine) : Option Move :=
  match op.operator with
  | .right => some (.ofStride .pastEnd (m.stride i op.count Tape.forward))
  | .left => some (.ofStride .beforeStart (m.stride i op.count Tape.backward))
  | .inc => some (.ofStride .aboveMaximum (m.stride i op.count Tape.increase))
  | .dec => some (.ofStride .belowZero (m.stride i op.count Tape.decrease))
  | .put =>
    match m.output.write? m.tape.current with
    | none => some (.halt .outputFull m)
    | some output => some (.next (({ m.credit 1 with output } : Machine).goto (i + 1)) false)
  | .get =>
    match m.input.read? with
    | none => some (.halt .inputExhausted m)
    | some (c, input) =>
      match m.tape.store? c with
      | none => some (.halt .aboveMaximum { m with input })
      | some tape =>
        some (.next (({ m.credit 1 with tape, input } : Machine).goto (i + 1)) false)
  | .loopOpen =>
    if m.tape.current = 0 then
      p.partners[i]?.map fun partner => .next ((m.credit 1).goto (partner + 1)) false
    else
      reset.map fun
        | true =>
          .next (({ m.credit (m.tape.current * 2 + 1) with tape := m.tape.clear } : Machine).goto
            (i + 3)) false
        | false => .next ((m.credit 1).goto (i + 1)) false
  | .loopClose =>
    if m.tape.current = 0 then some (.next ((m.credit 1).goto (i + 1)) false)
    else if spent then some (.halt .budgetSpent m)
    else p.partners[i]?.map fun partner => .next ((m.credit 1).goto (partner + 1)) true
  | .bodyOpen =>
    p.partners[i]?.map fun stop =>
      match m.functions.define? ⟨m.tape.current, i⟩ ⟨i + 1, stop⟩ with
      | none => .halt .alreadyDefined m
      | some functions => .next (({ m.credit 1 with functions } : Machine).goto (stop + 1)) false
  | .bodyClose => some (.next (m.goto (i + 1)) false)
  | .call =>
    match m.functions.get? m.tape.current with
    | none => some (.halt .undefinedFunction m)
    | some body =>
      if m.stack.isFull then some (.halt .stackFull m)
      else if spent then some (.halt .budgetSpent m)
      else (m.stack.push? (i + 1) body).map fun stack => .next { m.credit 1 with stack } true

theorem ofStride_toStep (result : Machine × Bool) (fault : ExitCode) (marks : Option (Array Bool))
    (polls : Nat) :
    Step.ofStride result fault marks polls = (Move.ofStride fault result).toStep marks polls := by
  obtain ⟨m, _ | _⟩ := result <;> rfl

/-- **The engine's opcode is a move.** -/
theorem perform?_eq (p : Program) (t : Terms) (marks : Option (Array Bool)) (polls i : Nat)
    (op : Opcode) (m : Machine) :
    m.perform? p t marks polls i op
      = (m.move? p (t.resets? p marks i) (t.budget polls) i op).map (Move.toStep marks polls) := by
  unfold perform? move?
  cases op.operator with
  | right | left | inc | dec => simp only [ofStride_toStep, Option.map_some]
  | put =>
    dsimp only
    cases m.output.write? m.tape.current <;> rfl
  | get =>
    dsimp only
    cases m.input.read? with
    | none => rfl
    | some ci =>
      obtain ⟨c, input⟩ := ci
      dsimp only
      cases m.tape.store? c <;> rfl
  | loopOpen =>
    dsimp only
    split
    · cases p.partners[i]? <;> rfl
    · cases t.resets? p marks i with
      | none => rfl
      | some reset => cases reset <;> rfl
  | loopClose =>
    dsimp only
    split
    · rfl
    · split
      · rfl
      · cases p.partners[i]? <;> rfl
  | bodyOpen =>
    dsimp only
    cases p.partners[i]? with
    | none => rfl
    | some stop =>
      simp only [Option.map_some]
      cases m.functions.define? ⟨m.tape.current, i⟩ ⟨i + 1, stop⟩ <;> rfl
  | bodyClose => rfl
  | call =>
    dsimp only
    cases m.functions.get? m.tape.current with
    | none => rfl
    | some body =>
      dsimp only
      split
      · rfl
      · split
        · rfl
        · cases m.stack.push? (i + 1) body <;> rfl

theorem move?_stride {p : Program} {reset : Option Bool} {spent : Bool} {i : Nat} {op : Opcode}
    {m : Machine} {f : Tape → Nat → Tape.Stride} {fault : ExitCode}
    (h : op.operator.stride? = some (f, fault)) :
    m.move? p reset spent i op = some (.ofStride fault (m.stride i op.count f)) := by
  unfold move?
  cases ho : op.operator <;> rw [ho] at h <;> cases h <;> rfl

theorem stride_eq (m : Machine) (i n : Nat) (f : Tape → Nat → Tape.Stride) :
    m.stride i n f =
      if (f m.tape n).made < n then
        ({ m.credit (f m.tape n).made with tape := (f m.tape n).tape }, false)
      else
        (({ m.credit (f m.tape n).made with tape := (f m.tape n).tape } : Machine).goto (i + 1),
          true) := rfl

/-- A loop that is done in one step. -/
theorem move?_of_reset {p : Program} {spent : Bool} {i : Nat} {op : Opcode} {m : Machine}
    (ho : op.operator = .loopOpen) (h0 : m.tape.current ≠ 0) :
    m.move? p (some true) spent i op
      = some (.next (({ m.credit (m.tape.current * 2 + 1) with tape := m.tape.clear } :
          Machine).goto (i + 3)) false) := by
  unfold move?
  rw [ho]
  dsimp only
  rw [if_neg h0]
  rfl

/-- Whether a loop is done in one step only matters where one is entered. -/
theorem move?_of_not_reset {p : Program} {reset : Option Bool} {spent : Bool} {i : Nat}
    {op : Opcode} {m : Machine}
    (h : op.operator = .loopOpen → m.tape.current ≠ 0 → reset = some false) :
    m.move? p reset spent i op = m.move? p (some false) spent i op := by
  unfold move?
  cases ho : op.operator with
  | loopOpen =>
    dsimp only
    by_cases h0 : m.tape.current = 0
    · rw [if_pos h0, if_pos h0]
    · rw [h ho h0]
  | _ => rfl

/-! ## §3. Going somewhere changes the running frame only. -/

section Goto

variable (m : Machine) (i : Nat)

@[simp] theorem goto_tape : (m.goto i).tape = m.tape := by unfold goto; split <;> rfl

@[simp] theorem goto_functions : (m.goto i).functions = m.functions := by
  unfold goto; split <;> rfl

@[simp] theorem goto_input : (m.goto i).input = m.input := by unfold goto; split <;> rfl

@[simp] theorem goto_output : (m.goto i).output = m.output := by unfold goto; split <;> rfl

@[simp] theorem goto_operations : (m.goto i).operations = m.operations := by
  unfold goto; split <;> rfl

@[simp] theorem goto_overdrawn : (m.goto i).stack.overdrawn = m.stack.overdrawn := by
  unfold goto; split <;> rfl

theorem goto_frames {m : Machine} {frame : Frame} {callers : List Frame}
    (h : m.stack.frames = frame :: callers) (i : Nat) :
    (m.goto i).stack.frames = { frame with offset := i } :: callers := by
  unfold goto
  split
  · next h0 => rw [h0] at h; cases h
  · next h0 =>
    rw [h0] at h
    cases h
    rfl

end Goto

/-! ## §4. What a move does. -/

/-- The indices at which a frame goes on after the opcode at `i`, unless it
calls: the next one, behind a bracket's partner, or behind a loop done in
one step. -/
def Target (p : Program) (reset : Option Bool) (i : Nat) (op : Opcode) (j : Nat) : Prop :=
  (j = i + 1 ∧ op.operator ≠ .bodyOpen ∧ op.operator ≠ .call)
    ∨ ((op.operator = .loopOpen ∨ op.operator = .loopClose)
        ∧ ∃ partner, p.partners[i]? = some partner ∧ j = partner + 1)
    ∨ (op.operator = .loopOpen ∧ reset = some true ∧ j = i + 3)

/-- Control after a move, `frame` being the one that runs.  A machine that
halts does so with a fault and keeps its control; otherwise
the frame goes on at a target, or a function has been defined, or one has
been entered. -/
def Control (p : Program) (reset : Option Bool) (i : Nat) (op : Opcode) (m : Machine)
    (frame : Frame) (callers : List Frame) : Move → Prop
  | .halt code m' => code.isFault ∧ m'.functions = m.functions ∧ m'.stack = m.stack
  | .next m' _ =>
    (m'.functions = m.functions
        ∧ ∃ j, Target p reset i op j ∧ m'.stack.frames = { frame with offset := j } :: callers)
      ∨ (op.operator = .bodyOpen ∧ ∃ stop, p.partners[i]? = some stop
          ∧ m.functions.define? ⟨m.tape.current, i⟩ ⟨i + 1, stop⟩ = some m'.functions
          ∧ m'.stack.frames = { frame with offset := stop + 1 } :: callers)
      ∨ (op.operator = .call ∧ ∃ body, m.functions.get? m.tape.current = some body
          ∧ m'.functions = m.functions ∧ m.stack.isFull = false
          ∧ m'.stack.frames = Frame.enter body :: { frame with offset := i + 1 } :: callers)

/-- **What a move does to the machine**, `frame` being the one that runs. -/
structure Does (p : Program) (reset : Option Bool) (i : Nat) (op : Opcode) (m : Machine)
    (frame : Frame) (callers : List Frame) (move : Move) : Prop where
  tape : m.tape.Changes move.machine.tape
  control : Control p reset i op m frame callers move
  overdrawn : move.machine.stack.overdrawn = m.stack.overdrawn

section Inversion

variable {p : Program} {reset : Option Bool} {spent : Bool} {i : Nat} {op : Opcode} {m : Machine}
  {move : Move} {frame : Frame} {callers : List Frame}

/-- A machine that halts, with the control it had. -/
theorem does_halt {code : ExitCode} {m₀ : Machine} (hcode : code.isFault)
    (htape : m.tape.Changes m₀.tape) (hfunctions : m₀.functions = m.functions)
    (hstack : m₀.stack = m.stack) : Does p reset i op m frame callers (.halt code m₀) :=
  ⟨htape, ⟨hcode, hfunctions, hstack⟩, congrArg CallStack.overdrawn hstack⟩

/-- A machine that goes on in the same frame, with the functions it had. -/
theorem does_goto {m₀ : Machine} {j : Nat} (asked : Bool) (htape : m.tape.Changes m₀.tape)
    (hfunctions : m₀.functions = m.functions) (hstack : m₀.stack = m.stack)
    (hf : m.stack.frames = frame :: callers) (htarget : Target p reset i op j) :
    Does p reset i op m frame callers (.next (m₀.goto j) asked) where
  tape := by
    show m.tape.Changes (m₀.goto j).tape
    rw [goto_tape]
    exact htape
  control := by
    refine .inl ⟨?_, j, htarget, goto_frames (by rw [hstack, hf]) j⟩
    rw [goto_functions, hfunctions]
  overdrawn := by
    show (m₀.goto j).stack.overdrawn = _
    rw [goto_overdrawn, hstack]

/-- A counted operator. -/
theorem does_stride {f : Tape → Nat → Tape.Stride} {fault : ExitCode}
    (hf : m.stack.frames = frame :: callers) (hs : op.operator.stride? = some (f, fault))
    (h : m.move? p reset spent i op = some move) : Does p reset i op m frame callers move := by
  have hne : op.operator ≠ .bodyOpen ∧ op.operator ≠ .call := by
    constructor <;> intro ho <;> rw [ho] at hs <;> cases hs
  have hfault : fault.isFault := by
    revert hs
    cases op.operator <;> intro hs <;> cases hs <;> rfl
  rw [move?_stride hs] at h
  cases h
  rw [stride_eq]
  split
  · exact does_halt hfault (.stride hs op.count) rfl rfl
  · exact does_goto false (.stride hs op.count) rfl rfl hf (.inl ⟨rfl, hne⟩)

/-- A call. -/
theorem does_call (hf : m.stack.frames = frame :: callers) (ho : op.operator = .call)
    (h : m.move? p reset spent i op = some move) : Does p reset i op m frame callers move := by
  unfold move? at h
  rw [ho] at h
  dsimp only at h
  split at h
  · cases h
    exact does_halt rfl .same rfl rfl
  · next body hbody =>
    split at h
    · cases h
      exact does_halt rfl .same rfl rfl
    · next hfull =>
      split at h
      · cases h
        exact does_halt rfl .same rfl rfl
      · obtain ⟨stack, hstack, rfl⟩ := Option.map_eq_some_iff.1 h
        have hroom : m.stack.isFull = false := by simpa using hfull
        unfold CallStack.push? at hstack
        rw [hf] at hstack
        simp only [hroom, Bool.false_eq_true, if_false, Option.some.injEq] at hstack
        refine ⟨.same, .inr (.inr ⟨ho, body, hbody, rfl, hroom, ?_⟩), ?_⟩
        · rw [← hstack]
        · show stack.overdrawn = m.stack.overdrawn
          rw [← hstack]

/-- **Everything an opcode can do.** -/
theorem does_of_move? (hf : m.stack.frames = frame :: callers)
    (h : m.move? p reset spent i op = some move) : Does p reset i op m frame callers move := by
  have hnext : op.operator ≠ .bodyOpen → op.operator ≠ .call → Target p reset i op (i + 1) :=
    fun hopen hcall => .inl ⟨rfl, hopen, hcall⟩
  cases ho : op.operator with
  | right | left | inc | dec => exact does_stride hf (by rw [ho]; rfl) h
  | call => exact does_call hf ho h
  | put =>
    unfold move? at h
    rw [ho] at h
    dsimp only at h
    split at h
    · cases h
      exact does_halt rfl .same rfl rfl
    · cases h
      exact does_goto false .same rfl rfl hf (hnext (by simp [ho]) (by simp [ho]))
  | get =>
    unfold move? at h
    rw [ho] at h
    dsimp only at h
    split at h
    · cases h
      exact does_halt rfl .same rfl rfl
    · split at h
      · cases h
        exact does_halt rfl .same rfl rfl
      · next hstore =>
        cases h
        exact does_goto false (.store hstore) rfl rfl hf (hnext (by simp [ho]) (by simp [ho]))
  | loopOpen =>
    unfold move? at h
    rw [ho] at h
    dsimp only at h
    split at h
    · obtain ⟨partner, hpartner, rfl⟩ := Option.map_eq_some_iff.1 h
      exact does_goto false .same rfl rfl hf (.inr (.inl ⟨.inl ho, partner, hpartner, rfl⟩))
    · obtain ⟨reset, rfl, rfl⟩ := Option.map_eq_some_iff.1 h
      cases reset with
      | true => exact does_goto false .clear rfl rfl hf (.inr (.inr ⟨ho, rfl, rfl⟩))
      | false => exact does_goto false .same rfl rfl hf (hnext (by simp [ho]) (by simp [ho]))
  | loopClose =>
    unfold move? at h
    rw [ho] at h
    dsimp only at h
    split at h
    · cases h
      exact does_goto false .same rfl rfl hf (hnext (by simp [ho]) (by simp [ho]))
    · split at h
      · cases h
        exact does_halt rfl .same rfl rfl
      · obtain ⟨partner, hpartner, rfl⟩ := Option.map_eq_some_iff.1 h
        exact does_goto true .same rfl rfl hf (.inr (.inl ⟨.inr ho, partner, hpartner, rfl⟩))
  | bodyOpen =>
    unfold move? at h
    rw [ho] at h
    dsimp only at h
    obtain ⟨stop, hstop, rfl⟩ := Option.map_eq_some_iff.1 h
    split
    · exact does_halt rfl .same rfl rfl
    · next functions hdef =>
      refine ⟨?_, .inr (.inl ⟨ho, stop, hstop, ?_, ?_⟩), ?_⟩
      · show m.tape.Changes (Machine.goto _ _).tape
        rw [goto_tape]
        exact .same
      · rw [hdef, goto_functions]
      · exact goto_frames (m := { m.credit 1 with functions }) hf (stop + 1)
      · show (Machine.goto _ _).stack.overdrawn = _
        rw [goto_overdrawn]
        rfl
  | bodyClose =>
    unfold move? at h
    rw [ho] at h
    cases h
    exact does_goto false .same rfl rfl hf (hnext (by simp [ho]) (by simp [ho]))

/-- **What an opcode can halt with.**  For a spent budget it does so
as the machine stands, and only if the budget is spent. -/
theorem fault_of_move? {code : ExitCode} {m' : Machine}
    (h : m.move? p reset spent i op = some (.halt code m')) :
    code ∈ op.operator.faults ∧ (code = .budgetSpent → spent = true ∧ m' = m) := by
  cases ho : op.operator with
  | right | left | inc | dec =>
    rw [move?_stride (by rw [ho]; rfl), stride_eq] at h
    split at h <;> cases h
    exact ⟨List.mem_singleton.2 rfl, fun hcode => by cases hcode⟩
  | put =>
    unfold move? at h
    rw [ho] at h
    dsimp only at h
    split at h <;> cases h
    exact ⟨List.mem_singleton.2 rfl, fun hcode => by cases hcode⟩
  | get =>
    unfold move? at h
    rw [ho] at h
    dsimp only at h
    split at h
    · cases h
      exact ⟨by decide, fun hcode => by cases hcode⟩
    · split at h <;> cases h
      exact ⟨by decide, fun hcode => by cases hcode⟩
  | loopOpen =>
    unfold move? at h
    rw [ho] at h
    dsimp only at h
    split at h
    · obtain ⟨partner, -, hnext⟩ := Option.map_eq_some_iff.1 h
      cases hnext
    · obtain ⟨reset, -, hnext⟩ := Option.map_eq_some_iff.1 h
      cases reset <;> cases hnext
  | loopClose =>
    unfold move? at h
    rw [ho] at h
    dsimp only at h
    split at h
    · cases h
    · split at h
      · next hspent =>
        cases h
        exact ⟨List.mem_singleton.2 rfl, fun _ => ⟨hspent, rfl⟩⟩
      · obtain ⟨partner, -, hnext⟩ := Option.map_eq_some_iff.1 h
        cases hnext
  | bodyOpen =>
    unfold move? at h
    rw [ho] at h
    dsimp only at h
    obtain ⟨stop, -, hhalt⟩ := Option.map_eq_some_iff.1 h
    split at hhalt <;> cases hhalt
    exact ⟨List.mem_singleton.2 rfl, fun hcode => by cases hcode⟩
  | bodyClose =>
    unfold move? at h
    rw [ho] at h
    cases h
  | call =>
    unfold move? at h
    rw [ho] at h
    dsimp only at h
    split at h
    · cases h
      exact ⟨by decide, fun hcode => by cases hcode⟩
    · split at h
      · cases h
        exact ⟨by decide, fun hcode => by cases hcode⟩
      · split at h
        · next hspent =>
          cases h
          exact ⟨by decide, fun _ => ⟨hspent, rfl⟩⟩
        · obtain ⟨stack, -, hnext⟩ := Option.map_eq_some_iff.1 h
          cases hnext

end Inversion

end Machine

/-! ## §5. One step of a call. -/

namespace Run

variable {p : Program} {t : Terms} {m : Machine} {marks : Option (Array Bool)} {polls : Nat}

theorem step?_of_empty (h : m.stack.frames = []) :
    step? p t ⟨m, marks, polls⟩ = some (.halt .success ⟨m, marks, polls⟩) := by
  unfold step?
  simp only [h]

theorem step?_of_done {frame : Frame} {callers : List Frame}
    (h : m.stack.frames = frame :: callers) (hi : frame.body.stop ≤ frame.offset) :
    step? p t ⟨m, marks, polls⟩ = some (.next ⟨{ m with stack := m.stack.pop }, marks, polls⟩) := by
  unfold step?
  simp only [h]
  rw [if_neg (Nat.not_lt.2 hi)]

theorem step?_of_lt {frame : Frame} {callers : List Frame}
    (h : m.stack.frames = frame :: callers) (hi : frame.offset < frame.body.stop) :
    step? p t ⟨m, marks, polls⟩ =
      match t.stops? marks frame.offset with
      | none => none
      | some true =>
        some (.halt .breakpoint ⟨m, marks.map (·.setIfInBounds frame.offset false), polls⟩)
      | some false =>
        match p.opcodes[frame.offset]? with
        | none => none
        | some op => (m.move? p (t.resets? p marks frame.offset) (t.budget polls) frame.offset
            op).map (Move.toStep marks polls) := by
  unfold step?
  simp only [h, Machine.perform?_eq]
  exact if_pos hi

/-- **Everything a step of a call can be**: the end of the script, a frame
left, a pause, or an opcode carried out, after which the machine goes on or
halts. -/
inductive Takes (p : Program) (t : Terms) (m : Machine) (marks : Option (Array Bool))
    (polls : Nat) : Step → Prop
  | ended (hf : m.stack.frames = []) : Takes p t m marks polls (.halt .success ⟨m, marks, polls⟩)
  | left {frame : Frame} {callers : List Frame} (hf : m.stack.frames = frame :: callers)
      (hge : frame.body.stop ≤ frame.offset) :
      Takes p t m marks polls (.next ⟨{ m with stack := m.stack.pop }, marks, polls⟩)
  | paused {frame : Frame} {callers : List Frame} {table : Array Bool}
      (hf : m.stack.frames = frame :: callers) (hbypass : t.bypass = false)
      (htable : marks = some table) (hmark : table[frame.offset]? = some true)
      (hlt : frame.offset < frame.body.stop) :
      Takes p t m marks polls
        (.halt .breakpoint ⟨m, some (table.setIfInBounds frame.offset false), polls⟩)
  | moved {frame : Frame} {callers : List Frame} {op : Opcode} {m' : Machine} {asked : Bool}
      (hf : m.stack.frames = frame :: callers) (hlt : frame.offset < frame.body.stop)
      (hop : p.opcodes[frame.offset]? = some op)
      (hmove : m.move? p (t.resets? p marks frame.offset) (t.budget polls) frame.offset op
        = some (.next m' asked))
      (hstops : t.stops? marks frame.offset = some false) :
      Takes p t m marks polls (.next ⟨m', marks, if asked then polls + 1 else polls⟩)
  | halted {frame : Frame} {callers : List Frame} {op : Opcode} {m' : Machine} {code : ExitCode}
      (hf : m.stack.frames = frame :: callers) (hlt : frame.offset < frame.body.stop)
      (hop : p.opcodes[frame.offset]? = some op)
      (hmove : m.move? p (t.resets? p marks frame.offset) (t.budget polls) frame.offset op
        = some (.halt code m'))
      (hstops : t.stops? marks frame.offset = some false) :
      Takes p t m marks polls (.halt code ⟨m', marks, polls⟩)

theorem takes_of_step? {step : Step} (h : step? p t ⟨m, marks, polls⟩ = some step) :
    Takes p t m marks polls step := by
  cases hf : m.stack.frames with
  | nil =>
    rw [step?_of_empty hf] at h
    cases h
    exact .ended hf
  | cons frame callers =>
    rcases Nat.lt_or_ge frame.offset frame.body.stop with hlt | hge
    · rw [step?_of_lt hf hlt] at h
      split at h
      · cases h
      · next hstop =>
        cases h
        unfold Terms.stops? at hstop
        split at hstop
        · cases hstop
        · cases hstop
        · next hbypass => exact .paused hf hbypass rfl hstop hlt
      · next hstops =>
        split at h
        · cases h
        · next op hop =>
          obtain ⟨move, hmove, rfl⟩ := Option.map_eq_some_iff.1 h
          cases move with
          | next m' asked => exact .moved hf hlt hop hmove hstops
          | halt code m' => exact .halted hf hlt hop hmove hstops
    · rw [step?_of_done hf hge] at h
      cases h
      exact .left hf hge

@[simp] theorem stops?_none (t : Terms) (i : Nat) : t.stops? none i = some false := by
  unfold Terms.stops?
  cases t.bypass <;> rfl

/-- A counted opcode: all its steps, or as many as can be made and then the
fault. -/
theorem step?_stride {op : Opcode} {f : Tape → Nat → Tape.Stride} {fault : ExitCode}
    (hs : op.operator.stride? = some (f, fault)) {functions : FunctionTable} {body : Span} {i : Nat}
    {callers : List Frame} {overdrawn : Nat} {input : Input} {output : Output}
    (hi : i < body.stop) (hop : p.opcodes[i]? = some op) (tape : Tape) (operations : Nat) :
    step? p t ⟨⟨tape, functions, ⟨⟨body, i⟩ :: callers, overdrawn⟩, input, output, operations⟩,
        none, polls⟩
      = if (f tape op.count).made < op.count then
          some (.halt fault ⟨⟨(f tape op.count).tape, functions, ⟨⟨body, i⟩ :: callers, overdrawn⟩,
            input, output, operations + (f tape op.count).made⟩, none, polls⟩)
        else
          some (.next ⟨⟨(f tape op.count).tape, functions,
            ⟨⟨body, i + 1⟩ :: callers, overdrawn⟩, input, output,
            operations + (f tape op.count).made⟩, none, polls⟩) := by
  rw [step?_of_lt rfl hi]
  simp only [stops?_none, hop]
  rw [Machine.move?_stride hs, Machine.stride_eq]
  by_cases hmade : (f tape op.count).made < op.count
  · rw [if_pos hmade, if_pos hmade]
    rfl
  · rw [if_neg hmade, if_neg hmade]
    rfl

end Run

end TapeMachine
