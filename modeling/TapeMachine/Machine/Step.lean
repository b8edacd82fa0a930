/-
  TapeMachine.Machine.Step
  ────────────────────────
  **ONE STEP OF A CALL OF THE ENGINE.**

  A call runs a machine on a program until it halts.  One step of
  it is one of three things:

      · the running frame has an opcode left: meet its breakpoint, or carry
        it out;
      · the running frame is done: return to its caller;
      · no frame is left: the script is done.

  The budget is asked at two places only, at the way back of a loop and at
  a call, so a run between two questions is finite.  A loop `[-]` is done
  in one step, with the count that iterating would have credited, unless a
  breakpoint inside it has to be met.

  `step?` is `none` when an index lies outside its table.  That is a machine
  that does not belong to the program; a machine loaded with the program
  never gets there.
-/
import TapeMachine.Machine.Basic
import TapeMachine.Machine.ExitCode

namespace TapeMachine

/-! ## §1. The terms of a call, and the state of one. -/

/-- The answers a budget gives in one call: `b n` says whether it is spent
when it is asked for the `n`-th time. -/
abbrev Budget := Nat → Bool

namespace Budget

/-- Never spent. -/
def unlimited : Budget := fun _ => false

/-- Spent from the first question on. -/
def spent : Budget := fun _ => true

end Budget

/-- The terms of a call. -/
structure Terms where
  /-- Whether breakpoints are passed by. -/
  bypass : Bool := true
  budget : Budget := Budget.unlimited
  /-- Whether `[-]` is done in one step. -/
  shortcut : Bool := true

/-- A call in progress: the machine, the breakpoints of the opcodes if the
call has any, and how often the budget has been asked. -/
structure Run where
  machine : Machine
  marks : Option (Array Bool)
  polls : Nat

/-- What a step leads to. -/
inductive Step where
  /-- The call goes on. -/
  | next (r : Run)
  /-- The machine halted. -/
  | halt (code : ExitCode) (r : Run)

/-! ## §2. Questions a step asks. -/

/-- Whether a breakpoint has to be met at index `i`. -/
def Terms.stops? (t : Terms) (marks : Option (Array Bool)) (i : Nat) : Option Bool :=
  match t.bypass, marks with
  | true, _ => some false
  | false, none => some false
  | false, some table => table[i]?

/-- Whether no breakpoint is set on the two opcodes from index `i`. -/
def unmarked? (marks : Option (Array Bool)) (i : Nat) : Option Bool :=
  match marks with
  | none => some true
  | some table =>
    match table[i]?, table[i + 1]? with
    | some first, some second => some (!first && !second)
    | _, _ => none

/-- Whether the loop opened at index `i` is `[-]` with no breakpoint set
inside. -/
def Program.isReset? (p : Program) (marks : Option (Array Bool)) (i : Nat) : Option Bool :=
  match p.partners[i]? with
  | none => none
  | some partner =>
    if partner = i + 2 then
      match p.opcodes[i + 1]? with
      | none => none
      | some body => if body = .one .dec then unmarked? marks (i + 1) else some false
    else some false

/-- Whether the loop opened at index `i` is to be done in one step. -/
def Terms.resets? (t : Terms) (p : Program) (marks : Option (Array Bool)) (i : Nat) : Option Bool :=
  if t.shortcut then p.isReset? marks i else some false

/-! ## §3. Carrying out an opcode. -/

/-- Carries out a counted tape operation of `n` steps at index `i`: the
machine after it, and whether all steps were made.  If not, the machine
stays at the opcode. -/
@[inline] def Machine.stride (m : Machine) (i n : Nat) (op : Tape → Nat → Tape.Stride) :
    Machine × Bool :=
  match m with
  | { tape, functions, stack, input, output, operations } =>
    let s := op tape n
    let m' : Machine :=
      { tape := s.tape, functions, stack, input, output, operations := operations + s.made }
    if s.made < n then (m', false) else (m'.goto (i + 1), true)

/-- A counted tape operation as a step: the fault if not all steps were
made. -/
@[inline] def Step.ofStride (result : Machine × Bool) (fault : ExitCode)
    (marks : Option (Array Bool)) (polls : Nat) : Step :=
  match result with
  | (m, true) => .next ⟨m, marks, polls⟩
  | (m, false) => .halt fault ⟨m, marks, polls⟩

/-- Carries out the opcode at index `i`. -/
def Machine.perform? (p : Program) (t : Terms) (marks : Option (Array Bool)) (polls : Nat)
    (i : Nat) (op : Opcode) (m : Machine) : Option Step :=
  let next (m : Machine) (i : Nat) : Step := .next ⟨m.goto i, marks, polls⟩
  let halt (code : ExitCode) (m : Machine) : Step := .halt code ⟨m, marks, polls⟩
  match op.operator with
  | .right => some (.ofStride (m.stride i op.count Tape.forward) .pastEnd marks polls)
  | .left => some (.ofStride (m.stride i op.count Tape.backward) .beforeStart marks polls)
  | .inc => some (.ofStride (m.stride i op.count Tape.increase) .aboveMaximum marks polls)
  | .dec => some (.ofStride (m.stride i op.count Tape.decrease) .belowZero marks polls)
  | .put =>
    match m.output.write? m.tape.current with
    | none => some (halt .outputFull m)
    | some output => some (next { m.credit 1 with output } (i + 1))
  | .get =>
    match m.input.read? with
    | none => some (halt .inputExhausted m)
    | some (c, input) =>
      match m.tape.store? c with
      | none => some (halt .aboveMaximum { m with input })
      | some tape => some (next { m.credit 1 with tape, input } (i + 1))
  | .loopOpen =>
    let value := m.tape.current
    if value = 0 then
      p.partners[i]?.map fun partner => next (m.credit 1) (partner + 1)
    else
      (t.resets? p marks i).map fun reset =>
        if reset then next { m.credit (value * 2 + 1) with tape := m.tape.clear } (i + 3)
        else next (m.credit 1) (i + 1)
  | .loopClose =>
    if m.tape.current = 0 then some (next (m.credit 1) (i + 1))
    else if t.budget polls then some (halt .budgetSpent m)
    else
      p.partners[i]?.map fun partner =>
        .next ⟨(m.credit 1).goto (partner + 1), marks, polls + 1⟩
  | .bodyOpen =>
    p.partners[i]?.map fun stop =>
      match m.functions.define? ⟨m.tape.current, i⟩ ⟨i + 1, stop⟩ with
      | none => halt .alreadyDefined m
      | some functions => next { m.credit 1 with functions } (stop + 1)
  | .bodyClose => some (next m (i + 1))
  | .call =>
    match m.functions.get? m.tape.current with
    | none => some (halt .undefinedFunction m)
    | some body =>
      if m.stack.isFull then some (halt .stackFull m)
      else if t.budget polls then some (halt .budgetSpent m)
      else
        (m.stack.push? (i + 1) body).map fun stack =>
          .next ⟨{ m.credit 1 with stack }, marks, polls + 1⟩

/-! ## §4. The step. -/

/-- One step of a call. -/
def Run.step? (p : Program) (t : Terms) (r : Run) : Option Step :=
  match r with
  | ⟨m, marks, polls⟩ =>
    match m.stack.frames with
    | [] => some (.halt .success ⟨m, marks, polls⟩)
    | frame :: _ =>
      let i := frame.offset
      if i < frame.body.stop then
        match t.stops? marks i with
        | none => none
        | some true =>
          some (.halt .breakpoint ⟨m, marks.map (·.setIfInBounds i false), polls⟩)
        | some false =>
          match p.opcodes[i]? with
          | none => none
          | some op => m.perform? p t marks polls i op
      else some (.next ⟨{ m with stack := m.stack.pop }, marks, polls⟩)

end TapeMachine
