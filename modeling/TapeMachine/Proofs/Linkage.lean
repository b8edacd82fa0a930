/-
  TapeMachine.Proofs.Linkage
  ──────────────────────────
  **AN OPCODE ON TWO MACHINES.**

  Two machines, on one program or on two, can be related in many ways: one has
  a longer tape, or runs the same script with its opcodes packed, or runs it as
  a part of a longer one.  What an opcode does to both is the same argument
  each time, and stands here once.

  A `Linkage` relates the machines part by part — tape, input, output, count,
  functions, stack — and says which index of the second program stands for an
  index of the first.  Two things are asked of it:

    • `Linkage.Keeps` — the operations on the parts keep them related, or fail
      on the first machine alone with a fault that is excused,
    • `Linkage.At` — the programs correspond at the opcode at hand.

  Then the opcode keeps the machines related (`Linkage.Keeps.move`).  This is
  the only place where two machines are followed opcode by opcode.
-/
import TapeMachine.Proofs.Moves
import TapeMachine.Script.Block

namespace TapeMachine

/-! ## §1. Tapes, inputs and outputs. -/

/-- How tapes, inputs and outputs of two machines are related. -/
structure Likeness where
  tape : Tape → Tape → Prop
  input : Input → Input → Prop
  output : Output → Output → Prop

/-- What the operations on tapes, inputs and outputs have to keep, and with
which faults they may fail on the first machine alone. -/
structure Likeness.Steady (l : Likeness) (excused : ExitCode → Prop) : Prop where
  current : ∀ {t t' : Tape}, l.tape t t' → t'.current = t.current
  stride : ∀ {t t' : Tape} {o : Operator} {f : Tape → Nat → Tape.Stride} {fault : ExitCode}
    (n : Nat), l.tape t t' → o.stride? = some (f, fault) →
    ((f t n).made < n ∧ excused fault)
      ∨ ((f t' n).made = (f t n).made ∧ l.tape (f t n).tape (f t' n).tape)
  clear : ∀ {t t' : Tape}, l.tape t t' → l.tape t.clear t'.clear
  store : ∀ {t t' u : Tape} {c : Char}, l.tape t t' → t.store? c = some u →
    ∃ u', t'.store? c = some u' ∧ l.tape u u'
  refuse : ∀ {t t' : Tape} {c : Char}, l.tape t t' → t.store? c = none →
    excused .aboveMaximum ∨ t'.store? c = none
  read : ∀ {i i' j : Input} {c : Char}, l.input i i' → i.read? = some (c, j) →
    ∃ j', i'.read? = some (c, j') ∧ l.input j j'
  dry : ∀ {i i' : Input}, l.input i i' → i.read? = none →
    excused .inputExhausted ∨ i'.read? = none
  write : ∀ {o o' w : Output} {v : Nat}, l.output o o' → o.write? v = some w →
    ∃ w', o'.write? v = some w' ∧ l.output w w'
  full : ∀ {o o' : Output} {v : Nat}, l.output o o' → o.write? v = none →
    excused .outputFull ∨ o'.write? v = none

/-- If the tapes are equal, only inputs and outputs have to be looked at. -/
theorem Likeness.steady_of_tape_eq {input : Input → Input → Prop} {output : Output → Output → Prop}
    {excused : ExitCode → Prop}
    (read : ∀ {i i' j : Input} {c : Char}, input i i' → i.read? = some (c, j) →
      ∃ j', i'.read? = some (c, j') ∧ input j j')
    (dry : ∀ {i i' : Input}, input i i' → i.read? = none →
      excused .inputExhausted ∨ i'.read? = none)
    (write : ∀ {o o' w : Output} {v : Nat}, output o o' → o.write? v = some w →
      ∃ w', o'.write? v = some w' ∧ output w w')
    (full : ∀ {o o' : Output} {v : Nat}, output o o' → o.write? v = none →
      excused .outputFull ∨ o'.write? v = none) :
    (Likeness.mk Eq input output).Steady excused where
  current := by
    rintro t _ rfl
    rfl
  stride := by
    rintro t _ o f fault n rfl -
    exact .inr ⟨rfl, rfl⟩
  clear := by
    rintro t _ rfl
    rfl
  store := by
    rintro t _ u c rfl hu
    exact ⟨u, hu, rfl⟩
  refuse := by
    rintro t _ c rfl hu
    exact .inr hu
  read := read
  dry := dry
  write := write
  full := full

/-! ## §2. Machines that are linked. -/

/-- A span with its ends replaced. -/
def Span.relocate (u : Nat → Nat) (s : Span) : Span := ⟨u s.start, u s.stop⟩

/-- A definition on record with its index replaced. -/
def FunctionEntry.relocate (u : Nat → Nat) (e : FunctionEntry) : FunctionEntry :=
  ⟨e.key, u e.declaration⟩

/-- How all parts of two machines are related, and the index of the second
program that stands for an index of the first. -/
structure Linkage extends Likeness where
  index : Nat → Nat
  operations : Nat → Nat → Prop
  functions : FunctionTable → FunctionTable → Prop
  stack : CallStack → CallStack → Prop

/-- The machines are related part by part. -/
structure Machine.Linked (l : Linkage) (m m' : Machine) : Prop where
  tape : l.tape m.tape m'.tape
  input : l.input m.input m'.input
  output : l.output m.output m'.output
  operations : l.operations m.operations m'.operations
  functions : l.functions m.functions m'.functions
  stack : l.stack m.stack m'.stack

/-- Moves of the same kind, to machines that are linked. -/
inductive Move.Linked (l : Linkage) : Move → Move → Prop
  | next {m m' : Machine} (h : m.Linked l m') (asked : Bool) :
      Linked l (.next m asked) (.next m' asked)
  | halt {m m' : Machine} (h : m.Linked l m') (code : ExitCode) :
      Linked l (.halt code m) (.halt code m')

/-- What the operations on the parts have to keep. -/
structure Linkage.Keeps (l : Linkage) (excused : ExitCode → Prop) : Prop
    extends l.toLikeness.Steady excused where
  credit : ∀ {k k' : Nat} (n : Nat), l.operations k k' → l.operations (k + n) (k' + n)
  get? : ∀ {f f' : FunctionTable} (key : Nat), l.functions f f' →
    f'.get? key = (f.get? key).map (·.relocate l.index)
  define : ∀ {f f' g : FunctionTable} {e : FunctionEntry} {body : Span}, l.functions f f' →
    (body.relocate l.index).isEmpty = body.isEmpty → f.define? e body = some g →
    ∃ g', f'.define? (e.relocate l.index) (body.relocate l.index) = some g' ∧ l.functions g g'
  defined : ∀ {f f' : FunctionTable} {e : FunctionEntry} {body : Span}, l.functions f f' →
    f.define? e body = none → f'.define? (e.relocate l.index) (body.relocate l.index) = none
  isFull : ∀ {s s' : CallStack}, l.stack s s' → s'.isFull = s.isFull
  push : ∀ {s s' t : CallStack} {resume : Nat} {body : Span}, l.stack s s' →
    s.push? resume body = some t →
    ∃ t', s'.push? (l.index resume) (body.relocate l.index) = some t' ∧ l.stack t t'
  goto : ∀ {m m' : Machine} (j : Nat), l.stack m.stack m'.stack →
    l.stack (m.goto j).stack (m'.goto (l.index j)).stack

/-- The programs correspond at the opcode `op`, which is at index `i` of the
first: so do the index behind it and, for a bracket, its partner and the index
behind that; a function's body is empty in both or in none. -/
structure Linkage.At (l : Linkage) (p q : Program) (reset : Option Bool) (i : Nat) (op : Opcode) :
    Prop where
  next : l.index (i + 1) = l.index i + 1
  partner : ∀ {j : Nat}, op.operator.isSimple = false → p.partners[i]? = some j →
    q.partners[l.index i]? = some (l.index j) ∧ l.index (j + 1) = l.index j + 1
  body : ∀ {j : Nat}, op.operator = .bodyOpen → p.partners[i]? = some j →
    (l.index (i + 1) = l.index j ↔ i + 1 = j)
  reset : op.operator = .loopOpen → reset = some true → l.index (i + 3) = l.index i + 3

/-- The move fails with a fault that is excused, or the other machine has one
that is linked to it. -/
def Move.Followed (l : Linkage) (excused : ExitCode → Prop) (move : Move) (other : Option Move) :
    Prop :=
  (∃ code m, move = .halt code m ∧ excused code) ∨ ∃ move', other = some move' ∧ move.Linked l move'

namespace Move.Followed

variable {l : Linkage} {excused : ExitCode → Prop} {m m' : Machine}

theorem of_excused {code : ExitCode} {other : Option Move} (h : excused code) :
    (Move.halt code m).Followed l excused other :=
  .inl ⟨code, m, rfl, h⟩

theorem of_next (h : m.Linked l m') (asked : Bool) :
    (Move.next m asked).Followed l excused (some (.next m' asked)) :=
  .inr ⟨_, rfl, .next h asked⟩

theorem of_halt (h : m.Linked l m') (code : ExitCode) :
    (Move.halt code m).Followed l excused (some (.halt code m')) :=
  .inr ⟨_, rfl, .halt h code⟩

/-- If no fault is excused, the other machine has a move. -/
theorem exists_linked {move : Move} {other : Option Move}
    (h : move.Followed l (fun _ => False) other) :
    ∃ move', other = some move' ∧ move.Linked l move' := by
  rcases h with ⟨_, _, _, hfalse⟩ | h
  · exact hfalse.elim
  · exact h

end Move.Followed

/-! ## §3. One opcode. -/

namespace Linkage.Keeps

variable {l : Linkage} {excused : ExitCode → Prop} {m m' : Machine}

theorem linked_credit (hl : l.Keeps excused) (hm : m.Linked l m') (n : Nat) :
    (m.credit n).Linked l (m'.credit n) :=
  ⟨hm.tape, hm.input, hm.output, hl.credit n hm.operations, hm.functions, hm.stack⟩

theorem linked_goto (hl : l.Keeps excused) (hm : m.Linked l m') (j : Nat) :
    (m.goto j).Linked l (m'.goto (l.index j)) where
  tape := by
    rw [Machine.goto_tape, Machine.goto_tape]
    exact hm.tape
  input := by
    rw [Machine.goto_input, Machine.goto_input]
    exact hm.input
  output := by
    rw [Machine.goto_output, Machine.goto_output]
    exact hm.output
  operations := by
    rw [Machine.goto_operations, Machine.goto_operations]
    exact hm.operations
  functions := by
    rw [Machine.goto_functions, Machine.goto_functions]
    exact hm.functions
  stack := hl.goto j hm.stack

/-- The machines go on at indices that stand for each other. -/
theorem followed_goto (hl : l.Keeps excused) (hm : m.Linked l m') {j j' : Nat} (hj : l.index j = j')
    (asked : Bool) :
    (Move.next (m.goto j) asked).Followed l excused (some (.next (m'.goto j') asked)) := by
  subst hj
  exact .of_next (hl.linked_goto hm j) asked

section Operators

variable {p q : Program} {reset : Option Bool} {spent : Bool} {i : Nat} {op : Opcode}

/-- A counted operator. -/
theorem move_stride (hl : l.Keeps excused) (hat : l.At p q reset i op) (hm : m.Linked l m')
    {f : Tape → Nat → Tape.Stride} {fault : ExitCode}
    (hs : op.operator.stride? = some (f, fault)) {move : Move}
    (h : m.move? p reset spent i op = some move) :
    move.Followed l excused (m'.move? q reset spent (l.index i) op) := by
  rw [Machine.move?_stride hs, Machine.stride_eq] at h
  rw [Machine.move?_stride hs, Machine.stride_eq]
  rcases hl.stride op.count hm.tape hs with ⟨hshort, hfault⟩ | ⟨hmade, htape⟩
  · rw [if_pos hshort] at h
    cases h
    exact .of_excused hfault
  · rw [hmade]
    have hafter : ({ m.credit (f m.tape op.count).made with tape := (f m.tape op.count).tape } :
        Machine).Linked l { m'.credit (f m.tape op.count).made with
          tape := (f m'.tape op.count).tape } :=
      { hl.linked_credit hm (f m.tape op.count).made with tape := htape }
    by_cases hshort : (f m.tape op.count).made < op.count
    · rw [if_pos hshort] at h
      rw [if_pos hshort]
      cases h
      exact .of_halt hafter fault
    · rw [if_neg hshort] at h
      rw [if_neg hshort]
      cases h
      exact hl.followed_goto hafter hat.next false

theorem move_put (hl : l.Keeps excused) (hat : l.At p q reset i op) (hm : m.Linked l m')
    (ho : op.operator = .put) {move : Move} (h : m.move? p reset spent i op = some move) :
    move.Followed l excused (m'.move? q reset spent (l.index i) op) := by
  unfold Machine.move? at h ⊢
  rw [ho] at h ⊢
  dsimp only at h ⊢
  rw [hl.current hm.tape]
  cases hwrite : m.output.write? m.tape.current with
  | none =>
    rw [hwrite] at h
    cases h
    rcases hl.full hm.output hwrite with hfault | hwrite'
    · exact .of_excused hfault
    · rw [hwrite']
      exact .of_halt hm _
  | some output =>
    rw [hwrite] at h
    cases h
    obtain ⟨output', hwrite', houtput⟩ := hl.write hm.output hwrite
    rw [hwrite']
    refine hl.followed_goto ?_ hat.next false
    exact { hl.linked_credit hm 1 with output := houtput }

theorem move_get (hl : l.Keeps excused) (hat : l.At p q reset i op) (hm : m.Linked l m')
    (ho : op.operator = .get) {move : Move} (h : m.move? p reset spent i op = some move) :
    move.Followed l excused (m'.move? q reset spent (l.index i) op) := by
  unfold Machine.move? at h ⊢
  rw [ho] at h ⊢
  dsimp only at h ⊢
  cases hread : m.input.read? with
  | none =>
    rw [hread] at h
    cases h
    rcases hl.dry hm.input hread with hfault | hread'
    · exact .of_excused hfault
    · rw [hread']
      exact .of_halt hm _
  | some read =>
    obtain ⟨c, input⟩ := read
    obtain ⟨input', hread', hinput⟩ := hl.read hm.input hread
    rw [hread] at h
    rw [hread']
    dsimp only at h ⊢
    cases hstore : m.tape.store? c with
    | none =>
      rw [hstore] at h
      cases h
      rcases hl.refuse hm.tape hstore with hfault | hstore'
      · exact .of_excused hfault
      · rw [hstore']
        refine .of_halt ?_ _
        exact { hm with input := hinput }
    | some tape =>
      rw [hstore] at h
      cases h
      obtain ⟨tape', hstore', htape⟩ := hl.store hm.tape hstore
      rw [hstore']
      refine hl.followed_goto ?_ hat.next false
      exact { hl.linked_credit hm 1 with tape := htape, input := hinput }

theorem move_loopOpen (hl : l.Keeps excused) (hat : l.At p q reset i op) (hm : m.Linked l m')
    (ho : op.operator = .loopOpen) {move : Move} (h : m.move? p reset spent i op = some move) :
    move.Followed l excused (m'.move? q reset spent (l.index i) op) := by
  unfold Machine.move? at h ⊢
  rw [ho] at h ⊢
  dsimp only at h ⊢
  rw [hl.current hm.tape]
  by_cases h0 : m.tape.current = 0
  · rw [if_pos h0] at h
    rw [if_pos h0]
    obtain ⟨j, hj, rfl⟩ := Option.map_eq_some_iff.1 h
    obtain ⟨hj', hsucc⟩ := hat.partner (by rw [ho]; rfl) hj
    rw [hj']
    exact hl.followed_goto (hl.linked_credit hm 1) hsucc false
  · rw [if_neg h0] at h
    rw [if_neg h0]
    obtain ⟨reset, rfl, rfl⟩ := Option.map_eq_some_iff.1 h
    cases reset with
    | true =>
      refine hl.followed_goto ?_ (hat.reset ho rfl) false
      exact { hl.linked_credit hm _ with tape := hl.clear hm.tape }
    | false => exact hl.followed_goto (hl.linked_credit hm 1) hat.next false

theorem move_loopClose (hl : l.Keeps excused) (hat : l.At p q reset i op) (hm : m.Linked l m')
    (ho : op.operator = .loopClose) {move : Move} (h : m.move? p reset spent i op = some move) :
    move.Followed l excused (m'.move? q reset spent (l.index i) op) := by
  unfold Machine.move? at h ⊢
  rw [ho] at h ⊢
  dsimp only at h ⊢
  rw [hl.current hm.tape]
  by_cases h0 : m.tape.current = 0
  · rw [if_pos h0] at h
    rw [if_pos h0]
    cases h
    exact hl.followed_goto (hl.linked_credit hm 1) hat.next false
  · rw [if_neg h0] at h
    rw [if_neg h0]
    cases spent with
    | true =>
      cases h
      exact .of_halt hm _
    | false =>
      obtain ⟨j, hj, rfl⟩ := Option.map_eq_some_iff.1 h
      obtain ⟨hj', hsucc⟩ := hat.partner (by rw [ho]; rfl) hj
      rw [hj']
      exact hl.followed_goto (hl.linked_credit hm 1) hsucc true

theorem move_bodyOpen (hl : l.Keeps excused) (hat : l.At p q reset i op) (hm : m.Linked l m')
    (ho : op.operator = .bodyOpen) {move : Move} (h : m.move? p reset spent i op = some move) :
    move.Followed l excused (m'.move? q reset spent (l.index i) op) := by
  unfold Machine.move? at h ⊢
  rw [ho] at h ⊢
  dsimp only at h ⊢
  rw [hl.current hm.tape]
  obtain ⟨j, hj, rfl⟩ := Option.map_eq_some_iff.1 h
  obtain ⟨hj', hsucc⟩ := hat.partner (by rw [ho]; rfl) hj
  -- the body is empty in both programs or in none, so both define it or none
  have hempty : (Span.relocate l.index ⟨i + 1, j⟩).isEmpty = Span.isEmpty ⟨i + 1, j⟩ := by
    show (l.index (i + 1) == l.index j) = (i + 1 == j)
    rw [Bool.eq_iff_iff, beq_iff_eq, beq_iff_eq]
    exact hat.body ho hj
  have hspan : (⟨l.index i + 1, l.index j⟩ : Span) = Span.relocate l.index ⟨i + 1, j⟩ := by
    rw [Span.relocate, hat.next]
  have hentry : (⟨m.tape.current, l.index i⟩ : FunctionEntry)
      = FunctionEntry.relocate l.index ⟨m.tape.current, i⟩ := rfl
  rw [hj', Option.map_some, hspan, hentry]
  cases hdefine : m.functions.define? ⟨m.tape.current, i⟩ ⟨i + 1, j⟩ with
  | none =>
    rw [hl.defined hm.functions hdefine]
    exact .of_halt hm _
  | some functions =>
    obtain ⟨functions', hdefine', hfunctions⟩ := hl.define hm.functions hempty hdefine
    rw [hdefine']
    refine hl.followed_goto ?_ hsucc false
    exact { hl.linked_credit hm 1 with functions := hfunctions }

theorem move_call (hl : l.Keeps excused) (hat : l.At p q reset i op) (hm : m.Linked l m')
    (ho : op.operator = .call) {move : Move} (h : m.move? p reset spent i op = some move) :
    move.Followed l excused (m'.move? q reset spent (l.index i) op) := by
  unfold Machine.move? at h ⊢
  rw [ho] at h ⊢
  dsimp only at h ⊢
  rw [hl.current hm.tape, hl.get? _ hm.functions, hl.isFull hm.stack]
  cases hget : m.functions.get? m.tape.current with
  | none =>
    rw [hget] at h
    cases h
    exact .of_halt hm _
  | some body =>
    rw [hget] at h
    dsimp only [Option.map_some] at h ⊢
    by_cases hfull : m.stack.isFull
    · rw [if_pos hfull] at h
      rw [if_pos hfull]
      cases h
      exact .of_halt hm _
    · rw [if_neg hfull] at h
      rw [if_neg hfull]
      cases spent with
      | true =>
        cases h
        exact .of_halt hm _
      | false =>
        obtain ⟨stack, hstack, rfl⟩ := Option.map_eq_some_iff.1 h
        obtain ⟨stack', hstack', hlinked⟩ := hl.push hm.stack hstack
        rw [hat.next] at hstack'
        simp only [Bool.false_eq_true, if_false, hstack', Option.map_some]
        refine .of_next ?_ true
        exact { hl.linked_credit hm 1 with stack := hlinked }

/-- **An opcode keeps machines linked**, unless it fails on the first one with
a fault that is excused. -/
theorem move (hl : l.Keeps excused) (hat : l.At p q reset i op) (hm : m.Linked l m')
    {move : Move} (h : m.move? p reset spent i op = some move) :
    move.Followed l excused (m'.move? q reset spent (l.index i) op) := by
  cases ho : op.operator with
  | right | left | inc | dec => exact hl.move_stride hat hm (by rw [ho]; rfl) h
  | put => exact hl.move_put hat hm ho h
  | get => exact hl.move_get hat hm ho h
  | loopOpen => exact hl.move_loopOpen hat hm ho h
  | loopClose => exact hl.move_loopClose hat hm ho h
  | bodyOpen => exact hl.move_bodyOpen hat hm ho h
  | bodyClose =>
    unfold Machine.move? at h ⊢
    rw [ho] at h ⊢
    cases h
    exact hl.followed_goto hm hat.next false
  | call => exact hl.move_call hat hm ho h

end Operators

end Linkage.Keeps

end TapeMachine
