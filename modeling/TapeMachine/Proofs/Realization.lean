/-
  TapeMachine.Proofs.Realization
  ──────────────────────────────
  **THE ENGINE DOES WHAT THE TREE SAYS.**

  The engine that takes each opcode by itself, on a program that has a tree
  in it, is compared with the evaluation of the tree.  Standing at the code
  of a block (`Realizes`), it

    • gets behind that code, with the store the evaluation ends with, or
    • halts with the fault the evaluation ends with, or
    • if the evaluation ran out of fuel, is still running after half as many
      steps.

  The last case makes the comparison work in both directions: an engine
  that halts bounds the fuel the evaluation needs.  `realizes` is
  one induction on the fuel for blocks and loops together; each construct
  has a lemma of its own before it.
-/
import TapeMachine.Machine.Structured
import TapeMachine.Proofs.Stepwise

namespace TapeMachine

/-! ## §1. Stores and machines. -/

/-- The machine with the contents of a store. -/
def Store.machine (s : Store) (functions : FunctionTable) (stack : CallStack) : Machine :=
  ⟨s.tape, functions, stack, s.input, s.output, s.operations⟩

/-- A call at that machine. -/
def Store.run (s : Store) (functions : FunctionTable) (stack : CallStack) (polls : Nat) : Run :=
  ⟨s.machine functions stack, none, polls⟩

/-- The definitions on record are the bindings: each `(` is followed by the
block that was bound, up to its `)`. -/
inductive Recorded (p : Program) : List FunctionEntry → List (Nat × Block) → Prop
  | nil : Recorded p [] []
  | cons {e : FunctionEntry} {body : Block} {entries : List FunctionEntry}
      {bindings : List (Nat × Block)}
      (partner : p.partners[e.declaration]? = some (e.declaration + 1 + body.length))
      (place : body.At p (e.declaration + 1)) (rest : Recorded p entries bindings) :
      Recorded p (e :: entries) ((e.key, body) :: bindings)

/-- A table has the functions that are bound, where their blocks stand. -/
structure Binds (p : Program) (bindings : List (Nat × Block)) (f : FunctionTable) : Prop where
  record : Recorded p f.newest bindings
  unbound : ∀ {key : Nat}, bindings.lookup key = none → f.get? key = none
  bound : ∀ {key : Nat} {body : Block}, bindings.lookup key = some body → body.IsItems
    ∧ ∃ start, f.get? key = some ⟨start, start + body.length⟩ ∧ body.At p start

variable {p : Program}

theorem binds_empty (p : Program) : Binds p [] .empty where
  record := .nil
  unbound := fun _ => FunctionTable.get?_empty _
  bound := fun h => by cases h

/-- A definition binds its block. -/
theorem Binds.define {bindings : List (Nat × Block)} {f : FunctionTable} (h : Binds p bindings f)
    {key i : Nat} {body : Block} (hfree : bindings.lookup key = none) (hitems : body.IsItems)
    (hne : body ≠ .done) (hat : body.At p (i + 1))
    (hpartner : p.partners[i]? = some (i + 1 + body.length)) :
    ∃ g, f.define? ⟨key, i⟩ ⟨i + 1, i + 1 + body.length⟩ = some g
      ∧ Binds p ((key, body) :: bindings) g := by
  have hsome : (f.define? ⟨key, i⟩ ⟨i + 1, i + 1 + body.length⟩).isSome := by
    rw [FunctionTable.define?_isSome, h.unbound hfree]
    rfl
  obtain ⟨g, hg⟩ := Option.isSome_iff_exists.1 hsome
  -- a table forgets empty bodies, but no block of a definition is empty
  have hempty : (⟨i + 1, i + 1 + body.length⟩ : Span).isEmpty = false := by
    have hlength : body.length ≠ 0 := by
      cases body with
      | done => exact absurd rfl hne
      | simple o next => simp
      | loop inner next => simp
      | define inner next => simp
    show (i + 1 == i + 1 + body.length) = false
    rw [beq_eq_false_iff_ne]
    omega
  have hget : ∀ k, g.get? k
      = if k = key then some ⟨i + 1, i + 1 + body.length⟩ else f.get? k := by
    intro k
    rw [FunctionTable.get?_define? hg, Option.filter_some, hempty]
    rfl
  refine ⟨g, hg, ?_, ?_, ?_⟩
  · rw [FunctionTable.newest_define? hg]
    exact .cons (e := ⟨key, i⟩) hpartner hat h.record
  · intro k hk
    rw [List.lookup_cons] at hk
    split at hk
    · cases hk
    · next hkey =>
      rw [hget, if_neg (by simpa using hkey)]
      exact h.unbound hk
  · intro k body' hk
    rw [List.lookup_cons] at hk
    split at hk
    · next hkey =>
      cases hk
      refine ⟨hitems, i + 1, ?_, hat⟩
      rw [hget, if_pos (by simpa using hkey)]
    · next hkey =>
      obtain ⟨hitems', start, hstart, hat'⟩ := h.bound hk
      refine ⟨hitems', start, ?_, hat'⟩
      rw [hget, if_neg (by simpa using hkey), hstart]

/-! ## §2. What the engine makes of an evaluation. -/

/-- What the engine makes of an evaluation with so much fuel, from `r` on:
it gets to where the stack is `stack`, or halts with the fault, or
keeps running. -/
def Realizes (p : Program) (r : Run) (stack : CallStack) (fuel : Nat) : Option Evaluation → Prop
  -- a loop may use two units of fuel between one step and the next
  | none => ∃ n r', Run.Leads p .stepwise n r r' ∧ fuel ≤ 2 * n
  | some ⟨s, none⟩ => ∃ n functions polls, Run.Leads p .stepwise n r (s.run functions stack polls)
      ∧ Binds p s.bindings functions ∧ s.tape.WellFormed
  | some ⟨s, some code⟩ => ∃ functions stack' polls,
      Run.Halts p .stepwise r code (s.run functions stack' polls)
      ∧ Recorded p functions.newest s.bindings

namespace Realizes

variable {r r₁ : Run} {stack stack' : CallStack} {fuel fuel' : Nat} {e : Option Evaluation}

theorem mono (h : Realizes p r stack fuel e) (hle : fuel' ≤ fuel) : Realizes p r stack fuel' e := by
  match e, h with
  | none, ⟨n, r', hlead, hn⟩ => exact ⟨n, r', hlead, Nat.le_trans hle hn⟩
  | some ⟨s, none⟩, h => exact h
  | some ⟨s, some code⟩, h => exact h

/-- Steps made before, of which there is at least one, pay for fuel. -/
theorem leads {n : Nat} (h : Realizes p r₁ stack fuel e)
    (hlead : Run.Leads p .stepwise (n + 1) r r₁) : Realizes p r stack (fuel + 2) e := by
  match e, h with
  | none, ⟨k, r', hlead', hk⟩ => exact ⟨n + 1 + k, r', hlead.trans hlead', by omega⟩
  | some ⟨s, none⟩, ⟨k, functions, polls, hlead', hbinds⟩ =>
    exact ⟨n + 1 + k, functions, polls, hlead.trans hlead', hbinds⟩
  | some ⟨s, some code⟩, ⟨functions, stack', polls, hhalts, hrecord⟩ =>
    exact ⟨functions, stack', polls, hlead.halts hhalts, hrecord⟩

theorem of_halt {s : Store} {functions : FunctionTable} {polls : Nat} {code : ExitCode}
    (h : r.step? p .stepwise = some (.halt code (s.run functions stack' polls)))
    (hrecord : Recorded p functions.newest s.bindings) :
    Realizes p r stack fuel (some ⟨s, some code⟩) :=
  ⟨functions, stack', polls, Run.halts_of_step h, hrecord⟩

/-- **One evaluation after another.** -/
theorem andThen {next : Store → Option Evaluation} (h : Realizes p r stack fuel e)
    (hnext : ∀ (s : Store) (functions : FunctionTable) (polls : Nat),
      Binds p s.bindings functions → s.tape.WellFormed →
      Realizes p (s.run functions stack polls) stack' fuel (next s)) :
    Realizes p r stack' fuel (e.bind fun e => e.andThen next) := by
  match e, h with
  | none, h => exact h
  | some ⟨s, some code⟩, h => exact h
  | some ⟨s, none⟩, ⟨n, functions, polls, hlead, hbinds, htape⟩ =>
    have hrest := hnext s functions polls hbinds htape
    show Realizes p r stack' fuel (next s)
    cases n with
    | zero =>
      -- no step was made, so none pays for fuel, and none is needed
      obtain rfl : r = s.run functions stack polls := by
        cases hlead
        rfl
      exact hrest
    | succ n => exact (hrest.leads hlead).mono (by omega)

end Realizes

/-! ## §3. One opcode. -/

/-- The engine at `before` carries out in one step what has the effect `e`
on the store, and stands at `after` unless it faults. -/
def ActsLike (p : Program) (s : Store) (e : Evaluation) (functions : FunctionTable)
    (before after : CallStack) (polls : Nat) : Prop :=
  e.store.bindings = s.bindings ∧ e.store.tape.WellFormed
    ∧ (s.run functions before polls).step? p .stepwise
      = match e.fault with
        | none => some (.next (e.store.run functions after polls))
        | some code => some (.halt code (e.store.run functions before polls))

section Step

variable {s : Store} {functions : FunctionTable} {span : Span} {i : Nat} {callers : List Frame}
  {overdrawn polls : Nat}

/-- A step of a counted operator. -/
theorem actsLike_move {o : Operator} {f : Tape → Nat → Tape.Stride} {fault : ExitCode}
    (hs : o.stride? = some (f, fault)) (hi : i < span.stop)
    (hop : p.opcodes[i]? = some (.one o)) (htape : s.tape.WellFormed) :
    ActsLike p s (s.move f fault) functions ⟨⟨span, i⟩ :: callers, overdrawn⟩
      ⟨⟨span, i + 1⟩ :: callers, overdrawn⟩ polls := by
  have hf := Tape.stepwise_of_stride? hs
  have hle := hf.made_le s.tape 1
  unfold ActsLike Store.move Store.run Store.machine
  rw [Run.step?_stride hs hi hop]
  simp only [Opcode.one]
  by_cases hmade : (f s.tape 1).made = 1
  · simp only [hmade, Nat.lt_irrefl, if_true, if_false]
    exact ⟨rfl, hf.wellFormed 1 htape, rfl⟩
  · -- a step that is not made leaves the tape as it is
    have hzero : (f s.tape 1).made = 0 := by omega
    have hstay : f s.tape 1 = ⟨s.tape, 0⟩ := hf.stop 0 htape hzero
    simp only [hstay, Nat.zero_ne_one, Nat.zero_lt_one, if_true, if_false]
    exact ⟨trivial, htape, rfl⟩

/-- **An operator that only touches the tape and the buffers.** -/
theorem actsLike_act {o : Operator} (hsimple : o.isSimple) (hcall : o ≠ .call)
    (hi : i < span.stop) (hop : p.opcodes[i]? = some (.one o)) (htape : s.tape.WellFormed) :
    ActsLike p s (s.act o) functions ⟨⟨span, i⟩ :: callers, overdrawn⟩
      ⟨⟨span, i + 1⟩ :: callers, overdrawn⟩ polls := by
  have hstep : (s.run functions ⟨⟨span, i⟩ :: callers, overdrawn⟩ polls).step? p .stepwise
      = ((s.machine functions ⟨⟨span, i⟩ :: callers, overdrawn⟩).move? p (some false) false i
          (.one o)).map (Move.toStep none polls) := by
    show Run.step? p .stepwise ⟨s.machine functions ⟨⟨span, i⟩ :: callers, overdrawn⟩, none, polls⟩
      = _
    rw [step?_stepwise rfl hi]
    simp only [hop]
  cases o with
  | right | left | inc | dec => exact actsLike_move rfl hi hop htape
  | put =>
    unfold ActsLike
    rw [hstep]
    simp only [Store.act, Machine.move?, Opcode.one, Store.machine]
    cases hout : s.output.write? s.tape.current with
    | none => exact ⟨rfl, htape, rfl⟩
    | some output => exact ⟨rfl, htape, rfl⟩
  | get =>
    unfold ActsLike
    rw [hstep]
    simp only [Store.act, Machine.move?, Opcode.one, Store.machine]
    cases hin : s.input.read? with
    | none => exact ⟨rfl, htape, rfl⟩
    | some read =>
      obtain ⟨c, input⟩ := read
      dsimp only
      cases hstore : s.tape.store? c with
      | none => exact ⟨rfl, htape, rfl⟩
      | some tape => exact ⟨rfl, htape.store? hstore, rfl⟩
  | call => exact absurd rfl hcall
  | loopOpen | loopClose | bodyOpen | bodyClose => cases hsimple

/-- Where a loop from `start` to `stop` goes on after a bracket. -/
def Store.loopIndex (s : Store) (start stop : Nat) : Nat :=
  if s.tape.current = 0 then stop else start

/-- The `[` at `i` of a loop whose `]` is at `j`. -/
theorem step?_loopOpen {j : Nat} (hi : i < span.stop)
    (hop : p.opcodes[i]? = some (.one .loopOpen)) (hpartner : p.partners[i]? = some j) :
    (s.run functions ⟨⟨span, i⟩ :: callers, overdrawn⟩ polls).step? p .stepwise
      = some (.next (s.credit.run functions
          ⟨⟨span, s.credit.loopIndex (i + 1) (j + 1)⟩ :: callers, overdrawn⟩ polls)) := by
  unfold Store.run
  rw [step?_stepwise rfl hi]
  simp only [hop, Machine.move?, Opcode.one, hpartner, Store.machine]
  by_cases h0 : s.tape.current = 0
  · have hindex : s.credit.loopIndex (i + 1) (j + 1) = j + 1 := if_pos h0
    rw [if_pos h0, hindex]
    rfl
  · have hindex : s.credit.loopIndex (i + 1) (j + 1) = i + 1 := if_neg h0
    rw [if_neg h0, hindex]
    rfl

/-- The `]` at `j` of a loop whose `[` is at `i`. -/
theorem step?_loopClose {j : Nat} (hj : j < span.stop)
    (hop : p.opcodes[j]? = some (.one .loopClose)) (hpartner : p.partners[j]? = some i) :
    ∃ polls', (s.run functions ⟨⟨span, j⟩ :: callers, overdrawn⟩ polls).step? p .stepwise
      = some (.next (s.credit.run functions
          ⟨⟨span, s.credit.loopIndex (i + 1) (j + 1)⟩ :: callers, overdrawn⟩ polls')) := by
  unfold Store.run
  rw [step?_stepwise rfl hj]
  simp only [hop, Machine.move?, Opcode.one, hpartner, Store.machine]
  by_cases h0 : s.tape.current = 0
  · have hindex : s.credit.loopIndex (i + 1) (j + 1) = j + 1 := if_pos h0
    refine ⟨polls, ?_⟩
    rw [if_pos h0, hindex]
    rfl
  · have hindex : s.credit.loopIndex (i + 1) (j + 1) = i + 1 := if_neg h0
    refine ⟨polls + 1, ?_⟩
    rw [if_neg h0, hindex]
    rfl

/-- The `(` at `i` of a function whose `)` is at `j`. -/
theorem step?_bodyOpen {j : Nat} (hi : i < span.stop)
    (hop : p.opcodes[i]? = some (.one .bodyOpen)) (hpartner : p.partners[i]? = some j) :
    (s.run functions ⟨⟨span, i⟩ :: callers, overdrawn⟩ polls).step? p .stepwise
      = match functions.define? ⟨s.tape.current, i⟩ ⟨i + 1, j⟩ with
        | none => some (.halt .alreadyDefined
            (s.run functions ⟨⟨span, i⟩ :: callers, overdrawn⟩ polls))
        | some functions => some (.next
            (s.credit.run functions ⟨⟨span, j + 1⟩ :: callers, overdrawn⟩ polls)) := by
  unfold Store.run
  rw [step?_stepwise rfl hi]
  simp only [hop, Machine.move?, Opcode.one, hpartner, Store.machine, Store.credit,
    Option.map_some]
  cases functions.define? ⟨s.tape.current, i⟩ ⟨i + 1, j⟩ <;> rfl

/-- A call. -/
theorem step?_call (hi : i < span.stop) (hop : p.opcodes[i]? = some (.one .call)) :
    (s.run functions ⟨⟨span, i⟩ :: callers, overdrawn⟩ polls).step? p .stepwise
      = match functions.get? s.tape.current with
        | none => some (.halt .undefinedFunction
            (s.run functions ⟨⟨span, i⟩ :: callers, overdrawn⟩ polls))
        | some body =>
          if CallStack.capacity ≤ callers.length + 1 then some (.halt .stackFull
            (s.run functions ⟨⟨span, i⟩ :: callers, overdrawn⟩ polls))
          else some (.next (s.credit.run functions
            ⟨⟨body, body.start⟩ :: ⟨span, i + 1⟩ :: callers, overdrawn⟩ (polls + 1))) := by
  unfold Store.run
  rw [step?_stepwise rfl hi]
  simp only [hop, Machine.move?, Opcode.one, Store.machine]
  cases functions.get? s.tape.current with
  | none => rfl
  | some body =>
    by_cases hfull : CallStack.capacity ≤ callers.length + 1
    · have hisFull : (⟨⟨span, i⟩ :: callers, overdrawn⟩ : CallStack).isFull = true :=
        decide_eq_true hfull
      simp only [if_pos hfull, hisFull, if_true]
      rfl
    · have hisFull : (⟨⟨span, i⟩ :: callers, overdrawn⟩ : CallStack).isFull = false :=
        decide_eq_false hfull
      simp only [if_neg hfull, CallStack.push?, hisFull]
      rfl

/-- A function body that is done. -/
theorem step?_return {body : Span} {frame : Frame} :
    (s.run functions ⟨⟨body, body.stop⟩ :: frame :: callers, overdrawn⟩ polls).step? p .stepwise
      = some (.next (s.run functions ⟨frame :: callers, overdrawn⟩ polls)) :=
  Run.step?_of_done rfl (Nat.le_refl _)

end Step

/-! ## §4. Constructs. -/

/-- The evaluation of a block with so much fuel is realized by the engine,
wherever the block stands and in any store. -/
def BlockRealized (p : Program) (fuel : Nat) (b : Block) : Prop :=
  ∀ (s : Store) (functions : FunctionTable) (span : Span) (i : Nat) (callers : List Frame)
    (overdrawn polls : Nat), b.IsItems → b.At p i → i + b.length ≤ span.stop →
    Binds p s.bindings functions → s.tape.WellFormed →
    Realizes p (s.run functions ⟨⟨span, i⟩ :: callers, overdrawn⟩ polls)
      ⟨⟨span, i + b.length⟩ :: callers, overdrawn⟩ fuel (b.evaluate fuel (callers.length + 1) s)

/-- So is the repetition of a loop's body, from behind a bracket on. -/
def LoopRealized (p : Program) (fuel : Nat) (body : Block) : Prop :=
  ∀ (s : Store) (functions : FunctionTable) (span : Span) (i : Nat) (callers : List Frame)
    (overdrawn polls : Nat), body.IsItems → body.At p (i + 1) →
    p.opcodes[i + 1 + body.length]? = some (.one .loopClose) →
    p.partners[i + 1 + body.length]? = some i → i + 1 + body.length < span.stop →
    Binds p s.bindings functions → s.tape.WellFormed →
    Realizes p (s.run functions
        ⟨⟨span, s.loopIndex (i + 1) (i + 1 + body.length + 1)⟩ :: callers, overdrawn⟩ polls)
      ⟨⟨span, i + 1 + body.length + 1⟩ :: callers, overdrawn⟩ (fuel - 1)
      (body.repeats fuel (callers.length + 1) s)

section Construct

variable {fuel : Nat} {body next : Block}

/-- One more round of a loop, or none. -/
theorem loopRealized_succ (hbody : BlockRealized p fuel body) (hloop : LoopRealized p fuel body) :
    LoopRealized p (fuel + 1) body := by
  intro s functions span i callers overdrawn polls hitems hat hop hpartner hstop hbinds htape
  rw [Block.repeats]
  by_cases h0 : s.tape.current = 0
  · rw [if_pos h0, Store.loopIndex, if_pos h0]
    exact ⟨0, functions, polls, .refl _, hbinds, htape⟩
  · rw [if_neg h0, Store.loopIndex, if_neg h0]
    refine (hbody s functions span (i + 1) callers overdrawn polls hitems hat
      (Nat.le_of_lt hstop) hbinds htape).andThen ?_
    intro s' functions' polls' hbinds' htape'
    -- the `]` after each round pays for the next one
    obtain ⟨polls'', hstep⟩ := step?_loopClose (s := s') hstop hop hpartner
    have hrest := hloop s'.credit functions' span i callers overdrawn polls'' hitems hat hop
      hpartner hstop hbinds' htape'
    exact (hrest.leads (.single hstep)).mono (by omega)

theorem blockRealized_done : BlockRealized p (fuel + 1) .done := by
  intro s functions span i callers overdrawn polls _ _ _ hbinds htape
  exact ⟨0, functions, polls, .refl _, hbinds, htape⟩

theorem evaluate_simple {o : Operator} (h : o ≠ .call) (next : Block) (fuel depth : Nat)
    (s : Store) : (Block.simple o next).evaluate (fuel + 1) depth s
      = (s.act o).andThen fun s => next.evaluate fuel depth s := by
  cases o with
  | call => exact absurd rfl h
  | _ => rfl

/-- An operator that only touches the tape and the buffers. -/
theorem blockRealized_act {o : Operator} (hcall : o ≠ .call) (hnext : BlockRealized p fuel next) :
    BlockRealized p (fuel + 1) (.simple o next) := by
  intro s functions span i callers overdrawn polls hitems hat hstop hbinds htape
  rw [Block.length_simple] at hstop
  rw [Block.length_simple, Nat.add_comm next.length 1, ← Nat.add_assoc, evaluate_simple hcall]
  have hact : ActsLike p s (s.act o) functions ⟨⟨span, i⟩ :: callers, overdrawn⟩
      ⟨⟨span, i + 1⟩ :: callers, overdrawn⟩ polls :=
    actsLike_act hitems.1 hcall (by omega) hat.1 htape
  revert hact
  generalize s.act o = e
  obtain ⟨s', fault⟩ := e
  rintro ⟨hbindings, htape', hstep⟩
  cases fault with
  | none =>
    have hrest := hnext s' functions span (i + 1) callers overdrawn polls hitems.2 hat.2 (by omega)
      (hbindings ▸ hbinds) htape'
    exact (hrest.leads (.single hstep)).mono (by omega)
  | some code =>
    exact .of_halt hstep (hbindings ▸ hbinds.record)

/-- A definition. -/
theorem blockRealized_define (hnext : BlockRealized p fuel next) :
    BlockRealized p (fuel + 1) (.define body next) := by
  intro s functions span i callers overdrawn polls hitems hat hstop hbinds htape
  obtain ⟨⟨hbody, hne⟩, hitems'⟩ := hitems
  obtain ⟨⟨hop, hpartner⟩, -, hat', hnextAt⟩ := hat
  rw [Block.length_define] at hstop
  rw [Block.length_define,
    show i + (body.length + next.length + 2) = i + 1 + body.length + 1 + next.length by omega,
    Block.evaluate, Store.callee?]
  have hi : i < span.stop := by omega
  cases hlookup : s.bindings.lookup s.tape.current with
  | some taken =>
    obtain ⟨-, start, hget, -⟩ := hbinds.bound hlookup
    have htaken : functions.define? ⟨s.tape.current, i⟩ ⟨i + 1, i + 1 + body.length⟩ = none := by
      rw [← Option.not_isSome_iff_eq_none, FunctionTable.define?_isSome, hget]
      simp
    exact .of_halt (by rw [step?_bodyOpen hi hop hpartner, htaken]) hbinds.record
  | none =>
    obtain ⟨functions', hdefine, hbinds'⟩ := hbinds.define hlookup hbody.isItems hne hat' hpartner
    have hrest := hnext { s.credit with bindings := (s.tape.current, body) :: s.bindings }
      functions' span (i + 1 + body.length + 1) callers overdrawn polls hitems' hnextAt (by omega)
      hbinds' htape
    refine (hrest.leads (.single ?_)).mono (Nat.le_add_right _ 1)
    rw [step?_bodyOpen hi hop hpartner, hdefine]
    rfl

/-- A loop. -/
theorem blockRealized_loop (hloop : LoopRealized p fuel body) (hnext : BlockRealized p fuel next) :
    BlockRealized p (fuel + 1) (.loop body next) := by
  intro s functions span i callers overdrawn polls hitems hat hstop hbinds htape
  obtain ⟨⟨hop, hpartner⟩, ⟨hop', hpartner'⟩, hat', hnextAt⟩ := hat
  rw [Block.length_loop] at hstop
  rw [Block.length_loop,
    show i + (body.length + next.length + 2) = i + 1 + body.length + 1 + next.length by omega,
    Block.evaluate]
  have hrounds := hloop s.credit functions span i callers overdrawn polls hitems.1.isItems hat'
    hop' hpartner' (by omega) hbinds htape
  have hall := hrounds.andThen fun s' functions' polls' hbinds' htape' =>
    (hnext s' functions' span (i + 1 + body.length + 1) callers overdrawn polls' hitems.2 hnextAt
      (by omega) hbinds' htape').mono (Nat.sub_le fuel 1)
  exact (hall.leads (.single (step?_loopOpen (by omega) hop hpartner))).mono (by omega)

/-- A call, whatever block is bound. -/
theorem blockRealized_call (hall : ∀ b, BlockRealized p fuel b) :
    BlockRealized p (fuel + 1) (.simple .call next) := by
  intro s functions span i callers overdrawn polls hitems hat hstop hbinds htape
  rw [Block.length_simple] at hstop
  rw [Block.length_simple, Nat.add_comm next.length 1, ← Nat.add_assoc, Block.evaluate,
    Store.callee?]
  have hi : i < span.stop := by omega
  cases hlookup : s.bindings.lookup s.tape.current with
  | none =>
    exact .of_halt (by rw [step?_call hi hat.1, hbinds.unbound hlookup]) hbinds.record
  | some body =>
    obtain ⟨hbody, start, hget, hbodyAt⟩ := hbinds.bound hlookup
    dsimp only
    by_cases hfull : CallStack.capacity ≤ callers.length + 1
    · rw [if_pos hfull]
      exact .of_halt (by rw [step?_call hi hat.1, hget]; exact if_pos hfull) hbinds.record
    · rw [if_neg hfull]
      -- the body in a frame of its own, then the rest in the frame of the call
      have hcall := hall body s.credit functions ⟨start, start + body.length⟩ start
        (⟨span, i + 1⟩ :: callers) overdrawn (polls + 1) hbody hbodyAt (Nat.le_refl _) hbinds htape
      have hrest := hcall.andThen fun s' functions' polls' hbinds' htape' =>
        ((hall next s' functions' span (i + 1) callers overdrawn polls' hitems.2 hat.2 (by omega)
          hbinds' htape').leads (.single step?_return)).mono (Nat.le_add_right fuel 2)
      refine (hrest.leads (.single ?_)).mono (Nat.le_add_right _ 1)
      rw [step?_call hi hat.1, hget]
      exact if_neg hfull

end Construct

/-- **The engine realizes every block and every loop.**  The induction is on
the fuel, which each construct hands on to its parts less one. -/
theorem realizes (p : Program) (fuel : Nat) :
    (∀ b, BlockRealized p fuel b) ∧ (∀ body, LoopRealized p fuel body) := by
  induction fuel with
  | zero =>
    constructor
    · intro b s functions span i callers overdrawn polls _ _ _ _ _
      exact ⟨0, _, .refl _, Nat.le_refl 0⟩
    · intro body s functions span i callers overdrawn polls _ _ _ _ _ _ _
      exact ⟨0, _, .refl _, Nat.le_refl 0⟩
  | succ fuel ih =>
    obtain ⟨hblocks, hloops⟩ := ih
    refine ⟨?_, fun body => loopRealized_succ (hblocks body) (hloops body)⟩
    intro b
    cases b with
    | done => exact blockRealized_done
    | simple o next =>
      by_cases hcall : o = .call
      · subst hcall
        exact blockRealized_call hblocks
      · exact blockRealized_act hcall (hblocks next)
    | loop body next => exact blockRealized_loop (hloops body) (hblocks next)
    | define body next => exact blockRealized_define (hblocks next)

/-! ## §5. Whole scripts. -/

/-- The store that a script starts from. -/
def Store.start (tape : Tape) (input : String) (limit : Nat) : Store :=
  ⟨tape, [], .ofText input, .empty limit, 0⟩

/-- The machine has halted with what is in the store. -/
structure Store.EndsAs (s : Store) (p : Program) (m : Machine) : Prop where
  tape : m.tape = s.tape
  input : m.input = s.input
  output : m.output = s.output
  operations : m.operations = s.operations
  record : Recorded p m.functions.newest s.bindings

section Script

variable {b : Block} {tape : Tape} {input : String} {limit : Nat}

/-- The engine, loaded with a program that is the code of `b`, realizes its
evaluation. -/
theorem realizes_script (hitems : b.IsItems) (hat : b.At p 0) (hsize : p.size = b.length)
    (htape : tape.WellFormed) (input : String) (limit fuel : Nat) :
    Realizes p ⟨.load p tape input limit, none, 0⟩ ⟨[⟨⟨0, p.size⟩, p.size⟩], 0⟩ fuel
      (b.evaluate fuel 1 (.start tape input limit)) := by
  have h := (realizes p fuel).1 b (.start tape input limit) .empty ⟨0, p.size⟩ 0 [] 0 0 hitems hat
    (by show 0 + b.length ≤ p.size; omega) (binds_empty p) htape
  rw [Nat.zero_add, ← hsize] at h
  exact h

/-- **An evaluation that ends**, with a fault or without one, **is a run that
halts.** -/
theorem halts_of_evaluate (hitems : b.IsItems) (hat : b.At p 0) (hsize : p.size = b.length)
    (htape : tape.WellFormed) {fuel : Nat} {e : Evaluation}
    (he : b.evaluate fuel 1 (.start tape input limit) = some e) :
    ∃ r, Run.Halts p .stepwise ⟨.load p tape input limit, none, 0⟩ (e.fault.getD .success) r
      ∧ e.store.EndsAs p r.machine := by
  have h := realizes_script hitems hat hsize htape input limit fuel
  rw [he] at h
  match e, h with
  | ⟨s, some code⟩, ⟨functions, stack, polls, hhalts, hrecord⟩ =>
    exact ⟨_, hhalts, rfl, rfl, rfl, rfl, hrecord⟩
  | ⟨s, none⟩, ⟨n, functions, polls, hleads, hbinds, _⟩ =>
    -- the script's frame is left, and then there is none
    have hpop : Run.Leads p .stepwise 1 (s.run functions ⟨[⟨⟨0, p.size⟩, p.size⟩], 0⟩ polls)
        (s.run functions ⟨[], 0⟩ polls) := .single (Run.step?_of_done rfl (Nat.le_refl p.size))
    have hend : Run.Halts p .stepwise (s.run functions ⟨[], 0⟩ polls) .success
        (s.run functions ⟨[], 0⟩ polls) := Run.halts_of_step (Run.step?_of_empty rfl)
    exact ⟨_, (hleads.trans hpop).halts hend, rfl, rfl, rfl, rfl, hbinds.record⟩

/-- **A run that halts is an evaluation that ends**, given two units
of fuel for each step. -/
theorem evaluate_of_halts (hitems : b.IsItems) (hat : b.At p 0) (hsize : p.size = b.length)
    (htape : tape.WellFormed) {code : ExitCode} {r : Run}
    (h : Run.Halts p .stepwise ⟨.load p tape input limit, none, 0⟩ code r) :
    ∃ fuel e, b.evaluate fuel 1 (.start tape input limit) = some e := by
  obtain ⟨n, hn⟩ := h
  have hrealizes := realizes_script hitems hat hsize htape input limit (2 * n)
  cases he : b.evaluate (2 * n) 1 (.start tape input limit) with
  | some e => exact ⟨_, e, he⟩
  | none =>
    rw [he] at hrealizes
    obtain ⟨k, r', hleads, hk⟩ := hrealizes
    obtain ⟨hlt, -⟩ := hleads.of_halted hn
    omega

end Script

end TapeMachine
