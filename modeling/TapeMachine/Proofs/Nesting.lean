/-
  TapeMachine.Proofs.Nesting
  ──────────────────────────
  **FRAMES STAY INSIDE THEIR CODE.**

  In a script that passes the check a function body has no definitions in
  it, and its loops begin and end in it: `Program.Nested`, read off the tree
  that stands in the plain program and carried over to the packed one.

  Hence no jump leaves the code of the frame that makes it, and a `(` is
  only carried out by the frame of the script (`Machine.Nests`, kept by
  every step): each frame runs the whole script or the body of a function,
  and stands in that code or at its end.
-/
import TapeMachine.Proofs.Invariant
import TapeMachine.Proofs.Packing

namespace TapeMachine

/-! ## §1. Bodies in a program. -/

/-- The code between a `(` and its `)`. -/
def Program.IsBody (p : Program) (body : Span) : Prop :=
  ∃ d x, body.start = d + 1 ∧ p.opcodes[d]? = some x ∧ x.operator = .bodyOpen
    ∧ p.Pair d body.stop

/-- What may stand at index `i` between `start` and `stop`, in the body of a
function: no parenthesis, and no loop that begins or ends outside. -/
def Program.Encloses (p : Program) (start stop i : Nat) (o : Operator) : Prop :=
  o ≠ .bodyOpen ∧ o ≠ .bodyClose
    ∧ (o = .loopOpen ∨ o = .loopClose →
        ∀ {j : Nat}, p.partners[i]? = some j → start ≤ j ∧ j < stop)

/-- A balanced program whose functions are not crossed by loops and have no
definitions in them. -/
structure Program.Nested (p : Program) : Prop extends p.Balanced where
  inside : ∀ {body : Span} {i : Nat} {x : Opcode}, p.IsBody body → body.start ≤ i →
    i < body.stop → p.opcodes[i]? = some x → p.Encloses body.start body.stop i x.operator

theorem Program.Encloses.mono {p : Program} {start stop start' stop' i : Nat} {o : Operator}
    (h : p.Encloses start stop i o) (hstart : start' ≤ start) (hstop : stop ≤ stop') :
    p.Encloses start' stop' i o := by
  refine ⟨h.1, h.2.1, fun ho j hj => ?_⟩
  have hin := h.2.2 ho hj
  omega

theorem Program.encloses_simple {p : Program} {start stop i : Nat} {o : Operator}
    (h : o.isSimple) : p.Encloses start stop i o := by
  refine ⟨?_, ?_, ?_⟩
  · rintro rfl
    cases h
  · rintro rfl
    cases h
  · rintro (rfl | rfl) <;> cases h

namespace Block

variable {p : Program}

/-- **The code of a body encloses what it holds.** -/
theorem At.encloses {b : Block} (hb : b.IsBody) : ∀ {i k : Nat} {x : Opcode},
    b.At p i → i ≤ k → k < i + b.length → p.opcodes[k]? = some x →
      p.Encloses i (i + b.length) k x.operator := by
  induction b with
  | done =>
    intro i k x _ hle hlt
    rw [length_done] at hlt
    omega
  | simple o next ih =>
    intro i k x hat hle hlt hx
    rw [length_simple] at hlt ⊢
    by_cases hk : k = i
    · subst hk
      rw [hat.1] at hx
      cases hx
      exact Program.encloses_simple hb.1
    · exact (ih hb.2 hat.2 (by omega) (by omega) hx).mono (by omega) (by omega)
  | loop body next ihb ih =>
    intro i k x hat hle hlt hx
    rw [length_loop] at hlt ⊢
    obtain ⟨⟨hop, hpartner⟩, ⟨hop', hback⟩, hbody, hnext⟩ := hat
    by_cases hk : k = i
    · subst hk
      rw [hop] at hx
      cases hx
      refine ⟨by decide, by decide, fun _ j hj => ?_⟩
      rw [hpartner] at hj
      cases hj
      omega
    by_cases hk' : k = i + 1 + body.length
    · subst hk'
      rw [hop'] at hx
      cases hx
      refine ⟨by decide, by decide, fun _ j hj => ?_⟩
      rw [hback] at hj
      cases hj
      omega
    by_cases hin : k < i + 1 + body.length
    · exact (ihb hb.1 hbody (by omega) hin hx).mono (by omega) (by omega)
    · exact (ih hb.2 hnext (by omega) (by omega) hx).mono (by omega) (by omega)
  | define body next _ _ => exact hb.elim

/-- **Each opening bracket of a tree is followed by the code of a body, up to
its partner.**  The body of a function is not empty. -/
theorem At.bracket {b : Block} (hb : b.IsItems) : ∀ {i k : Nat} {x : Opcode},
    b.At p i → i ≤ k → k < i + b.length → p.opcodes[k]? = some x → x.operator.closer?.isSome →
      ∃ body : Block, body.IsBody ∧ (x.operator = .bodyOpen → body ≠ .done) ∧ body.At p (k + 1)
        ∧ p.partners[k]? = some (k + 1 + body.length) := by
  induction b with
  | done =>
    intro i k x _ hle hlt
    rw [length_done] at hlt
    omega
  | simple o next ih =>
    intro i k x hat hle hlt hx ho
    rw [length_simple] at hlt
    by_cases hk : k = i
    · subst hk
      rw [hat.1] at hx
      cases hx
      rw [show (Opcode.one o).operator.closer? = none from ((Operator.isSimple_iff o).1 hb.1).1]
        at ho
      cases ho
    · exact ih hb.2 hat.2 (by omega) (by omega) hx ho
  | loop body next ihb ih =>
    intro i k x hat hle hlt hx ho
    rw [length_loop] at hlt
    obtain ⟨⟨hop, hpartner⟩, ⟨hop', -⟩, hbody, hnext⟩ := hat
    by_cases hk : k = i
    · subst hk
      rw [hop] at hx
      cases hx
      exact ⟨body, hb.1, fun h => (by cases h), hbody, hpartner⟩
    by_cases hk' : k = i + 1 + body.length
    · subst hk'
      rw [hop'] at hx
      cases hx
      cases ho
    by_cases hin : k < i + 1 + body.length
    · exact ihb hb.1.isItems hbody (by omega) hin hx ho
    · exact ih hb.2 hnext (by omega) (by omega) hx ho
  | define body next ihb ih =>
    intro i k x hat hle hlt hx ho
    rw [length_define] at hlt
    obtain ⟨⟨hop, hpartner⟩, ⟨hop', -⟩, hbody, hnext⟩ := hat
    by_cases hk : k = i
    · subst hk
      exact ⟨body, hb.1.1, fun _ => hb.1.2, hbody, hpartner⟩
    by_cases hk' : k = i + 1 + body.length
    · subst hk'
      rw [hop'] at hx
      cases hx
      cases ho
    by_cases hin : k < i + 1 + body.length
    · exact ihb hb.1.1.isItems hbody (by omega) hin hx ho
    · exact ih hb.2 hnext (by omega) (by omega) hx ho

end Block

/-! ## §2. Both granularities are nested. -/

namespace Program

/-- Between the brackets of a pair in the plain program of a tree is the code
of a body. -/
theorem bracket_plain {b : Block} (hb : b.IsItems) {ts : List Token}
    (h : b.operators = ts.map (·.operator)) (n : Nat) {i j : Nat} {x : Opcode}
    (hx : (ofTokens .plain n ts).opcodes[i]? = some x) (ho : x.operator.closer?.isSome)
    (hpair : (ofTokens .plain n ts).Pair i j) :
    ∃ body : Block, body.IsBody ∧ (x.operator = .bodyOpen → body ≠ .done)
      ∧ body.At (ofTokens .plain n ts) (i + 1) ∧ j = i + 1 + body.length := by
  have hi : i < 0 + b.length := by
    rw [Nat.zero_add, ← size_plain h n]
    exact (Array.getElem?_eq_some_iff.1 hx).1
  obtain ⟨body, hbody, hne, hat, hpartner⟩ :=
    (Block.at_plain hb h n).bracket hb (Nat.zero_le i) hi hx ho
  refine ⟨body, hbody, hne, hat, ?_⟩
  rw [hpair.2.1] at hpartner
  exact Option.some.inj hpartner

/-- **A tree compiled plain is nested.** -/
theorem nested_plain {b : Block} (hb : b.IsItems) {ts : List Token}
    (h : b.operators = ts.map (·.operator)) (n : Nat) : (ofTokens .plain n ts).Nested where
  toBalanced := balanced_plain hb h n
  inside := by
    rintro ⟨start, stop⟩ i x ⟨d, y, rfl, hy, ho, hpair⟩ hle hlt hx
    obtain ⟨body, hbody, -, hat, hstop⟩ := bracket_plain hb h n hy (by rw [ho]; rfl) hpair
    obtain rfl : stop = d + 1 + body.length := hstop
    exact hat.encloses hbody hle hlt hx

theorem Pair.lt_size {p : Program} {i j : Nat} (h : p.Pair i j) (hp : p.Coherent) : j < p.size :=
  hp.partners_size ▸ (Array.getElem?_eq_some_iff.1 h.2.2).1

/-- Partners are partners in the plain form. -/
theorem Unpacks.pair_place {p q : Program} {u : Nat → Nat} (h : p.Unpacks q u) (hp : p.Coherent)
    {i j : Nat} (hpair : p.Pair i j) : q.Pair (u i) (u j) := by
  have hj := hpair.lt_size hp
  obtain ⟨hlt, hpartner, hback⟩ := hpair
  refine ⟨h.lt hlt (Nat.le_of_lt hj), ?_, ?_⟩
  · rw [h.partner (Nat.lt_trans hlt hj), hpartner]
    rfl
  · rw [h.partner hj, hback]
    rfl

/-- The body of a function in the plain form. -/
theorem Unpacks.isBody {p q : Program} {u : Nat → Nat} (h : p.Unpacks q u) (hp : p.Coherent)
    {body : Span} (hbody : p.IsBody body) : q.IsBody ⟨u body.start, u body.stop⟩ := by
  obtain ⟨d, x, hstart, hx, ho, hpair⟩ := hbody
  have hrep : x.operator.isRepeatable = false := by rw [ho]; rfl
  refine ⟨u d, x, ?_, h.opcode_one hx hrep, ho, h.pair_place hp hpair⟩
  show u body.start = u d + 1
  rw [hstart, h.succ_one hx hrep]

/-- **A program is nested if its plain form is.** -/
theorem Unpacks.nested {p q : Program} {u : Nat → Nat} (h : p.Unpacks q u) (hp : p.Balanced)
    (hq : q.Nested) : p.Nested where
  toBalanced := hp
  inside := by
    intro body i x hbody hle hlt hx
    have hq' := h.isBody hp.toCoherent hbody
    obtain ⟨d, -, hstart, -, -, hpair⟩ := hbody
    have hstop := hpair.lt_size hp.toCoherent
    have hi : i < p.size := Nat.lt_trans hlt hstop
    obtain ⟨hopen, hclose, hloop⟩ := hq.inside hq' (h.le hle (Nat.le_of_lt hi))
      (h.lt hlt (Nat.le_of_lt hstop)) (h.opcode hx (h.count_pos hx))
    refine ⟨hopen, hclose, fun ho j hj => ?_⟩
    have hj' : q.partners[u i]? = some (u j) := by
      rw [h.partner hi, hj]
      rfl
    have hsize : j ≤ p.size := by
      rcases hp.entry hj with h0 | hlt
      · omega
      · exact Nat.le_of_lt hlt
    obtain ⟨hlow, hhigh⟩ := hloop ho hj'
    refine ⟨Nat.le_of_not_lt fun hback => ?_, (h.lt_iff hsize (Nat.le_of_lt hstop)).1 hhigh⟩
    have hlt' : u j < u body.start := h.lt hback (Nat.le_trans hle (Nat.le_of_lt hi))
    exact absurd hlow (Nat.not_le.2 hlt')

/-- **A tree compiled in either granularity is nested.** -/
theorem nested_ofTokens {b : Block} (hb : b.IsItems) {ts : List Token}
    (h : b.operators = ts.map (·.operator)) (g : Granularity) (n : Nat) :
    (ofTokens g n ts).Nested :=
  (unpacks_plain g n ts).nested (balanced_ofTokens hb h g n) (nested_plain hb h n)

end Program

/-! ## §3. Frames in a program. -/

/-- The frame runs the whole script or the body of a function, and stands in
that code or at its end. -/
structure Frame.Within (p : Program) (f : Frame) : Prop where
  body : f.body = ⟨0, p.size⟩ ∨ p.IsBody f.body
  start_le : f.body.start ≤ f.offset
  le_stop : f.offset ≤ f.body.stop

/-- Every frame of the machine is within its code, and every function has
the body of a `(`. -/
structure Machine.Nests (p : Program) (m : Machine) : Prop where
  frame : ∀ f ∈ m.stack.frames, f.Within p
  body : ∀ {key : Nat} {body : Span}, m.functions.get? key = some body → p.IsBody body

theorem Program.IsBody.start_le {p : Program} {body : Span} (h : p.IsBody body) :
    body.start ≤ body.stop := by
  obtain ⟨d, -, hstart, -, -, hlt, -⟩ := h
  omega

/-- The code of a frame ends inside the program. -/
theorem Frame.Within.stop_le {p : Program} {f : Frame} (h : f.Within p) (hp : p.Coherent) :
    f.body.stop ≤ p.size := by
  rcases h.body with hroot | ⟨d, x, -, -, -, -, -, hback⟩
  · exact Nat.le_of_eq (congrArg Span.stop hroot)
  · exact Nat.le_of_lt (hp.partners_size ▸ (Array.getElem?_eq_some_iff.1 hback).1)

/-- Behind the partner of a bracket of a loop the frame is still within its
code. -/
theorem Frame.Within.partner {p : Program} {f : Frame} (hp : p.Nested) (h : f.Within p)
    (hlt : f.offset < f.body.stop) {op : Opcode} (hop : p.opcodes[f.offset]? = some op)
    (ho : op.operator = .loopOpen ∨ op.operator = .loopClose) {j : Nat}
    (hj : p.partners[f.offset]? = some j) : ({ f with offset := j + 1 } : Frame).Within p := by
  have hi : f.offset < p.size := (Array.getElem?_eq_some_iff.1 hop).1
  rcases h.body with hroot | hbody
  · have hlow : f.body.start = 0 := by rw [hroot]
    have hhigh : f.body.stop = p.size := by rw [hroot]
    have hentry := hp.entry hj
    exact ⟨.inl hroot, by show f.body.start ≤ j + 1; omega, by show j + 1 ≤ f.body.stop; omega⟩
  · obtain ⟨hlow, hhigh⟩ := (hp.inside hbody h.start_le hlt hop).2.2 ho hj
    exact ⟨.inr hbody, by show f.body.start ≤ j + 1; omega, hhigh⟩

namespace Machine

variable {p : Program} {m : Machine}

/-- **A move keeps the frames within their code.** -/
theorem Nests.move {reset : Option Bool} {spent : Bool} {move : Move} {op : Opcode} {frame : Frame}
    {callers : List Frame} (hp : p.Nested) (h : m.Nests p)
    (hf : m.stack.frames = frame :: callers) (hlt : frame.offset < frame.body.stop)
    (hop : p.opcodes[frame.offset]? = some op)
    (hreset : reset = some true → p.partners[frame.offset]? = some (frame.offset + 2))
    (hmove : m.move? p reset spent frame.offset op = some move) : move.machine.Nests p := by
  have hframe := h.frame frame (by rw [hf]; exact List.mem_cons_self)
  have hcallers : ∀ f ∈ callers, f.Within p :=
    fun f hmem => h.frame f (by rw [hf]; exact List.mem_cons_of_mem _ hmem)
  have hnext : ({ frame with offset := frame.offset + 1 } : Frame).Within p :=
    ⟨hframe.body, Nat.le_succ_of_le hframe.start_le, hlt⟩
  have hcontrol := (does_of_move? hf hmove).control
  cases move with
  | halt code m' =>
    obtain ⟨-, hfun, hstack⟩ := hcontrol
    refine ⟨?_, ?_⟩
    · rw [Move.machine, hstack]
      exact h.frame
    · rw [Move.machine, hfun]
      exact h.body
  | next m' asked =>
    rcases hcontrol with ⟨hfun, j, htarget, hframes⟩ | ⟨ho, stop, hstop, hdef, hframes⟩
      | ⟨ho, body, hbody, hfun, -, hframes⟩
    · -- the frame goes on at the next opcode or behind a partner
      refine ⟨?_, ?_⟩
      · rw [Move.machine, hframes]
        refine List.forall_mem_cons.2 ⟨?_, hcallers⟩
        rcases htarget with ⟨rfl, -⟩ | ⟨ho, partner, hpartner, rfl⟩ | ⟨ho, hr, rfl⟩
        · exact hnext
        · exact hframe.partner hp hlt hop ho hpartner
        · exact hframe.partner hp hlt hop (.inl ho) (hreset hr)
      · rw [Move.machine, hfun]
        exact h.body
    · -- only the frame of the script meets a `(`
      have hroot : frame.body = ⟨0, p.size⟩ := by
        rcases hframe.body with hroot | hbody
        · exact hroot
        · exact absurd ho (hp.inside hbody hframe.start_le hlt hop).1
      obtain ⟨stop', hpair⟩ := hp.opened hop (by rw [ho]; rfl)
      obtain rfl : stop' = stop := by
        rw [hpair.2.1] at hstop
        exact Option.some.inj hstop
      have hsize : stop' < p.size :=
        hp.partners_size ▸ (Array.getElem?_eq_some_iff.1 hpair.2.2).1
      refine ⟨?_, ?_⟩
      · rw [Move.machine, hframes]
        refine List.forall_mem_cons.2 ⟨⟨.inl hroot, ?_, ?_⟩, hcallers⟩
        · show frame.body.start ≤ stop' + 1
          rw [hroot]
          exact Nat.zero_le _
        · show stop' + 1 ≤ frame.body.stop
          rw [hroot]
          exact hsize
      · intro key body hbody
        rw [Move.machine, FunctionTable.get?_define? hdef] at hbody
        split at hbody
        · obtain ⟨hbody, -⟩ := Option.filter_eq_some_iff.1 hbody
          cases hbody
          exact ⟨frame.offset, op, rfl, hop, ho, hpair⟩
        · exact h.body hbody
    · refine ⟨?_, ?_⟩
      · rw [Move.machine, hframes]
        have hbody := h.body hbody
        exact List.forall_mem_cons.2 ⟨⟨.inr hbody, Nat.le_refl _, hbody.start_le⟩,
          List.forall_mem_cons.2 ⟨hnext, hcallers⟩⟩
      · rw [Move.machine, hfun]
        exact h.body

/-- **So does a step.** -/
theorem Nests.step {t : Terms} {r : Run} {step : Step} (hp : p.Nested) (h : r.machine.Nests p)
    (hstep : r.step? p t = some step) : step.run.machine.Nests p := by
  obtain ⟨m, marks, polls⟩ := r
  have hreset : ∀ {i : Nat}, t.resets? p marks i = some true → p.partners[i]? = some (i + 2) :=
    fun hr => (hp.of_isReset? (Terms.isReset?_of_resets? hr)).1
  cases Run.takes_of_step? hstep with
  | ended _ => exact h
  | paused _ _ _ _ => exact h
  | moved hf hlt hop hmove => exact h.move hp hf hlt hop hreset hmove
  | halted hf hlt hop hmove => exact h.move hp hf hlt hop hreset hmove
  | @left frame callers hf _ =>
    refine ⟨?_, h.body⟩
    have hall : ∀ f ∈ frame :: callers, f.Within p := hf ▸ h.frame
    show ∀ f ∈ m.stack.pop.frames, f.Within p
    simp only [CallStack.pop, hf]
    exact (List.forall_mem_cons.1 hall).2

/-- A machine that was just loaded runs the script from its start. -/
theorem nests_load (p : Program) (tape : Tape) (input : String) (limit : Nat) :
    (load p tape input limit).Nests p where
  frame := by
    intro f hf
    obtain rfl : f = ⟨⟨0, p.size⟩, 0⟩ := List.mem_singleton.1 hf
    exact ⟨.inl rfl, Nat.le_refl _, Nat.zero_le _⟩
  body := by
    intro key body hbody
    rw [load, FunctionTable.get?_empty] at hbody
    cases hbody

end Machine

end TapeMachine
