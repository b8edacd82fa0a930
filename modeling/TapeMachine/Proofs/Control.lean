/-
  TapeMachine.Proofs.Control
  ──────────────────────────
  **THE CALL STACK AND THE FUNCTION TABLE.**

  For a script that passes the check, in either granularity, every step of
  every call keeps the machine orderly (`Machine.Orderly`):

    • the last frame runs the script, every other one the body of a function
      on record, and a frame that waits goes on behind a `:`,
    • the definitions on record have different keys and come in the order of
      the text, and the table binds the keys on record and no others.

  Why a `(` is not met twice: the frame of the script stands behind every
  definition on record and outside all bodies (`Frame.RunsScript`).  It could
  get back before a definition only by a loop around it, and there is none.

  `Run.History` follows the calls of the engine, one after the other, and
  keeps a list of the opcodes carried out.  `control_stays_orderly` is the
  result, for every point of every history.
-/
import TapeMachine.Proofs.Checked
import TapeMachine.Proofs.Layout
import TapeMachine.Proofs.Visits

namespace TapeMachine

/-! ## §1. The definitions on record. -/

/-- The code of the definition is `body`: from behind its `(` to the `)`. -/
def FunctionEntry.Spans (p : Program) (e : FunctionEntry) (body : Span) : Prop :=
  body.start = e.declaration + 1 ∧ p.partners[e.declaration]? = some body.stop

/-- The record and the table agree with the program and with each other. -/
structure FunctionTable.Registers (p : Program) (f : FunctionTable) : Prop where
  keys : f.entries.Pairwise fun e e' => e.key ≠ e'.key
  ordered : f.entries.Pairwise fun e e' => e.declaration < e'.declaration
  opener : ∀ e ∈ f.entries, ∃ x : Opcode, p.opcodes[e.declaration]? = some x
    ∧ x.operator = .bodyOpen
  bound : ∀ e ∈ f.entries, ∃ body : Span, e.Spans p body ∧ body.start < body.stop
    ∧ f.get? e.key = some body
  free : ∀ {key : Nat}, (∀ e ∈ f.entries, e.key ≠ key) → f.get? key = none

namespace FunctionTable.Registers

variable {p : Program} {f g : FunctionTable}

theorem empty (p : Program) : FunctionTable.empty.Registers p where
  keys := .nil
  ordered := .nil
  opener := by
    intro e he
    cases he
  bound := by
    intro e he
    cases he
  free := fun _ => get?_empty _

/-- The code of a definition on record is that of a function. -/
theorem isBody (hp : p.Layout) (h : f.Registers p) {e : FunctionEntry} (he : e ∈ f.entries)
    {body : Span} (hspans : e.Spans p body) : p.IsBody body := by
  obtain ⟨x, hx, ho⟩ := h.opener e he
  obtain ⟨hstart, hstop⟩ := hspans
  obtain ⟨stop, hpair⟩ := hp.opened hx (by rw [ho]; rfl)
  have heq : stop = body.stop := by
    rw [hpair.2.1] at hstop
    exact Option.some.inj hstop
  exact ⟨e.declaration, x, hstart, hx, ho, heq ▸ hpair⟩

/-- A function in the table is on record. -/
theorem spans_of_get? (h : f.Registers p) {key : Nat} {body : Span}
    (hget : f.get? key = some body) : ∃ e ∈ f.entries, e.Spans p body := by
  by_cases hkey : ∃ e ∈ f.entries, e.key = key
  · obtain ⟨e, he, rfl⟩ := hkey
    obtain ⟨body', hspans, -, hbound⟩ := h.bound e he
    rw [hget] at hbound
    cases hbound
    exact ⟨e, he, hspans⟩
  · have hnone := h.free fun e he hk => hkey ⟨e, he, hk⟩
    rw [hget] at hnone
    cases hnone

/-- **A definition further on in the program is recorded as it should.** -/
theorem define (hp : p.Layout) (h : f.Registers p) {e : FunctionEntry} {x : Opcode} {stop : Nat}
    (hx : p.opcodes[e.declaration]? = some x) (ho : x.operator = .bodyOpen)
    (hstop : p.partners[e.declaration]? = some stop)
    (hlast : ∀ e' ∈ f.entries, e'.declaration < e.declaration)
    (hdef : f.define? e ⟨e.declaration + 1, stop⟩ = some g) : g.Registers p := by
  -- the body is not empty, so the table binds it
  have hfilled : e.declaration + 1 < stop := by
    obtain ⟨stop', hpair⟩ := hp.opened hx (by rw [ho]; rfl)
    rw [hpair.2.1] at hstop
    cases hstop
    have hbody : p.IsBody ⟨e.declaration + 1, stop⟩ := ⟨e.declaration, x, rfl, hx, ho, hpair⟩
    exact hp.filled hbody
  have hself : g.get? e.key = some ⟨e.declaration + 1, stop⟩ := by
    rw [get?_define? hdef, if_pos rfl, Option.filter_some, if_pos]
    simp only [Span.isEmpty, Bool.not_eq_true', beq_eq_false_iff_ne, ne_eq]
    omega
  -- the keys on record are bound, and this one was not
  have hfresh : ∀ e' ∈ f.entries, e'.key ≠ e.key := by
    intro e' he' hkey
    obtain ⟨body, -, -, hbound⟩ := h.bound e' he'
    have hfree := f.define?_isSome e ⟨e.declaration + 1, stop⟩
    rw [hdef, ← hkey, hbound] at hfree
    cases hfree
  have hentries := entries_define? hdef
  refine ⟨?_, ?_, ?_, ?_, ?_⟩
  · rw [hentries, List.pairwise_append]
    refine ⟨h.keys, List.pairwise_singleton _ _, fun e' he' e'' he'' => ?_⟩
    rw [List.mem_singleton.1 he'']
    exact hfresh e' he'
  · rw [hentries, List.pairwise_append]
    refine ⟨h.ordered, List.pairwise_singleton _ _, fun e' he' e'' he'' => ?_⟩
    rw [List.mem_singleton.1 he'']
    exact hlast e' he'
  · intro e' he'
    rw [hentries] at he'
    rcases List.mem_append.1 he' with he' | he'
    · exact h.opener e' he'
    · rw [List.mem_singleton.1 he']
      exact ⟨x, hx, ho⟩
  · intro e' he'
    rw [hentries] at he'
    rcases List.mem_append.1 he' with he' | he'
    · obtain ⟨body, hspans, hne, hbound⟩ := h.bound e' he'
      refine ⟨body, hspans, hne, ?_⟩
      rw [get?_define? hdef, if_neg (hfresh e' he'), hbound]
    · rw [List.mem_singleton.1 he']
      exact ⟨⟨e.declaration + 1, stop⟩, ⟨rfl, hstop⟩, hfilled, hself⟩
  · intro key hkey
    rw [hentries] at hkey
    have hne : e.key ≠ key := hkey e (List.mem_append_right _ (List.mem_singleton.2 rfl))
    rw [get?_define? hdef, if_neg (Ne.symm hne)]
    exact h.free fun e' he' => hkey e' (List.mem_append_left _ he')

/-- There are no more definitions on record than in the program. -/
theorem length_le (hp : p.Layout) (h : f.Registers p) : f.entries.length ≤ p.functionCount := by
  have hsorted : (f.entries.map (·.declaration)).reverse.Pairwise (· > ·) :=
    List.pairwise_reverse.2 (List.pairwise_map.2 h.ordered)
  have hle := hp.length_le hsorted (by
    intro i hi
    obtain ⟨e, he, rfl⟩ := List.mem_map.1 (List.mem_reverse.1 hi)
    exact h.opener e he)
  rwa [List.length_reverse, List.length_map] at hle

end FunctionTable.Registers

/-! ## §2. The frame of the script. -/

/-- The frame runs the script.  It stands outside the body of every function,
and behind every definition on record. -/
structure Frame.RunsScript (p : Program) (f : FunctionTable) (frame : Frame) : Prop where
  body : frame.body = ⟨0, p.size⟩
  outside : ∀ {body : Span}, p.IsBody body → frame.offset < body.start ∨ body.stop < frame.offset
  behind : ∀ e ∈ f.entries, e.declaration < frame.offset

namespace Frame.RunsScript

variable {p : Program} {f g : FunctionTable} {frame : Frame} {op : Opcode}

/-- It does not stand on a `)`. -/
theorem not_close (hp : p.Layout) (h : frame.RunsScript p f)
    (hop : p.opcodes[frame.offset]? = some op) : op.operator ≠ .bodyClose := by
  intro ho
  obtain ⟨d, hlt, hbody⟩ := hp.isBody_of_close hop ho
  have hout : frame.offset < d + 1 ∨ frame.offset < frame.offset := h.outside hbody
  omega

/-- It may go on to the next opcode, unless it is on a `(`. -/
theorem next (h : frame.RunsScript p f) (hop : p.opcodes[frame.offset]? = some op)
    (ho : op.operator ≠ .bodyOpen) :
    ({ frame with offset := frame.offset + 1 } : Frame).RunsScript p f where
  body := h.body
  outside := by
    intro body hbody
    show frame.offset + 1 < body.start ∨ body.stop < frame.offset + 1
    have hout := h.outside hbody
    obtain ⟨d, x, hstart, hx, hopen, -⟩ := hbody
    have hne : frame.offset ≠ d := by
      intro heq
      rw [← heq, hop] at hx
      cases hx
      exact ho hopen
    omega
  behind := fun e he => Nat.lt_succ_of_lt (h.behind e he)

/-- **It may jump from one bracket of a loop behind the other.** -/
theorem jump (hp : p.Layout) (hf : f.Registers p) (h : frame.RunsScript p f)
    (hop : p.opcodes[frame.offset]? = some op)
    (ho : op.operator = .loopOpen ∨ op.operator = .loopClose) {k : Nat}
    (hk : p.partners[frame.offset]? = some k) :
    ({ frame with offset := k + 1 } : Frame).RunsScript p f := by
  obtain ⟨y, hy, hback, hends⟩ := hp.loop_partner hop hk ho
  have hloop : y.operator = .loopOpen ∨ y.operator = .loopClose := by
    rcases hends with ⟨-, -, h⟩ | ⟨-, -, h⟩
    · exact .inr h
    · exact .inl h
  refine ⟨h.body, ?_, ?_⟩
  · -- a loop that ends in a body begins there
    intro body hbody
    show k + 1 < body.start ∨ body.stop < k + 1
    have hout := h.outside hbody
    by_cases hin : body.start ≤ k ∧ k < body.stop
    · have hends := (hp.inside hbody hin.1 hin.2 hy).2.2 hloop hback
      omega
    · obtain ⟨d, x, hstart, hx, hopen, hlt, -⟩ := hbody
      have hne : k ≠ d := by
        intro heq
        rw [← heq, hy] at hx
        cases hx
        rw [hopen] at hloop
        rcases hloop with h | h <;> cases h
      omega
  · -- there is no definition in a loop to get back before
    intro e he
    show e.declaration < k + 1
    have hlt := h.behind e he
    rcases hends with ⟨-, hfwd, -⟩ | ⟨-, hbwd, hopen⟩
    · omega
    · obtain ⟨x, hx, hdef⟩ := hf.opener e he
      have hout : ¬k < e.declaration := fun hin =>
        hp.loops hy hopen ⟨hbwd, hback, hk⟩ hin hlt hx hdef
      omega

/-- It goes on behind the definition that it has made. -/
theorem define (hp : p.Layout) (h : frame.RunsScript p f)
    (hop : p.opcodes[frame.offset]? = some op) (ho : op.operator = .bodyOpen) {stop key : Nat}
    (hstop : p.partners[frame.offset]? = some stop)
    (hentries : g.entries = f.entries ++ [⟨key, frame.offset⟩]) :
    ({ frame with offset := stop + 1 } : Frame).RunsScript p g := by
  obtain ⟨stop', hpair⟩ := hp.opened hop (by rw [ho]; rfl)
  rw [hpair.2.1] at hstop
  cases hstop
  have hown : p.IsBody ⟨frame.offset + 1, stop⟩ := ⟨frame.offset, op, rfl, hop, ho, hpair⟩
  have hlt := hpair.1
  refine ⟨h.body, ?_, ?_⟩
  · intro body hbody
    show stop + 1 < body.start ∨ body.stop < stop + 1
    have hout := h.outside hbody
    obtain ⟨d, x, hstart, hx, hopen, hpair'⟩ := hbody
    by_cases hd : d = frame.offset
    · -- the same definition
      have hsame := hpair'.2.1
      rw [hd, hpair.2.1] at hsame
      cases hsame
      omega
    · have hin : ¬(frame.offset + 1 ≤ d ∧ d < stop) := fun hin =>
        (hp.inside hown hin.1 hin.2 hx).1 hopen
      have hclose : d ≠ stop := by
        intro heq
        obtain ⟨-, x', y', hx', hy', hcloser⟩ := hp.pair hlt hpair.2.1
        rw [hop] at hx'
        cases hx'
        rw [← heq, hx] at hy'
        cases hy'
        rw [ho, hopen] at hcloser
        cases hcloser
      omega
  · intro e he
    show e.declaration < stop + 1
    rw [hentries] at he
    rcases List.mem_append.1 he with he | he
    · have hbehind := h.behind e he
      omega
    · rw [List.mem_singleton.1 he]
      show frame.offset < stop + 1
      omega

end Frame.RunsScript

/-! ## §3. The frames of a stack. -/

/-- The frame goes on behind a `:` of its own code. -/
def Frame.Resumes (p : Program) (frame : Frame) : Prop :=
  ∃ (i : Nat) (x : Opcode), frame.offset = i + 1 ∧ frame.body.start ≤ i
    ∧ p.opcodes[i]? = some x ∧ x.operator = .call

/-- The frames of a stack, innermost first: the last one runs the script, every
other one a function on record, and goes back to a frame that waits. -/
def FunctionTable.Stacks (p : Program) (f : FunctionTable) : List Frame → Prop
  | [] => True
  | [script] => script.RunsScript p f
  | frame :: caller :: callers =>
    (∃ e ∈ f.entries, e.Spans p frame.body) ∧ caller.Resumes p ∧ f.Stacks p (caller :: callers)

namespace FunctionTable.Stacks

variable {p : Program} {f : FunctionTable} {frame : Frame} {callers : List Frame}

theorem pop (h : f.Stacks p (frame :: callers)) : f.Stacks p callers := by
  cases callers with
  | nil => trivial
  | cons caller callers => exact h.2.2

/-- Only for the frame of the script it matters where the running frame
stands. -/
theorem goto {j : Nat} (h : f.Stacks p (frame :: callers))
    (hscript : frame.RunsScript p f → ({ frame with offset := j } : Frame).RunsScript p f) :
    f.Stacks p ({ frame with offset := j } :: callers) := by
  cases callers with
  | nil => exact hscript h
  | cons caller callers => exact h

/-- A frame that stands on a `(` is that of the script. -/
theorem script_of_open {op : Opcode} (hp : p.Layout) (hf : f.Registers p)
    (h : f.Stacks p (frame :: callers)) (hstart : frame.body.start ≤ frame.offset)
    (hlt : frame.offset < frame.body.stop) (hop : p.opcodes[frame.offset]? = some op)
    (ho : op.operator = .bodyOpen) : callers = [] ∧ frame.RunsScript p f := by
  cases callers with
  | nil => exact ⟨rfl, h⟩
  | cons caller callers =>
    obtain ⟨⟨e, he, hspans⟩, -, -⟩ := h
    exact absurd ho (hp.inside (hf.isBody hp he hspans) hstart hlt hop).1

/-- No frame stands on a `)`. -/
theorem not_close {op : Opcode} (hp : p.Layout) (hf : f.Registers p)
    (h : f.Stacks p (frame :: callers)) (hstart : frame.body.start ≤ frame.offset)
    (hlt : frame.offset < frame.body.stop) (hop : p.opcodes[frame.offset]? = some op) :
    op.operator ≠ .bodyClose := by
  cases callers with
  | nil => exact Frame.RunsScript.not_close hp h hop
  | cons caller callers =>
    obtain ⟨⟨e, he, hspans⟩, -, -⟩ := h
    exact (hp.inside (hf.isBody hp he hspans) hstart hlt hop).2.1

end FunctionTable.Stacks

/-! ## §4. One step keeps the machine orderly. -/

/-- Every frame is within its code and there are no more frames than places;
the record, the table and the stack are as they should be. -/
structure Machine.Orderly (p : Program) (m : Machine) : Prop extends m.Nests p where
  housed : m.stack.Housed
  table : m.functions.Registers p
  frames : m.functions.Stacks p m.stack.frames

namespace Machine

variable {p : Program} {m : Machine}

/-- **A move keeps the record and the stack in order.** -/
theorem Orderly.move {reset : Option Bool} {spent : Bool} {move : Move} {op : Opcode}
    {frame : Frame} {callers : List Frame} (hp : p.Layout) (h : m.Orderly p)
    (hf : m.stack.frames = frame :: callers) (hlt : frame.offset < frame.body.stop)
    (hop : p.opcodes[frame.offset]? = some op)
    (hreset : reset = some true → p.partners[frame.offset]? = some (frame.offset + 2))
    (hmove : m.move? p reset spent frame.offset op = some move) :
    move.machine.functions.Registers p
      ∧ move.machine.functions.Stacks p move.machine.stack.frames := by
  have hstart := (h.frame frame (by rw [hf]; exact List.mem_cons_self)).start_le
  have hstacks : m.functions.Stacks p (frame :: callers) := hf ▸ h.frames
  have hcontrol := (does_of_move? hf hmove).control
  cases move with
  | halt code m' =>
    obtain ⟨-, hfun, hstack⟩ := hcontrol
    rw [Move.machine, hfun, hstack]
    exact ⟨h.table, h.frames⟩
  | next m' asked =>
    rw [Move.machine]
    rcases hcontrol with ⟨hfun, j, htarget, hframes⟩ | ⟨ho, stop, hstop, hdef, hframes⟩
      | ⟨ho, body, hbody, hfun, -, hframes⟩
    · -- the frame goes on at the next opcode or behind a partner
      rw [hfun, hframes]
      refine ⟨h.table, hstacks.goto fun hscript => ?_⟩
      rcases htarget with ⟨rfl, hne, -⟩ | ⟨ho, k, hk, rfl⟩ | ⟨ho, hr, rfl⟩
      · exact hscript.next hop hne
      · exact hscript.jump hp h.table hop ho hk
      · exact hscript.jump hp h.table hop (.inl ho) (hreset hr)
    · -- a definition is made by the frame of the script
      obtain ⟨rfl, hscript⟩ := hstacks.script_of_open hp h.table hstart hlt hop ho
      rw [hframes]
      exact ⟨h.table.define hp hop ho hstop hscript.behind hdef,
        hscript.define hp hop ho hstop (FunctionTable.entries_define? hdef)⟩
    · -- the function that is entered is on record, and the caller waits
      rw [hfun, hframes]
      refine ⟨h.table, h.table.spans_of_get? hbody, ⟨frame.offset, op, rfl, hstart, hop, ho⟩, ?_⟩
      exact hstacks.goto fun hscript => hscript.next hop (by rw [ho]; decide)

/-- **A step keeps the machine orderly.** -/
theorem Orderly.step {t : Terms} {r : Run} {step : Step} (hp : p.Layout)
    (h : r.machine.Orderly p) (hstep : r.step? p t = some step) : step.run.machine.Orderly p := by
  have hnests := h.toNests.step hp.toNested hstep
  have hhoused := h.housed.step hstep
  obtain ⟨m, marks, polls⟩ := r
  have hreset : ∀ {i : Nat}, t.resets? p marks i = some true → p.partners[i]? = some (i + 2) :=
    fun hr => (hp.of_isReset? (Terms.isReset?_of_resets? hr)).1
  cases Run.takes_of_step? hstep with
  | ended _ => exact h
  | paused _ _ _ _ => exact h
  | moved hf hlt hop hmove =>
    obtain ⟨htable, hframes⟩ := h.move hp hf hlt hop hreset hmove
    exact ⟨hnests, hhoused, htable, hframes⟩
  | halted hf hlt hop hmove =>
    obtain ⟨htable, hframes⟩ := h.move hp hf hlt hop hreset hmove
    exact ⟨hnests, hhoused, htable, hframes⟩
  | @left frame callers hf _ =>
    refine ⟨hnests, hhoused, h.table, ?_⟩
    have hstacks : m.functions.Stacks p (frame :: callers) := hf ▸ h.frames
    show m.functions.Stacks p m.stack.pop.frames
    simp only [CallStack.pop, hf]
    exact hstacks.pop

/-- A machine that was just loaded is orderly. -/
theorem orderly_load (p : Program) (tape : Tape) (input : String) (limit : Nat) :
    (load p tape input limit).Orderly p where
  toNests := nests_load p tape input limit
  housed := housed_load p tape input limit
  table := .empty p
  frames := by
    refine ⟨rfl, ?_, ?_⟩
    · intro body ⟨d, x, hstart, _⟩
      show 0 < body.start ∨ body.stop < 0
      omega
    · intro e he
      cases he

end Machine

/-! ## §5. What has been carried out. -/

/-- An opcode that was carried out: its operator and index, how many frames
were live, and whether it was carried out to its end or faulted. -/
structure Deed where
  operator : Operator
  index : Nat
  live : Nat
  completed : Bool

/-- A definition that was made. -/
def Deed.isDefinition (d : Deed) : Bool := d.operator == .bodyOpen && d.completed

/-- Whether the opcode at hand was carried out to its end; `none` if the call
paused before it. -/
def Step.completes? : Step → Option Bool
  | .next _ => some true
  | .halt code _ => if code = .breakpoint then none else some false

/-- What the next step carries out, if anything. -/
def Run.deed? (p : Program) (t : Terms) (r : Run) : Option Deed := do
  let completed ← (r.step? p t).bind Step.completes?
  let i ← r.machine.due?
  let op ← p.opcodes[i]?
  return ⟨op.operator, i, r.machine.stack.frames.length, completed⟩

/-- Calls of the engine in a row, on any terms and with any breakpoints: a call
on `t` stands at `r`, and since `start` the opcodes `done` were carried out. -/
inductive Run.History (p : Program) (start : Machine) : Terms → List Deed → Run → Prop
  /-- The first call begins. -/
  | start {t : Terms} {marks : Option (Array Bool)} (fits : p.FitsMarks marks) :
      History p start t [] ⟨start, marks, 0⟩
  /-- The call goes on. -/
  | next {t : Terms} {done : List Deed} {r r' : Run} (before : History p start t done r)
      (step : r.step? p t = some (.next r')) :
      History p start t (done ++ (r.deed? p t).toList) r'
  /-- The call halts, and another one begins. -/
  | again {t t' : Terms} {done : List Deed} {r r' : Run} {code : ExitCode}
      {marks : Option (Array Bool)} (before : History p start t done r)
      (step : r.step? p t = some (.halt code r')) (fits : p.FitsMarks marks) :
      History p start t' (done ++ (r.deed? p t).toList) ⟨r'.machine, marks, 0⟩

/-- What was carried out is in order: no `)`, no `(` while a function ran, and
the definitions that were made are the ones on record. -/
structure Machine.Records (done : List Deed) (m : Machine) : Prop where
  closers : ∀ d ∈ done, d.operator ≠ .bodyClose
  openers : ∀ d ∈ done, d.operator = .bodyOpen → d.live = 1
  made : (done.filter Deed.isDefinition).map (·.index) = m.functions.entries.map (·.declaration)

namespace Run

variable {p : Program} {t : Terms}

theorem deed?_of_due {r : Run} {step : Step} {frame : Frame} {callers : List Frame} {op : Opcode}
    (hf : r.machine.stack.frames = frame :: callers) (hlt : frame.offset < frame.body.stop)
    (hop : p.opcodes[frame.offset]? = some op) (hstep : r.step? p t = some step) :
    r.deed? p t
      = step.completes?.map (⟨op.operator, frame.offset, callers.length + 1, ·⟩) := by
  unfold deed?
  rw [hstep, Machine.due?_of_lt hf hlt, hf]
  simp only [Option.bind_eq_bind, Option.bind_some, hop]
  cases step.completes? <;> rfl

/-- A step that carries nothing out. -/
theorem deed?_of_not_due {r : Run} (h : r.machine.due? = none) : r.deed? p t = none := by
  unfold deed?
  rw [h]
  cases (r.step? p t).bind Step.completes? <;> rfl

end Run

namespace Machine.Records

variable {p : Program} {m m' : Machine} {done : List Deed}

/-- Nothing new was carried out, and nothing defined. -/
theorem idle (h : m.Records done) (hfun : m'.functions = m.functions) :
    m'.Records (done ++ (none : Option Deed).toList) where
  closers := by
    rw [Option.toList_none, List.append_nil]
    exact h.closers
  openers := by
    rw [Option.toList_none, List.append_nil]
    exact h.openers
  made := by
    rw [Option.toList_none, List.append_nil, hfun]
    exact h.made

/-- One opcode more was carried out. -/
theorem act (h : m.Records done) {d : Deed} (hclose : d.operator ≠ .bodyClose)
    (hopen : d.operator = .bodyOpen → d.live = 1)
    (hmade : m'.functions.entries.map (·.declaration)
      = m.functions.entries.map (·.declaration) ++ if d.isDefinition then [d.index] else []) :
    m'.Records (done ++ (some d).toList) := by
  rw [Option.toList_some]
  refine ⟨?_, ?_, ?_⟩
  · intro d' hd'
    rcases List.mem_append.1 hd' with hd' | hd'
    · exact h.closers d' hd'
    · rw [List.mem_singleton.1 hd']
      exact hclose
  · intro d' hd'
    rcases List.mem_append.1 hd' with hd' | hd'
    · exact h.openers d' hd'
    · rw [List.mem_singleton.1 hd']
      exact hopen
  · rw [List.filter_append, List.map_append, h.made, hmade, List.filter_cons, List.filter_nil]
    cases d.isDefinition <;> rfl

end Machine.Records

/-- A move that goes on has made a definition if it carried out a `(`. -/
theorem Machine.declarations_of_next {p : Program} {m m' : Machine} {reset : Option Bool}
    {spent asked : Bool} {i : Nat} {op : Opcode} {frame : Frame} {callers : List Frame}
    (hf : m.stack.frames = frame :: callers)
    (hmove : m.move? p reset spent i op = some (.next m' asked)) :
    m'.functions.entries.map (·.declaration)
      = m.functions.entries.map (·.declaration)
        ++ if op.operator == .bodyOpen && true then [i] else [] := by
  rcases (does_of_move? hf hmove).control with ⟨hfun, j, htarget, -⟩ | ⟨ho, stop, -, hdef, -⟩
    | ⟨ho, body, -, hfun, -⟩
  · have hne : op.operator ≠ .bodyOpen := by
      rcases htarget with ⟨-, hne, -⟩ | ⟨ho | ho, -⟩ | ⟨ho, -⟩
      · exact hne
      all_goals
        rw [ho]
        decide
    rw [hfun, if_neg (by simpa using hne), List.append_nil]
  · rw [FunctionTable.entries_define? hdef, List.map_append, if_pos (by rw [ho]; rfl)]
    rfl
  · rw [hfun, if_neg (by rw [ho]; decide), List.append_nil]

/-- **A step carries out what is in order, and records it.** -/
theorem Machine.Records.step {p : Program} {t : Terms} {r : Run} {step : Step} {done : List Deed}
    (hp : p.Layout) (h : r.machine.Orderly p) (hdone : r.machine.Records done)
    (hstep : r.step? p t = some step) :
    step.run.machine.Records (done ++ (r.deed? p t).toList) := by
  obtain ⟨m, marks, polls⟩ := r
  -- what the opcode that is due can be
  have hdue : ∀ {frame : Frame} {callers : List Frame} {op : Opcode},
      m.stack.frames = frame :: callers → frame.offset < frame.body.stop →
      p.opcodes[frame.offset]? = some op →
      op.operator ≠ .bodyClose ∧ (op.operator = .bodyOpen → callers.length + 1 = 1) := by
    intro frame callers op hf hlt hop
    have hstart := (h.frame frame (by rw [hf]; exact List.mem_cons_self)).start_le
    have hstacks : m.functions.Stacks p (frame :: callers) := hf ▸ h.frames
    refine ⟨hstacks.not_close hp h.table hstart hlt hop, fun ho => ?_⟩
    rw [(hstacks.script_of_open hp h.table hstart hlt hop ho).1]
    rfl
  cases Run.takes_of_step? hstep with
  | ended hf =>
    rw [Run.deed?_of_not_due (by simp only [due?, hf])]
    exact hdone.idle rfl
  | left hf hge =>
    rw [Run.deed?_of_not_due (by simp only [due?, hf]; exact if_neg (Nat.not_lt.2 hge))]
    exact hdone.idle rfl
  | paused hf _ _ _ _ =>
    have hnone : Run.deed? p t ⟨m, marks, polls⟩ = none := by
      unfold Run.deed?
      rw [hstep]
      rfl
    rw [hnone]
    exact hdone.idle rfl
  | moved hf hlt hop hmove =>
    obtain ⟨hclose, hopen⟩ := hdue hf hlt hop
    rw [Run.deed?_of_due hf hlt hop hstep]
    exact hdone.act hclose hopen (declarations_of_next hf hmove)
  | @halted frame callers op m' code hf hlt hop hmove =>
    obtain ⟨hclose, hopen⟩ := hdue hf hlt hop
    obtain ⟨hfault, hfun, -⟩ := (does_of_move? hf hmove).control
    have hcode : code ≠ .breakpoint := by
      intro heq
      rw [heq] at hfault
      cases hfault
    rw [Run.deed?_of_due hf hlt hop hstep, Step.completes?, if_neg hcode]
    refine hdone.act hclose hopen ?_
    show m'.functions.entries.map (·.declaration) = _
    rw [hfun, Deed.isDefinition, Bool.and_false, if_neg Bool.false_ne_true, List.append_nil]

/-! ## §6. The result. -/

namespace Run

variable {p : Program} {start : Machine}

/-- **Every point of a history is in order.** -/
theorem History.orderly {t : Terms} {done : List Deed} {r : Run} (hp : p.Layout)
    (hstart : start.Orderly p) (hnone : start.functions.entries = [])
    (h : History p start t done r) : r.machine.Orderly p ∧ r.machine.Records done := by
  induction h with
  | start _ =>
    refine ⟨hstart, ?_, ?_, ?_⟩
    · intro d hd
      cases hd
    · intro d hd
      cases hd
    · show [] = start.functions.entries.map (·.declaration)
      rw [hnone]
      rfl
  | next _ hstep ih => exact ⟨ih.1.step hp hstep, ih.2.step hp ih.1 hstep⟩
  | again _ hstep _ ih =>
    have horderly := ih.1.step hp hstep
    have hrecords := ih.2.step hp ih.1 hstep
    exact ⟨horderly, hrecords⟩

/-- A call that halts can be followed to its end. -/
theorem History.halted {t : Terms} {code : ExitCode} {r' : Run} (n : Nat) :
    ∀ {done : List Deed} {r : Run}, History p start t done r → r.steps p t n = .halted code r' →
      ∀ (t' : Terms) {marks : Option (Array Bool)}, p.FitsMarks marks →
        ∃ done', History p start t' done' ⟨r'.machine, marks, 0⟩ := by
  induction n with
  | zero =>
    intro done r _ hr
    cases hr
  | succ n ih =>
    intro done r h hr
    cases hstep : r.step? p t with
    | none =>
      rw [steps_of_stuck hstep] at hr
      cases hr
    | some step =>
      cases step with
      | next r₁ =>
        rw [steps_of_next hstep] at hr
        exact ih (h.next hstep) hr
      | halt c r₁ =>
        rw [steps_of_halt hstep] at hr
        cases hr
        exact fun t' marks fits => ⟨_, h.again hstep fits⟩

end Run

/-- Every reachable machine has a history. -/
theorem Machine.Reachable.history {p : Program} {start m : Machine} (h : Reachable p start m) :
    ∀ (t : Terms) {marks : Option (Array Bool)}, p.FitsMarks marks →
      ∃ done, Run.History p start t done ⟨m, marks, 0⟩ := by
  induction h with
  | start => exact fun t marks fits => ⟨[], .start fits⟩
  | call _ fits halts ih =>
    obtain ⟨fuel, polls, hfuel⟩ := halts
    obtain ⟨done, hdone⟩ := ih _ fits
    exact fun t marks fits' => hdone.halted fuel hfuel t fits'

/-- **The call stack and the function table stay in order.**  A script that
passes the check compiles, in either granularity.  Every machine that calls of
the engine lead to, on any terms and with any breakpoints, has a history.  At
every point of every history the machine is orderly, it has no more definitions
than the program, and what was carried out is in order: no `)`, no `(` while a
function ran, and no `(` twice to its end. -/
theorem control_stays_orderly (source : String) (g : Granularity) (tape : Tape) (input : String)
    (limit : Nat) (hsource : (Script.validate source).isSuccess) :
    ∃ p, Program.compile g source = .ok p ∧
      (∀ m, Machine.Reachable p (.load p tape input limit) m →
        ∀ (t : Terms) (marks : Option (Array Bool)), p.FitsMarks marks →
          ∃ done, Run.History p (.load p tape input limit) t done ⟨m, marks, 0⟩) ∧
      ∀ (t : Terms) (done : List Deed) (r : Run),
        Run.History p (.load p tape input limit) t done r →
          r.machine.Orderly p
            ∧ r.machine.functions.entries.length ≤ p.functionCount
            ∧ r.machine.Records done
            ∧ ((done.filter Deed.isDefinition).map (·.index)).Nodup := by
  obtain ⟨b, ⟨hitems, -⟩, hb⟩ := Script.validate_isSuccess_iff.1 hsource
  have hp := Program.layout_ofTokens hitems hb g (Script.validate source).count
  refine ⟨_, Program.compile_of_isSuccess hsource g, fun m hm t marks fits => hm.history t fits, ?_⟩
  intro t done r hr
  obtain ⟨horderly, hrecords⟩ := hr.orderly hp (Machine.orderly_load _ tape input limit) rfl
  refine ⟨horderly, horderly.table.length_le hp, hrecords, ?_⟩
  rw [hrecords.made]
  exact List.Pairwise.imp Nat.ne_of_lt (List.pairwise_map.2 horderly.table.ordered)

/-- A function that calls another one, which is not there: the call
halts in the function, with its caller waiting. -/
theorem control_stays_orderly_in_call :
    ∃ p m, Program.compile .packed "(+:):" = .ok p
      ∧ (Machine.load p (.blank 32 .byteWrapping) "" 0).HaltsWith p {} none .undefinedFunction m none
      ∧ m.stack.frames.map (·.body) = [⟨1, 3⟩, ⟨0, 5⟩] ∧ m.functions.entries = [⟨0, 0⟩]
      ∧ m.Orderly p ∧ m.functions.entries.length ≤ p.functionCount := by
  obtain ⟨p, hp, hreach, hall⟩ := control_stays_orderly "(+:):" .packed (.blank 32 .byteWrapping)
    "" 0 (by decide +kernel)
  have hrun : ((Program.compile .packed "(+:):").toOption.bind fun p =>
      ((Machine.load p (.blank 32 .byteWrapping) "" 0).execute p {} none 40).rest?.bind fun rest =>
        some (rest.1, rest.2.marks, rest.2.machine.stack.frames.map (·.body),
          rest.2.machine.functions.entries))
      = some (.undefinedFunction, none, [⟨1, 3⟩, ⟨0, 5⟩], [⟨0, 0⟩]) := by
    decide +kernel
  replace hrun := seen_of_ok hrun hp
  obtain ⟨code, m, marks, polls, hhalts, heq⟩ := Machine.exists_haltsWith hrun
  simp only [Option.some.injEq, Prod.mk.injEq] at heq
  obtain ⟨rfl, rfl, hframes, hentries⟩ := heq
  have hfits : p.FitsMarks none := trivial
  obtain ⟨done, hdone⟩ := hreach m (.call .start hfits hhalts) {} none hfits
  obtain ⟨horderly, hcount, -⟩ := hall {} done _ hdone
  exact ⟨p, m, hp, hhalts, hframes, hentries, horderly, hcount⟩

end TapeMachine
