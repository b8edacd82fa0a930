/-
  TapeMachine.Proofs.Granularity
  ──────────────────────────────
  **BOTH GRANULARITIES DO THE SAME.**

  The engine on a packed program is followed by the engine on its plain
  form, with the same answers of the budget:

    • `units` — a counted opcode is as many single ones, made one by one
      and stopping at the same step,
    • every other opcode is one opcode, by `Linkage.Keeps.move`,
    • `simulation_plain` puts the two together.

  What is left of the indices once both have halted is where the
  machine stands.  A counted opcode that fails halfway stands at the opcode,
  the plain form at one of its operators, so offsets differ, but the
  operator is the same (`CallStack.StandsLike`).
-/
import TapeMachine.Proofs.Relocation
import TapeMachine.Proofs.Reports

namespace TapeMachine

/-! ## §1. Counted opcodes, one operator at a time. -/

section Units

variable {q : Program} {t : Terms} {o : Operator} {f : Tape → Nat → Tape.Stride} {fault : ExitCode}
  {functions : FunctionTable} {body : Span} {callers : List Frame} {overdrawn : Nat}
  {input : Input} {output : Output} {polls : Nat}

/-- **A run of equal operators** is the counted operation: all steps, or as
many as can be made and then the fault. -/
theorem units (hs : o.stride? = some (f, fault)) (n : Nat) :
    ∀ (i : Nat) (tape : Tape) (operations : Nat), tape.WellFormed → i + n ≤ body.stop →
      (∀ j, j < n → q.opcodes[i + j]? = some (.one o)) →
      ((f tape n).made = n → Run.Leads q t n
        ⟨⟨tape, functions, ⟨⟨body, i⟩ :: callers, overdrawn⟩, input, output, operations⟩, none,
          polls⟩
        ⟨⟨(f tape n).tape, functions, ⟨⟨body, i + n⟩ :: callers, overdrawn⟩, input, output,
          operations + n⟩, none, polls⟩)
      ∧ ((f tape n).made < n → Run.Halts q t
        ⟨⟨tape, functions, ⟨⟨body, i⟩ :: callers, overdrawn⟩, input, output, operations⟩, none,
          polls⟩ fault
        ⟨⟨(f tape n).tape, functions, ⟨⟨body, i + (f tape n).made⟩ :: callers, overdrawn⟩, input,
          output, operations + (f tape n).made⟩, none, polls⟩) := by
  have hf := Tape.stepwise_of_stride? hs
  induction n with
  | zero =>
    intro i tape operations htape _ _
    refine ⟨fun _ => ?_, fun h => absurd h (Nat.not_lt_zero _)⟩
    rw [hf.zero htape]
    exact .refl _
  | succ n ih =>
    intro i tape operations htape hstop hops
    have hop : q.opcodes[i]? = some (.one o) := hops 0 (Nat.succ_pos n)
    by_cases hfirst : (f tape 1).made = 0
    · -- the first step cannot be made
      have hone : f tape 1 = ⟨tape, 0⟩ := hf.stop 0 htape hfirst
      rw [hf.stop n htape hfirst]
      refine ⟨fun h => absurd h (Nat.succ_ne_zero n).symm, fun _ => Run.halts_of_step ?_⟩
      rw [Run.step?_stride hs (by omega) hop]
      simp only [Opcode.one, hone]
      rfl
    · -- the first step is made, and the others go on from there
      have hmade : (f tape 1).made = 1 := by
        have hle := hf.made_le tape 1
        omega
      have hstep : Run.step? q t
          ⟨⟨tape, functions, ⟨⟨body, i⟩ :: callers, overdrawn⟩, input, output, operations⟩, none,
            polls⟩
          = some (.next ⟨⟨(f tape 1).tape, functions, ⟨⟨body, i + 1⟩ :: callers, overdrawn⟩, input,
            output, operations + 1⟩, none, polls⟩) := by
        rw [Run.step?_stride hs (by omega) hop]
        simp only [Opcode.one, hmade]
        rfl
      have hrest := hf.step n htape hfirst
      obtain ⟨hall, hfault⟩ := ih (i + 1) (f tape 1).tape (operations + 1)
        (hf.wellFormed 1 htape) (by omega) (by
          intro j hj
          rw [Nat.add_right_comm]
          exact hops (j + 1) (by omega))
      rw [hrest]
      dsimp only
      refine ⟨fun h => ?_, fun h => ?_⟩
      · have hrun := hall (by omega)
        rw [show i + 1 + n = i + (n + 1) by omega,
          show operations + 1 + n = operations + (n + 1) by omega] at hrun
        exact .step hstep hrun
      · have hrun := hfault (by omega)
        generalize (f (f tape 1).tape n).made = made at hrun ⊢
        rw [show i + 1 + made = i + (made + 1) by omega,
          show operations + 1 + made = operations + (made + 1) by omega] at hrun
        exact (Run.Leads.single hstep).halts hrun

end Units

/-! ## §2. Where both halt. -/

variable {p q : Program} {u : Nat → Nat} {t : Terms}

/-- The operator at which the running frame of a stack stands. -/
def Program.operatorAt? (p : Program) (s : CallStack) : Option Operator :=
  s.active?.bind fun frame => p.opcodes[frame.offset]?.map (·.operator)

/-- Where two frames stand that halted, `f` on `p` and `f'` on its
plain form: `f` on an opcode that can fail, `f'` on the operator behind the
`made` ones of that opcode that were carried out. -/
structure Frame.StandsLike (p : Program) (u : Nat → Nat) (f f' : Frame) (op : Opcode)
    (made : Nat) : Prop where
  lt_stop : f.offset < f.body.stop
  opcode : p.opcodes[f.offset]? = some op
  not_open : op.operator ≠ .loopOpen
  made_lt : made < op.count
  body : f'.body = f.body.relocate u
  offset : f'.offset = u f.offset + made

/-- Where two stacks stand that halted: in the same calls, unless both
are done. -/
def CallStack.StandsLike (p : Program) (u : Nat → Nat) (s s' : CallStack) : Prop :=
  (s.frames = [] ∧ s'.frames = []) ∨
    ∃ f f' callers op made, s.frames = f :: callers
      ∧ s'.frames = f' :: callers.map (·.relocate u) ∧ f.StandsLike p u f' op made

/-- They stand on the same operator. -/
theorem CallStack.StandsLike.operator {s s' : CallStack} (h : s.StandsLike p u s')
    (hunpacks : p.Unpacks q u) : q.operatorAt? s' = p.operatorAt? s := by
  unfold Program.operatorAt? CallStack.active?
  rcases h with ⟨hf, hf'⟩ | ⟨f, f', callers, op, made, hf, hf', hstands⟩
  · rw [hf, hf']
    rfl
  · rw [hf, hf']
    show (q.opcodes[f'.offset]?).map _ = (p.opcodes[f.offset]?).map _
    rw [hstands.opcode, hstands.offset, hunpacks.opcode hstands.opcode hstands.made_lt]
    rfl

/-- The machines halted alike, `m` on `p` and `m'` on its plain form. -/
structure Machine.EndsLike (p : Program) (u : Nat → Nat) (m m' : Machine) : Prop where
  tape : m'.tape = m.tape
  input : m'.input = m.input
  output : m'.output = m.output
  operations : m'.operations = m.operations
  depth : m'.stack.depth = m.stack.depth
  newest : m'.functions.newest = m.functions.newest.map (·.relocate u)
  place : m.stack.StandsLike p u m'.stack

/-- Machines that differ in indices only stand alike. -/
theorem Machine.Relocates.endsLike {m m' : Machine} (h : m.Relocates u m')
    (hunpacks : p.Unpacks q u) (hrest : m.stack.frames = [] ∨ ∃ frame callers op,
      m.stack.frames = frame :: callers ∧ frame.offset < frame.body.stop
        ∧ p.opcodes[frame.offset]? = some op ∧ op.operator ≠ .loopOpen) :
    m.EndsLike p u m' := by
  refine ⟨h.tape, h.input, h.output, h.operations, ?_, h.functions.newest, ?_⟩
  · rw [h.stack, CallStack.depth_relocate]
  · rw [h.stack]
    unfold CallStack.StandsLike CallStack.relocate
    rcases hrest with hf | ⟨frame, callers, op, hf, hlt, hop, ho⟩
    · exact .inl ⟨hf, by rw [hf]; rfl⟩
    · exact .inr ⟨frame, frame.relocate u, callers, op, 0, hf, by rw [hf]; rfl,
        ⟨hlt, hop, ho, hunpacks.count_pos hop, rfl, rfl⟩⟩

/-! ## §3. The plain form follows. -/

/-- The run on the plain form stands where the run on the program stands,
and has asked the budget as often. -/
def Shadows (p : Program) (u : Nat → Nat) (r s : Run) : Prop :=
  r.machine.Relocates u s.machine ∧ r.marks = none ∧ s.marks = none ∧ s.polls = r.polls
    ∧ r.machine.Fits p

/-- The run on the plain form halts like the run on the program. -/
def HaltsLike (p q : Program) (u : Nat → Nat) (t : Terms) (code : ExitCode) (r s : Run) : Prop :=
  ∃ s', Run.Halts q t s code s' ∧ r.machine.EndsLike p u s'.machine

/-- What the run on the plain form, at `s`, makes of a step of the run on the
program. -/
def FollowedBy (p q : Program) (u : Nat → Nat) (t : Terms) (s : Run) : Step → Prop
  | .next r => ∃ n s', Run.Leads q t (n + 1) s s' ∧ Shadows p u r s'
  | .halt code r => HaltsLike p q u t code r s

/-- A machine that differs in indices only, spelled out. -/
theorem Machine.Relocates.eq {m m' : Machine} (h : m.Relocates u m') :
    m' = ⟨m.tape, m'.functions, m.stack.relocate u, m.input, m.output, m.operations⟩ := by
  obtain ⟨tape', functions', stack', input', output', operations'⟩ := m'
  simp only [Machine.mk.injEq]
  exact ⟨h.tape, trivial, h.stack, h.input, h.output, h.operations⟩

section Opcode

variable {m m' : Machine} {frame : Frame} {callers : List Frame} {op : Opcode} {step : Step}
  {polls : Nat}

/-- **An opcode that is not counted** is one opcode of the plain form. -/
theorem followedBy_move (hunpacks : p.Unpacks q u) (hp : p.Balanced) (hq : q.Coherent)
    (h : m.Relocates u m') (hm : m.Fits p) (hf : m.stack.frames = frame :: callers)
    (hlt : frame.offset < frame.body.stop) (hop : p.opcodes[frame.offset]? = some op)
    (hrep : op.operator.isRepeatable = false)
    (hstep : Run.step? p t ⟨m, none, polls⟩ = some step) :
    FollowedBy p q u t ⟨m', none, polls⟩ step := by
  have hfits := hm.step hp.toCoherent hstep
  rw [Run.step?_of_lt hf hlt] at hstep
  simp only [Run.stops?_none, hop] at hstep
  obtain ⟨move, hmove, rfl⟩ := Option.map_eq_some_iff.1 hstep
  have hreset : op.operator = .loopOpen →
      t.resets? q none (u frame.offset) = t.resets? p none frame.offset := by
    intro ho
    unfold Terms.resets?
    rw [hunpacks.isReset?_eq hp hq hop ho]
  have hat : (Linkage.relocation u).At p q (t.resets? p none frame.offset) frame.offset op :=
    hunpacks.relocation_at hp hop hrep fun _ hr =>
      hunpacks.reset_succ hp.toCoherent (Terms.isReset?_of_resets? hr)
  obtain ⟨move', hmove', hlinked⟩ := ((Linkage.keeps_relocation u).move hat
    (Machine.relocates_iff_linked.1 h) hmove).exists_linked
  have hf' : m'.stack.frames = frame.relocate u :: callers.map (·.relocate u) := by
    rw [h.stack, CallStack.relocate, hf]
    rfl
  have hstop := (hm.frame frame (by rw [hf]; exact List.mem_cons_self)).2.le
  have hmove'' : m'.move? q (t.resets? q none (u frame.offset)) (t.budget polls) (u frame.offset) op
      = some move' := by
    by_cases ho : op.operator = .loopOpen
    · rw [hreset ho]
      exact hmove'
    · -- elsewhere it is not asked whether a loop is done in one step
      rw [Machine.move?_of_not_reset fun h => absurd h ho] at hmove' ⊢
      exact hmove'
  have hstep' : Run.step? q t ⟨m', none, polls⟩ = some (move'.toStep none polls) := by
    rw [Run.step?_of_lt hf' (hunpacks.lt hlt hstop)]
    simp only [Run.stops?_none, show (frame.relocate u).offset = u frame.offset from rfl,
      hunpacks.opcode_one hop hrep, hmove'']
    rfl
  cases hlinked with
  | next hlinked asked =>
    have hrelocates := Machine.relocates_iff_linked.2 hlinked
    exact ⟨0, _, .single hstep', hrelocates, rfl, rfl, rfl, hfits⟩
  | halt hlinked code =>
    have hrelocates := Machine.relocates_iff_linked.2 hlinked
    obtain ⟨-, -, hstack⟩ := (Machine.does_of_move? hf hmove).control
    refine ⟨_, Run.halts_of_step hstep', hrelocates.endsLike hunpacks (.inr ?_)⟩
    refine ⟨frame, callers, op, by rw [hstack, hf], hlt, hop, ?_⟩
    -- a `[` does not fail
    intro ho
    have hfault := (Machine.fault_of_move? hmove).1
    rw [ho] at hfault
    cases hfault

/-- **A counted opcode** is as many opcodes of the plain form. -/
theorem followedBy_stride (hunpacks : p.Unpacks q u) (hp : p.Coherent) (h : m.Relocates u m')
    (hm : m.Fits p) (hf : m.stack.frames = frame :: callers)
    (hlt : frame.offset < frame.body.stop) (hop : p.opcodes[frame.offset]? = some op)
    (hrep : op.operator.isRepeatable)
    (hstep : Run.step? p t ⟨m, none, polls⟩ = some step) :
    FollowedBy p q u t ⟨m', none, polls⟩ step := by
  have hfits := hm.step hp hstep
  obtain ⟨⟨f, fault⟩, hs⟩ := Option.isSome_iff_exists.1 ((Operator.stride?_isSome _).trans hrep)
  have hstop := (hm.frame frame (by rw [hf]; exact List.mem_cons_self)).2.le
  have htape := hm.tape
  have hfun := h.functions
  obtain ⟨tape, functions, ⟨frames, overdrawn⟩, input, output, operations⟩ := m
  obtain ⟨body, k⟩ := frame
  obtain rfl : frames = _ := hf
  rw [h.eq]
  generalize m'.functions = functions' at hfun ⊢
  dsimp only at hlt hop hstop htape hfun ⊢
  have hnext : u (k + 1) = u k + op.count := hunpacks.succ hop
  -- the units of one opcode lie in the frame that the opcode lies in
  have hroom : u k + op.count ≤ (body.relocate u).stop := by
    rw [← hnext]
    exact hunpacks.le hlt hstop
  have hops : ∀ j, j < op.count → q.opcodes[u k + j]? = some (.one op.operator) :=
    fun j hj => hunpacks.opcode hop hj
  have hle := (Tape.stepwise_of_stride? hs).made_le tape op.count
  rw [Run.step?_stride hs hlt hop] at hstep
  by_cases hmade : (f tape op.count).made < op.count
  · rw [if_pos hmade] at hstep
    cases hstep
    refine ⟨_, (units hs op.count (u k) tape operations htape hroom hops).2 hmade, ?_⟩
    refine ⟨rfl, rfl, rfl, rfl, ?_, hfun.newest, ?_⟩
    · simp [CallStack.depth]
    · refine .inr ⟨⟨body, k⟩, _, callers, op, (f tape op.count).made, rfl, rfl,
        ⟨hlt, hop, ?_, hmade, rfl, rfl⟩⟩
      intro ho
      rw [ho] at hrep
      cases hrep
  · rw [if_neg hmade] at hstep
    cases hstep
    have hall : (f tape op.count).made = op.count := by omega
    have hpos := hunpacks.count_pos hop
    refine ⟨op.count - 1, ⟨⟨(f tape op.count).tape, functions',
      ⟨⟨body.relocate u, u k + op.count⟩ :: callers.map (·.relocate u), overdrawn⟩, input, output,
      operations + op.count⟩, none, polls⟩, ?_, ?_, rfl, rfl, rfl, hfits⟩
    · rw [Nat.sub_add_cancel hpos]
      exact (units hs op.count (u k) tape operations htape hroom hops).1 hall
    · refine ⟨rfl, rfl, rfl, ?_, ?_, hfun⟩
      · show operations + op.count = operations + (f tape op.count).made
        rw [hall]
      · show (⟨⟨body.relocate u, u k + op.count⟩ :: _, _⟩ : CallStack) = _
        rw [← hnext]
        rfl

end Opcode

/-- **A step on the program is one step or more on its plain form.** -/
theorem Shadows.step {r s : Run} {step : Step} (hunpacks : p.Unpacks q u) (hp : p.Balanced)
    (hq : q.Coherent) (h : Shadows p u r s) (hstep : r.step? p t = some step) :
    FollowedBy p q u t s step := by
  obtain ⟨m, marks, polls⟩ := r
  obtain ⟨m', marks', polls'⟩ := s
  obtain ⟨h, rfl, rfl, rfl, hm⟩ := h
  dsimp only at h hm
  have hfits := hm.step hp.toCoherent hstep
  cases hf : m.stack.frames with
  | nil =>
    have hf' : m'.stack.frames = [] := by rw [h.stack, CallStack.relocate, hf]; rfl
    rw [Run.step?_of_empty hf] at hstep
    cases hstep
    exact ⟨_, Run.halts_of_step (Run.step?_of_empty hf'), h.endsLike hunpacks (.inl hf)⟩
  | cons frame callers =>
    obtain ⟨hoffset, hends⟩ := hm.frame frame (by rw [hf]; exact List.mem_cons_self)
    rcases Nat.lt_or_ge frame.offset frame.body.stop with hlt | hge
    · obtain ⟨op, hop⟩ : ∃ op, p.opcodes[frame.offset]? = some op :=
        ⟨_, Array.getElem?_eq_getElem (Nat.lt_of_lt_of_le hlt hends.le)⟩
      cases hrep : op.operator.isRepeatable with
      | true => exact followedBy_stride hunpacks hp.toCoherent h hm hf hlt hop hrep hstep
      | false => exact followedBy_move hunpacks hp hq h hm hf hlt hop hrep hstep
    · -- the frame is done on both sides
      have hf' : m'.stack.frames = frame.relocate u :: callers.map (·.relocate u) := by
        rw [h.stack, CallStack.relocate, hf]
        rfl
      rw [Run.step?_of_done hf hge] at hstep
      cases hstep
      refine ⟨0, _, .single (Run.step?_of_done hf' (hunpacks.le hge hoffset)), ?_, rfl, rfl, rfl,
        hfits⟩
      refine ⟨h.tape, h.input, h.output, h.operations, ?_, h.functions⟩
      show m'.stack.pop = m.stack.pop.relocate u
      rw [h.stack, CallStack.pop_relocate]

/-- **The engine on a program is followed by the engine on its plain form.** -/
theorem simulation_plain (hunpacks : p.Unpacks q u) (hp : p.Balanced) (hq : q.Coherent) :
    Simulation p t q t (Shadows p u) (HaltsLike p q u t) where
  next := fun h hstep => h.step hunpacks hp hq hstep
  halt := fun h hstep => h.step hunpacks hp hq hstep
  live := by
    rintro ⟨m, _, polls⟩ s ⟨-, rfl, -, -, hm⟩
    exact hm.step?_isSome hp.toCoherent trivial t

/-! ## §4. Whole runs. -/

section Runs

variable {r s r' s' : Run} {code : ExitCode}

/-- If the program halts, its plain form does, alike. -/
theorem Shadows.halts (hunpacks : p.Unpacks q u) (hp : p.Balanced) (hq : q.Coherent)
    (h : Shadows p u r s) (hr : Run.Halts p t r code r') :
    ∃ s', Run.Halts q t s code s' ∧ r'.machine.EndsLike p u s'.machine := by
  obtain ⟨n, s₁, hleads, s', hhalts, hends⟩ := (simulation_plain hunpacks hp hq).forward h hr
  exact ⟨s', hleads.halts hhalts, hends⟩

/-- If the plain form halts, the program does, alike. -/
theorem Shadows.halts_of_plain (hunpacks : p.Unpacks q u) (hp : p.Balanced) (hq : q.Coherent)
    (h : Shadows p u r s) (hs : Run.Halts q t s code s') :
    ∃ r', Run.Halts p t r code r' ∧ r'.machine.EndsLike p u s'.machine := by
  obtain ⟨n, hn⟩ := hs
  obtain ⟨code', r', k, s₁, hr, hleads, s₂, hhalts, hends⟩ :=
    (simulation_plain hunpacks hp hq).backward h hn
  obtain ⟨rfl, rfl⟩ := (hleads.halts hhalts).unique ⟨n, hn⟩
  exact ⟨r', hr, hends⟩

end Runs

/-- Loaded with the same tape and buffers, the two start alike. -/
theorem shadows_load (hunpacks : p.Unpacks q u) {tape : Tape} (htape : tape.WellFormed)
    (input : String) (limit : Nat) :
    Shadows p u ⟨.load p tape input limit, none, 0⟩ ⟨.load q tape input limit, none, 0⟩ := by
  refine ⟨⟨rfl, rfl, rfl, rfl, ?_, ⟨rfl, ?_⟩⟩, rfl, rfl, rfl, Machine.fits_load p htape input limit⟩
  · show CallStack.ofScript ⟨0, q.size⟩ = ⟨[⟨⟨u 0, u p.size⟩, u 0⟩], 0⟩
    rw [hunpacks.size, hunpacks.zero]
    rfl
  · intro key
    show FunctionTable.empty.get? key = (FunctionTable.empty.get? key).map _
    rw [FunctionTable.get?_empty]
    rfl

/-! ## §5. Reports. -/

namespace Report

/-- A function entry gives the same `Definition` in both streams. -/
theorem definition?_relocate (hunpacks : p.Unpacks q u) (hp : p.Balanced) {e : FunctionEntry}
    {x : Opcode} (hx : p.opcodes[e.declaration]? = some x) (ho : x.operator = .bodyOpen)
    (index : Nat) : definition? q index (e.relocate u) = definition? p index e := by
  obtain ⟨stop, hlt, hpartner, hback⟩ := hp.opened hx (by rw [ho]; rfl)
  have hd : e.declaration < p.size := (Array.getElem?_eq_some_iff.1 hx).1
  have hstop : stop ≤ p.size :=
    Nat.le_of_lt (hp.partners_size ▸ (Array.getElem?_eq_some_iff.1 hback).1)
  have hbody : q.sourceOf? (u e.declaration + 1) (u stop)
      = p.sourceOf? (e.declaration + 1) stop := by
    rw [← hunpacks.succ_one hx (by rw [ho]; rfl)]
    exact hunpacks.text hlt hstop
  unfold definition?
  simp only [FunctionEntry.relocate, hunpacks.offset hd, hunpacks.partner hd, hpartner,
    Option.map_some, Option.bind_eq_bind, Option.bind_some, hbody]

/-- The symbol that a report gives is that of the operator it stopped on. -/
theorem halting?_operator {stack : CallStack} {code : ExitCode} {halting : Option Halting}
    (h : halting? p stack code = some halting) :
    halting.map (·.operator)
      = if code.isSuccess then none else (p.operatorAt? stack).map (·.symbol) := by
  unfold halting? at h
  split at h
  · next hf =>
    cases h
    simp [Program.operatorAt?, CallStack.active?, hf]
  · next frame callers hf =>
    split at h
    · next hcode =>
      cases h
      rw [if_pos hcode]
      rfl
    · next hcode =>
      rw [if_neg hcode]
      simp only [Option.bind_eq_bind, Option.bind_eq_some_iff] at h
      obtain ⟨trace, -, op, hop, offset, -, h⟩ := h
      cases h
      simp [Program.operatorAt?, CallStack.active?, hf, hop]

/-- **Machines that halted alike have the same definitions and the same
operator in their reports.** -/
theorem build?_endsLike {m m' : Machine} (hunpacks : p.Unpacks q u) (hp : p.Balanced)
    (hm : m.Fits p) (h : m.EndsLike p u m') {source : String} {code : ExitCode}
    {elapsed : Duration} {report report' : Report}
    (hreport : build? source p m code elapsed = some report)
    (hreport' : build? source q m' code elapsed = some report') :
    report.definitions = report'.definitions
      ∧ report.halting.map (·.operator) = report'.halting.map (·.operator) := by
  obtain ⟨hdef, hhalt, -⟩ := parts_of_build? hreport
  obtain ⟨hdef', hhalt', -⟩ := parts_of_build? hreport'
  have hentries : m'.functions.entries.zipIdx
      = m.functions.entries.zipIdx.map (Prod.map (·.relocate u) id) := by
    rw [FunctionTable.entries, h.newest, ← List.map_reverse, List.zipIdx_map]
    rfl
  refine ⟨?_, ?_⟩
  · rw [hentries, List.mapM_map] at hdef'
    have hsame := mapM_congr (l := m.functions.entries.zipIdx)
      (f := fun x => definition? q x.2 (x.1.relocate u))
      (g := fun x => definition? p x.2 x.1) (by
        rintro ⟨e, index⟩ hmem
        have he : e ∈ m.functions.newest := List.mem_reverse.1 (List.fst_mem_of_mem_zipIdx hmem)
        obtain ⟨x, hx, ho⟩ := hm.entry e he
        exact definition?_relocate hunpacks hp hx ho index)
    exact Option.some.inj (hdef.symm.trans (hsame.symm.trans hdef'))
  · rw [halting?_operator hhalt, halting?_operator hhalt', h.place.operator hunpacks]

/-- Calls that ended alike, loaded with the same tape and buffers, have
reports that agree. -/
theorem exists_build? {r s : Run} {code : ExitCode} {tape : Tape} {input : String} {limit : Nat}
    (hunpacks : p.Unpacks q u) (hp : p.Balanced) (hq : q.Balanced) (htape : tape.WellFormed)
    (hr : Run.Halts p t ⟨.load p tape input limit, none, 0⟩ code r)
    (hs : Run.Halts q t ⟨.load q tape input limit, none, 0⟩ code s)
    (h : r.machine.EndsLike p u s.machine) (source : String) :
    ∃ report report', build? source p r.machine code {} = some report
      ∧ build? source q s.machine code {} = some report'
      ∧ report.definitions = report'.definitions
      ∧ report.halting.map (·.operator) = report'.halting.map (·.operator) := by
  obtain ⟨hfits, hrests⟩ := hr.fits hp.toCoherent (Machine.fits_load p htape input limit)
  obtain ⟨hfits', hrests'⟩ := hs.fits hq.toCoherent (Machine.fits_load q htape input limit)
  obtain ⟨report, hreport⟩ := Option.isSome_iff_exists.1 (build?_isSome hp hfits hrests source {})
  obtain ⟨report', hreport'⟩ := Option.isSome_iff_exists.1
    (build?_isSome hq hfits' hrests' source {})
  exact ⟨report, report', hreport, hreport', build?_endsLike hunpacks hp hfits h hreport hreport'⟩

end Report

/-! ## §6. The result. -/

/-- **Packed and plain agree.**  A script that passes the check compiles in
both granularities.  On the same tape and buffers, with the same answers of
the budget and no breakpoints, both programs halt or none does, and
then with the same code and the same tape, buffers, count and depth, the same
definitions in their reports, and on the same operator. -/
theorem granularities_agree (source : String) (tape : Tape) (input : String) (limit : Nat)
    (t : Terms) (hsource : (Script.validate source).isSuccess) (htape : tape.WellFormed) :
    ∃ p q, Program.compile .packed source = .ok p ∧ Program.compile .plain source = .ok q
      ∧ (∀ code, (∃ fuel r, (Machine.load p tape input limit).execute p t none fuel
            = .halted code r)
          ↔ ∃ fuel s, (Machine.load q tape input limit).execute q t none fuel = .halted code s)
      ∧ ∀ fuel fuel' code code' r s,
          (Machine.load p tape input limit).execute p t none fuel = .halted code r →
          (Machine.load q tape input limit).execute q t none fuel' = .halted code' s →
          code = code' ∧ r.machine.tape = s.machine.tape ∧ r.machine.output = s.machine.output
            ∧ r.machine.input = s.machine.input ∧ r.machine.operations = s.machine.operations
            ∧ r.machine.stack.depth = s.machine.stack.depth
            ∧ ∃ report report', Report.build? source p r.machine code {} = some report
              ∧ Report.build? source q s.machine code' {} = some report'
              ∧ report.definitions = report'.definitions
              ∧ report.halting.map (·.operator) = report'.halting.map (·.operator) := by
  obtain ⟨b, ⟨hitems, -⟩, hb⟩ := Script.validate_isSuccess_iff.1 hsource
  have hunpacks := Program.unpacks_plain .packed (Script.validate source).count
    (Script.tokens source)
  have hp := Program.balanced_ofTokens hitems hb .packed (Script.validate source).count
  have hq := Program.balanced_ofTokens hitems hb .plain (Script.validate source).count
  have hstart := shadows_load hunpacks htape input limit
  refine ⟨_, _, Program.compile_of_isSuccess hsource .packed,
    Program.compile_of_isSuccess hsource .plain, ?_, ?_⟩
  · intro code
    refine ⟨?_, ?_⟩
    · rintro ⟨fuel, r, hr⟩
      obtain ⟨s, ⟨fuel', hs⟩, -⟩ := hstart.halts hunpacks hp hq.toCoherent ⟨fuel, hr⟩
      exact ⟨fuel', s, hs⟩
    · rintro ⟨fuel, s, hs⟩
      obtain ⟨r, ⟨fuel', hr⟩, -⟩ := hstart.halts_of_plain hunpacks hp hq.toCoherent ⟨fuel, hs⟩
      exact ⟨fuel', r, hr⟩
  · intro fuel fuel' code code' r s hr hs
    obtain ⟨s', hs', hends⟩ := hstart.halts hunpacks hp hq.toCoherent ⟨fuel, hr⟩
    obtain ⟨rfl, rfl⟩ := hs'.unique ⟨fuel', hs⟩
    exact ⟨rfl, hends.tape.symm, hends.output.symm, hends.input.symm, hends.operations.symm,
      hends.depth.symm,
      Report.exists_build? hunpacks hp hq htape ⟨fuel, hr⟩ ⟨fuel', hs⟩ hends source⟩

/-- A counted `<` that fails halfway, after a definition. -/
theorem granularities_agree_halfway :
    ∃ p q fuel fuel' r s, Program.compile .packed "(+)>>><<<<" = .ok p
      ∧ Program.compile .plain "(+)>>><<<<" = .ok q
      ∧ (Machine.load p (.blank 32 .byteChecked) "" 0).execute p {} none fuel
        = .halted .beforeStart r
      ∧ (Machine.load q (.blank 32 .byteChecked) "" 0).execute q {} none fuel'
        = .halted .beforeStart s
      ∧ r.machine.tape = s.machine.tape ∧ r.machine.operations = s.machine.operations := by
  have hrun : ((Program.compile .packed "(+)>>><<<<").toOption.bind fun p =>
      ((Machine.load p (.blank 32 .byteChecked) "" 0).execute p {} none 20).rest?.bind fun rest =>
        some rest.1) = some .beforeStart := by decide +kernel
  obtain ⟨p, q, hp, hq, hiff, hsame⟩ := granularities_agree "(+)>>><<<<" (.blank 32 .byteChecked)
    "" 0 {} (by decide) (Tape.wellFormed_blank _ (by decide))
  replace hrun := seen_of_ok hrun hp
  obtain ⟨code, m, marks, _, ⟨fuel, polls, hr⟩, hcode⟩ := Machine.exists_haltsWith hrun
  obtain rfl : code = .beforeStart := Option.some.inj hcode
  obtain ⟨fuel', s, hs⟩ := (hiff .beforeStart).1 ⟨fuel, _, hr⟩
  obtain ⟨-, htape, -, -, hoperations, -⟩ := hsame fuel fuel' _ _ _ s hr hs
  exact ⟨p, q, fuel, fuel', _, s, hp, hq, hr, hs, htape, hoperations⟩

end TapeMachine
