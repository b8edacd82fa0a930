/-
  TapeMachine.Proofs.Embedding
  ────────────────────────────
  **A PROGRAM INSIDE A LONGER ONE.**

  `Program.Holds q a p` says that `p` stands in `q` from index `a` on.  A
  machine on `q` that stands in this part does what a machine on `p` does:
  `Machine.Echoes c` relates the two, `c` being what the longer run has
  besides the shorter one — opcodes before and behind the part, output
  written and operations credited before it.

    • `Block.At.holds` — a tree that stands in both programs gives `Holds`,
    • `Linkage.keeps_echo`, `Program.Holds.echo_at` — the machines are linked
      and the programs correspond, so an opcode does the same on both,
    • `Machine.Echoes.step` — and so does a step, as long as the shorter
      script is not at its end,
    • `Machine.Echoes.prelude` — hence a whole run, up to that end,
    • `simulation_finale` — and beyond it, if nothing stands behind.
-/
import TapeMachine.Proofs.Granularity
import TapeMachine.Proofs.Stepwise

namespace TapeMachine

/-! ## §1. Programs that hold others. -/

/-- The program `p` stands in `q` from index `a` on: its opcodes, and its
brackets with their partners. -/
structure Program.Holds (q : Program) (a : Nat) (p : Program) : Prop where
  opcode : ∀ {k : Nat} {op : Opcode}, p.opcodes[k]? = some op → q.opcodes[a + k]? = some op
  partner : ∀ {k : Nat} {op : Opcode}, p.opcodes[k]? = some op → op.operator.isSimple = false →
    q.partners[a + k]? = p.partners[k]?.map (a + ·)

/-- **A tree that stands in two programs** has the same opcodes and the same
partners in both. -/
theorem Block.At.holds {p q : Program} {a : Nat} {b : Block} (hb : b.IsItems) :
    ∀ {i k : Nat} {x : Opcode}, b.At p i → b.At q (a + i) → i ≤ k → k < i + b.length →
      p.opcodes[k]? = some x →
      q.opcodes[a + k]? = some x
        ∧ (x.operator.isSimple = false → q.partners[a + k]? = p.partners[k]?.map (a + ·)) := by
  -- a bracket that both programs have, with a partner that both have
  have hbracket : ∀ {i j : Nat} {o : Operator} {x : Opcode}, p.opcodes[i]? = some (.one o) →
      p.partners[i]? = some j → q.opcodes[a + i]? = some (.one o) →
      q.partners[a + i]? = some (a + j) → p.opcodes[i]? = some x →
      q.opcodes[a + i]? = some x
        ∧ (x.operator.isSimple = false → q.partners[a + i]? = p.partners[i]?.map (a + ·)) := by
    intro i j o x hop hj hop' hj' hx
    refine ⟨by rw [hop', ← hx, hop], fun _ => ?_⟩
    rw [hj, hj']
    rfl
  have hassoc : ∀ i n, a + i + 1 + n = a + (i + 1 + n) := by omega
  induction b with
  | done =>
    intro i k x _ _ hle hlt
    rw [length_done] at hlt
    omega
  | simple o next ih =>
    intro i k x hat hat' hle hlt hx
    rw [length_simple] at hlt
    by_cases hk : k = i
    · subst hk
      refine ⟨by rw [hat'.1, ← hx, hat.1], fun hsimple => ?_⟩
      rw [hat.1] at hx
      cases hx
      rw [show (Opcode.one o).operator.isSimple = true from hb.1] at hsimple
      cases hsimple
    · exact ih hb.2 hat.2 hat'.2 (by omega) (by omega) hx
  | loop body next ihb ih =>
    intro i k x hat hat' hle hlt hx
    rw [length_loop] at hlt
    obtain ⟨⟨hop, hj⟩, ⟨hop₂, hj₂⟩, hbody, hnext⟩ := hat
    obtain ⟨⟨hop', hj'⟩, ⟨hop₂', hj₂'⟩, hbody', hnext'⟩ := hat'
    rw [hassoc] at hj' hop₂' hj₂' hnext'
    by_cases hk : k = i
    · subst hk
      exact hbracket hop hj hop' hj' hx
    by_cases hk' : k = i + 1 + body.length
    · subst hk'
      exact hbracket hop₂ hj₂ hop₂' hj₂' hx
    by_cases hin : k < i + 1 + body.length
    · exact ihb hb.1.isItems hbody hbody' (by omega) hin hx
    · exact ih hb.2 hnext hnext' (by omega) (by omega) hx
  | define body next ihb ih =>
    intro i k x hat hat' hle hlt hx
    rw [length_define] at hlt
    obtain ⟨⟨hop, hj⟩, ⟨hop₂, hj₂⟩, hbody, hnext⟩ := hat
    obtain ⟨⟨hop', hj'⟩, ⟨hop₂', hj₂'⟩, hbody', hnext'⟩ := hat'
    rw [hassoc] at hj' hop₂' hj₂' hnext'
    by_cases hk : k = i
    · subst hk
      exact hbracket hop hj hop' hj' hx
    by_cases hk' : k = i + 1 + body.length
    · subst hk'
      exact hbracket hop₂ hj₂ hop₂' hj₂' hx
    by_cases hin : k < i + 1 + body.length
    · exact ihb hb.1.1.isItems hbody hbody' (by omega) hin hx
    · exact ih hb.2 hnext hnext' (by omega) (by omega) hx

/-- The text of a part of the program that is held. -/
theorem Program.Holds.sourceOf? {p q : Program} {a : Nat} (h : q.Holds a p) {start stop : Nat}
    (hle : start ≤ stop) (hpos : 0 < stop) (hstop : stop ≤ p.size) :
    q.sourceOf? (a + start) (a + stop) = p.sourceOf? start stop := by
  have hop : ∀ {k : Nat}, k < p.size → q.opcodes[a + k]? = p.opcodes[k]? := by
    intro k hk
    have hsome : p.opcodes[k]? = some p.opcodes[k] := Array.getElem?_eq_getElem hk
    rw [hsome, h.opcode hsome]
  have hlast : a + (stop - 1) < q.size := by
    have hlt : stop - 1 < p.opcodes.size := Nat.lt_of_lt_of_le (by omega) hstop
    have hsome : p.opcodes[stop - 1]? = some p.opcodes[stop - 1] := Array.getElem?_eq_getElem hlt
    exact (Array.getElem?_eq_some_iff.1 (h.opcode hsome)).1
  rw [sourceOf?_eq hle hstop, sourceOf?_eq (by omega) (by omega)]
  refine congrArg (fun ops => some (Opcode.sourceText ops)) ?_
  rw [show a + stop - (a + start) = stop - start by omega]
  refine List.ext_getElem? fun k => ?_
  simp only [List.getElem?_take, List.getElem?_drop, Array.getElem?_toList]
  by_cases hk : k < stop - start
  · rw [if_pos hk, if_pos hk, Nat.add_assoc, hop (by omega)]
  · rw [if_neg hk, if_neg hk]

/-! ## §2. Machines that do the same. -/

/-- A part of a longer run: the opcodes before it, its own and those behind it,
the characters written before it, newest first, and the operations credited
before it. -/
structure Surroundings where
  before : Nat
  size : Nat
  after : Nat
  written : List Char
  operations : Nat

/-- The frames on the longer program: every index is shifted, and the script
ends later. -/
inductive Frame.Echo (c : Surroundings) : List Frame → List Frame → Prop
  | script {f f' : Frame} (offset : f'.offset = c.before + f.offset) (size : f.body.stop = c.size)
      (stop : f'.body.stop = c.before + c.size + c.after) : Echo c [f] [f']
  | call {f f' : Frame} {fs fs' : List Frame} (offset : f'.offset = c.before + f.offset)
      (stop : f'.body.stop = c.before + f.body.stop) (callers : Echo c fs fs') :
      Echo c (f :: fs) (f' :: fs')

/-- The machines have the same but for their surroundings, wherever they
stand. -/
structure Machine.Trails (c : Surroundings) (m m' : Machine) : Prop where
  tape : m'.tape = m.tape
  unread : m'.input.unread = m.input.unread
  written : m'.output.written = m.output.written ++ c.written
  room : m'.output.room = m.output.room
  operations : m'.operations = c.operations + m.operations
  functions : m.functions.Relocates (c.before + ·) m'.functions

/-- The machines have the same but for their surroundings, and stand at the
same opcode. -/
structure Machine.Echoes (c : Surroundings) (m m' : Machine) : Prop extends m.Trails c m' where
  frames : Frame.Echo c m.stack.frames m'.stack.frames

namespace Frame.Echo

variable {c : Surroundings} {f f' : Frame} {fs fs' : List Frame}

/-- The frame that runs. -/
theorem exists_cons {gs : List Frame} (h : Echo c (f :: fs) gs) :
    ∃ f' fs', gs = f' :: fs' ∧ f'.offset = c.before + f.offset
      ∧ (f.offset < f.body.stop → f'.offset < f'.body.stop) := by
  cases h with
  | @script _ f' hoffset hsize hstop => exact ⟨f', [], rfl, hoffset, by omega⟩
  | @call _ f' _ fs' hoffset hstop _ => exact ⟨f', fs', rfl, hoffset, by omega⟩

theorem length_eq (h : Echo c fs fs') : fs'.length = fs.length := by
  induction h with
  | script _ _ _ => rfl
  | call _ _ _ ih => rw [List.length_cons, List.length_cons, ih]

theorem goto (h : Echo c (f :: fs) (f' :: fs')) (j : Nat) :
    Echo c ({ f with offset := j } :: fs) ({ f' with offset := c.before + j } :: fs') := by
  cases h with
  | script _ hsize hstop => exact .script rfl hsize hstop
  | call _ hstop hcallers => exact .call rfl hstop hcallers

end Frame.Echo

namespace Machine

variable {c : Surroundings} {m m' : Machine}

/-- Stacks are not looked at. -/
theorem Trails.withStack (h : m.Trails c m') (stack stack' : CallStack) :
    ({ m with stack } : Machine).Trails c { m' with stack := stack' } :=
  ⟨h.tape, h.unread, h.written, h.room, h.operations, h.functions⟩

/-- The frame of the script, if only that is left. -/
theorem Echoes.exists_script (h : m.Echoes c m') {f : Frame} (hf : m.stack.frames = [f]) :
    ∃ f', m'.stack.frames = [f'] ∧ f'.offset = c.before + f.offset ∧ f.body.stop = c.size
      ∧ f'.body.stop = c.before + c.size + c.after := by
  have hframes := h.frames
  rw [hf] at hframes
  generalize hf' : m'.stack.frames = gs at hframes
  cases hframes with
  | @script _ f' hoffset hsize hstop => exact ⟨f', rfl, hoffset, hsize, hstop⟩
  | call _ _ hcallers => cases hcallers

end Machine

/-! ## §3. Opcodes. -/

/-- The same but for the surroundings, at the same opcode. -/
def Linkage.echo (c : Surroundings) : Linkage where
  tape := Eq
  input := fun i i' => i'.unread = i.unread
  output := fun o o' => o'.written = o.written ++ c.written ∧ o'.room = o.room
  index := (c.before + ·)
  operations := fun k k' => k' = c.operations + k
  functions := fun f f' => f.Relocates (c.before + ·) f'
  stack := fun s s' => Frame.Echo c s.frames s'.frames

section Opcode

variable {c : Surroundings} {m m' : Machine} {p q : Program}

theorem Machine.echoes_iff_linked : m.Echoes c m' ↔ m.Linked (.echo c) m' :=
  ⟨fun h => ⟨h.tape.symm, h.unread, ⟨h.written, h.room⟩, h.operations, h.functions, h.frames⟩,
    fun h => ⟨⟨h.tape.symm, h.input, h.output.1, h.output.2, h.operations, h.functions⟩, h.stack⟩⟩

/-- Inputs with the same rest and outputs with the same room do the same. -/
theorem Linkage.steady_echo (c : Surroundings) : (echo c).toLikeness.Steady fun _ => False := by
  refine Likeness.steady_of_tape_eq ?_ ?_ ?_ ?_
  · rintro ⟨text, _ | ⟨x, rest⟩⟩ ⟨text', _⟩ j d rfl hread
    · cases hread
    · cases hread
      exact ⟨⟨text', rest⟩, rfl, rfl⟩
  · rintro ⟨text, _ | ⟨x, rest⟩⟩ ⟨text', _⟩ rfl hread
    · exact .inr rfl
    · cases hread
  · rintro ⟨written, _ | room⟩ ⟨_, _⟩ w v ⟨rfl, rfl⟩ hwrite
    · cases hwrite
    · cases hwrite
      exact ⟨_, rfl, rfl, rfl⟩
  · rintro ⟨written, _ | room⟩ ⟨_, _⟩ v ⟨rfl, rfl⟩ hwrite
    · exact .inr rfl
    · cases hwrite

/-- **Nothing can part the machines**, as long as both have a frame. -/
theorem Linkage.keeps_echo (c : Surroundings) : (echo c).Keeps fun _ => False where
  toSteady := steady_echo c
  credit := by
    rintro k _ n rfl
    exact Nat.add_assoc _ _ _
  get? := fun key h => h.get? key
  define := fun h hempty hg => h.define hempty hg
  defined := fun h hnone => h.defined hnone
  isFull := by
    intro s s' h
    unfold CallStack.isFull
    rw [Frame.Echo.length_eq h]
  push := by
    rintro ⟨frames, overdrawn⟩ ⟨frames', overdrawn'⟩ t resume body h ht
    have hframes : Frame.Echo c frames frames' := h
    have hlength := hframes.length_eq
    cases frames with
    | nil => cases ht
    | cons f fs =>
      obtain ⟨f', fs', rfl, -⟩ := hframes.exists_cons
      unfold CallStack.push? CallStack.isFull at ht ⊢
      dsimp only at ht ⊢
      rw [hlength]
      split at ht
      · cases ht
      · next hroom =>
        cases ht
        rw [if_neg hroom]
        exact ⟨_, rfl, .call rfl rfl (hframes.goto resume)⟩
  goto := by
    intro m m' j h
    have hframes : Frame.Echo c m.stack.frames m'.stack.frames := h
    show Frame.Echo c (m.goto j).stack.frames (m'.goto (c.before + j)).stack.frames
    cases hf : m.stack.frames with
    | nil =>
      rw [hf] at hframes
      cases hframes
    | cons f fs =>
      rw [hf] at hframes
      obtain ⟨f', fs', hf', -⟩ := hframes.exists_cons
      rw [hf'] at hframes
      rw [Machine.goto_frames hf, Machine.goto_frames hf']
      exact hframes.goto j

/-- **The programs correspond** at every opcode of the shorter one. -/
theorem Program.Holds.echo_at (hq : q.Holds c.before p) {reset : Option Bool} {i : Nat}
    {op : Opcode} (hop : p.opcodes[i]? = some op) : (Linkage.echo c).At p q reset i op where
  next := rfl
  partner := by
    intro j hbracket hj
    refine ⟨?_, rfl⟩
    show q.partners[c.before + i]? = _
    rw [hq.partner hop hbracket, hj]
    rfl
  body := by
    intro j _ _
    show c.before + (i + 1) = c.before + j ↔ i + 1 = j
    omega
  reset := fun _ _ => rfl

end Opcode

namespace Machine

variable {c : Surroundings} {m m' : Machine}

/-! ## §4. Steps. -/

/-- Only the script's frame is left, and it is done. -/
def AtEnd (m : Machine) : Prop := ∃ f, m.stack.frames = [f] ∧ f.body.stop ≤ f.offset

/-- The machines halted alike, `m` on `p` and `m'` on the longer
program. -/
structure RestsLike (c : Surroundings) (p q : Program) (m m' : Machine) : Prop
    extends m.Trails c m' where
  operator : q.operatorAt? m'.stack = p.operatorAt? m.stack

/-- The machines stand on the same operator. -/
theorem Echoes.operatorAt? {p q : Program} (h : m.Echoes c m') (hq : q.Holds c.before p)
    {f : Frame} {fs : List Frame} {op : Opcode} (hf : m.stack.frames = f :: fs)
    (hop : p.opcodes[f.offset]? = some op) :
    q.operatorAt? m'.stack = p.operatorAt? m.stack := by
  have hframes := h.frames
  rw [hf] at hframes
  obtain ⟨f', fs', hf', hoffset, -⟩ := hframes.exists_cons
  simp only [Program.operatorAt?, CallStack.active?, hf, hf', List.head?_cons, Option.bind_some,
    hoffset, hq.opcode hop, hop]

end Machine

/-- The steps lead to machines that do the same, or that halted alike. -/
def Step.Echoes (c : Surroundings) (p q : Program) : Step → Step → Prop
  | .next r, .next s => r.marks = none ∧ s.marks = none ∧ r.machine.Echoes c s.machine
  | .halt code r, .halt code' s => code' = code ∧ r.machine.RestsLike c p q s.machine
  | _, _ => False

section Step

variable {c : Surroundings} {p q : Program} {m m' : Machine} {polls : Nat}

/-- **A step does the same on the longer program**, unless the script is at its
end. -/
theorem Machine.Echoes.step {step : Step} (h : m.Echoes c m') (hq : q.Holds c.before p)
    (hlive : ¬ m.AtEnd)
    (hstep : Run.step? p .stepwise ⟨m, none, polls⟩ = some step) (polls' : Nat) :
    ∃ step', Run.step? q .stepwise ⟨m', none, polls'⟩ = some step' ∧ step.Echoes c p q step' := by
  have hframes := h.frames
  -- an opcode that is carried out on `p` is carried out on `q`
  have hmoves : ∀ {f : Frame} {fs : List Frame} {op : Opcode} {move : Move},
      m.stack.frames = f :: fs → f.offset < f.body.stop → p.opcodes[f.offset]? = some op →
      m.move? p (some false) false f.offset op = some move →
      ∃ move', Run.step? q .stepwise ⟨m', none, polls'⟩ = some (move'.toStep none polls')
        ∧ move.Linked (.echo c) move' := by
    intro f fs op move hf hlt hop hmove
    rw [hf] at hframes
    obtain ⟨f', fs', hf', hoffset, hlt'⟩ := hframes.exists_cons
    obtain ⟨move', hmove', hlinked⟩ := ((Linkage.keeps_echo c).move (hq.echo_at hop)
      (Machine.echoes_iff_linked.1 h) hmove).exists_linked
    have hmove'' : m'.move? q (some false) false (c.before + f.offset) op = some move' := hmove'
    refine ⟨move', ?_, hlinked⟩
    rw [step?_stepwise hf' (hlt' hlt), hoffset]
    simp only [hq.opcode hop, hmove'', Option.map_some]
  cases Run.takes_of_step? hstep with
  | ended hf =>
    rw [hf] at hframes
    cases hframes
  | @left f fs hf hge =>
    rw [hf] at hframes
    generalize hf' : m'.stack.frames = gs at hframes
    cases hframes with
    | script _ _ _ => exact absurd ⟨f, hf, hge⟩ hlive
    | @call _ f' _ fs' hoffset hstop hcallers =>
      -- the frame is done on both sides
      refine ⟨_, Run.step?_of_done hf' (by omega), rfl, rfl, ?_⟩
      refine ⟨h.toTrails.withStack _ _, ?_⟩
      simp only [CallStack.pop, hf, hf']
      exact hcallers
  | paused _ _ htable _ => cases htable
  | moved hf hlt hop hmove =>
    obtain ⟨move', hstep', hlinked⟩ := hmoves hf hlt hop hmove
    cases hlinked with
    | next hlinked asked => exact ⟨_, hstep', rfl, rfl, Machine.echoes_iff_linked.2 hlinked⟩
  | @halted f fs op m₁ code hf hlt hop hmove =>
    obtain ⟨move', hstep', hlinked⟩ := hmoves hf hlt hop hmove
    cases hlinked with
    | halt hlinked code =>
      have hechoes := Machine.echoes_iff_linked.2 hlinked
      have hstack : m₁.stack = m.stack := (Machine.does_of_move? hf hmove).control.2.2
      refine ⟨_, hstep', rfl, hechoes.toTrails, ?_⟩
      exact hechoes.operatorAt? hq (by rw [hstack, hf]) hop

/-! ## §5. Runs. -/

/-- **A whole run, with more to come.**  If the script comes to its end, the
longer run gets to that place; if it fails before, so does the longer run. -/
theorem Machine.Echoes.prelude (hq : q.Holds c.before p) (hp : p.Coherent) (hsize : c.size = p.size)
    {code : ExitCode} {r : Run} (n : Nat) : ∀ {m m' : Machine} {polls : Nat} (polls' : Nat),
      m.Echoes c m' → m.Fits p → Run.steps p .stepwise n ⟨m, none, polls⟩ = .halted code r →
      (code = .success ∧ ∃ k s f', Run.Leads q .stepwise k ⟨m', none, polls'⟩ s ∧ s.marks = none
          ∧ r.machine.Trails c s.machine ∧ s.machine.stack.frames = [f']
          ∧ f'.offset = c.before + c.size ∧ f'.body.stop = c.before + c.size + c.after)
        ∨ (code ≠ .success ∧ ∃ s, Run.Halts q .stepwise ⟨m', none, polls'⟩ code s
          ∧ r.machine.RestsLike c p q s.machine) := by
  induction n with
  | zero =>
    intro m m' polls polls' _ _ hr
    cases hr
  | succ n ih =>
    intro m m' polls polls' h hm hr
    by_cases hend : m.AtEnd
    · -- the script is at its end: it is left, and that is all
      obtain ⟨f, hf, hge⟩ := hend
      obtain ⟨f', hf', hoffset, hstop, hstop'⟩ := h.exists_script hf
      obtain ⟨hle, -⟩ := hm.frame f (by rw [hf]; exact List.mem_cons_self)
      rw [Run.steps_of_next (Run.step?_of_done hf hge)] at hr
      have hdone : ({ m with stack := m.stack.pop } : Machine).stack.frames = [] := by
        simp only [CallStack.pop, hf]
      cases n with
      | zero => cases hr
      | succ n =>
        rw [Run.steps_of_halt (Run.step?_of_empty hdone)] at hr
        cases hr
        exact .inl ⟨rfl, 0, _, f', .refl _, rfl, h.toTrails.withStack _ _, hf', by omega, hstop'⟩
    · cases hstep : Run.step? p .stepwise ⟨m, none, polls⟩ with
      | none =>
        rw [Run.steps_of_stuck hstep] at hr
        cases hr
      | some step =>
        obtain ⟨step', hstep', hechoes⟩ := h.step hq hend hstep polls'
        have hfits := hm.step (r := ⟨m, none, polls⟩) hp hstep
        cases step with
        | next r₁ =>
          obtain ⟨m₁, marks₁, polls₁⟩ := r₁
          cases step' with
          | halt code' s₁ => exact hechoes.elim
          | next s₁ =>
            obtain ⟨m₁', marks₁', polls₁'⟩ := s₁
            obtain ⟨rfl, rfl, hechoes⟩ := hechoes
            rw [Run.steps_of_next hstep] at hr
            rcases ih polls₁' hechoes hfits hr with
              ⟨hcode, k, s, f', hleads, hrest⟩ | ⟨hcode, s, hhalts, hrest⟩
            · exact .inl ⟨hcode, k + 1, s, f', .step hstep' hleads, hrest⟩
            · exact .inr ⟨hcode, s, (Run.Leads.single hstep').halts hhalts, hrest⟩
        | halt code₁ r₁ =>
          cases step' with
          | next s₁ => exact hechoes.elim
          | halt code' s₁ =>
            obtain ⟨rfl, hrest⟩ := hechoes
            rw [Run.steps_of_halt hstep] at hr
            cases hr
            refine .inr ⟨?_, s₁, Run.halts_of_step hstep', hrest⟩
            -- a step that halts with a frame left is no success
            rintro rfl
            cases Run.takes_of_step? hstep with
            | ended hf =>
              have hframes := h.frames
              rw [hf] at hframes
              cases hframes
            | halted hf _ _ hmove =>
              have hfault : ExitCode.success.isFault := (Machine.does_of_move? hf hmove).control.1
              cases hfault

/-- The longer run stands where the shorter one stands, or both are done. -/
def Keeps (c : Surroundings) (p : Program) (r s : Run) : Prop :=
  r.marks = none ∧ s.marks = none ∧ r.machine.Fits p
    ∧ (r.machine.Echoes c s.machine ∨ (r.machine.Trails c s.machine
      ∧ r.machine.stack.frames = [] ∧ s.machine.stack.frames = []))

/-- The longer run is about to halt like the shorter one did. -/
def EndsKept (c : Surroundings) (p q : Program) (code : ExitCode) (r s : Run) : Prop :=
  ∃ s', s.step? q .stepwise = some (.halt code s') ∧ r.machine.RestsLike c p q s'.machine

/-- What the longer run makes of a step of the shorter one, if nothing stands
behind it. -/
theorem Keeps.step {r s : Run} {step : Step} (hq : q.Holds c.before p) (hp : p.Coherent)
    (hafter : c.after = 0) (h : Keeps c p r s) (hstep : r.step? p .stepwise = some step) :
    (∃ r' s', step = .next r' ∧ s.step? q .stepwise = some (.next s') ∧ Keeps c p r' s')
      ∨ ∃ code r', step = .halt code r' ∧ EndsKept c p q code r' s := by
  obtain ⟨m, marks, polls⟩ := r
  obtain ⟨m', marks', polls'⟩ := s
  obtain ⟨rfl, rfl, hm, h⟩ := h
  dsimp only at h hm
  have hfits := hm.step hp hstep
  rcases h with h | ⟨htrails, hf, hf'⟩
  · by_cases hend : m.AtEnd
    · -- both scripts are at their ends
      obtain ⟨f, hf, hge⟩ := hend
      obtain ⟨f', hf', hoffset, hstop, hstop'⟩ := h.exists_script hf
      rw [Run.step?_of_done hf hge] at hstep
      cases hstep
      refine .inl ⟨_, _, rfl, Run.step?_of_done hf' (by omega), rfl, rfl, hfits,
        .inr ⟨h.toTrails.withStack _ _, ?_, ?_⟩⟩
      · simp only [CallStack.pop, hf]
      · simp only [CallStack.pop, hf']
    · obtain ⟨step', hstep', hechoes⟩ := h.step hq hend hstep polls'
      cases step with
      | next r₁ =>
        cases step' with
        | halt code' s₁ => exact hechoes.elim
        | next s₁ =>
          obtain ⟨hmarks, hmarks', hechoes⟩ := hechoes
          exact .inl ⟨r₁, s₁, rfl, hstep', hmarks, hmarks', hfits, .inl hechoes⟩
      | halt code r₁ =>
        cases step' with
        | next s₁ => exact hechoes.elim
        | halt code' s₁ =>
          obtain ⟨rfl, hrest⟩ := hechoes
          exact .inr ⟨_, r₁, rfl, s₁, hstep', hrest⟩
  · rw [Run.step?_of_empty hf] at hstep
    cases hstep
    refine .inr ⟨_, _, rfl, _, Run.step?_of_empty hf', htrails, ?_⟩
    simp only [Program.operatorAt?, CallStack.active?, hf, hf', List.head?_nil, Option.bind_none]

/-- **A whole run, with nothing behind it.** -/
theorem simulation_finale (hq : q.Holds c.before p) (hp : p.Coherent) (hafter : c.after = 0) :
    Simulation p .stepwise q .stepwise (Keeps c p) (EndsKept c p q) where
  next := by
    intro r s r' h hstep
    rcases h.step hq hp hafter hstep with ⟨r₁, s₁, heq, hstep', hkeeps⟩ | ⟨code, r₁, heq, -⟩
    · cases heq
      exact ⟨0, s₁, .single hstep', hkeeps⟩
    · cases heq
  halt := by
    intro r s r' code h hstep
    rcases h.step hq hp hafter hstep with ⟨r₁, s₁, heq, -⟩ | ⟨code, r₁, heq, hends⟩
    · cases heq
    · cases heq
      exact hends
  live := by
    intro r s h
    obtain ⟨hmarks, -, hfits, -⟩ := h
    refine hfits.step?_isSome hp ?_ _
    rw [hmarks]
    trivial

end Step

end TapeMachine
