/-
  TapeMachine.Proofs.Relocation
  ─────────────────────────────
  **THE SAME MACHINE ON ANOTHER STREAM.**

  A machine on a program and a machine on its plain form that do the same
  differ in indices only: where the frames stand and end, and where the
  functions begin and end.  `Machine.Relocates u` says that every index `k`
  of the one is `u k` in the other.

    • `Linkage.keeps_relocation` — the operations on the parts of the machines
      keep this relation,
    • `Unpacks.isReset?_eq` — `[-]` is recognised in the same loops,
    • `Unpacks.relocation_at` — the streams correspond at every operator that is
      not counted, so such an operator does the same on both sides.
-/
import TapeMachine.Proofs.Invariant
import TapeMachine.Proofs.Linkage
import TapeMachine.Proofs.Packing

namespace TapeMachine

variable {u : Nat → Nat} {p q : Program}

/-! ## §1. Indices replaced. -/

/-- A frame with its indices replaced. -/
def Frame.relocate (u : Nat → Nat) (f : Frame) : Frame := ⟨f.body.relocate u, u f.offset⟩

/-- A stack with the indices of its frames replaced. -/
def CallStack.relocate (u : Nat → Nat) (s : CallStack) : CallStack :=
  ⟨s.frames.map (·.relocate u), s.overdrawn⟩

/-- The tables have the same functions, their indices replaced. -/
structure FunctionTable.Relocates (u : Nat → Nat) (f f' : FunctionTable) : Prop where
  newest : f'.newest = f.newest.map (·.relocate u)
  get? : ∀ key, f'.get? key = (f.get? key).map (·.relocate u)

/-- The machines are the same but for the indices. -/
structure Machine.Relocates (u : Nat → Nat) (m m' : Machine) : Prop where
  tape : m'.tape = m.tape
  input : m'.input = m.input
  output : m'.output = m.output
  operations : m'.operations = m.operations
  stack : m'.stack = m.stack.relocate u
  functions : m.functions.Relocates u m'.functions

@[simp] theorem CallStack.isFull_relocate (s : CallStack) :
    (s.relocate u).isFull = s.isFull := by
  simp [isFull, relocate]

@[simp] theorem CallStack.pop_relocate (s : CallStack) : (s.relocate u).pop = s.pop.relocate u := by
  obtain ⟨_ | ⟨frame, callers⟩, overdrawn⟩ := s <;> rfl

@[simp] theorem CallStack.depth_relocate (s : CallStack) : (s.relocate u).depth = s.depth := by
  simp [depth, relocate]

/-! ## §2. What the operations keep. -/

namespace FunctionTable.Relocates

variable {f f' g : FunctionTable} {e : FunctionEntry} {body : Span}

/-- A key is free on both sides or on none. -/
theorem define?_isSome_eq (h : f.Relocates u f') :
    (f'.define? (e.relocate u) (body.relocate u)).isSome = (f.define? e body).isSome := by
  rw [define?_isSome, define?_isSome, show (e.relocate u).key = e.key from rfl, h.get?,
    Option.isNone_map]

/-- A definition that is refused is refused on both sides. -/
theorem defined (h : f.Relocates u f') (hnone : f.define? e body = none) :
    f'.define? (e.relocate u) (body.relocate u) = none := by
  rw [← Option.isNone_iff_eq_none, ← Option.isSome_eq_false_iff, h.define?_isSome_eq, hnone]
  rfl

/-- **A definition** is made on both sides, if the body is empty on both or on
none. -/
theorem define (h : f.Relocates u f') (hempty : (body.relocate u).isEmpty = body.isEmpty)
    (hg : f.define? e body = some g) :
    ∃ g', f'.define? (e.relocate u) (body.relocate u) = some g' ∧ g.Relocates u g' := by
  have hsome : (f'.define? (e.relocate u) (body.relocate u)).isSome := by
    rw [h.define?_isSome_eq, hg]
    rfl
  obtain ⟨g', hg'⟩ := Option.isSome_iff_exists.1 hsome
  refine ⟨g', hg', ?_, ?_⟩
  · rw [newest_define? hg, newest_define? hg', h.newest, List.map_cons]
  · intro key
    rw [get?_define? hg, get?_define? hg', show (e.relocate u).key = e.key from rfl, h.get?]
    split
    · simp only [Option.filter_some, hempty]
      split <;> rfl
    · rfl

end FunctionTable.Relocates

/-- **A call** finds the same room on both sides. -/
theorem CallStack.push?_relocate (s : CallStack) (resume : Nat) (body : Span) :
    (s.relocate u).push? (u resume) (body.relocate u)
      = (s.push? resume body).map (·.relocate u) := by
  unfold push?
  cases hf : s.frames with
  | nil =>
    rw [show (s.relocate u).frames = [] by rw [relocate, hf]; rfl]
    rfl
  | cons frame callers =>
    rw [show (s.relocate u).frames = frame.relocate u :: callers.map (·.relocate u) by
      rw [relocate, hf]; rfl]
    dsimp only
    rw [isFull_relocate]
    split <;> rfl

/-- A frame goes on at an index, and at the one it is replaced by. -/
theorem Machine.goto_stack_relocate {m m' : Machine} (h : m'.stack = m.stack.relocate u) (j : Nat) :
    (m'.goto (u j)).stack = (m.goto j).stack.relocate u := by
  have hframes : m'.stack.frames = m.stack.frames.map (·.relocate u) := by
    rw [h]
    rfl
  -- both stacks are empty, or the first frame of both goes on
  unfold Machine.goto
  cases hf : m.stack.frames with
  | nil =>
    rw [hf] at hframes
    simp only [hframes, List.map_nil]
    exact h
  | cons frame callers =>
    rw [hf] at hframes
    simp only [hframes, List.map_cons]
    rw [show m'.stack.overdrawn = m.stack.overdrawn by rw [h]; rfl]
    rfl

/-- The same but for the indices. -/
def Linkage.relocation (u : Nat → Nat) : Linkage where
  tape := Eq
  input := Eq
  output := Eq
  index := u
  operations := Eq
  functions := fun f f' => f.Relocates u f'
  stack := fun s s' => s' = s.relocate u

theorem Machine.relocates_iff_linked {m m' : Machine} :
    m.Relocates u m' ↔ m.Linked (.relocation u) m' :=
  ⟨fun h => ⟨h.tape.symm, h.input.symm, h.output.symm, h.operations.symm, h.functions, h.stack⟩,
    fun h => ⟨h.tape.symm, h.input.symm, h.output.symm, h.operations.symm, h.stack, h.functions⟩⟩

/-- **Nothing can part the machines.** -/
theorem Linkage.keeps_relocation (u : Nat → Nat) : (relocation u).Keeps fun _ => False where
  toSteady := by
    refine Likeness.steady_of_tape_eq ?_ ?_ ?_ ?_
    · rintro i _ j c rfl hread
      exact ⟨j, hread, rfl⟩
    · rintro i _ rfl hread
      exact .inr hread
    · rintro o _ w v rfl hwrite
      exact ⟨w, hwrite, rfl⟩
    · rintro o _ v rfl hwrite
      exact .inr hwrite
  credit := by
    rintro k _ n rfl
    rfl
  get? := fun key h => h.get? key
  define := fun h hempty hg => h.define hempty hg
  defined := fun h hnone => h.defined hnone
  isFull := by
    rintro s _ rfl
    exact s.isFull_relocate
  push := by
    rintro s _ t resume body rfl ht
    refine ⟨t.relocate u, ?_, rfl⟩
    show (s.relocate u).push? (u resume) (body.relocate u) = _
    rw [CallStack.push?_relocate, ht]
    rfl
  goto := fun j h => Machine.goto_stack_relocate h j

/-! ## §3. Brackets and `[-]`. -/

/-- Brackets are not counted. -/
theorem Operator.isRepeatable_of_closer? {o o' : Operator} (h : o.closer? = some o') :
    o.isRepeatable = false ∧ o'.isRepeatable = false := by
  cases o <;> cases h <;> exact ⟨rfl, rfl⟩

namespace Program.Unpacks

/-- Behind a bracket's partner the indices correspond again. -/
theorem partner_succ (h : p.Unpacks q u) (hp : p.Balanced) {i j : Nat} {op : Opcode}
    (hop : p.opcodes[i]? = some op) (hbracket : op.operator.closer?.isSome ∨ op.operator.isCloser)
    (hj : p.partners[i]? = some j) : u (j + 1) = u j + 1 := by
  have hbrackets : ∀ {a b : Nat}, p.Pair a b → ∃ x y : Opcode, p.opcodes[a]? = some x
      ∧ p.opcodes[b]? = some y ∧ x.operator.isRepeatable = false
      ∧ y.operator.isRepeatable = false := by
    intro a b hpair
    obtain ⟨-, x, y, hx, hy, hxy⟩ := hp.pair hpair.1 hpair.2.1
    exact ⟨x, y, hx, hy, Operator.isRepeatable_of_closer? hxy⟩
  rcases hbracket with hopen | hclose
  · obtain ⟨j', hpair⟩ := hp.opened hop hopen
    obtain rfl : j = j' := by
      rw [hpair.2.1] at hj
      exact (Option.some.inj hj).symm
    obtain ⟨-, y, -, hy, -, hrep⟩ := hbrackets hpair
    exact h.succ_one hy hrep
  · obtain ⟨j', hpair⟩ := hp.closed hop hclose
    obtain rfl : j = j' := by
      rw [hpair.2.2] at hj
      exact (Option.some.inj hj).symm
    obtain ⟨x, -, hx, -, hrep, -⟩ := hbrackets hpair
    exact h.succ_one hx hrep

end Program.Unpacks

/-- What makes a loop one that is done in one step, if there are no marks. -/
theorem Program.isReset?_eq_some_true_iff {i : Nat} : p.isReset? none i = some true ↔
    p.partners[i]? = some (i + 2) ∧ p.opcodes[i + 1]? = some (.one .dec) := by
  unfold isReset?
  refine ⟨fun h => ?_, fun ⟨hpartner, hbody⟩ => ?_⟩
  · split at h
    · cases h
    · next partner hpartner =>
      split at h
      · next he =>
        split at h
        · cases h
        · next body hbody =>
          split at h
          · next hdec => exact ⟨by rw [hpartner, he], by rw [hbody, hdec]⟩
          · cases h
      · cases h
  · rw [hpartner, hbody]
    simp only [if_true]
    rfl

/-- **`[-]` is recognised in the same loops.** -/
theorem Program.Unpacks.isReset?_eq (h : p.Unpacks q u) (hp : p.Balanced) (hq : q.Coherent)
    {i : Nat} {op : Opcode} (hop : p.opcodes[i]? = some op) (ho : op.operator = .loopOpen) :
    q.isReset? none (u i) = p.isReset? none i := by
  have hi : i < p.size := (Array.getElem?_eq_some_iff.1 hop).1
  have hrep : op.operator.isRepeatable = false := by rw [ho]; rfl
  have hui := h.succ_one hop hrep
  obtain ⟨j, hij, hj, hback⟩ := hp.opened hop (by rw [ho]; rfl)
  have hjs : j < p.size := hp.partners_size ▸ (Array.getElem?_eq_some_iff.1 hback).1
  have hqj : q.partners[u i]? = some (u j) := by rw [h.partner hi, hj]; rfl
  have hiff : q.isReset? none (u i) = some true ↔ p.isReset? none i = some true := by
    rw [isReset?_eq_some_true_iff, isReset?_eq_some_true_iff, hj, hqj]
    refine ⟨fun ⟨hpartner, hbody⟩ => ?_, fun ⟨hpartner, hbody⟩ => ?_⟩
    · -- between `u i` and `u i + 2` there is room for one operator only
      have huj : u j = u i + 2 := Option.some.inj hpartner
      have hne : j ≠ i + 1 := by
        rintro rfl
        omega
      obtain ⟨body, hbody'⟩ : ∃ body, p.opcodes[i + 1]? = some body :=
        ⟨_, Array.getElem?_eq_getElem (Nat.lt_of_le_of_lt hij hjs)⟩
      have hpos := h.count_pos hbody'
      have hnext := h.succ hbody'
      have hle := h.le (show i + 1 + 1 ≤ j by omega) (Nat.le_of_lt hjs)
      have hcount : body.count = 1 := by omega
      have hj2 : i + 1 + 1 = j := h.inj (by omega) (Nat.le_of_lt hjs) (by omega)
      have hdec := h.opcode hbody' hpos
      rw [Nat.add_zero, hui, hbody] at hdec
      refine ⟨by rw [← hj2], ?_⟩
      obtain ⟨o, c⟩ := body
      obtain rfl : c = 1 := hcount
      rw [hbody']
      exact hdec.symm
    · have huj : j = i + 2 := Option.some.inj hpartner
      have hnext := h.succ hbody
      have hdec := h.opcode hbody (Nat.succ_pos 0)
      rw [Nat.add_zero, hui] at hdec
      refine ⟨?_, hdec⟩
      rw [huj, show i + 2 = i + 1 + 1 from rfl, hnext, hui]
      rfl
  have hnone : ∀ r : Program, r.FitsMarks none := fun _ => trivial
  have hsome : (p.isReset? none i).isSome := hp.resets?_isSome hop (hnone p) {}
  have hsome' : (q.isReset? none (u i)).isSome :=
    hq.resets?_isSome (h.opcode_one hop hrep) (hnone q) {}
  obtain ⟨b, hb⟩ := Option.isSome_iff_exists.1 hsome
  obtain ⟨b', hb'⟩ := Option.isSome_iff_exists.1 hsome'
  rw [hb, hb'] at hiff ⊢
  simp only [Option.some.injEq] at hiff ⊢
  exact Bool.eq_iff_iff.2 hiff

/-- Behind a loop that is done in one step the indices correspond again. -/
theorem Program.Unpacks.reset_succ (h : p.Unpacks q u) (hp : p.Coherent) {i : Nat}
    (hreset : p.isReset? none i = some true) : u (i + 3) = u i + 3 := by
  obtain ⟨-, hbody, -, x, y, hx, hy, hxy⟩ := hp.of_isReset? hreset
  obtain ⟨hxrep, hyrep⟩ := Operator.isRepeatable_of_closer? hxy
  have h1 := h.succ_one hx hxrep
  have h2 := h.succ hbody
  have h3 := h.succ_one hy hyrep
  rw [h3, show i + 2 = i + 1 + 1 from rfl, h2, h1]
  rfl

/-! ## §4. Operators that are not counted. -/

/-- **The streams correspond** at every operator that is not counted. -/
theorem Program.Unpacks.relocation_at (h : p.Unpacks q u) (hp : p.Balanced) {reset : Option Bool}
    {i : Nat} {op : Opcode} (hop : p.opcodes[i]? = some op)
    (hrep : op.operator.isRepeatable = false)
    (hreset : op.operator = .loopOpen → reset = some true → u (i + 3) = u i + 3) :
    (Linkage.relocation u).At p q reset i op where
  next := h.succ_one hop hrep
  partner := by
    intro j hbracket hj
    have hi : i < p.size := (Array.getElem?_eq_some_iff.1 hop).1
    refine ⟨by rw [show (Linkage.relocation u).index i = u i from rfl, h.partner hi, hj]; rfl, ?_⟩
    refine h.partner_succ hp hop ?_ hj
    cases ho : op.operator with
    | loopOpen | bodyOpen => exact .inl rfl
    | loopClose | bodyClose => exact .inr rfl
    | _ =>
      rw [ho] at hbracket
      cases hbracket
  body := by
    intro j _ hj
    have hi : i < p.size := (Array.getElem?_eq_some_iff.1 hop).1
    have hjs : j ≤ p.size := by
      rcases hp.entry hj with rfl | hlt
      · exact Nat.zero_le _
      · exact Nat.le_of_lt hlt
    exact ⟨h.inj hi hjs, fun heq => by rw [heq]⟩
  reset := hreset

end TapeMachine
