/-
  TapeMachine.Proofs.Packing
  ──────────────────────────
  **A STREAM AND THE SAME STREAM WRITTEN OUT.**

  A packed stream counts operators that the plain stream has one by one.
  The opcode at index `k` of the one stands for the opcodes from index
  `place k` on of the other, as many as the ones before it stand for.
  Everything in a program that is an index changes accordingly:

    • `expand` writes a stream out; `Packs` says which tokens each opcode of
      a stream stands for, and `packs_pack` that packing keeps to it,
    • `Pass.Mirrors` runs the matching pass on both streams in lockstep, so
      partners of one are partners of the other,
    • `Program.unpacks_plain` collects what holds between a program and its
      plain form, whatever the granularity.
-/
import TapeMachine.Proofs.Balance

namespace TapeMachine

/-! ## §1. Writing a stream out. -/

namespace Opcode

/-- The stream with one opcode for each operator. -/
def expand (ops : List Opcode) : List Opcode :=
  ops.flatMap fun op => List.replicate op.count (.one op.operator)

/-- Where the opcode at index `k` begins in the stream written out. -/
def place (ops : List Opcode) (k : Nat) : Nat := (expand (ops.take k)).length

theorem expand_append (xs ys : List Opcode) : expand (xs ++ ys) = expand xs ++ expand ys :=
  List.flatMap_append

theorem length_expand_cons (op : Opcode) (ops : List Opcode) :
    (expand (op :: ops)).length = op.count + (expand ops).length := by
  rw [expand, List.flatMap_cons, List.length_append, List.length_replicate]
  rfl

@[simp] theorem place_zero (ops : List Opcode) : place ops 0 = 0 := rfl

theorem place_succ {ops : List Opcode} {k : Nat} {op : Opcode} (h : ops[k]? = some op) :
    place ops (k + 1) = place ops k + op.count := by
  rw [place, List.take_add_one, h, expand_append, List.length_append, Option.toList_some,
    length_expand_cons]
  rfl

/-- Opcodes that come later begin later. -/
theorem place_lt {ops : List Opcode} (hcount : ∀ op ∈ ops, 0 < op.count) {a b : Nat} (h : a < b)
    (hb : b ≤ ops.length) : place ops a < place ops b := by
  induction b with
  | zero => omega
  | succ b ih =>
    obtain ⟨op, hop⟩ : ∃ op, ops[b]? = some op := ⟨_, List.getElem?_eq_getElem hb⟩
    have hpos := hcount op (List.mem_of_getElem? hop)
    have hplace := place_succ hop
    by_cases hab : a = b
    · subst hab
      omega
    · have hlt := ih (by omega) (by omega)
      omega

theorem place_le {ops : List Opcode} (hcount : ∀ op ∈ ops, 0 < op.count) {a b : Nat} (h : a ≤ b)
    (hb : b ≤ ops.length) : place ops a ≤ place ops b := by
  rcases Nat.lt_or_eq_of_le h with hlt | rfl
  · exact Nat.le_of_lt (place_lt hcount hlt hb)
  · exact Nat.le_refl _

theorem place_inj {ops : List Opcode} (hcount : ∀ op ∈ ops, 0 < op.count) {a b : Nat}
    (ha : a ≤ ops.length) (hb : b ≤ ops.length) (h : place ops a = place ops b) : a = b := by
  rcases Nat.lt_trichotomy a b with hlt | heq | hlt
  · have := place_lt hcount hlt hb
    omega
  · exact heq
  · have := place_lt hcount hlt ha
    omega

theorem place_length (ops : List Opcode) : place ops ops.length = (expand ops).length := by
  rw [place, List.take_length]

/-- Writing out what comes before an opcode, and what comes after. -/
theorem expand_take_drop (ops : List Opcode) (k : Nat) :
    (expand ops).take (place ops k) = expand (ops.take k)
      ∧ (expand ops).drop (place ops k) = expand (ops.drop k) := by
  have hsplit : expand ops = expand (ops.take k) ++ expand (ops.drop k) := by
    rw [← expand_append, List.take_append_drop]
  rw [hsplit]
  exact ⟨List.take_left, List.drop_left⟩

/-- The operators that an opcode stands for. -/
theorem getElem?_expand {ops : List Opcode} {k j : Nat} {op : Opcode} (h : ops[k]? = some op)
    (hj : j < op.count) : (expand ops)[place ops k + j]? = some (.one op.operator) := by
  obtain ⟨hk, rfl⟩ := List.getElem?_eq_some_iff.1 h
  rw [← List.getElem?_drop, (expand_take_drop ops k).2, List.drop_eq_getElem_cons hk]
  show (List.replicate _ _ ++ _)[j]? = _
  rw [List.getElem?_append_left (by simpa using hj)]
  simp [hj]

/-- Writing out a part of a stream. -/
theorem expand_slice (ops : List Opcode) {a b : Nat} (h : a ≤ b) :
    ((expand ops).drop (place ops a)).take (place ops b - place ops a)
      = expand ((ops.drop a).take (b - a)) := by
  have hplace : place ops b - place ops a = place (ops.drop a) (b - a) := by
    have hsplit : ops.take b = ops.take a ++ (ops.drop a).take (b - a) := by
      rw [← List.take_add, Nat.add_sub_cancel' h]
    simp only [place, hsplit, expand_append, List.length_append]
    omega
  rw [(expand_take_drop ops a).2, hplace, (expand_take_drop (ops.drop a) (b - a)).1]

/-- **The text of a stream is that of the stream written out.** -/
theorem sourceText_expand (ops : List Opcode) : sourceText (expand ops) = sourceText ops := by
  have hop : ∀ op : Opcode,
      (List.replicate op.count (Opcode.one op.operator)).flatMap symbols = op.symbols := by
    intro op
    show _ = List.replicate op.count op.operator.symbol
    generalize op.count = n
    induction n with
    | zero => rfl
    | succ n ih =>
      rw [List.replicate_succ, List.flatMap_cons, ih, List.replicate_succ]
      rfl
  unfold sourceText expand
  rw [List.flatMap_assoc]
  simp only [hop]

end Opcode

/-! ## §2. Which tokens an opcode stands for. -/

/-- The opcodes stand for the tokens, in order: each for a token and for as
many equal ones after it as it counts, and for one only if the operator is
not repeatable. -/
inductive Packs : List Instruction → List Token → Prop
  | nil : Packs [] []
  | cons {t : Token} {more rest : List Token} {xs : List Instruction}
      (same : ∀ t' ∈ more, t'.operator = t.operator)
      (repeatable : more ≠ [] → t.operator.isRepeatable)
      (tail : Packs xs rest) :
      Packs (⟨⟨t.operator, more.length + 1⟩, t.offset⟩ :: xs) (t :: (more ++ rest))

namespace Packs

theorem single (t : Token) : Packs [⟨.one t.operator, t.offset⟩] [t] := by
  have h : Packs [⟨⟨t.operator, [].length + 1⟩, t.offset⟩] (t :: ([] ++ [])) :=
    .cons (fun _ h => absurd h List.not_mem_nil) (fun h => absurd rfl h) .nil
  exact h

theorem append {xs ys : List Instruction} {ts us : List Token} (h : Packs xs ts)
    (h' : Packs ys us) : Packs (xs ++ ys) (ts ++ us) := by
  induction h with
  | nil => exact h'
  | cons same repeatable _ ih =>
    rw [List.cons_append, List.cons_append, List.append_assoc]
    exact .cons same repeatable ih

/-- The last opcode may count one more. -/
theorem absorb {x : Instruction} {t : Token} (habs : x.opcode.absorbs t.operator)
    {xs : List Instruction} : ∀ {ts : List Token}, Packs (xs ++ [x]) ts →
      Packs (xs ++ [{ x with opcode := ⟨t.operator, x.opcode.count + 1⟩ }]) (ts ++ [t]) := by
  simp only [Opcode.absorbs, Bool.and_eq_true, beq_iff_eq] at habs
  obtain ⟨⟨hop, hrep⟩, -⟩ := habs
  induction xs with
  | nil =>
    intro ts h
    cases h with
    | @cons t₀ more rest _ same _ tail =>
      cases tail
      have hsame : ∀ t' ∈ more ++ [t], t'.operator = t₀.operator := by
        intro t' ht'
        rcases List.mem_append.1 ht' with ht' | ht'
        · exact same t' ht'
        · rw [List.mem_singleton.1 ht', ← hop]
      have h : Packs [⟨⟨t₀.operator, (more ++ [t]).length + 1⟩, t₀.offset⟩]
          (t₀ :: ((more ++ [t]) ++ [])) :=
        .cons hsame (fun _ => by rw [← hop] at hrep; exact hrep) .nil
      rw [← hop]
      simpa using h
  | cons y ys ih =>
    intro ts h
    cases h with
    | cons same repeatable tail =>
      rw [List.cons_append, List.cons_append, List.append_assoc]
      exact .cons same repeatable (ih tail)

theorem push {g : Granularity} {stream : List Instruction} {ts : List Token}
    (h : Packs stream.reverse ts) (t : Token) :
    Packs (Instruction.push g stream t).reverse (ts ++ [t]) := by
  have hnew : Packs (⟨.one t.operator, t.offset⟩ :: stream : List Instruction).reverse
      (ts ++ [t]) := by
    rw [List.reverse_cons]
    exact h.append (single t)
  unfold Instruction.push
  split
  · split
    · next habs =>
      rw [List.reverse_cons] at h ⊢
      exact h.absorb habs
    · exact hnew
  · exact hnew

end Packs

/-- **Packing a list of tokens gives opcodes that stand for them.** -/
theorem Instruction.packs_pack (g : Granularity) (ts : List Token) : Packs (pack g ts) ts := by
  have h : ∀ (ts before : List Token) (stream : List Instruction), Packs stream.reverse before →
      Packs (ts.foldl (Instruction.push g) stream).reverse (before ++ ts) := by
    intro ts
    induction ts with
    | nil =>
      intro before stream hstream
      rw [List.append_nil]
      exact hstream
    | cons t ts ih =>
      intro before stream hstream
      rw [List.append_cons]
      exact ih _ _ (hstream.push t)
  exact h ts [] [] .nil

namespace Packs

variable {xs : List Instruction} {ts : List Token}

theorem expand_eq (h : Packs xs ts) :
    Opcode.expand (xs.map (·.opcode)) = ts.map fun t => .one t.operator := by
  induction h with
  | nil => rfl
  | @cons t more rest xs same _ _ ih =>
    have hmore : more.map (fun t => Opcode.one t.operator)
        = List.replicate more.length (.one t.operator) := by
      rw [List.eq_replicate_iff]
      refine ⟨List.length_map _, ?_⟩
      intro op hop
      obtain ⟨t', ht', rfl⟩ := List.mem_map.1 hop
      rw [same t' ht']
    show List.replicate (more.length + 1) (Opcode.one t.operator) ++ Opcode.expand _ = _
    rw [ih, List.map_cons, List.map_append, hmore, List.replicate_succ]
    rfl

/-- Every opcode counts something, and one that is not repeatable one. -/
theorem counted (h : Packs xs ts) : ∀ x ∈ xs, 0 < x.opcode.count
    ∧ (x.opcode.operator.isRepeatable = false → x.opcode.count = 1) := by
  induction h with
  | nil =>
    intro x hx
    cases hx
  | @cons t more rest xs _ repeatable _ ih =>
    intro x hx
    rcases List.mem_cons.1 hx with rfl | hx
    · refine ⟨Nat.succ_pos _, ?_⟩
      intro hrep
      cases more with
      | nil => rfl
      | cons t' more =>
        have htrue : t.operator.isRepeatable := repeatable (List.cons_ne_nil _ _)
        rw [show t.operator.isRepeatable = false from hrep] at htrue
        cases htrue
    · exact ih x hx

/-- An opcode has the offset of the first token it stands for. -/
theorem offset (h : Packs xs ts) : ∀ {k : Nat} {x : Instruction}, xs[k]? = some x →
    ∃ t, ts[Opcode.place (xs.map (·.opcode)) k]? = some t ∧ t.offset = x.offset := by
  induction h with
  | nil =>
    intro k x hx
    cases hx
  | @cons t more rest xs _ _ _ ih =>
    intro k x hx
    cases k with
    | zero =>
      cases hx
      exact ⟨t, rfl, rfl⟩
    | succ k =>
      obtain ⟨t', ht', hoffset⟩ := ih hx
      refine ⟨t', ?_, hoffset⟩
      rw [← ht']
      have hplace : ∀ (op : Opcode) (ops : List Opcode),
          Opcode.place (op :: ops) (k + 1) = op.count + Opcode.place ops k :=
        fun op ops => Opcode.length_expand_cons op (ops.take k)
      rw [List.map_cons, hplace]
      show ((t :: more) ++ rest)[(t :: more).length + Opcode.place _ k]? = _
      rw [List.getElem?_append_right (Nat.le_add_right _ _), Nat.add_sub_cancel_left]

end Packs

/-! ## §3. The matching pass in lockstep. -/

namespace Matching.Pass

variable {u : Nat → Nat} {size : Nat} {m m' : Pass}

/-- The pass `m'` is `m` with every index `k` replaced by `u k`. -/
structure Mirrors (u : Nat → Nat) (size : Nat) (m m' : Pass) : Prop where
  table_size : m.table.size = size
  table : ∀ k, k < size → m'.table[u k]? = m.table[k]?.map u
  loops : m'.loops = m.loops.map u
  region : m'.region = m.region.map fun r => ⟨u r.start, r.loops.map u⟩
  loops_lt : ∀ k ∈ m.loops, k < size
  region_lt : ∀ r ∈ m.region, r.start < size ∧ ∀ k ∈ r.loops, k < size

/-- Linking two indices, and the two indices they are replaced by. -/
theorem Mirrors.table_link (h : Mirrors u size m m')
    (hinj : ∀ a b, a < size → b < size → u a = u b → a = b) {i j : Nat} (hi : i < size)
    (hj : j < size) :
    ∀ k, k < size → (m'.link (u j) (u i)).table[u k]? = (m.link j i).table[k]?.map u := by
  intro k hk
  have hin : ∀ a, a < size → u a < m'.table.size := by
    intro a ha
    have hlt : a < m.table.size := h.table_size.symm ▸ ha
    have hsome := h.table a ha
    rw [Array.getElem?_eq_getElem hlt, Option.map_some] at hsome
    exact (Array.getElem?_eq_some_iff.1 hsome).1
  have heq : ∀ a, a < size → (u a = u k ↔ a = k) :=
    fun a ha => ⟨hinj a k ha hk, fun h => by rw [h]⟩
  simp only [link, Array.getElem?_setIfInBounds, Array.size_setIfInBounds, h.table_size, hin i hi,
    hin j hj, hi, hj, if_true, heq i hi, heq j hj, h.table k hk]
  split
  · rfl
  · split <;> rfl

/-- **One operator**, read at an index and at the one it is replaced by. -/
theorem Mirrors.step (h : Mirrors u size m m')
    (hinj : ∀ a b, a < size → b < size → u a = u b → a = b) {i : Nat} (hi : i < size)
    (o : Operator) : Mirrors u size (m.step o i) (m'.step o (u i)) := by
  -- every case but one closes a bracket at `j` or leaves the table alone
  have hlink : ∀ {j : Nat}, j < size → (m.link j i).table.size = size ∧
      ∀ k, k < size → (m'.link (u j) (u i)).table[u k]? = (m.link j i).table[k]?.map u := by
    intro j hj
    refine ⟨?_, h.table_link hinj hi hj⟩
    simp only [link, Array.size_setIfInBounds, h.table_size]
  obtain ⟨hsize, htable, hloops, hregion, hloops_lt, hregion_lt⟩ := h
  cases o with
  | right | left | inc | dec | put | get | call =>
    rw [step_simple _ rfl, step_simple _ rfl]
    exact ⟨hsize, htable, hloops, hregion, hloops_lt, hregion_lt⟩
  | loopOpen =>
    cases hr : m.region with
    | none =>
      have hr' : m'.region = none := by rw [hregion, hr]; rfl
      simp only [Pass.step, hr, hr']
      refine ⟨hsize, htable, ?_, rfl, ?_, ?_⟩
      · rw [hloops, List.map_cons]
      · exact List.forall_mem_cons.2 ⟨hi, hloops_lt⟩
      · intro r hr
        cases hr
    | some r =>
      have hr' : m'.region = some ⟨u r.start, r.loops.map u⟩ := by rw [hregion, hr]; rfl
      obtain ⟨hstart, hinner⟩ := hregion_lt r hr
      simp only [Pass.step, hr, hr']
      refine ⟨hsize, htable, hloops, rfl, hloops_lt, ?_⟩
      rintro r' ⟨⟩
      exact ⟨hstart, List.forall_mem_cons.2 ⟨hi, hinner⟩⟩
  | loopClose =>
    cases hr : m.region with
    | none =>
      have hr' : m'.region = none := by rw [hregion, hr]; rfl
      simp only [Pass.step, hr, hr']
      cases hl : m.loops with
      | nil =>
        have hl' : m'.loops = [] := by rw [hloops, hl]; rfl
        rw [hl']
        exact ⟨hsize, htable, hloops, hregion, hloops_lt, hregion_lt⟩
      | cons j outer =>
        have hl' : m'.loops = u j :: outer.map u := by rw [hloops, hl]; rfl
        rw [hl] at hloops_lt
        obtain ⟨hj, houter⟩ := List.forall_mem_cons.1 hloops_lt
        rw [hl']
        exact ⟨(hlink hj).1, (hlink hj).2, rfl, hregion, houter, hregion_lt⟩
    | some r =>
      have hr' : m'.region = some ⟨u r.start, r.loops.map u⟩ := by rw [hregion, hr]; rfl
      obtain ⟨hstart, hinner⟩ := hregion_lt r hr
      simp only [Pass.step, hr, hr']
      cases hl : r.loops with
      | nil => exact ⟨hsize, htable, hloops, hregion, hloops_lt, hregion_lt⟩
      | cons j outer =>
        rw [hl] at hinner
        obtain ⟨hj, houter⟩ := List.forall_mem_cons.1 hinner
        refine ⟨(hlink hj).1, (hlink hj).2, hloops, rfl, hloops_lt, ?_⟩
        rintro r' ⟨⟩
        exact ⟨hstart, houter⟩
  | bodyOpen =>
    refine ⟨hsize, htable, hloops, rfl, hloops_lt, ?_⟩
    rintro r ⟨⟩
    exact ⟨hi, fun k hk => absurd hk List.not_mem_nil⟩
  | bodyClose =>
    cases hr : m.region with
    | none =>
      have hr' : m'.region = none := by rw [hregion, hr]; rfl
      simp only [Pass.step, hr, hr']
      exact ⟨hsize, htable, hloops, hregion, hloops_lt, hregion_lt⟩
    | some r =>
      have hr' : m'.region = some ⟨u r.start, r.loops.map u⟩ := by rw [hregion, hr]; rfl
      obtain ⟨hstart, -⟩ := hregion_lt r hr
      simp only [Pass.step, hr, hr']
      refine ⟨(hlink hstart).1, (hlink hstart).2, hloops, rfl, hloops_lt, ?_⟩
      intro r' hr'
      cases hr'

/-- Simple operators, as many as there are, do nothing to the pass. -/
theorem run_replicate_simple (m : Pass) {o : Operator} (h : o.isSimple) (n : Nat) :
    ∀ i, m.run i (List.replicate n (.one o)) = m := by
  induction n with
  | zero =>
    intro i
    rfl
  | succ n ih =>
    intro i
    rw [List.replicate_succ, run, show (Opcode.one o).operator = o from rfl, step_simple m h, ih]

/-- **The pass over a stream and over the stream written out.** -/
theorem Mirrors.run {ops : List Opcode} (hcount : ∀ op ∈ ops,
      op.operator.isRepeatable = false → op.count = 1)
    (hinj : ∀ a b, a < ops.length → b < ops.length →
      Opcode.place ops a = Opcode.place ops b → a = b) :
    ∀ (rest : List Opcode) (i : Nat) (m m' : Pass), ops.drop i = rest →
      Mirrors (Opcode.place ops) ops.length m m' →
      Mirrors (Opcode.place ops) ops.length (m.run i rest)
        (m'.run (Opcode.place ops i) (Opcode.expand rest)) := by
  intro rest
  induction rest with
  | nil =>
    intro i m m' _ h
    exact h
  | cons op rest ih =>
    intro i m m' hdrop h
    obtain ⟨hop, hrest⟩ := getElem?_of_drop hdrop
    have hi : i < ops.length := (List.getElem?_eq_some_iff.1 hop).1
    have hmem : op ∈ ops := List.mem_of_getElem? hop
    have hplace := Opcode.place_succ hop
    have hrun : m'.run (Opcode.place ops i) (Opcode.expand (op :: rest))
        = (m'.step op.operator (Opcode.place ops i)).run (Opcode.place ops (i + 1))
            (Opcode.expand rest) := by
      show m'.run _ (List.replicate op.count (.one op.operator) ++ Opcode.expand rest) = _
      rw [run_append, List.length_replicate, ← hplace]
      by_cases hrep : op.operator.isRepeatable
      · -- a counted operator is simple, and the pass does not look at it
        have hsimple : op.operator.isSimple := by
          revert hrep
          cases op.operator <;> decide
        rw [run_replicate_simple m' hsimple, step_simple m' hsimple]
      · rw [hcount op hmem (by simpa using hrep)]
        rfl
    rw [hrun, Pass.run]
    exact ih (i + 1) _ _ hrest (h.step hinj hi op.operator)

theorem mirrors_start {ops : List Opcode} (hcount : ∀ op ∈ ops, 0 < op.count) :
    Mirrors (Opcode.place ops) ops.length (start ops.length)
      (start (Opcode.expand ops).length) where
  table_size := Array.size_replicate
  table := by
    intro k hk
    have hlt := Opcode.place_lt hcount hk (Nat.le_refl _)
    rw [Opcode.place_length] at hlt
    simp only [start, Array.getElem?_replicate, hk, hlt, if_true, Option.map_some,
      Opcode.place_zero]
  loops := rfl
  region := rfl
  loops_lt := by
    intro k hk
    cases hk
  region_lt := by
    intro r hr
    cases hr

end Matching.Pass

/-- **Partners in a stream and in the stream written out.** -/
theorem Matching.getElem?_table_expand {ops : List Opcode} (hpos : ∀ op ∈ ops, 0 < op.count)
    (hone : ∀ op ∈ ops, op.operator.isRepeatable = false → op.count = 1) {k : Nat}
    (hk : k < ops.length) :
    (ofOpcodes (Opcode.expand ops)).table[Opcode.place ops k]?
      = (ofOpcodes ops).table[k]?.map (Opcode.place ops) := by
  have hinj : ∀ a b, a < ops.length → b < ops.length →
      Opcode.place ops a = Opcode.place ops b → a = b :=
    fun a b ha hb => Opcode.place_inj hpos (Nat.le_of_lt ha) (Nat.le_of_lt hb)
  exact (Pass.Mirrors.run hone hinj ops 0 _ _ rfl (Pass.mirrors_start hpos)).table k hk

/-! ## §4. A program and its plain form. -/

/-- `q` is `p` with one opcode for each operator; what is at index `k` in
`p` begins at index `u k` in `q`. -/
structure Program.Unpacks (p q : Program) (u : Nat → Nat) : Prop where
  zero : u 0 = 0
  succ : ∀ {k : Nat} {op : Opcode}, p.opcodes[k]? = some op → u (k + 1) = u k + op.count
  lt : ∀ {a b : Nat}, a < b → b ≤ p.size → u a < u b
  size : q.size = u p.size
  count_pos : ∀ {k : Nat} {op : Opcode}, p.opcodes[k]? = some op → 0 < op.count
  count_one : ∀ {k : Nat} {op : Opcode}, p.opcodes[k]? = some op →
    op.operator.isRepeatable = false → op.count = 1
  opcode : ∀ {k j : Nat} {op : Opcode}, p.opcodes[k]? = some op → j < op.count →
    q.opcodes[u k + j]? = some (.one op.operator)
  offset : ∀ {k : Nat}, k < p.size → q.offsets[u k]? = p.offsets[k]?
  partner : ∀ {k : Nat}, k < p.size → q.partners[u k]? = p.partners[k]?.map u
  text : ∀ {a b : Nat}, a ≤ b → b ≤ p.size → q.sourceOf? (u a) (u b) = p.sourceOf? a b

namespace Program

theorem sourceOf?_eq {p : Program} {start stop : Nat} (h : start ≤ stop) (hstop : stop ≤ p.size) :
    p.sourceOf? start stop
      = some (Opcode.sourceText ((p.opcodes.toList.drop start).take (stop - start))) := by
  rw [sourceOf?, if_pos ⟨h, hstop⟩, Array.toList_extract, List.extract_eq_take_drop]

/-- **Compiled plain, a list of tokens gives the plain form of its program.** -/
theorem unpacks_plain (g : Granularity) (n : Nat) (ts : List Token) :
    (ofTokens g n ts).Unpacks (ofTokens .plain n ts)
      (Opcode.place ((Instruction.pack g ts).map (·.opcode))) := by
  have hpacks := Instruction.packs_pack g ts
  have hexpand : (Instruction.pack .plain ts).map (·.opcode)
      = Opcode.expand ((Instruction.pack g ts).map (·.opcode)) := by
    rw [hpacks.expand_eq, Instruction.pack_plain]
    simp
  have hcount : ∀ op ∈ (Instruction.pack g ts).map (·.opcode), 0 < op.count
      ∧ (op.operator.isRepeatable = false → op.count = 1) := by
    intro op hop
    obtain ⟨x, hx, rfl⟩ := List.mem_map.1 hop
    exact hpacks.counted x hx
  have hpos : ∀ op ∈ (Instruction.pack g ts).map (·.opcode), 0 < op.count :=
    fun op hop => (hcount op hop).1
  have hlist : ∀ {k : Nat} {op : Opcode}, (ofTokens g n ts).opcodes[k]? = some op →
      ((Instruction.pack g ts).map (·.opcode))[k]? = some op := by
    intro k op hop
    simpa [ofTokens] using hop
  have hsize : (ofTokens g n ts).size = ((Instruction.pack g ts).map (·.opcode)).length := by
    simp [ofTokens, Program.size]
  exact {
    zero := rfl
    succ := fun hop => Opcode.place_succ (hlist hop)
    lt := fun hab hb => Opcode.place_lt hpos hab (hsize ▸ hb)
    size := by
      rw [hsize, Opcode.place_length, ← hexpand]
      simp [ofTokens, Program.size]
    count_pos := fun hop => hpos _ (List.mem_of_getElem? (hlist hop))
    count_one := fun hop => (hcount _ (List.mem_of_getElem? (hlist hop))).2
    opcode := by
      intro k j op hop hj
      have hget := Opcode.getElem?_expand (hlist hop) hj
      rw [← hexpand] at hget
      simpa [ofTokens] using hget
    offset := by
      intro k hk
      obtain ⟨x, hx⟩ : ∃ x, (Instruction.pack g ts)[k]? = some x :=
        ⟨_, List.getElem?_eq_getElem (by rwa [hsize, List.length_map] at hk)⟩
      obtain ⟨t, ht, hoffset⟩ := hpacks.offset hx
      simp [ofTokens, Instruction.pack_plain, hx, ht, hoffset]
    partner := by
      intro k hk
      have hget := Matching.getElem?_table_expand hpos (fun op hop => (hcount op hop).2)
        (hsize ▸ hk)
      rw [← hexpand] at hget
      exact hget
    text := by
      intro a b hab hb
      have hplain : (ofTokens .plain n ts).opcodes.toList
          = Opcode.expand ((Instruction.pack g ts).map (·.opcode)) := hexpand
      have hb' : b ≤ ((Instruction.pack g ts).map (·.opcode)).length := hsize ▸ hb
      have hstop : Opcode.place ((Instruction.pack g ts).map (·.opcode)) b
          ≤ (ofTokens .plain n ts).size := by
        show _ ≤ (ofTokens .plain n ts).opcodes.toList.length
        rw [hplain, ← Opcode.place_length]
        exact Opcode.place_le hpos hb' (Nat.le_refl _)
      rw [sourceOf?_eq hab hb, sourceOf?_eq (Opcode.place_le hpos hab hb') hstop, hplain,
        Opcode.expand_slice _ hab, Opcode.sourceText_expand]
      rfl }

namespace Unpacks

variable {p q : Program} {u : Nat → Nat}

theorem le (h : p.Unpacks q u) {a b : Nat} (hab : a ≤ b) (hb : b ≤ p.size) : u a ≤ u b := by
  rcases Nat.lt_or_eq_of_le hab with hlt | rfl
  · exact Nat.le_of_lt (h.lt hlt hb)
  · exact Nat.le_refl _

theorem lt_iff (h : p.Unpacks q u) {a b : Nat} (ha : a ≤ p.size) (hb : b ≤ p.size) :
    u a < u b ↔ a < b := by
  refine ⟨fun hlt => ?_, fun hlt => h.lt hlt hb⟩
  rcases Nat.lt_or_ge a b with hab | hab
  · exact hab
  · have := h.le hab ha
    omega

theorem inj (h : p.Unpacks q u) {a b : Nat} (ha : a ≤ p.size) (hb : b ≤ p.size)
    (hab : u a = u b) : a = b := by
  rcases Nat.lt_trichotomy a b with hlt | heq | hlt
  · have := h.lt hlt hb
    omega
  · exact heq
  · have := h.lt hlt ha
    omega

/-- An operator that is not counted is at one index in both. -/
theorem succ_one (h : p.Unpacks q u) {k : Nat} {op : Opcode} (hop : p.opcodes[k]? = some op)
    (hrep : op.operator.isRepeatable = false) : u (k + 1) = u k + 1 := by
  rw [h.succ hop, h.count_one hop hrep]

theorem opcode_one (h : p.Unpacks q u) {k : Nat} {op : Opcode} (hop : p.opcodes[k]? = some op)
    (hrep : op.operator.isRepeatable = false) : q.opcodes[u k]? = some op := by
  have hone := h.count_one hop hrep
  have hget := h.opcode hop (h.count_pos hop)
  rw [Nat.add_zero] at hget
  rw [hget]
  obtain ⟨o, c⟩ := op
  obtain rfl : c = 1 := hone
  rfl

/-- Partners in the plain form are partners. -/
theorem pair (h : p.Unpacks q u) (hp : p.Coherent) {i j : Nat} (hi : i < p.size)
    (hj : j < p.size) (hpair : q.Pair (u i) (u j)) : p.Pair i j := by
  obtain ⟨hlt, hij, hji⟩ := hpair
  have hback : ∀ {a b : Nat}, a < p.size → b < p.size → q.partners[u a]? = some (u b) →
      p.partners[a]? = some b := by
    intro a b ha hb hab
    rw [h.partner ha] at hab
    obtain ⟨b', hb', heq⟩ := Option.map_eq_some_iff.1 hab
    have hlt' : b' ≤ p.size := by
      rcases hp.entry hb' with h0 | hlt
      · omega
      · exact Nat.le_of_lt hlt
    rw [hb', h.inj hlt' (Nat.le_of_lt hb) heq]
  exact ⟨(h.lt_iff (Nat.le_of_lt hi) (Nat.le_of_lt hj)).1 hlt, hback hi hj hij, hback hj hi hji⟩

/-- **A program is balanced if its plain form is.** -/
theorem balanced (h : p.Unpacks q u) (hp : p.Coherent) (hoffsets : p.offsets.size = p.size)
    (hq : q.Balanced) : p.Balanced := by
  -- the partner of an index in the plain form, as an index of the program
  have hpartner : ∀ {k : Nat} {op : Opcode}, p.opcodes[k]? = some op → ∀ {j : Nat},
      q.partners[u k]? = some j → ∃ i, i < p.size ∧ u i = j := by
    intro k op hop j hj
    have hk : k < p.size := (Array.getElem?_eq_some_iff.1 hop).1
    rw [h.partner hk] at hj
    obtain ⟨i, hi, rfl⟩ := Option.map_eq_some_iff.1 hj
    refine ⟨i, ?_, rfl⟩
    rcases hp.entry hi with h0 | hlt
    · omega
    · exact hlt
  have hget : ∀ {k : Nat} {op : Opcode}, p.opcodes[k]? = some op →
      q.opcodes[u k]? = some (.one op.operator) := fun hop => h.opcode hop (h.count_pos hop)
  exact {
    toCoherent := hp
    opened := by
      intro k op hop ho
      obtain ⟨j, hpair⟩ := hq.opened (hget hop) ho
      obtain ⟨i, hi, rfl⟩ := hpartner hop hpair.2.1
      exact ⟨i, h.pair hp (Array.getElem?_eq_some_iff.1 hop).1 hi hpair⟩
    closed := by
      intro k op hop ho
      obtain ⟨j, hpair⟩ := hq.closed (hget hop) ho
      obtain ⟨i, hi, rfl⟩ := hpartner hop hpair.2.2
      exact ⟨i, h.pair hp hi (Array.getElem?_eq_some_iff.1 hop).1 hpair⟩
    offsets_size := hoffsets }

end Unpacks

/-- **A tree compiled in either granularity is balanced.** -/
theorem balanced_ofTokens {b : Block} (hb : b.IsItems) {ts : List Token}
    (h : b.operators = ts.map (·.operator)) (g : Granularity) (n : Nat) :
    (ofTokens g n ts).Balanced :=
  (unpacks_plain g n ts).balanced (coherent_ofTokens g n ts) (offsets_size_ofTokens g n ts)
    (balanced_plain hb h n)

end Program

end TapeMachine
