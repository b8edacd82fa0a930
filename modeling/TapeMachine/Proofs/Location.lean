/-
  TapeMachine.Proofs.Location
  ───────────────────────────
  **THE REPORTED LOCATION OF A FAULT.**

  A report on a machine that failed gives the operator, its offset in the
  script and a stack trace: for each frame the text it has traversed, cut
  behind every loop that is still open.  The parts are taken from the
  program, so an opcode that counts several operators is reported as a whole,
  whichever of them failed.

    • `Unpacks.openers`, `Unpacks.cutPoints` — the same loops are open in the
      program and in its plain form, so the text is cut at the same places;
    • `Unpacks.parts?_made`, `Unpacks.stackTrace?` — the two traces are the
      same but for the operators of the last opcode that the plain form has
      not reached;
    • `Halting.Coarsens` — how the location by opcode differs from the location
      by operator, and `Halting.Coarsens.eq_iff`, when it does not;
    • `faults_are_located_by_opcode` — a run and a session that fail on one
      script are related that way.
-/
import Mathlib.Data.List.Sort
import TapeMachine.Proofs.Breakpoints
import TapeMachine.Proofs.Granularity
import TapeMachine.Proofs.Nesting

namespace TapeMachine

/-! ## §1. The text of a stretch of code. -/

namespace Program

variable {p : Program}

/-- The opcodes of a stretch of code. -/
def slice (p : Program) (s : Span) : List Opcode :=
  (p.opcodes.toList.drop s.start).take (s.stop - s.start)

theorem slice_append {a b c : Nat} (hab : a ≤ b) (hbc : b ≤ c) :
    p.slice ⟨a, b⟩ ++ p.slice ⟨b, c⟩ = p.slice ⟨a, c⟩ := by
  unfold slice
  show _ = (p.opcodes.toList.drop a).take (c - a)
  rw [show c - a = (b - a) + (c - b) by omega, List.take_add, List.drop_drop,
    show a + (b - a) = b by omega]

theorem sourceOf?_append {a b c : Nat} (hab : a ≤ b) (hbc : b ≤ c) (hc : c ≤ p.size) :
    p.sourceOf? a c = (p.sourceOf? a b).bind fun x => (p.sourceOf? b c).map (x ++ ·) := by
  rw [sourceOf?_eq (by omega) hc, sourceOf?_eq hab (by omega), sourceOf?_eq hbc hc]
  show some (Opcode.sourceText (p.slice ⟨a, c⟩))
    = some (Opcode.sourceText (p.slice ⟨a, b⟩) ++ Opcode.sourceText (p.slice ⟨b, c⟩))
  rw [← slice_append hab hbc]
  simp [Opcode.sourceText, String.ofList_append]

/-- The text of one operator many times. -/
theorem sourceOf?_units {o : Operator} {a n : Nat} (hn : a + n ≤ p.size)
    (h : ∀ j, j < n → p.opcodes[a + j]? = some (.one o)) :
    p.sourceOf? a (a + n) = some (String.ofList (List.replicate n o.symbol)) := by
  have hlist : (p.opcodes.toList.drop a).take n = List.replicate n (.one o) := by
    refine List.ext_getElem? fun j => ?_
    rw [List.getElem?_take, List.getElem?_replicate, List.getElem?_drop]
    split
    · next hj => simpa using h j hj
    · rfl
  rw [sourceOf?_eq (Nat.le_add_right a n) hn, Nat.add_sub_cancel_left, hlist]
  simpa [Opcode.expand, Opcode.sourceText, Opcode.symbols] using Opcode.sourceText_expand [⟨o, n⟩]

/-! ## §2. Where the text is cut. -/

/-- Where the parts of the text from `start` to `stop` begin: at the start
and behind every `[` that is still open at the end. -/
def heads (p : Program) (start stop : Nat) : List Nat :=
  start :: ((List.range' start (stop - start)).filter (p.isOpenLoop stop)).map (· + 1)

theorem cutPoints_eq (p : Program) (start stop : Nat) :
    p.cutPoints start stop = p.heads start stop ++ [stop] := rfl

/-- The texts between the cuts, innermost first. -/
def texts? (p : Program) (cuts : List Nat) : Option (List String) :=
  ((cuts.zip cuts.tail).reverse.filter fun w => w.1 < w.2).mapM fun w => p.sourceOf? w.1 w.2

theorem parts?_eq (p : Program) (start stop : Nat) :
    p.parts? start stop = p.texts? (p.cutPoints start stop) := rfl

theorem isOpenLoop_iff {stop i : Nat} : p.isOpenLoop stop i ↔ ∃ op partner,
    p.opcodes[i]? = some op ∧ op.operator = .loopOpen ∧ p.partners[i]? = some partner
      ∧ stop ≤ partner := by
  unfold isOpenLoop
  cases p.opcodes[i]? <;> cases p.partners[i]? <;> simp

theorem texts?_isSome {cuts : List Nat} (h : ∀ c ∈ cuts, c ≤ p.size) : (p.texts? cuts).isSome := by
  refine mapM_isSome fun w hw => ?_
  obtain ⟨hmem, hlt⟩ := List.mem_filter.1 hw
  have hsecond := (List.of_mem_zip (List.mem_reverse.1 hmem)).2
  exact p.sourceOf?_isSome (Nat.le_of_lt (of_decide_eq_true hlt))
    (h _ (List.mem_of_mem_tail hsecond))

/-- The pairs of neighbours of a list that goes on by one. -/
theorem zip_tail_concat (cuts : List Nat) (c stop : Nat) :
    (cuts ++ [c] ++ [stop]).zip (cuts ++ [c] ++ [stop]).tail
      = (cuts ++ [c]).zip (cuts ++ [c]).tail ++ [(c, stop)] := by
  induction cuts with
  | nil => rfl
  | cons x cuts ih =>
    cases cuts with
    | nil => rfl
    | cons y cuts =>
      show (x, y) :: (y :: cuts ++ [c] ++ [stop]).zip (y :: cuts ++ [c] ++ [stop]).tail = _
      rw [ih]
      rfl

/-- The last part comes first. -/
theorem texts?_concat {cuts : List Nat} {c stop : Nat} (h : c < stop) :
    p.texts? (cuts ++ [c] ++ [stop]) = (p.sourceOf? c stop).bind fun text =>
      (p.texts? (cuts ++ [c])).map (text :: ·) := by
  unfold texts?
  rw [zip_tail_concat, List.reverse_append, List.reverse_singleton, List.singleton_append,
    List.filter_cons_of_pos (by simpa using h), List.mapM_cons]
  simp only [Option.bind_eq_bind, Option.map_eq_bind]
  rfl

/-! ## §3. Cuts of the plain form. -/

section Unpacked

variable {q : Program} {u : Nat → Nat}

/-- An operator of the plain form before those of opcode `n` is one of an
opcode. -/
theorem Unpacks.cover_below (h : p.Unpacks q u) {j n : Nat} (hn : n ≤ p.size) (hj : j < u n) :
    ∃ k op i, p.opcodes[k]? = some op ∧ i < op.count ∧ j = u k + i := by
  induction n with
  | zero =>
    rw [h.zero] at hj
    omega
  | succ n ih =>
    by_cases hin : j < u n
    · exact ih (by omega) hin
    · -- it is one of the opcode at `n`
      have hop : p.opcodes[n]? = some p.opcodes[n] := Array.getElem?_eq_getElem hn
      rw [h.succ hop] at hj
      exact ⟨n, _, j - u n, hop, by omega, by omega⟩

/-- **Every operator of the plain form is one of an opcode.** -/
theorem Unpacks.cover (h : p.Unpacks q u) {j : Nat} (hj : j < q.size) :
    ∃ k op i, p.opcodes[k]? = some op ∧ i < op.count ∧ j = u k + i :=
  h.cover_below (Nat.le_refl _) (h.size ▸ hj)

/-- An operator of the plain form that is not counted is one of the program. -/
theorem Unpacks.cover_one (h : p.Unpacks q u) {j : Nat} {y : Opcode} (hy : q.opcodes[j]? = some y)
    (hrep : y.operator.isRepeatable = false) : ∃ k, p.opcodes[k]? = some y ∧ j = u k := by
  obtain ⟨k, op, i, hop, hi, rfl⟩ := h.cover (Array.getElem?_eq_some_iff.1 hy).1
  obtain rfl : Opcode.one op.operator = y := Option.some.inj ((h.opcode hop hi).symm.trans hy)
  have hcount := h.count_one hop hrep
  obtain rfl : i = 0 := by omega
  rw [Nat.add_zero, h.opcode_one hop hrep] at hy
  exact ⟨k, hop.trans hy, rfl⟩

/-- **The loops that are open at `e` are those that are open at `stop`**, if
`e` lies behind what comes before `stop` but not behind `stop` itself. -/
theorem Unpacks.openers (h : p.Unpacks q u) (hp : p.Coherent) {start stop e : Nat}
    (hstop : stop ≤ p.size) (hle : start ≤ stop) (hlow : ∀ i, i < stop → u i < e)
    (hhigh : e ≤ u stop) :
    (List.range' (u start) (e - u start)).filter (q.isOpenLoop e)
      = ((List.range' start (stop - start)).filter (p.isOpenLoop stop)).map u := by
  refine List.Pairwise.eq_of_mem_iff (r := (· < ·)) ?_ ?_ ?_
  · exact List.Pairwise.filter _ List.pairwise_lt_range'
  · rw [List.pairwise_map]
    refine List.Pairwise.imp_of_mem ?_ (List.Pairwise.filter _ List.pairwise_lt_range')
    intro a b _ hb hab
    have hb' := (List.mem_range'_1.1 (List.mem_filter.1 hb).1).2
    exact h.lt hab (by omega)
  · intro j
    simp only [List.mem_filter, List.mem_map, List.mem_range'_1, isOpenLoop_iff]
    constructor
    · rintro ⟨⟨hj, hj'⟩, y, partner, hy, ho, hpartner, hopen⟩
      obtain ⟨k, hop, rfl⟩ := h.cover_one hy (by rw [ho]; rfl)
      have hk : k < p.size := (Array.getElem?_eq_some_iff.1 hop).1
      rw [h.partner hk] at hpartner
      obtain ⟨partner', hpartner', rfl⟩ := Option.map_eq_some_iff.1 hpartner
      have hstart : start ≤ k := by
        refine Nat.le_of_not_lt fun hlt => ?_
        have := h.lt hlt (Nat.le_trans hle hstop)
        omega
      have hend : k < stop := (h.lt_iff (Nat.le_of_lt hk) hstop).1 (by omega)
      -- a partner before `stop` would be before `e`
      have hopen' : stop ≤ partner' := by
        refine Nat.le_of_not_lt fun hlt => ?_
        have := hlow partner' hlt
        omega
      exact ⟨k, ⟨⟨hstart, by omega⟩, y, partner', hop, ho, hpartner', hopen'⟩, rfl⟩
    · rintro ⟨k, ⟨⟨hk, hk'⟩, op, partner, hop, ho, hpartner, hopen⟩, rfl⟩
      have hksize : k < p.size := by omega
      have hsize : partner ≤ p.size := by
        rcases hp.entry hpartner with h0 | hlt
        · omega
        · exact Nat.le_of_lt hlt
      have hstart := h.le hk (Nat.le_of_lt hksize)
      have hend := hlow k (by omega)
      refine ⟨⟨hstart, by omega⟩, .one op.operator, u partner, h.opcode hop (h.count_pos hop), ho,
        ?_, Nat.le_trans hhigh (h.le hopen hsize)⟩
      rw [h.partner hksize, hpartner]
      rfl

/-- **So the text is cut at the same operators.** -/
theorem Unpacks.cutPoints (h : p.Unpacks q u) (hp : p.Coherent) {start stop e : Nat}
    (hstop : stop ≤ p.size) (hle : start ≤ stop) (hlow : ∀ i, i < stop → u i < e)
    (hhigh : e ≤ u stop) :
    q.cutPoints (u start) e = (p.heads start stop).map u ++ [e] := by
  rw [cutPoints_eq, heads, heads, h.openers hp hstop hle hlow hhigh, List.map_cons, List.map_map,
    List.map_map]
  congr 2
  refine List.map_congr_left fun i hi => ?_
  obtain ⟨op, -, hop, ho, -⟩ := isOpenLoop_iff.1 (List.mem_filter.1 hi).2
  exact (h.succ_one hop (by rw [ho]; rfl)).symm

/-- The texts between cuts that correspond are the same. -/
theorem Unpacks.texts? (h : p.Unpacks q u) {cuts : List Nat} (hcuts : ∀ c ∈ cuts, c ≤ p.size) :
    q.texts? (cuts.map u) = p.texts? cuts := by
  have hle : ∀ w ∈ (cuts.zip cuts.tail).reverse, w.1 ≤ p.size ∧ w.2 ≤ p.size := by
    intro w hw
    obtain ⟨hfirst, hsecond⟩ := List.of_mem_zip (List.mem_reverse.1 hw)
    exact ⟨hcuts _ hfirst, hcuts _ (List.mem_of_mem_tail hsecond)⟩
  have hfilter : (cuts.zip cuts.tail).reverse.filter ((fun w => decide (w.1 < w.2)) ∘ Prod.map u u)
      = (cuts.zip cuts.tail).reverse.filter fun w => w.1 < w.2 := by
    refine List.filter_congr fun w hw => ?_
    obtain ⟨hfirst, hsecond⟩ := hle w hw
    exact decide_eq_decide.2 (h.lt_iff hfirst hsecond)
  unfold Program.texts?
  rw [← List.map_tail, List.zip_map, ← List.map_reverse, List.filter_map, hfilter, List.mapM_map]
  refine mapM_congr fun w hw => ?_
  obtain ⟨hmem, hlt⟩ := List.mem_filter.1 hw
  exact h.text (Nat.le_of_lt (of_decide_eq_true hlt)) (hle w hmem).2

/-- **A frame that has come as far in both is traced alike.** -/
theorem Unpacks.parts? (h : p.Unpacks q u) (hp : p.Coherent) {start stop : Nat}
    (hstop : stop ≤ p.size) (hle : start ≤ stop) :
    q.parts? (u start) (u stop) = p.parts? start stop := by
  have hcuts : q.cutPoints (u start) (u stop) = (p.cutPoints start stop).map u := by
    rw [h.cutPoints hp hstop hle (fun i hi => h.lt hi hstop) (Nat.le_refl _), cutPoints_eq,
      List.map_append]
    rfl
  rw [parts?_eq, parts?_eq, hcuts]
  refine h.texts? fun c hc => ?_
  exact Nat.le_trans (p.cutPoints_le hle hc) hstop

/-- The last part begins behind no other operator than a `[`. -/
theorem exists_heads {start k : Nat} {op : Opcode} (hle : start ≤ k)
    (hop : p.opcodes[k]? = some op) (ho : op.operator ≠ .loopOpen) :
    ∃ cuts c, p.heads start (k + 1) = cuts ++ [c] ∧ ∀ c' ∈ cuts ++ [c], c' ≤ k := by
  have hall : ∀ c' ∈ p.heads start (k + 1), c' ≤ k := by
    refine List.forall_mem_cons.2 ⟨hle, fun c' hc' => ?_⟩
    obtain ⟨i, hi, rfl⟩ := List.mem_map.1 hc'
    obtain ⟨hrange, hopen⟩ := List.mem_filter.1 hi
    have hlt := (List.mem_range'_1.1 hrange).2
    have hne : i ≠ k := by
      rintro rfl
      obtain ⟨op', -, hop', ho', -⟩ := isOpenLoop_iff.1 hopen
      rw [hop] at hop'
      cases hop'
      exact ho ho'
    omega
  have hlast := List.dropLast_concat_getLast (List.cons_ne_nil _ _ : p.heads start (k + 1) ≠ [])
  exact ⟨_, _, hlast.symm, by rwa [hlast]⟩

/-- **A frame that stopped at an opcode**, of whose operators the plain form
has carried out `made`: the last part of its text is longer by those that it
has not reached. -/
theorem Unpacks.parts?_made (h : p.Unpacks q u) (hp : p.Coherent) {start k made : Nat}
    {op : Opcode} (hle : start ≤ k) (hop : p.opcodes[k]? = some op) (ho : op.operator ≠ .loopOpen)
    (hmade : made < op.count) :
    ∃ text rest, q.parts? (u start) (u k + made + 1) = some (text :: rest)
      ∧ p.parts? start (k + 1) = some ((text ++ String.ofList
        (List.replicate (op.count - (made + 1)) op.operator.symbol)) :: rest) := by
  have hk : k < p.size := (Array.getElem?_eq_some_iff.1 hop).1
  have hnext : u (k + 1) = u k + op.count := h.succ hop
  have hsize : u (k + 1) ≤ q.size := h.size ▸ h.le hk (Nat.le_refl _)
  obtain ⟨cuts, c, hheads, hcuts⟩ := exists_heads hle hop ho
  have hc : c ≤ k := hcuts c (by simp)
  have huc : u c ≤ u k := h.le hc (Nat.le_of_lt hk)
  -- the parts before the last one
  have hcuts' : ∀ c' ∈ cuts ++ [c], c' ≤ p.size := fun c' hc' =>
    Nat.le_trans (hcuts c' hc') (Nat.le_of_lt hk)
  obtain ⟨rest, hrest⟩ := Option.isSome_iff_exists.1 (texts?_isSome hcuts')
  have hrest' : q.texts? (cuts.map u ++ [u c]) = some rest := by
    rw [← hrest, ← h.texts? hcuts', List.map_append]
    rfl
  -- the last part, as far as the plain form has come
  obtain ⟨text, htext⟩ := Option.isSome_iff_exists.1
    (q.sourceOf?_isSome (show u c ≤ u k + made + 1 by omega) (by omega))
  refine ⟨text, rest, ?_, ?_⟩
  · have hpoints : q.cutPoints (u start) (u k + made + 1)
        = cuts.map u ++ [u c] ++ [u k + made + 1] := by
      rw [h.cutPoints hp (show k + 1 ≤ p.size from hk) (by omega) ?_ (by omega), hheads,
        List.map_append]
      · rfl
      · intro i hi
        have := h.le (Nat.le_of_lt_succ hi) (Nat.le_of_lt hk)
        omega
    rw [parts?_eq, hpoints, texts?_concat (by omega), htext, hrest']
    rfl
  · -- and the operators of the opcode that are left
    have hunits : q.sourceOf? (u k + made + 1) (u (k + 1)) = some (String.ofList
        (List.replicate (op.count - (made + 1)) op.operator.symbol)) := by
      rw [show u (k + 1) = u k + made + 1 + (op.count - (made + 1)) by omega]
      refine sourceOf?_units (by omega) fun j hj => ?_
      rw [show u k + made + 1 + j = u k + (made + 1 + j) by omega]
      exact h.opcode hop (by omega)
    have hall : p.sourceOf? c (k + 1) = some (text ++ String.ofList
        (List.replicate (op.count - (made + 1)) op.operator.symbol)) := by
      rw [← h.text (Nat.le_succ_of_le hc) hk,
        sourceOf?_append (show u c ≤ u k + made + 1 by omega) (by omega) hsize, htext, hunits]
      rfl
    rw [parts?_eq, cutPoints_eq, hheads, texts?_concat (by omega), hall, hrest]
    rfl

/-! ## §4. Stack traces. -/

theorem frameParts?_eq {body : Span} {resume : Nat} (hstart : body.start ≤ resume)
    (hstop : resume ≤ body.stop) (hsize : body.stop ≤ p.size) :
    p.frameParts? body resume = p.parts? body.start resume := by
  unfold frameParts?
  dsimp only
  rw [Nat.min_eq_left hstop, Nat.min_eq_left (Nat.le_trans hstop hsize), Nat.min_eq_left hstart]

/-- A caller is traced alike. -/
theorem Unpacks.frameParts? (h : p.Unpacks q u) (hp : p.Coherent) {f : Frame} (hf : f.Within p) :
    q.frameParts? (f.relocate u).body (f.relocate u).offset = p.frameParts? f.body f.offset := by
  have hsize := hf.stop_le hp
  have hoffset := Nat.le_trans hf.le_stop hsize
  rw [frameParts?_eq hf.start_le hf.le_stop hsize, ← h.parts? hp hoffset hf.start_le]
  exact frameParts?_eq (h.le hf.start_le hoffset) (h.le hf.le_stop hsize)
    (h.size ▸ h.le hsize (Nat.le_refl _))

/-- **Of two stacks that stand alike**, the trace of the packed one goes on to
the last operator of the opcode, that of the plain one ends with the operator
that failed; in all else they are the same. -/
theorem Unpacks.stackTrace? (h : p.Unpacks q u) (hp : p.Coherent) {s s' : CallStack}
    {f f' : Frame} {callers : List Frame} {op : Opcode} {made : Nat}
    (hf : s.frames = f :: callers) (hf' : s'.frames = f' :: callers.map (·.relocate u))
    (hstands : f.StandsLike p u f' op made) (hwithin : ∀ g ∈ s.frames, g.Within p) :
    ∃ text rest, q.stackTrace? s' = some (text :: rest)
      ∧ p.stackTrace? s = some ((text ++ String.ofList
        (List.replicate (op.count - (made + 1)) op.operator.symbol)) :: rest) := by
  rw [hf] at hwithin
  obtain ⟨hframe, hcallers⟩ := List.forall_mem_cons.1 hwithin
  have hk : f.offset < p.size := (Array.getElem?_eq_some_iff.1 hstands.opcode).1
  have hsize := hframe.stop_le hp
  -- the running frame
  obtain ⟨text, inner, hinner', hinner⟩ := h.parts?_made hp hframe.start_le hstands.opcode
    hstands.not_open hstands.made_lt
  rw [← frameParts?_eq (Nat.le_succ_of_le hframe.start_le) hstands.lt_stop hsize] at hinner
  have hrun : q.frameParts? f'.body (f'.offset + 1) = some (text :: inner) := by
    have hnext := h.succ hstands.opcode
    have hmade := hstands.made_lt
    have hstart := h.le hframe.start_le (Nat.le_of_lt hk)
    have hstop := h.le (show f.offset + 1 ≤ f.body.stop from hstands.lt_stop) hsize
    rw [hstands.body, hstands.offset, ← hinner']
    refine frameParts?_eq (show u f.body.start ≤ _ by omega) (show _ ≤ u f.body.stop by omega) ?_
    exact h.size ▸ h.le hsize (Nat.le_refl _)
  -- its callers
  obtain ⟨outer, houter⟩ := Option.isSome_iff_exists.1 (mapM_isSome
    fun caller (_ : caller ∈ callers) => p.frameParts?_isSome caller.body caller.offset)
  have houter' : (callers.map (·.relocate u)).mapM (fun caller =>
      q.frameParts? caller.body caller.offset) = some outer := by
    rw [List.mapM_map, ← houter]
    exact mapM_congr fun caller hmem => h.frameParts? hp (hcallers caller hmem)
  refine ⟨text, inner ++ outer.flatten, ?_, ?_⟩
  · unfold Program.stackTrace?
    rw [hf']
    dsimp only
    rw [hrun, houter']
    rfl
  · unfold Program.stackTrace?
    rw [hf]
    dsimp only
    rw [hinner, houter]
    rfl

end Unpacked

/-! ## §5. Offsets. -/

/-- The plain form has the tokens' operators and offsets. -/
theorem token_of_plain {n i : Nat} {ts : List Token} {o : Operator} {offset : Nat}
    (hop : (ofTokens .plain n ts).opcodes[i]? = some (.one o))
    (hoffset : (ofTokens .plain n ts).offsets[i]? = some offset) : ts[i]? = some ⟨o, offset⟩ := by
  simp only [ofTokens, Instruction.pack_plain, List.map_map, List.getElem?_toArray,
    List.getElem?_map, Option.map_eq_some_iff] at hop hoffset
  obtain ⟨t, ht, htoken⟩ := hop
  obtain ⟨t', ht', rfl⟩ := hoffset
  rw [ht] at ht'
  cases ht'
  rw [ht, ← show t.operator = o from congrArg Opcode.operator htoken]
  rfl

end Program

/-- The character of the text at the offset of a token is its operator's symbol. -/
theorem Script.getElem?_of_token {source : String} {t : Token} (h : t ∈ tokens source) :
    source.toList[t.offset]? = some t.operator.symbol := by
  obtain ⟨⟨x, offset⟩, hmem, hx⟩ := List.mem_filterMap.1 h
  obtain ⟨o, ho, rfl⟩ := Option.map_eq_some_iff.1 hx
  show source.toList[offset]? = some o.symbol
  rw [← Operator.ofChar?_eq_some_iff.1 ho]
  exact List.mem_zipIdx_iff_getElem?.1 hmem

/-- The tokens of a text that begins at `start`, in the order of their offsets. -/
theorem Script.sorted_tokensFrom (text : List Char) (start : Nat) :
    (∀ t ∈ tokensFrom start text, start ≤ t.offset)
      ∧ (tokensFrom start text).Pairwise fun t t' => t.offset < t'.offset := by
  induction text generalizing start with
  | nil => simp
  | cons c text ih =>
    obtain ⟨hle, hsorted⟩ := ih (start + 1)
    have hle' : ∀ t ∈ tokensFrom (start + 1) text, start ≤ t.offset := fun t ht =>
      Nat.le_of_succ_le (hle t ht)
    rw [tokensFrom_cons]
    cases Operator.ofChar? c with
    | none => exact ⟨hle', hsorted⟩
    | some o =>
      exact ⟨List.forall_mem_cons.2 ⟨Nat.le_refl _, hle'⟩, List.pairwise_cons.2 ⟨hle, hsorted⟩⟩

/-- So tokens at different places have different offsets. -/
theorem Script.offset_inj {source : String} {i j : Nat} {t t' : Token}
    (ht : (tokens source)[i]? = some t) (ht' : (tokens source)[j]? = some t') :
    t.offset = t'.offset ↔ i = j := by
  obtain ⟨hi, rfl⟩ := List.getElem?_eq_some_iff.1 ht
  obtain ⟨hj, rfl⟩ := List.getElem?_eq_some_iff.1 ht'
  have hpairwise : (tokens source).Pairwise fun t t' => t.offset < t'.offset :=
    (sorted_tokensFrom source.toList 0).2
  have hsorted := List.pairwise_iff_getElem.1 hpairwise
  refine ⟨fun heq => ?_, fun heq => by subst heq; rfl⟩
  rcases Nat.lt_trichotomy i j with hlt | heq' | hlt
  · have := hsorted i j hi hj hlt
    omega
  · exact heq'
  · have := hsorted j i hj hi hlt
    omega

/-! ## §6. The reported location. -/

/-- `h` locates the opcode `op`, whose operators are those of the script from
number `first` on, and `h'` the one of them that failed after `made` others: `h`
has the offset of the first of them instead of its own, and the text up to the
last of them instead of up to itself. -/
structure Halting.Coarsens (source : String) (op : Opcode) (first made : Nat)
    (h h' : Halting) : Prop where
  operator : h.operator = op.operator.symbol ∧ h'.operator = op.operator.symbol
  offset : (Script.tokens source)[first]? = some ⟨op.operator, h.offset⟩
  offset' : (Script.tokens source)[first + made]? = some ⟨op.operator, h'.offset⟩
  trace : ∃ text rest, h'.trace = text :: rest ∧ h.trace = (text ++ String.ofList
    (List.replicate (op.count - (made + 1)) op.operator.symbol)) :: rest

namespace Halting.Coarsens

variable {source : String} {op : Opcode} {first made : Nat} {h h' : Halting}

theorem offset_eq_iff (hc : h.Coarsens source op first made h') :
    h.offset = h'.offset ↔ made = 0 := by
  have hinj := Script.offset_inj hc.offset hc.offset'
  dsimp only at hinj
  omega

theorem trace_eq_iff (hc : h.Coarsens source op first made h') (hmade : made < op.count) :
    h.trace = h'.trace ↔ made + 1 = op.count := by
  obtain ⟨text, rest, htrace', htrace⟩ := hc.trace
  rw [htrace, htrace', List.cons.injEq]
  refine ⟨fun heq => ?_, fun heq => ?_⟩
  · have hlength := congrArg String.length heq.1
    simp only [String.length_append, String.length_ofList, List.length_replicate] at hlength
    omega
  · rw [heq, Nat.sub_self]
    simp

/-- **The two locations are equal only for an opcode that counts one operator.** -/
theorem eq_iff (hc : h.Coarsens source op first made h') (hmade : made < op.count) :
    h = h' ↔ op.count = 1 := by
  have hoffset := hc.offset_eq_iff
  have htrace := hc.trace_eq_iff hmade
  refine ⟨?_, fun hone => ?_⟩
  · rintro rfl
    have h0 := hoffset.1 rfl
    have h1 := htrace.1 rfl
    omega
  · have hsame := hoffset.2 (by omega)
    have hsame' := htrace.2 (by omega)
    have hsymbol := hc.operator.1.trans hc.operator.2.symm
    cases h
    cases h'
    simp only [Halting.mk.injEq]
    exact ⟨hsame', hsymbol, hsame⟩

end Halting.Coarsens

/-- **Machines that stand alike**: the location of the packed one is coarser. -/
theorem Report.exists_coarsens {source : String} {g : Granularity} {n : Nat} {u : Nat → Nat}
    (hunpacks : (Program.ofTokens g n (Script.tokens source)).Unpacks
      (Program.ofTokens .plain n (Script.tokens source)) u)
    (hp : (Program.ofTokens g n (Script.tokens source)).Nested) {m m' : Machine} {code : ExitCode}
    {halting halting' : Option Halting}
    (hm : m.Nests (Program.ofTokens g n (Script.tokens source)))
    (hstands : m.stack.StandsLike (Program.ofTokens g n (Script.tokens source)) u m'.stack)
    (hframes : m.stack.frames ≠ []) (hcode : code.isSuccess = false)
    (hhalting : halting? (Program.ofTokens g n (Script.tokens source)) m.stack code = some halting)
    (hhalting' : halting? (Program.ofTokens .plain n (Script.tokens source)) m'.stack code
      = some halting') :
    ∃ h h' k op made, halting = some h ∧ halting' = some h'
      ∧ (Program.ofTokens g n (Script.tokens source)).opcodes[k]? = some op ∧ made < op.count
      ∧ m'.stack.active?.map (·.offset) = some (u k + made)
      ∧ h.Coarsens source op (u k) made h' := by
  rcases hstands with ⟨hnone, -⟩ | ⟨f, f', callers, op, made, hf, hf', hstands⟩
  · exact absurd hnone hframes
  obtain ⟨trace, op₁, offset, htrace, hop₁, hoffset, rfl⟩ := halting?_eq_some hf hcode hhalting
  obtain ⟨trace', op₁', offset', htrace', hop₁', hoffset', rfl⟩ :=
    halting?_eq_some hf' hcode hhalting'
  have hop := hstands.opcode
  have hmade := hstands.made_lt
  have hunit := hunpacks.opcode hop hmade
  have hfirst := hunpacks.opcode hop (hunpacks.count_pos hop)
  rw [hop] at hop₁
  cases hop₁
  rw [hstands.offset] at hop₁' hoffset'
  rw [hunit] at hop₁'
  cases hop₁'
  rw [← hunpacks.offset (Array.getElem?_eq_some_iff.1 hop).1] at hoffset
  refine ⟨_, _, f.offset, op, made, rfl, rfl, hop, hmade, ?_, ⟨rfl, rfl⟩, ?_, ?_, ?_⟩
  · rw [CallStack.active?, hf']
    exact congrArg some hstands.offset
  · exact Program.token_of_plain hfirst hoffset
  · exact Program.token_of_plain hunit hoffset'
  · obtain ⟨text, rest, htext', htext⟩ :=
      hunpacks.stackTrace? hp.toCoherent hf hf' hstands hm.frame
    rw [htrace] at htext
    rw [htrace'] at htext'
    exact ⟨text, rest, Option.some.inj htext', Option.some.inj htext⟩

/-! ## §7. The result. -/

/-- There is a report on a run that halted, and on no other. -/
theorem Job.run?_eq_some_iff {j : Job} {budget : Budget} {fuel : Nat} {report : Report} :
    j.run? budget fuel = some report ↔
      ∃ code r, Run.steps j.program { budget } fuel ⟨j.machine, none, 0⟩ = .halted code r
        ∧ Report.build? j.source j.program r.machine code {} = some report := by
  show j.conclude? (Run.steps j.program { budget } fuel ⟨j.machine, none, 0⟩) {} = _ ↔ _
  cases Run.steps j.program { budget } fuel ⟨j.machine, none, 0⟩ with
  | halted code r =>
    refine ⟨fun h => ⟨code, r, rfl, h⟩, fun h => ?_⟩
    obtain ⟨code', r', heq, h⟩ := h
    cases heq
    exact h
  | unfinished r =>
    refine ⟨fun h => (by cases h), fun h => ?_⟩
    obtain ⟨code', r', heq, -⟩ := h
    cases heq
  | stuck =>
    refine ⟨fun h => (by cases h), fun h => ?_⟩
    obtain ⟨code', r', heq, -⟩ := h
    cases heq

/-- A run that halted, and the report on it. -/
theorem Job.run?_eq_some {j : Job} {budget : Budget} {fuel : Nat} {report : Report}
    (h : j.run? budget fuel = some report) :
    ∃ code r, Run.Halts j.program { budget } ⟨j.machine, none, 0⟩ code r
      ∧ Report.build? j.source j.program r.machine code {} = some report := by
  obtain ⟨code, r, hr, hreport⟩ := Job.run?_eq_some_iff.1 h
  exact ⟨code, r, ⟨fuel, hr⟩, hreport⟩

/-- A run from a tape loads the script, packed. -/
theorem runFrom_eq {source : String} {p : Program}
    (hprogram : Program.compile .packed source = .ok p) (tape : Tape) (input : String)
    (limit : Nat) (budget : Budget) (fuel : Nat) :
    runFrom tape source input limit budget fuel
      = .ok ((⟨source, p, .load p tape input limit⟩ : Job).run? budget fuel) := by
  unfold runFrom Job.load
  rw [hprogram]
  rfl

/-- A run loads the script, packed, on a blank tape. -/
theorem run_eq {config : Config} {source : String} {p : Program}
    (hprogram : Program.compile .packed source = .ok p) (hsize : Tape.AllowedSize config.tapeSize)
    (input : String) (budget : Budget) (fuel : Nat) :
    run config source input budget fuel = .ok ((⟨source, p,
      .load p (.blank config.tapeSize config.mode) input config.outputLimit⟩ : Job).run? budget
        fuel) := by
  unfold run runFrom Job.load Tape.create
  rw [if_pos hsize, hprogram]
  rfl

/-- A run that fails stands on an opcode, its frames within their code. -/
theorem Run.Halts.nests {p : Program} {t : Terms} {tape : Tape} {input : String} {limit : Nat}
    {code : ExitCode} {r : Run} (h : Run.Halts p t ⟨.load p tape input limit, none, 0⟩ code r)
    (hp : p.Nested) (htape : tape.WellFormed) (hcode : code.isFault) :
    r.machine.Nests p ∧ r.machine.stack.frames ≠ [] := by
  obtain ⟨-, hrests⟩ := h.fits hp.toCoherent (Machine.fits_load p htape input limit)
  obtain ⟨fuel, hfuel⟩ := h
  refine ⟨?_, ?_⟩
  · exact Run.keeps_of_halted (P := fun m => m.Nests p) (fun hm hstep => hm.step hp hstep) fuel
      (Machine.nests_load p tape input limit) hfuel
  · rcases hrests with rfl | ⟨frame, callers, op, hf, -⟩
    · cases hcode
    · rw [hf]
      exact List.cons_ne_nil _ _

/-- If a program halts, so does its plain form, taken step by step. -/
theorem Program.Unpacks.halts_stepwise {p q : Program} {u : Nat → Nat} {tape : Tape}
    {input : String} {limit : Nat} {code : ExitCode} {r : Run} (hunpacks : p.Unpacks q u)
    (hp : p.Balanced) (hq : q.Coherent) (htape : tape.WellFormed)
    (hr : Run.Halts p {} ⟨.load p tape input limit, none, 0⟩ code r) :
    ∃ s, Run.Halts q .stepwise ⟨.load q tape input limit, none, 0⟩ code s
      ∧ r.machine.EndsLike p u s.machine := by
  obtain ⟨s, hs, hends⟩ := (shadows_load hunpacks htape input limit).halts hunpacks hp hq hr
  obtain ⟨s', hs', hmachine⟩ := TapeMachine.halts_stepwise hq (fun _ => rfl)
    (Machine.fits_load q htape input limit) hs
  exact ⟨s', hs', hmachine.symm ▸ hends⟩

/-- A session that is completed has halted where the plain form does. -/
theorem Session.Tracks.rests {q : Program} {source : String} {m : Machine} {fuel : Nat}
    {s s' : Session} {report : Report} {code : ExitCode} {r : Run} (h : Tracks source q m s)
    (hq : q.Balanced) (hopen : s.isCompleted = false)
    (hcomplete : s.complete? .unlimited fuel = some (s', report))
    (hr : Run.Halts q .stepwise ⟨m, none, 0⟩ code r) :
    s'.job.machine = r.machine
      ∧ Report.build? source q r.machine code {} = some report.untimed := by
  obtain ⟨h', hreport⟩ := h.resume hq hcomplete
  obtain ⟨code', polls, hhalts, hbuild⟩ :=
    h'.report (h.isCompleted_of_complete hq hopen hcomplete) hreport
  obtain ⟨rfl, rfl⟩ := hr.unique hhalts
  exact ⟨rfl, hbuild⟩

/-- **A run locates a fault by its opcode, a session by its operator.**  If the
run of a script that passes the check fails, then a session without
breakpoints can be completed, and it fails with the same code on the same
operator.  The session stands on the operator that failed, the one after
`made` others of an opcode of the run, and reports its offset and the text up to
it.  The run reports the offset of the first operator of that opcode and the
text up to its last.  So they give the same offset if the first operator
failed, the same trace if the last one did, and the same location if and only
if the opcode counts one operator. -/
theorem faults_are_located_by_opcode (config : Config) (source input : String)
    (hsource : (Script.validate source).isSuccess) (hconfig : Tape.AllowedSize config.tapeSize) :
    ∃ p s, Program.compile .packed source = .ok p ∧ Session.create config source [] input = .ok s
      ∧ ∀ fuel report, run config source input .unlimited fuel = .ok (some report) →
        report.exitCode.isFault →
        (∃ fuel' s' report', s.complete? .unlimited fuel' = some (s', report'))
          ∧ ∀ fuel' s' report', s.complete? .unlimited fuel' = some (s', report') →
            report'.exitCode = report.exitCode
              ∧ ∃ h h' k op made, report.halting = some h ∧ report'.halting = some h'
                ∧ p.opcodes[k]? = some op ∧ made < op.count
                ∧ s'.job.machine.stack.active?.map (·.offset)
                  = some (Opcode.place p.opcodes.toList k + made)
                ∧ h.Coarsens source op (Opcode.place p.opcodes.toList k) made h'
                ∧ (h.offset = h'.offset ↔ made = 0) ∧ (h.trace = h'.trace ↔ made + 1 = op.count)
                ∧ (h = h' ↔ op.count = 1) := by
  obtain ⟨b, ⟨hitems, -⟩, hb⟩ := Script.validate_isSuccess_iff.1 hsource
  have hpacked := Program.compile_of_isSuccess hsource .packed
  have hplain := Program.compile_of_isSuccess hsource .plain
  have hunpacks := Program.unpacks_plain .packed (Script.validate source).count
    (Script.tokens source)
  have hp := Program.nested_ofTokens hitems hb .packed (Script.validate source).count
  have hq := Program.balanced_ofTokens hitems hb .plain (Script.validate source).count
  have htape := Tape.wellFormed_blank config.mode hconfig
  obtain ⟨s, hs, hopen, htracks⟩ := Session.exists_create hplain hconfig
    (fun _ h => absurd h List.not_mem_nil) input
  refine ⟨_, s, hpacked, hs, ?_⟩
  intro fuel report hrun hfault
  rw [run_eq hpacked hconfig] at hrun
  obtain ⟨code, r, hr, hreport⟩ := Job.run?_eq_some (Except.ok.inj hrun)
  obtain ⟨-, hhalting, rfl⟩ := Report.parts_of_build? hreport
  obtain ⟨hnests, hframes⟩ := hr.nests hp htape hfault
  have hfail : report.exitCode.isSuccess = false := by
    revert hfault
    cases report.exitCode <;> decide
  obtain ⟨r', hr', hends⟩ := hunpacks.halts_stepwise hp.toBalanced hq.toCoherent htape hr
  obtain ⟨fuel', s', report', hcomplete, -⟩ := htracks.exists_complete hq hopen ⟨_, _, hr'⟩
  refine ⟨⟨fuel', s', report', hcomplete⟩, ?_⟩
  intro fuel' s' report' hcomplete
  obtain ⟨hmachine, hreport'⟩ := htracks.rests hq hopen hcomplete hr'
  obtain ⟨-, hhalting', hcode⟩ := Report.parts_of_build? hreport'
  obtain ⟨h, h', k, op, made, hh, hh', hop, hmade, hactive, hcoarsens⟩ :=
    Report.exists_coarsens hunpacks hp hnests hends.place hframes hfail hhalting hhalting'
  rw [hmachine]
  exact ⟨hcode, h, h', k, op, made, hh, hh', hop, hmade, hactive, hcoarsens,
    hcoarsens.offset_eq_iff, hcoarsens.trace_eq_iff hmade, hcoarsens.eq_iff hmade⟩

/-- The second of three `<` fails: neither the offset nor the trace is the
same. -/
theorem faults_are_located_by_opcode_halfway :
    ∃ s report s' report' h h', Session.create {} "><<<" [] "" = .ok s
      ∧ run {} "><<<" "" .unlimited 20 = .ok (some report) ∧ report.exitCode.isFault
      ∧ s.complete? .unlimited 20 = some (s', report')
      ∧ report.halting = some h ∧ report'.halting = some h'
      ∧ h.offset ≠ h'.offset ∧ h.trace ≠ h'.trace := by
  obtain ⟨p, s, hp, hs, hall⟩ := faults_are_located_by_opcode {} "><<<" "" (by decide) (by decide)
  have hopcodes : (Program.compile .packed "><<<").toOption.map (·.opcodes)
      = some #[⟨.right, 1⟩, ⟨.left, 3⟩] := by decide +kernel
  obtain ⟨report, hreport, hfault⟩ : ∃ report, run {} "><<<" "" .unlimited 20 = .ok (some report)
      ∧ report.exitCode.isFault = true := exists_report (by decide +kernel)
  have hcomplete : ((Session.create {} "><<<" [] "").toOption.bind fun s =>
      (s.complete? .unlimited 20).bind fun result =>
        result.1.job.machine.stack.active?.map (·.offset)) = some 2 := by decide +kernel
  rw [hp] at hopcodes
  replace hopcodes : p.opcodes = #[⟨.right, 1⟩, ⟨.left, 3⟩] := Option.some.inj hopcodes
  replace hcomplete := seen_of_ok hcomplete hs
  obtain ⟨⟨s', report'⟩, hcomplete, hactive⟩ := Option.bind_eq_some_iff.1 hcomplete
  obtain ⟨-, hat⟩ := hall 20 report hreport hfault
  obtain ⟨-, h, h', k, op, made, hh, hh', hop, hmade, hplace, -, hoffset, htrace, -⟩ :=
    hat 20 s' report' hcomplete
  have hnumber := Option.some.inj (hplace.symm.trans hactive)
  rw [hopcodes] at hop hnumber
  -- the opcode of operator 2 is the second, and one `<` of it has been made
  have hsecond : made = 1 ∧ op.count = 3 := by
    rcases k with _ | _ | k
    · cases hop
      exact absurd hnumber (by change 0 + made ≠ 2; change made < 1 at hmade; omega)
    · cases hop
      exact ⟨by change 1 + made = 2 at hnumber; omega, rfl⟩
    · cases hop
  exact ⟨s, report, s', report', h, h', hs, hreport, hfault, hcomplete, hh, hh',
    fun heq => absurd (hoffset.1 heq) (by omega), fun heq => absurd (htrace.1 heq) (by omega)⟩

/-- The reported location of that fault: the first `<`, at offset 1, for the run,
and the second one, at offset 2, for the session. -/
theorem fault_location_depends_on_granularity :
    ((run {} "><<<" "" .unlimited 20).toOption.join.bind (·.halting)
        = some ⟨["><<<"], '<', 1⟩)
      ∧ ((Session.create {} "><<<" [] "").toOption.bind fun s =>
          (s.complete? .unlimited 20).bind fun result => result.2.halting)
        = some ⟨["><<"], '<', 2⟩ := by
  decide +kernel

end TapeMachine
