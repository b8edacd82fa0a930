/-
  TapeMachine.Proofs.Grammar
  ──────────────────────────
  **THE CHECK ACCEPTS EXACTLY THE GRAMMAR.**

      P      ::= Item Item*
      Item   ::= Simple | [ Body* ] | ( Body Body* )
      Body   ::= Simple | [ Body* ]
      Simple ::= > | < | + | - | . | , | :

  `Derives` is this grammar, rule by rule, over the characters of a script.
  The proof goes through trees:

    • `derives_script_iff` — a word is derivable iff it is the text of a
      tree that is a script,
    • `run_body` / `run_items` — the pass reads a tree and is afterwards in
      the region it was in before, with the same loops open,
    • `closes_of_success` — what a pass that ends well has read from a
      state on closes the loops open in that state, one by one, and then
      the function.  This is the invariant of the pass, for every state it
      can be in: root or function, any number of loops open,
    • `validate_accepts_exactly_grammar` — the main statement.

  A script has one tree only (`existsUnique_tree`): brackets close what was
  opened last, so the operators determine where every item ends.
-/
import TapeMachine.Script.Block
import TapeMachine.Script.Validation

namespace TapeMachine

/-! ## §1. The grammar. -/

/-- What a word can be derived from. -/
inductive Category where
  | simple
  | body
  | item
  | script
  deriving Repr, DecidableEq

/-- `Derives c w`: the word `w` is derivable from `c`. -/
inductive Derives : Category → List Char → Prop
  | simple {c : Char} (h : c ∈ ['>', '<', '+', '-', '.', ',', ':']) : Derives .simple [c]
  | bodySimple {w : List Char} (h : Derives .simple w) : Derives .body w
  | bodyLoop {ws : List (List Char)} (h : ∀ w ∈ ws, Derives .body w) :
      Derives .body ('[' :: (ws.flatten ++ [']']))
  | itemSimple {w : List Char} (h : Derives .simple w) : Derives .item w
  | itemLoop {ws : List (List Char)} (h : ∀ w ∈ ws, Derives .body w) :
      Derives .item ('[' :: (ws.flatten ++ [']']))
  | itemFunction {ws : List (List Char)} (hne : ws ≠ []) (h : ∀ w ∈ ws, Derives .body w) :
      Derives .item ('(' :: (ws.flatten ++ [')']))
  | script {ws : List (List Char)} (hne : ws ≠ []) (h : ∀ w ∈ ws, Derives .item w) :
      Derives .script ws.flatten

/-! ## §2. Trees and derivations. -/

namespace Block

/-- The text of a tree. -/
def text (b : Block) : List Char := b.operators.map Operator.symbol

@[simp] theorem text_done : done.text = [] := rfl

@[simp] theorem text_simple (o : Operator) (next : Block) :
    (simple o next).text = o.symbol :: next.text := rfl

@[simp] theorem text_loop (body next : Block) :
    (loop body next).text = '[' :: (body.text ++ ']' :: next.text) := by
  simp [text, operators, Operator.symbol]

@[simp] theorem text_define (body next : Block) :
    (define body next).text = '(' :: (body.text ++ ')' :: next.text) := by
  simp [text, operators, Operator.symbol]

theorem IsBody.isItems {b : Block} (h : b.IsBody) : b.IsItems := by
  induction b with
  | done => trivial
  | simple o next ih => exact ⟨h.1, ih h.2⟩
  | loop body next _ ih => exact ⟨h.1, ih h.2⟩
  | define _ _ _ _ => exact h.elim

/-- The words of the items of a tree, one per item. -/
def words : Block → List (List Char)
  | done => []
  | simple o next => [o.symbol] :: next.words
  | loop body next => ('[' :: (body.text ++ [']'])) :: next.words
  | define body next => ('(' :: (body.text ++ [')'])) :: next.words

theorem flatten_words (b : Block) : b.words.flatten = b.text := by
  induction b with
  | done => rfl
  | simple o next ih => simp [words, ih]
  | loop body next _ ih => simp [words, ih]
  | define body next _ ih => simp [words, ih]

theorem words_ne_nil {b : Block} (h : b ≠ done) : b.words ≠ [] := by
  cases b with
  | done => exact absurd rfl h
  | simple _ _ | loop _ _ | define _ _ => simp [words]

theorem derives_symbol {o : Operator} (h : o.isSimple) : Derives .simple [o.symbol] := by
  refine .simple ?_
  cases o with
  | loopOpen | loopClose | bodyOpen | bodyClose => cases h
  | _ => decide

theorem derives_words_body {b : Block} (h : b.IsBody) : ∀ w ∈ b.words, Derives .body w := by
  induction b with
  | done => intro w hw; cases hw
  | simple o next ih =>
    intro w hw
    rcases List.mem_cons.1 hw with rfl | hw
    · exact .bodySimple (derives_symbol h.1)
    · exact ih h.2 w hw
  | loop body next ihb ih =>
    intro w hw
    rcases List.mem_cons.1 hw with rfl | hw
    · rw [← flatten_words body]
      exact .bodyLoop (ihb h.1)
    · exact ih h.2 w hw
  | define _ _ _ _ => exact h.elim

theorem derives_words_item {b : Block} (h : b.IsItems) : ∀ w ∈ b.words, Derives .item w := by
  induction b with
  | done => intro w hw; cases hw
  | simple o next ih =>
    intro w hw
    rcases List.mem_cons.1 hw with rfl | hw
    · exact .itemSimple (derives_symbol h.1)
    · exact ih h.2 w hw
  | loop body next _ ih =>
    intro w hw
    rcases List.mem_cons.1 hw with rfl | hw
    · rw [← flatten_words body]
      exact .itemLoop (derives_words_body h.1)
    · exact ih h.2 w hw
  | define body next _ ih =>
    intro w hw
    rcases List.mem_cons.1 hw with rfl | hw
    · rw [← flatten_words body]
      exact .itemFunction (words_ne_nil h.1.2) (derives_words_body h.1.1)
    · exact ih h.2 w hw

/-- A tree of a kind, with the word `w` before it: what a derivation of `w`
puts at the front of any tree of that kind. -/
def Extends (kind : Block → Prop) (w : List Char) : Prop :=
  ∀ next : Block, kind next → ∃ b : Block, kind b ∧ b ≠ done ∧ b.text = w ++ next.text

theorem extends_flatten {kind : Block → Prop} {ws : List (List Char)}
    (h : ∀ w ∈ ws, Extends kind w) (next : Block) (hn : kind next) :
    ∃ b : Block, kind b ∧ (ws ≠ [] → b ≠ done) ∧ b.text = ws.flatten ++ next.text := by
  induction ws with
  | nil => exact ⟨next, hn, fun hne => absurd rfl hne, rfl⟩
  | cons w ws ih =>
    obtain ⟨b, hb, -, hbt⟩ := ih fun v hv => h v (List.mem_cons_of_mem w hv)
    obtain ⟨b', hb', hne, hbt'⟩ := h w List.mem_cons_self b hb
    refine ⟨b', hb', fun _ => hne, ?_⟩
    rw [hbt', hbt, List.flatten_cons, List.append_assoc]

/-- What a derivation says about trees, for each category. -/
def TreeOf : Category → List Char → Prop
  | .simple, w => ∃ o : Operator, o.isSimple ∧ w = [o.symbol]
  | .body, w => Extends IsBody w ∧ Extends IsItems w
  | .item, w => Extends IsItems w
  | .script, w => ∃ b : Block, b.IsScript ∧ b.text = w

theorem extends_simple {w : List Char} (h : TreeOf .simple w) :
    Extends IsBody w ∧ Extends IsItems w := by
  obtain ⟨o, ho, rfl⟩ := h
  exact ⟨fun next hn => ⟨simple o next, ⟨ho, hn⟩, by simp, rfl⟩,
    fun next hn => ⟨simple o next, ⟨ho, hn⟩, by simp, rfl⟩⟩

theorem extends_loop {ws : List (List Char)} (h : ∀ w ∈ ws, TreeOf .body w) :
    Extends IsBody ('[' :: (ws.flatten ++ [']']))
      ∧ Extends IsItems ('[' :: (ws.flatten ++ [']'])) := by
  obtain ⟨body, hbody, -, ht⟩ := extends_flatten (fun w hw => (h w hw).1) done trivial
  rw [text_done, List.append_nil] at ht
  exact ⟨fun next hn => ⟨loop body next, ⟨hbody, hn⟩, by simp, by simp [ht]⟩,
    fun next hn => ⟨loop body next, ⟨hbody, hn⟩, by simp, by simp [ht]⟩⟩

theorem treeOf_of_derives {c : Category} {w : List Char} (h : Derives c w) : TreeOf c w := by
  induction h with
  | @simple c h =>
    simp only [List.mem_cons, List.not_mem_nil, or_false] at h
    rcases h with rfl | rfl | rfl | rfl | rfl | rfl | rfl
    · exact ⟨.right, rfl, rfl⟩
    · exact ⟨.left, rfl, rfl⟩
    · exact ⟨.inc, rfl, rfl⟩
    · exact ⟨.dec, rfl, rfl⟩
    · exact ⟨.put, rfl, rfl⟩
    · exact ⟨.get, rfl, rfl⟩
    · exact ⟨.call, rfl, rfl⟩
  | bodySimple _ ih => exact extends_simple ih
  | bodyLoop _ ih => exact extends_loop ih
  | itemSimple _ ih => exact (extends_simple ih).2
  | itemLoop _ ih => exact (extends_loop ih).2
  | itemFunction hne _ ih =>
    intro next hn
    obtain ⟨body, hbody, hbne, ht⟩ := extends_flatten (fun w hw => (ih w hw).1) done trivial
    rw [text_done, List.append_nil] at ht
    exact ⟨define body next, ⟨⟨hbody, hbne hne⟩, hn⟩, by simp, by simp [ht]⟩
  | script hne _ ih =>
    obtain ⟨b, hb, hbne, ht⟩ := extends_flatten ih done trivial
    exact ⟨b, ⟨hb, hbne hne⟩, by rw [ht, text_done, List.append_nil]⟩

end Block

/-- **Derivable words are the texts of trees.** -/
theorem derives_script_iff {w : List Char} :
    Derives .script w ↔ ∃ b : Block, b.IsScript ∧ b.text = w := by
  constructor
  · exact Block.treeOf_of_derives
  · rintro ⟨b, hb, rfl⟩
    rw [← b.flatten_words]
    exact .script (Block.words_ne_nil hb.2) (Block.derives_words_item hb.1)

/-! ## §3. One tree only. -/

/-- A word that cannot be the start of an item: empty, or a closing bracket
first. -/
def Stops : List Operator → Prop
  | [] => True
  | o :: _ => o = .loopClose ∨ o = .bodyClose

namespace Block

theorem not_stops {b : Block} (h : b.IsItems) (hne : b ≠ done) (w : List Operator) :
    ¬ Stops (b.operators ++ w) := by
  cases b with
  | done => exact absurd rfl hne
  | simple o next =>
    rintro (rfl | rfl)
    · exact absurd h.1 (by decide)
    · exact absurd h.1 (by decide)
  | loop _ _ | define _ _ => rintro (h | h) <;> cases h

/-- **A tree ends where its operators say.** -/
theorem operators_append_inj {b b' : Block} (h : b.IsItems) (h' : b'.IsItems)
    {w w' : List Operator} (hw : Stops w) (hw' : Stops w')
    (he : b.operators ++ w = b'.operators ++ w') : b = b' ∧ w = w' := by
  -- the first operator decides which construct the other tree starts with too
  induction b generalizing b' w w' with
  | done =>
    by_cases hd : b' = done
    · subst hd
      exact ⟨rfl, he⟩
    · have hs : Stops (b'.operators ++ w') := he ▸ hw
      exact absurd hs (not_stops h' hd w')
  | simple o next ih =>
    cases b' with
    | done => exact absurd (he ▸ hw') (not_stops h (by simp) w)
    | simple o' next' =>
      simp only [operators, List.cons_append, List.cons.injEq] at he
      obtain ⟨rfl, rfl⟩ := ih h.2 h'.2 hw hw' he.2
      exact ⟨by rw [he.1], rfl⟩
    | loop _ _ | define _ _ =>
      simp only [operators, List.cons_append, List.cons.injEq] at he
      exact absurd h.1 (by rw [he.1]; decide)
  | loop body next ihb ih =>
    cases b' with
    | done => exact absurd (he ▸ hw') (not_stops h (by simp) w)
    | simple o' next' =>
      simp only [operators, List.cons_append, List.cons.injEq] at he
      exact absurd h'.1 (by rw [← he.1]; decide)
    | loop body' next' =>
      simp only [operators, List.cons_append, List.append_assoc, List.cons.injEq, true_and] at he
      have hstops : ∀ v : List Operator, Stops (.loopClose :: v) := fun _ => Or.inl rfl
      obtain ⟨rfl, hnext⟩ := ihb h.1.isItems h'.1.isItems (hstops _) (hstops _) he
      obtain ⟨rfl, rfl⟩ := ih h.2 h'.2 hw hw' (List.cons.inj hnext).2
      exact ⟨rfl, rfl⟩
    | define _ _ => simp [operators] at he
  | define body next ihb ih =>
    cases b' with
    | done => exact absurd (he ▸ hw') (not_stops h (by simp) w)
    | simple o' next' =>
      simp only [operators, List.cons_append, List.cons.injEq] at he
      exact absurd h'.1 (by rw [← he.1]; decide)
    | loop _ _ => simp [operators] at he
    | define body' next' =>
      simp only [operators, List.cons_append, List.append_assoc, List.cons.injEq, true_and] at he
      have hstops : ∀ v : List Operator, Stops (.bodyClose :: v) := fun _ => Or.inr rfl
      obtain ⟨rfl, hnext⟩ := ihb h.1.1.isItems h'.1.1.isItems (hstops _) (hstops _) he
      obtain ⟨rfl, rfl⟩ := ih h.2 h'.2 hw hw' (List.cons.inj hnext).2
      exact ⟨rfl, rfl⟩

/-- Different trees have different operators. -/
theorem operators_inj {b b' : Block} (h : b.IsItems) (h' : b'.IsItems)
    (he : b.operators = b'.operators) : b = b' := by
  have hnil : Stops [] := trivial
  exact (operators_append_inj h h' hnil hnil (congrArg (· ++ []) he)).1

end Block

/-! ## §4. The pass, region by region. -/

namespace Script

namespace Scan

/-- The open loops of the current region, innermost first. -/
def region (s : Scan) : List Nat :=
  match s.body with
  | none => s.loops
  | some b => b.loops

/-- The pass with these loops open in the current region. -/
def withRegion (s : Scan) (loops : List Nat) : Scan :=
  match s.body with
  | none => { s with loops }
  | some b => { s with body := some { b with loops } }

/-- The pass after `n` operators that leave all loops as they are. -/
def advance (s : Scan) (n : Nat) : Scan :=
  { s with count := s.count + n, body := s.body.map fun b => { b with size := b.size + n } }

@[simp] theorem advance_zero (s : Scan) : s.advance 0 = s := by
  obtain ⟨count, loops, _ | b⟩ := s <;> rfl

@[simp] theorem advance_advance (s : Scan) (n k : Nat) :
    (s.advance n).advance k = s.advance (n + k) := by
  obtain ⟨count, loops, _ | b⟩ := s <;> simp [advance, Nat.add_assoc]

@[simp] theorem region_advance (s : Scan) (n : Nat) : (s.advance n).region = s.region := by
  obtain ⟨count, loops, _ | b⟩ := s <;> rfl

@[simp] theorem region_withRegion (s : Scan) (loops : List Nat) :
    (s.withRegion loops).region = loops := by
  obtain ⟨count, loops', _ | b⟩ := s <;> rfl

@[simp] theorem advance_withRegion (s : Scan) (n : Nat) (loops : List Nat) :
    (s.withRegion loops).advance n = (s.advance n).withRegion loops := by
  obtain ⟨count, _, _ | b⟩ := s <;> rfl

/-- A loop of `n` operators that is opened and closed again, and `k` operators
after it, leave the region as it was. -/
theorem advance_loop (s : Scan) (offset n k : Nat) :
    (((((s.advance 1).withRegion (offset :: s.region)).advance n).advance 1).withRegion
      s.region).advance k = s.advance (n + k + 2) := by
  have hsum : ∀ c, c + 1 + n + 1 + k = c + (n + k + 2) := by
    intro c
    omega
  obtain ⟨count, loops, _ | ⟨start, inner, size⟩⟩ := s
  · show (⟨count + 1 + n + 1 + k, loops, none⟩ : Scan) = ⟨count + (n + k + 2), loops, none⟩
    rw [hsum]
  · show (⟨count + 1 + n + 1 + k, loops, some ⟨start, inner, size + 1 + n + 1 + k⟩⟩ : Scan)
      = ⟨count + (n + k + 2), loops, some ⟨start, inner, size + (n + k + 2)⟩⟩
    rw [hsum, hsum]

theorem loops_withRegion {s : Scan} {loops : List Nat} (h : s.body.isSome → s.loops = []) :
    (s.withRegion loops).body.isSome → (s.withRegion loops).loops = [] := by
  obtain ⟨count, _, _ | b⟩ := s
  · intro h
    cases h
  · exact h

@[simp] theorem body_withRegion_isNone (s : Scan) (loops : List Nat) :
    (s.withRegion loops).body.isNone = s.body.isNone := by
  obtain ⟨count, _, _ | b⟩ := s <;> rfl

@[simp] theorem body_advance_isNone (s : Scan) (n : Nat) :
    (s.advance n).body.isNone = s.body.isNone := by
  obtain ⟨count, _, _ | b⟩ := s <;> rfl

theorem step_simple (s : Scan) {t : Token} (h : t.operator.isSimple) :
    s.step t = .ok (s.advance 1) := by
  obtain ⟨o, offset⟩ := t
  cases o with
  | loopOpen | loopClose | bodyOpen | bodyClose => cases h
  | _ => obtain ⟨count, loops, _ | b⟩ := s <;> rfl

theorem step_loopOpen (s : Scan) {t : Token} (h : t.operator = .loopOpen) :
    s.step t = .ok ((s.advance 1).withRegion (t.offset :: s.region)) := by
  obtain ⟨o, offset⟩ := t
  subst h
  obtain ⟨count, loops, _ | b⟩ := s <;> rfl

theorem step_loopClose (s : Scan) {t : Token} (h : t.operator = .loopClose) {j : Nat}
    {outer : List Nat} (hr : s.region = j :: outer) :
    s.step t = .ok ((s.advance 1).withRegion outer) := by
  obtain ⟨o, offset⟩ := t
  subst h
  obtain ⟨count, loops, _ | b⟩ := s
  · obtain rfl : loops = _ := hr
    rfl
  · obtain ⟨start, loops', size⟩ := b
    obtain rfl : loops' = _ := hr
    rfl

theorem step_bodyOpen {count offset : Nat} :
    (⟨count, [], none⟩ : Scan).step ⟨.bodyOpen, offset⟩
      = .ok ⟨count + 1, [], some ⟨offset, [], 0⟩⟩ := rfl

theorem step_bodyClose {count offset start size : Nat} {loops : List Nat} (h : size ≠ 0) :
    (⟨count, loops, some ⟨start, [], size⟩⟩ : Scan).step ⟨.bodyClose, offset⟩
      = .ok ⟨count + 1, loops, none⟩ := by
  simp [step, h]

/-- **What a step can do.** -/
theorem step_cases {s s' : Scan} {t : Token} (h : s.step t = .ok s') :
    (t.operator.isSimple ∧ s' = s.advance 1)
      ∨ (t.operator = .loopOpen ∧ s' = (s.advance 1).withRegion (t.offset :: s.region))
      ∨ (t.operator = .loopClose ∧ ∃ j outer, s.region = j :: outer
          ∧ s' = (s.advance 1).withRegion outer)
      ∨ (t.operator = .bodyOpen ∧ s = ⟨s.count, [], none⟩
          ∧ s' = ⟨s.count + 1, [], some ⟨t.offset, [], 0⟩⟩)
      ∨ (t.operator = .bodyClose ∧ ∃ start size, size ≠ 0
          ∧ s = ⟨s.count, s.loops, some ⟨start, [], size⟩⟩
          ∧ s' = ⟨s.count + 1, s.loops, none⟩) := by
  by_cases hsimple : t.operator.isSimple
  · rw [step_simple s hsimple] at h
    exact .inl ⟨hsimple, (Except.ok.inj h).symm⟩
  · obtain ⟨o, offset⟩ := t
    cases o with
    | right | left | inc | dec | put | get | call => exact absurd rfl hsimple
    | loopOpen =>
      rw [step_loopOpen s rfl] at h
      exact .inr (.inl ⟨rfl, (Except.ok.inj h).symm⟩)
    | loopClose =>
      cases hr : s.region with
      | nil =>
        obtain ⟨_, _, _ | _⟩ := s <;> simp only [region] at hr <;> simp [step, hr] at h
      | cons j outer =>
        rw [step_loopClose s rfl hr] at h
        exact .inr (.inr (.inl ⟨rfl, j, outer, rfl, (Except.ok.inj h).symm⟩))
    | bodyOpen =>
      obtain ⟨count, _ | ⟨_, _⟩, _ | _⟩ := s
      · exact .inr (.inr (.inr (.inl ⟨rfl, rfl, (Except.ok.inj h).symm⟩)))
      all_goals cases h
    | bodyClose =>
      obtain ⟨count, loops, _ | ⟨start, inner, size⟩⟩ := s
      · cases h
      · cases inner with
        | cons j outer =>
          simp [step, List.getLast?_eq_some_getLast (List.cons_ne_nil j outer)] at h
        | nil =>
          by_cases hsize : size = 0
          · subst hsize
            cases h
          · rw [step_bodyClose hsize] at h
            exact .inr (.inr (.inr (.inr ⟨rfl, start, size, hsize, rfl, (Except.ok.inj h).symm⟩)))

/-- A script refused midway does not pass. -/
theorem step_error {s : Scan} {t : Token} {report : Validation}
    (h : s.step t = .error report) : report.isSuccess = false := by
  simp only [step] at h
  repeat' split at h
  all_goals cases h <;> rfl

theorem run_cons_ok {s s' : Scan} {t : Token} (h : s.step t = .ok s') (rest : List Token) :
    s.run (t :: rest) = s'.run rest := by
  rw [run, h]

/-! ## §5. The pass reads trees. -/

/-- **A body is read in any region**, and leaves its loops as they are. -/
theorem run_body {b : Block} (hb : b.IsBody) :
    ∀ (s : Scan) (ts rest : List Token), ts.map (·.operator) = b.operators →
      s.run (ts ++ rest) = (s.advance ts.length).run rest := by
  induction b with
  | done =>
    intro s ts rest hts
    obtain rfl : ts = [] := List.map_eq_nil_iff.1 hts
    simp
  | simple o next ih =>
    intro s ts rest hts
    obtain ⟨t, ts, rfl, rfl, hnext⟩ := List.map_eq_cons_iff.1 hts
    rw [List.cons_append, run_cons_ok (step_simple s hb.1), ih hb.2 _ _ _ hnext,
      advance_advance, List.length_cons, Nat.add_comm]
  | loop body next ihb ih =>
    intro s ts rest hts
    obtain ⟨t, ts, rfl, ht, hts⟩ := List.map_eq_cons_iff.1 hts
    obtain ⟨inner, ts, rfl, hinner, hts⟩ := List.map_eq_append_iff.1 hts
    obtain ⟨u, after, rfl, hu, hafter⟩ := List.map_eq_cons_iff.1 hts
    have hregion : (((s.advance 1).withRegion (t.offset :: s.region)).advance
        inner.length).region = t.offset :: s.region := by simp
    rw [List.cons_append, run_cons_ok (step_loopOpen s ht), List.append_assoc,
      ihb hb.1 _ _ _ hinner, List.cons_append, run_cons_ok (step_loopClose _ hu hregion),
      ih hb.2 _ _ _ hafter, advance_loop]
    congr 2
    simp only [List.length_cons, List.length_append]
    omega
  | define _ _ _ _ => exact hb.elim

/-- **Items are read at the root**, outside all loops. -/
theorem run_items {b : Block} (hb : b.IsItems) :
    ∀ (count : Nat) (ts rest : List Token), ts.map (·.operator) = b.operators →
      (⟨count, [], none⟩ : Scan).run (ts ++ rest)
        = (⟨count + ts.length, [], none⟩ : Scan).run rest := by
  induction b with
  | done =>
    intro count ts rest hts
    obtain rfl : ts = [] := List.map_eq_nil_iff.1 hts
    simp
  | simple o next ih =>
    intro count ts rest hts
    obtain ⟨t, ts, rfl, rfl, hnext⟩ := List.map_eq_cons_iff.1 hts
    rw [List.cons_append, run_cons_ok (step_simple _ hb.1)]
    show (⟨count + 1, [], none⟩ : Scan).run (ts ++ rest) = _
    rw [ih hb.2 _ _ _ hnext, List.length_cons, Nat.add_right_comm, Nat.add_assoc]
  | loop body next _ ih =>
    intro count ts rest hts
    -- a loop at the root is a body, and the items after it come by induction
    obtain ⟨loop, after, rfl, hloop, hafter⟩ :
        ∃ loop after, ts = loop ++ after
          ∧ loop.map (·.operator) = (Block.loop body .done).operators
          ∧ after.map (·.operator) = next.operators := by
      refine List.map_eq_append_iff.1 (hts.trans ?_)
      simp [Block.operators]
    have hread := run_body (b := .loop body .done) ⟨hb.1, trivial⟩ ⟨count, [], none⟩ loop
      (after ++ rest) hloop
    rw [List.append_assoc, hread]
    show (⟨count + loop.length, [], none⟩ : Scan).run (after ++ rest) = _
    rw [ih hb.2 _ _ _ hafter, List.length_append, Nat.add_assoc]
  | define body next _ ih =>
    intro count ts rest hts
    obtain ⟨t, ts, rfl, ht, hts⟩ := List.map_eq_cons_iff.1 hts
    obtain ⟨inner, ts, rfl, hinner, hts⟩ := List.map_eq_append_iff.1 hts
    obtain ⟨u, after, rfl, hu, hafter⟩ := List.map_eq_cons_iff.1 hts
    obtain ⟨o, offset⟩ := t
    obtain ⟨o', offset'⟩ := u
    subst ht hu
    -- the body is not empty, so its `)` is accepted
    have hsize : 0 + inner.length ≠ 0 := by
      have hlen : inner.length = body.operators.length := by rw [← hinner, List.length_map]
      have hne : body.operators ≠ [] := by
        intro h0
        exact hb.1.2 (Block.operators_inj hb.1.1.isItems trivial h0)
      have := List.length_pos_iff.2 hne
      omega
    rw [List.cons_append, run_cons_ok step_bodyOpen, List.append_assoc,
      run_body hb.1.1 _ _ _ hinner, List.cons_append]
    show (⟨count + 1 + inner.length, [], some ⟨offset, [], 0 + inner.length⟩⟩ : Scan).run _ = _
    rw [run_cons_ok (step_bodyClose hsize), ih hb.2 _ _ _ hafter]
    congr 2
    simp only [List.length_cons, List.length_append]
    omega

/-! ## §6. A pass that ends well has read a tree. -/

/-- A word that closes `n` loops, one after the other, each time after some
body items, and goes on as `P` says. -/
inductive Closes (P : List Operator → Prop) : Nat → List Operator → Prop
  | last {b : Block} {w : List Operator} (hb : b.IsBody) (h : P w) :
      Closes P 0 (b.operators ++ w)
  | loop {b : Block} {n : Nat} {w : List Operator} (hb : b.IsBody) (h : Closes P n w) :
      Closes P (n + 1) (b.operators ++ .loopClose :: w)

theorem Closes.simple {P : List Operator → Prop} {n : Nat} {w : List Operator} {o : Operator}
    (ho : o.isSimple) (h : Closes P n w) : Closes P n (o :: w) := by
  cases h with
  | @last b w hb h => exact .last (b := .simple o b) ⟨ho, hb⟩ h
  | @loop b n w hb h => exact .loop (b := .simple o b) ⟨ho, hb⟩ h

theorem Closes.open {P : List Operator → Prop} {n : Nat} {w : List Operator}
    (h : Closes P (n + 1) w) : Closes P n (.loopOpen :: w) := by
  cases h with
  | @loop body n w hbody h =>
    cases h with
    | @last b w hb h =>
      have := Closes.last (b := .loop body b) ⟨hbody, hb⟩ h
      simpa [Block.operators] using this
    | @loop b n w hb h =>
      have := Closes.loop (b := .loop body b) ⟨hbody, hb⟩ h
      simpa [Block.operators] using this

theorem Closes.close {P : List Operator → Prop} {n : Nat} {w : List Operator}
    (h : Closes P n w) : Closes P (n + 1) (.loopClose :: w) :=
  .loop (b := .done) trivial h

/-- What follows once the loops of the region are closed: at the root, items
to the end; in a function, its `)` and then items to the end. -/
def Ends (s : Scan) (w : List Operator) : Prop :=
  ∃ b : Block, b.IsItems
    ∧ w = if s.body.isNone then b.operators else .bodyClose :: b.operators

theorem ends_congr (s s' : Scan) (h : s.body.isNone = s'.body.isNone) : s.Ends = s'.Ends := by
  funext w
  simp only [Ends, h]

theorem isItems_append {b c : Block} (hb : b.IsBody) (hc : c.IsItems) :
    ∃ d : Block, d.IsItems ∧ d.operators = b.operators ++ c.operators := by
  induction b with
  | done => exact ⟨c, hc, rfl⟩
  | simple o next ih =>
    obtain ⟨d, hd, he⟩ := ih hb.2
    exact ⟨.simple o d, ⟨hb.1, hd⟩, by simp [Block.operators, he]⟩
  | loop body next _ ih =>
    obtain ⟨d, hd, he⟩ := ih hb.2
    exact ⟨.loop body d, ⟨hb.1, hd⟩, by simp [Block.operators, he]⟩
  | define _ _ _ _ => exact hb.elim

/-- **The invariant of the pass.**  Read from the end of the script back to
the state `s`: each operator either extends the body at the front, opens a
loop around it, or closes a loop that was open in `s`. -/
theorem closes_of_success : ∀ (ts : List Token) (s : Scan), (s.body.isSome → s.loops = []) →
    (s.run ts).isSuccess → Closes s.Ends s.region.length (ts.map (·.operator))
  | [], s, _, h => by
    obtain ⟨count, _ | ⟨j, outer⟩, _ | b⟩ := s
    · exact .last (b := .done) trivial ⟨.done, trivial, rfl⟩
    · cases h
    · simp [run, finish, List.getLast?_eq_some_getLast (List.cons_ne_nil j outer),
        Validation.failure, Validation.isSuccess] at h
    · cases h
  | t :: rest, s, hroot, h => by
    cases hstep : s.step t with
    | error report =>
      rw [run, hstep] at h
      exact absurd h (by simp [step_error hstep])
    | ok s' =>
      rw [run_cons_ok hstep] at h
      obtain ⟨ho, rfl⟩ | ⟨ho, rfl⟩ | ⟨ho, j, outer, hr, rfl⟩ | ⟨ho, hs, rfl⟩
        | ⟨ho, start, size, hsize, hs, rfl⟩ := step_cases hstep
      · have ih := closes_of_success rest _ (by simpa [advance] using hroot) h
        rw [ends_congr _ s (body_advance_isNone s 1), region_advance] at ih
        exact ih.simple ho
      · have ih := closes_of_success rest _ (loops_withRegion (by simpa [advance] using hroot)) h
        rw [ends_congr _ s (by simp), region_withRegion] at ih
        rw [List.map_cons, ho]
        exact ih.open
      · have ih := closes_of_success rest _ (loops_withRegion (by simpa [advance] using hroot)) h
        rw [ends_congr _ s (by simp), region_withRegion] at ih
        rw [List.map_cons, ho, hr]
        exact ih.close
      · -- the function's body is what closes its region, and it is not empty
        have ih := closes_of_success rest _ (fun _ => rfl) h
        generalize hw : rest.map (·.operator) = w at ih
        cases ih with
        | @last body w hbody hend =>
          obtain ⟨items, hitems, rfl⟩ := hend
          have hne : body ≠ .done := by
            rintro rfl
            obtain ⟨⟨o, offset⟩, rest, rfl, rfl, -⟩ := List.map_eq_cons_iff.1 hw
            cases h
          rw [List.map_cons, ho, hs, hw]
          exact .last (b := .done) trivial ⟨.define body items, ⟨⟨hbody, hne⟩, hitems⟩,
            by simp [Block.operators]⟩
      · have hloops : s.loops = [] := hroot (by rw [hs]; rfl)
        rw [hloops] at hs h
        have ih := closes_of_success rest _ (fun _ => rfl) h
        generalize hw : rest.map (·.operator) = w at ih
        cases ih with
        | @last body w hbody hend =>
          obtain ⟨items, hitems, rfl⟩ := hend
          obtain ⟨all, hall, he⟩ := isItems_append hbody hitems
          rw [List.map_cons, ho, hs, hw]
          exact .last (b := .done) trivial ⟨all, hall, by simp [he]⟩

end Scan

/-! ## §7. Scripts that pass. -/

theorem validate_eq_success {source : String} {b : Block} (hb : b.IsScript)
    (h : b.operators = (tokens source).map (·.operator)) :
    validate source = .success (tokens source).length := by
  have hread := Scan.run_items hb.1 0 (tokens source) [] h.symm
  rw [List.append_nil, Nat.zero_add] at hread
  have hlen : (tokens source).length ≠ 0 := by
    intro h0
    have hnil : b.operators = [] := by rw [h, List.length_eq_zero_iff.1 h0]; rfl
    exact hb.2 (Block.operators_inj hb.1 trivial hnil)
  rw [validate, Scan.start, hread]
  simp [Scan.run, Scan.finish, hlen]

/-- **A script passes iff its operators form a tree.** -/
theorem validate_isSuccess_iff {source : String} :
    (validate source).isSuccess
      ↔ ∃ b : Block, b.IsScript ∧ b.operators = (tokens source).map (·.operator) := by
  constructor
  · intro h
    have hclose := Scan.closes_of_success (tokens source) Scan.start (fun _ => rfl) h
    generalize hw : (tokens source).map (·.operator) = w at hclose
    cases hclose with
    | @last body w hbody hend =>
      obtain ⟨items, hitems, rfl⟩ := hend
      obtain ⟨b, hb, he⟩ := Scan.isItems_append hbody hitems
      refine ⟨b, ⟨hb, ?_⟩, by simp [he, Scan.start]⟩
      rintro rfl
      have hnil : tokens source = [] := List.map_eq_nil_iff.1 (hw.trans he.symm)
      rw [validate, hnil] at h
      cases h
  · rintro ⟨b, hb, he⟩
    rw [validate_eq_success hb he]
    rfl

/-- **A script that passes has exactly one tree.** -/
theorem existsUnique_tree {source : String} (h : (validate source).isSuccess) :
    ∃ b : Block, (b.IsScript ∧ b.operators = (tokens source).map (·.operator))
      ∧ ∀ b' : Block, b'.IsScript ∧ b'.operators = (tokens source).map (·.operator) → b' = b := by
  obtain ⟨b, hb, he⟩ := validate_isSuccess_iff.1 h
  exact ⟨b, ⟨hb, he⟩, fun b' hb' => Block.operators_inj hb'.1.1 hb.1 (hb'.2.trans he.symm)⟩

theorem symbols_tokensFrom (text : List Char) : ∀ start : Nat,
    ((tokensFrom start text).map (·.operator)).map Operator.symbol
      = text.filter Operator.isSymbol := by
  induction text with
  | nil => intro start; rfl
  | cons c text ih =>
    intro start
    rw [tokensFrom_cons]
    cases h : Operator.ofChar? c with
    | none =>
      have hc : Operator.isSymbol c = false := by rw [Operator.isSymbol, h]; rfl
      rw [List.filter_cons_of_neg (by simp [hc])]
      exact ih (start + 1)
    | some o =>
      have hc : Operator.isSymbol c = true := by rw [Operator.isSymbol, h]; rfl
      rw [List.filter_cons_of_pos hc, Operator.ofChar?_eq_some_iff.1 h]
      exact congrArg _ (ih (start + 1))

theorem symbols_tokens (source : String) :
    ((tokens source).map (·.operator)).map Operator.symbol
      = source.toList.filter Operator.isSymbol :=
  symbols_tokensFrom source.toList 0

theorem symbol_injective {o o' : Operator} (h : o.symbol = o'.symbol) : o = o' := by
  have := congrArg Operator.ofChar? h
  rw [Operator.ofChar?_symbol, Operator.ofChar?_symbol] at this
  exact Option.some.inj this

/-- **THE CHECK ACCEPTS EXACTLY THE GRAMMAR**: a script passes iff its
operator characters are derivable from `P`, and then the report counts
them all and names no offset. -/
theorem validate_accepts_exactly_grammar (source : String) :
    ((validate source).isSuccess ↔ Derives .script (source.toList.filter Operator.isSymbol))
      ∧ ((validate source).isSuccess →
          (validate source).count = (source.toList.filter Operator.isSymbol).length
            ∧ (validate source).offset = -1) := by
  have hsymbols := symbols_tokens source
  refine ⟨?_, ?_⟩
  · rw [validate_isSuccess_iff, derives_script_iff, ← hsymbols]
    constructor
    · rintro ⟨b, hb, he⟩
      exact ⟨b, hb, by rw [Block.text, he]⟩
    · rintro ⟨b, hb, he⟩
      exact ⟨b, hb, (List.map_inj_right fun _ _ => symbol_injective).1 he⟩
  · intro h
    obtain ⟨b, hb, he⟩ := validate_isSuccess_iff.1 h
    rw [validate_eq_success hb he, ← hsymbols, List.length_map, List.length_map]
    exact ⟨rfl, rfl⟩

end Script

end TapeMachine
