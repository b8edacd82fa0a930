/-
  TapeMachine.Proofs.Viability
  ────────────────────────────
  **ERRORS ARE REPORTED AT THE POINT OF NO RETURN.**

  A text is viable if some text behind it makes it pass the check.  The check
  stops early exactly at the first character behind which a text is not viable
  any more, and else reads on to the end.

    • `Scan.Reads` — what a state of the pass says about the text that was read,
      in terms of the text alone: which loops are open in it, and which function
      is; one character more keeps that (`Scan.Reads.comment`, `Scan.Reads.step`),
    • `Scan.exists_completion` — every state can be completed: one operator, a `]`
      for each open loop, and a `)` if a function is open,
    • `viable_iff` — so a text is viable exactly if no operator of it is refused,
    • `Scan.Reads.getLast?_region`, `Scan.Reads.abandonsLoop_iff` — the offsets that
      the pass remembers are the first open loops, whatever was opened and closed
      before.
-/
import Mathlib.Data.List.Induction
import TapeMachine.Proofs.Grammar
import TapeMachine.Proofs.OpenLoops

namespace TapeMachine

/-- The errors that are reported before the end of the script. -/
def SyntaxError.breaking : List SyntaxError :=
  [.mismatchedSquareBracket, .mismatchedParenthesis, .nestedFunction, .functionInLoop,
    .emptyFunction]

/-- The errors of a script that is only unfinished. -/
def SyntaxError.unfinished : List SyntaxError :=
  [.unclosedFunction, .unclosedLoop, .noOperators]

namespace Script

open Operator (OpenAt OpenWith FirstOpen ofChar? isSymbol)

/-! ## §1. Texts. -/

/-- Some text behind it makes the text pass the check. -/
def Viable (text : List Char) : Prop :=
  ∃ more : List Char, (validate (String.ofList (text ++ more))).isSuccess

/-- The first `n` characters are the shortest beginning that is not viable. -/
structure BreaksAt (text : List Char) (n : Nat) : Prop where
  broken : ¬ Viable (text.take n)
  viable : ∀ k, k < n → Viable (text.take k)

/-- At `i` a function is opened that is not closed. -/
def UnclosedAt (text : List Char) (i : Nat) : Prop :=
  text[i]? = some '(' ∧ ')' ∉ text.drop (i + 1)

/-- At `i` a loop is opened that is not closed, outside of all functions. -/
def OpenAtRoot (text : List Char) (i : Nat) : Prop :=
  OpenAt ofChar? text i ∧ ∀ k, ¬ UnclosedAt (text.take i) k

/-- The text ends with a `)` that closes a body with open loops, and the first
of them is opened at `i`. -/
def AbandonsLoop (text : List Char) (i : Nat) : Prop :=
  ∃ head body k, text = head ++ '(' :: (body ++ [')']) ∧ '(' ∉ body ∧ ')' ∉ body
    ∧ FirstOpen ofChar? body k ∧ i = head.length + 1 + k

theorem UnclosedAt.lt {text : List Char} {i : Nat} (h : UnclosedAt text i) : i < text.length :=
  (List.getElem?_eq_some_iff.1 h.1).1

/-- **One character more** opens a function, closes those that were open, or
leaves them. -/
theorem unclosedAt_concat {text : List Char} {c : Char} {i : Nat} :
    UnclosedAt (text ++ [c]) i ↔ (i = text.length ∧ c = '(') ∨ (UnclosedAt text i ∧ c ≠ ')') := by
  unfold UnclosedAt
  rcases Nat.lt_trichotomy i text.length with hlt | rfl | hgt
  · rw [List.getElem?_append_left hlt, List.drop_append_of_le_length hlt, List.mem_append,
      List.mem_singleton, not_or]
    constructor
    · intro ⟨hopen, hclosed, hc⟩
      exact .inr ⟨⟨hopen, hclosed⟩, fun h => hc h.symm⟩
    · rintro (⟨heq, -⟩ | ⟨⟨hopen, hclosed⟩, hc⟩)
      · omega
      · exact ⟨hopen, hclosed, fun h => hc h.symm⟩
  · rw [List.getElem?_concat_length, List.drop_of_length_le (by simp), List.getElem?_eq_none
      (Nat.le_refl _)]
    simp
  · rw [List.getElem?_eq_none (by rw [List.length_append]; exact hgt),
      List.getElem?_eq_none (Nat.le_of_lt hgt)]
    simp
    omega

/-- A character that is neither `[` nor `]` leaves the loops as they are. -/
theorem openWith_concat_flat {text : List Char} {c : Char} {k i : Nat}
    (hopen : ofChar? c ≠ some .loopOpen) (hclose : ofChar? c ≠ some .loopClose) :
    OpenWith ofChar? (text ++ [c]) k i ↔ OpenWith ofChar? text k i := by
  have hdepth : ∀ n, Operator.depth? n (ofChar? c).toList = some n := by
    intro n
    cases hc : ofChar? c with
    | none => rfl
    | some o =>
      cases o with
      | loopOpen => exact absurd hc hopen
      | loopClose => exact absurd hc hclose
      | _ => cases n <;> rfl
  simp [Operator.openWith_concat, hopen, hdepth]

theorem openWith_concat_open {text : List Char} {c : Char} {k i : Nat}
    (hc : ofChar? c = some .loopOpen) : OpenWith ofChar? (text ++ [c]) k i
      ↔ (i = text.length ∧ k = 0) ∨ ∃ n, k = n + 1 ∧ OpenWith ofChar? text n i := by
  rw [Operator.openWith_concat, hc]
  constructor
  · rintro (⟨hi, -, hk⟩ | ⟨n, hn, hk⟩)
    · exact .inl ⟨hi, hk⟩
    · exact .inr ⟨n, (Option.some.inj hk).symm, hn⟩
  · rintro (⟨hi, hk⟩ | ⟨n, rfl, hn⟩)
    · exact .inl ⟨hi, rfl, hk⟩
    · exact .inr ⟨n, hn, rfl⟩

theorem openWith_concat_close {text : List Char} {c : Char} {k i : Nat}
    (hc : ofChar? c = some .loopClose) :
    OpenWith ofChar? (text ++ [c]) k i ↔ OpenWith ofChar? text (k + 1) i := by
  rw [Operator.openWith_concat, hc]
  constructor
  · rintro (⟨-, hopen, -⟩ | ⟨n, hn, hk⟩)
    · cases hopen
    · -- the innermost loop is closed
      cases n with
      | zero => cases hk
      | succ n =>
        obtain rfl : n = k := Option.some.inj hk
        exact hn
  · intro hn
    exact .inr ⟨k + 1, hn, rfl⟩

/-! ## §2. The pass, without the report at the end. -/

namespace Scan

/-- Reads operators: the state behind them, or the report on the first that is
refused. -/
def read (s : Scan) : List Token → Except Validation Scan
  | [] => .ok s
  | t :: rest => (s.step t).bind fun s' => s'.read rest

theorem read_append (xs ys : List Token) : ∀ s : Scan,
    s.read (xs ++ ys) = (s.read xs).bind fun s' => s'.read ys := by
  induction xs with
  | nil =>
    intro s
    rfl
  | cons t xs ih =>
    intro s
    show (s.step t).bind (fun s' => s'.read (xs ++ ys))
      = ((s.step t).bind fun s' => s'.read xs).bind fun s' => s'.read ys
    cases s.step t with
    | error report => rfl
    | ok s' => exact ih s'

theorem run_of_read {s' : Scan} (xs ys : List Token) : ∀ s : Scan, s.read xs = .ok s' →
    s.run (xs ++ ys) = s'.run ys := by
  induction xs with
  | nil =>
    intro s h
    cases h
    rfl
  | cons t xs ih =>
    intro s h
    have hbind : (s.step t).bind (fun s' => s'.read xs) = .ok s' := h
    cases hstep : s.step t with
    | error report =>
      rw [hstep] at hbind
      cases hbind
    | ok s₁ =>
      rw [hstep] at hbind
      rw [List.cons_append, run_cons_ok hstep]
      exact ih s₁ hbind

theorem run_of_refused {report : Validation} (xs ys : List Token) : ∀ s : Scan,
    s.read xs = .error report → s.run (xs ++ ys) = report ∧ report.isSuccess = false := by
  induction xs with
  | nil =>
    intro s h
    cases h
  | cons t xs ih =>
    intro s h
    have hbind : (s.step t).bind (fun s' => s'.read xs) = .error report := h
    cases hstep : s.step t with
    | error report' =>
      rw [hstep] at hbind
      cases hbind
      refine ⟨?_, step_error hstep⟩
      rw [List.cons_append, run, hstep]
    | ok s₁ =>
      rw [hstep] at hbind
      rw [List.cons_append, run_cons_ok hstep]
      exact ih s₁ hbind

end Scan

/-- What the pass makes of a text. -/
def reading (text : List Char) : Except Validation Scan := Scan.start.read (tokensFrom 0 text)

theorem reading_concat_comment {text : List Char} {c : Char} (hc : ofChar? c = none) :
    reading (text ++ [c]) = reading text := by
  unfold reading
  rw [tokensFrom_append, tokensFrom_cons, hc]
  show Scan.start.read (tokensFrom 0 text ++ []) = _
  rw [List.append_nil]

theorem reading_concat {text : List Char} {c : Char} {o : Operator} (hc : ofChar? c = some o) :
    reading (text ++ [c]) = (reading text).bind fun s => s.step ⟨o, text.length⟩ := by
  unfold reading
  rw [tokensFrom_append, tokensFrom_cons, hc, Scan.read_append]
  congr 1
  funext s
  show (s.step ⟨o, 0 + text.length⟩).bind .ok = _
  rw [Nat.zero_add]
  cases s.step ⟨o, text.length⟩ <;> rfl

/-- **Either all of a text is read, or one of its operators is refused.** -/
theorem reading_cases (text : List Char) : (∃ s, reading text = .ok s)
    ∨ ∃ front c back o s report, text = front ++ c :: back ∧ ofChar? c = some o
      ∧ reading front = .ok s ∧ s.step ⟨o, front.length⟩ = .error report
      ∧ reading text = .error report := by
  -- from the end: the last character matters only if all before it was read
  induction text using List.reverseRecOn with
  | nil => exact .inl ⟨_, rfl⟩
  | append_singleton text c ih =>
    rcases ih with ⟨s, hs⟩ | ⟨front, c', back, o, s, report, rfl, hc, hfront, hstep, htext⟩
    · cases hc : ofChar? c with
      | none => exact .inl ⟨s, by rw [reading_concat_comment hc, hs]⟩
      | some o =>
        have hconcat : reading (text ++ [c]) = _ := reading_concat hc
        rw [hs] at hconcat
        cases hstep : s.step ⟨o, text.length⟩ with
        | ok s' => exact .inl ⟨s', hconcat.trans hstep⟩
        | error report =>
          exact .inr ⟨text, c, [], o, s, report, rfl, hc, hs, hstep, hconcat.trans hstep⟩
    · refine .inr ⟨front, c', back ++ [c], o, s, report, by simp, hc, hfront, hstep, ?_⟩
      cases hlast : ofChar? c with
      | none => rw [reading_concat_comment hlast, htext]
      | some o' =>
        rw [reading_concat hlast, htext]
        rfl

/-- The report on a text of which an operator is refused, whatever follows. -/
theorem validate_of_refused {text : List Char} {report : Validation}
    (h : reading text = .error report) (more : List Char) :
    validate (String.ofList (text ++ more)) = report ∧ report.isSuccess = false := by
  unfold validate tokens
  rw [String.toList_ofList, tokensFrom_append]
  exact Scan.run_of_refused _ _ _ h

theorem validate_of_read {text : List Char} {s : Scan} (h : reading text = .ok s)
    (more : List Char) :
    validate (String.ofList (text ++ more)) = s.run (tokensFrom text.length more) := by
  unfold validate tokens
  rw [String.toList_ofList, tokensFrom_append, Nat.zero_add]
  exact Scan.run_of_read _ _ _ h

/-! ## §3. What a state says about the text. -/

namespace Scan

/-- Where the open function starts. -/
def start? (s : Scan) : Option Nat := s.body.map (·.start)

@[simp] theorem start?_advance (s : Scan) (n : Nat) : (s.advance n).start? = s.start? := by
  obtain ⟨count, loops, _ | b⟩ := s <;> rfl

@[simp] theorem start?_withRegion (s : Scan) (loops : List Nat) :
    (s.withRegion loops).start? = s.start? := by
  obtain ⟨count, _, _ | b⟩ := s <;> rfl

@[simp] theorem count_withRegion (s : Scan) (loops : List Nat) :
    (s.withRegion loops).count = s.count := by
  obtain ⟨count, _, _ | b⟩ := s <;> rfl

@[simp] theorem withRegion_region (s : Scan) : s.withRegion s.region = s := by
  obtain ⟨count, loops, _ | b⟩ := s <;> rfl

theorem loops_advance {s : Scan} {n : Nat} (h : s.body.isSome → s.loops = []) :
    (s.advance n).body.isSome → (s.advance n).loops = [] := by
  obtain ⟨count, loops, _ | b⟩ := s
  · intro hs
    cases hs
  · exact h

/-- **What a state says about the text that was read.** -/
structure Reads (text : List Char) (s : Scan) : Prop where
  count : s.count = text.countP isSymbol
  /-- A function is not opened in a loop. -/
  loops : s.body.isSome → s.loops = []
  /-- The loops that are open, innermost first. -/
  region : ∀ k i, s.region[k]? = some i ↔ OpenWith ofChar? text k i
  sorted : s.region.Pairwise (· > ·)
  /-- The function that is open. -/
  unclosed : ∀ i, UnclosedAt text i ↔ s.start? = some i
  /-- Its loops are opened in it. -/
  inside : ∀ start, s.start? = some start → ∀ i ∈ s.region, start < i
  /-- The other loops are opened outside of all functions. -/
  outside : s.start? = none → ∀ i ∈ s.region, ∀ k, ¬ UnclosedAt (text.take i) k

variable {text : List Char} {c : Char} {s s' : Scan}

theorem reads_start : Scan.start.Reads [] where
  count := rfl
  loops := fun h => by cases h
  region := by
    intro k i
    show none = some i ↔ _
    simp [OpenWith]
  sorted := .nil
  unclosed := by
    intro i
    show _ ↔ none = some i
    simp [UnclosedAt]
  inside := fun _ h => by cases h
  outside := fun _ _ h => by cases h

theorem Reads.mem_region (h : s.Reads text) {i : Nat} :
    i ∈ s.region ↔ OpenAt ofChar? text i := by
  rw [Operator.openAt_iff, List.mem_iff_getElem?]
  exact exists_congr fun k => h.region k i

theorem Reads.lt_length (h : s.Reads text) {i : Nat} (hi : i ∈ s.region) : i < text.length := by
  obtain ⟨k, hk⟩ := Operator.openAt_iff.1 (h.mem_region.1 hi)
  exact hk.lt

/-- **A character that is no parenthesis**, if the loops that are open behind it
are those the state has. -/
theorem Reads.of_region (h : s.Reads text) (hopen : c ≠ '(') (hclose : c ≠ ')')
    (hcount : s'.count = (text ++ [c]).countP isSymbol) (hstart : s'.start? = s.start?)
    (hloops : s'.body.isSome → s'.loops = [])
    (hregion : ∀ k i, s'.region[k]? = some i ↔ OpenWith ofChar? (text ++ [c]) k i)
    (hsorted : s'.region.Pairwise (· > ·))
    (hmem : ∀ i ∈ s'.region, i ∈ s.region ∨ i = text.length) : s'.Reads (text ++ [c]) where
  count := hcount
  loops := hloops
  region := hregion
  sorted := hsorted
  unclosed := by
    intro i
    rw [unclosedAt_concat, hstart, ← h.unclosed]
    simp [hopen, hclose]
  inside := by
    intro start hs i hi
    rw [hstart] at hs
    rcases hmem i hi with hi | rfl
    · exact h.inside start hs i hi
    · exact ((h.unclosed start).2 hs).lt
  outside := by
    intro hs i hi k
    rw [hstart] at hs
    rcases hmem i hi with hi | rfl
    · rw [List.take_append_of_le_length (Nat.le_of_lt (h.lt_length hi))]
      exact h.outside hs i hi k
    · -- a loop that is opened now: no function is open
      rw [List.take_left, h.unclosed, hs]
      simp

/-- A comment changes nothing. -/
theorem Reads.comment (h : s.Reads text) (hc : ofChar? c = none) : s.Reads (text ++ [c]) := by
  have hne : ∀ o : Operator, c ≠ o.symbol := by
    intro o ho
    rw [ho, Operator.ofChar?_symbol] at hc
    cases hc
  refine h.of_region (hne .bodyOpen) (hne .bodyClose) ?_ rfl h.loops ?_ h.sorted fun i hi => .inl hi
  · rw [List.countP_append, h.count]
    simp [isSymbol, hc]
  · intro k i
    rw [h.region, openWith_concat_flat (by simp [hc]) (by simp [hc])]

/-- A `(` at the root. -/
theorem Reads.bodyOpen {count : Nat} (h : (⟨count, [], none⟩ : Scan).Reads text)
    (hcount : count + 1 = (text ++ ['(']).countP isSymbol) :
    (⟨count + 1, [], some ⟨text.length, [], 0⟩⟩ : Scan).Reads (text ++ ['(']) where
  count := hcount
  loops := fun _ => rfl
  region := by
    intro k i
    rw [openWith_concat_flat (by decide) (by decide)]
    exact h.region k i
  sorted := .nil
  unclosed := by
    intro i
    have hbefore : ¬ UnclosedAt text i := by
      rw [h.unclosed]
      simp [start?]
    rw [unclosedAt_concat]
    simp [start?, hbefore, eq_comm]
  inside := fun _ _ _ hi => by cases hi
  outside := fun hs => by cases hs

/-- A `)` behind a body that leaves no loop open. -/
theorem Reads.bodyClose {count start size : Nat} {loops : List Nat}
    (h : (⟨count, loops, some ⟨start, [], size⟩⟩ : Scan).Reads text)
    (hcount : count + 1 = (text ++ [')']).countP isSymbol) :
    (⟨count + 1, loops, none⟩ : Scan).Reads (text ++ [')']) := by
  obtain rfl : loops = [] := h.loops rfl
  refine ⟨hcount, fun hs => (by cases hs), ?_, .nil, ?_, fun _ hs => (by cases hs),
    fun _ _ hi => (by cases hi)⟩
  · intro k i
    rw [openWith_concat_flat (by decide) (by decide)]
    exact h.region k i
  · intro i
    rw [unclosedAt_concat]
    simp [start?]

/-- **An operator that is not refused keeps what the state says true.** -/
theorem Reads.step {o : Operator} (h : s.Reads text) (hc : ofChar? c = some o)
    (hstep : s.step ⟨o, text.length⟩ = .ok s') : s'.Reads (text ++ [c]) := by
  have hcount : s.count + 1 = (text ++ [c]).countP isSymbol := by
    rw [List.countP_append, h.count]
    simp [isSymbol, hc]
  have hne : ∀ o' : Operator, o ≠ o' → c ≠ o'.symbol := by
    intro o' ho hsymbol
    rw [hsymbol, Operator.ofChar?_symbol] at hc
    exact ho (Option.some.inj hc).symm
  -- the operators that leave the function as it is
  have hmove : ∀ loops : List Nat, o ≠ .bodyOpen → o ≠ .bodyClose →
      (∀ k i, loops[k]? = some i ↔ OpenWith ofChar? (text ++ [c]) k i) →
      loops.Pairwise (· > ·) → (∀ i ∈ loops, i ∈ s.region ∨ i = text.length) →
      ((s.advance 1).withRegion loops).Reads (text ++ [c]) := by
    intro loops hopen hclose hregion hsorted hmem
    refine h.of_region (hne _ hopen) (hne _ hclose) ?_ ?_
      (loops_withRegion (loops_advance h.loops)) ?_ ?_ ?_
    · rw [count_withRegion]
      exact hcount
    · rw [start?_withRegion, start?_advance]
    all_goals rwa [region_withRegion]
  rcases step_cases hstep with ⟨ho, rfl⟩ | ⟨ho, rfl⟩ | ⟨ho, j, outer, hregion, rfl⟩
    | ⟨ho, hs, rfl⟩ | ⟨ho, start, size, -, hs, rfl⟩
  · -- all loops stay open
    have hsimple : ∀ o' : Operator, o'.isSimple = false → o ≠ o' := by
      rintro o' ho' rfl
      rw [show o.isSimple = true from ho] at ho'
      cases ho'
    have hsame := hmove s.region (hsimple _ rfl) (hsimple _ rfl) ?_ h.sorted
      fun i hi => .inl hi
    · rw [← region_advance s 1, withRegion_region] at hsame
      exact hsame
    · intro k i
      rw [h.region, openWith_concat_flat] <;> rw [hc] <;> intro heq <;>
        exact hsimple _ rfl (Option.some.inj heq)
  · -- a loop more
    obtain rfl : o = .loopOpen := ho
    refine hmove _ (by decide) (by decide) ?_ ?_ ?_
    · intro k i
      rw [openWith_concat_open hc]
      cases k with
      | zero => simp [eq_comm]
      | succ k => simp [h.region]
    · exact List.pairwise_cons.2 ⟨fun i hi => h.lt_length hi, h.sorted⟩
    · intro i hi
      rcases List.mem_cons.1 hi with rfl | hi
      · exact .inr rfl
      · exact .inl hi
  · -- a loop less
    obtain rfl : o = .loopClose := ho
    have hsorted := h.sorted
    rw [hregion] at hsorted
    refine hmove _ (by decide) (by decide) ?_ (List.pairwise_cons.1 hsorted).2 ?_
    · intro k i
      rw [openWith_concat_close hc, ← h.region, hregion, List.getElem?_cons_succ]
    · intro i hi
      exact .inl (by rw [hregion]; exact List.mem_cons_of_mem j hi)
  · obtain rfl : o = .bodyOpen := ho
    obtain rfl : c = '(' := Operator.ofChar?_eq_some_iff.1 hc
    rw [hs] at h
    exact h.bodyOpen hcount
  · obtain rfl : o = .bodyClose := ho
    obtain rfl : c = ')' := Operator.ofChar?_eq_some_iff.1 hc
    rw [hs] at h
    exact h.bodyClose hcount

end Scan

/-- **Whatever text was read, the state behind it describes it.** -/
theorem reads_of_reading (text : List Char) : ∀ {s : Scan}, reading text = .ok s →
    s.Reads text := by
  induction text using List.reverseRecOn with
  | nil =>
    intro s hs
    cases hs
    exact Scan.reads_start
  | append_singleton text c ih =>
    intro s hs
    cases hc : ofChar? c with
    | none =>
      rw [reading_concat_comment hc] at hs
      exact (ih hs).comment hc
    | some o =>
      rw [reading_concat hc] at hs
      cases htext : reading text with
      | error report =>
        rw [htext] at hs
        cases hs
      | ok s₁ =>
        rw [htext] at hs
        exact (ih htext).step hc hs

/-! ## §4. Every state can be completed. -/

/-- Behind an operator, a `]` for each open loop and a `)` for the open function
are enough. -/
theorem Scan.exists_closing (loops : List Nat) : ∀ s : Scan, (s.body.isSome → s.loops = []) →
    ∃ more : List Char, ∀ start,
      (((s.advance 1).withRegion loops).run (tokensFrom start more)).isSuccess := by
  induction loops with
  | nil =>
    intro s hloops
    obtain ⟨count, loops, _ | ⟨first, inner, size⟩⟩ := s
    · exact ⟨[], fun start => rfl⟩
    · obtain rfl : loops = [] := hloops rfl
      refine ⟨[')'], fun start => ?_⟩
      show ((⟨count + 1, [], some ⟨first, [], size + 1⟩⟩ : Scan).run
        [⟨.bodyClose, start⟩]).isSuccess
      rw [run_cons_ok (step_bodyClose (Nat.succ_ne_zero size))]
      rfl
  | cons j outer ih =>
    intro s hloops
    obtain ⟨more, hmore⟩ := ih ((s.advance 1).withRegion (j :: outer))
      (loops_withRegion (loops_advance hloops))
    refine ⟨']' :: more, fun start => ?_⟩
    show (((s.advance 1).withRegion (j :: outer)).run
      (⟨.loopClose, start⟩ :: tokensFrom (start + 1) more)).isSuccess
    rw [run_cons_ok (step_loopClose _ rfl (region_withRegion _ _))]
    exact hmore (start + 1)

/-- **Every state can be completed**, with one operator more in front. -/
theorem Scan.exists_completion {s : Scan} (hloops : s.body.isSome → s.loops = []) :
    ∃ more : List Char, ∀ start, (s.run (tokensFrom start more)).isSuccess := by
  obtain ⟨more, hmore⟩ := exists_closing s.region s hloops
  rw [← region_advance s 1, withRegion_region] at hmore
  refine ⟨'+' :: more, fun start => ?_⟩
  show (s.run (⟨.inc, start⟩ :: tokensFrom (start + 1) more)).isSuccess
  rw [run_cons_ok (step_simple s rfl)]
  exact hmore (start + 1)

/-- **A text is viable exactly if none of its operators is refused.** -/
theorem viable_iff {text : List Char} : Viable text ↔ ∃ s, reading text = .ok s := by
  constructor
  · rintro ⟨more, hmore⟩
    cases htext : reading text with
    | ok s => exact ⟨s, rfl⟩
    | error report =>
      obtain ⟨hreport, hfail⟩ := validate_of_refused htext more
      rw [hreport, hfail] at hmore
      cases hmore
  · rintro ⟨s, hs⟩
    obtain ⟨more, hmore⟩ := Scan.exists_completion (reads_of_reading text hs).loops
    exact ⟨more, by rw [validate_of_read hs]; exact hmore _⟩

/-- So a beginning of a viable text is viable. -/
theorem Viable.take {text : List Char} (h : Viable text) (k : Nat) : Viable (text.take k) := by
  obtain ⟨more, hmore⟩ := h
  refine ⟨text.drop k ++ more, ?_⟩
  rwa [← List.append_assoc, List.take_append_drop]

/-! ## §5. Offsets. -/

/-- The last of numbers that get less is the least. -/
theorem getLast?_eq_some_iff_least {l : List Nat} (h : l.Pairwise (· > ·)) {i : Nat} :
    l.getLast? = some i ↔ i ∈ l ∧ ∀ j, j < i → j ∉ l := by
  induction l using List.reverseRecOn with
  | nil => simp
  | append_singleton l x _ =>
    have hbehind : ∀ j ∈ l, j > x := fun j hj => (List.pairwise_append.1 h).2.2 j hj x (by simp)
    rw [List.getLast?_concat]
    constructor
    · intro hx
      obtain rfl := Option.some.inj hx
      refine ⟨by simp, ?_⟩
      intro j hj hmem
      rcases List.mem_append.1 hmem with hmem | hmem
      · have := hbehind j hmem
        omega
      · have := List.mem_singleton.1 hmem
        omega
    · intro ⟨hmem, hleast⟩
      rcases List.mem_append.1 hmem with hmem | hmem
      · exact absurd (by simp) (hleast x (hbehind i hmem))
      · rw [List.mem_singleton.1 hmem]

namespace Scan.Reads

variable {text : List Char} {c : Char} {s : Scan} {i : Nat}

/-- **The outermost loop that the state remembers is the first that is open.** -/
theorem getLast?_region (h : s.Reads text) :
    s.region.getLast? = some i ↔ FirstOpen ofChar? text i := by
  rw [getLast?_eq_some_iff_least h.sorted]
  unfold FirstOpen
  simp only [h.mem_region]

/-- In the body of the open function there is no parenthesis. -/
theorem body_parenthesis (h : s.Reads text) {start : Nat} (hs : s.start? = some start) :
    '(' ∉ text.drop (start + 1) ∧ ')' ∉ text.drop (start + 1) := by
  obtain ⟨-, hclosed⟩ := (h.unclosed start).2 hs
  refine ⟨?_, hclosed⟩
  intro hmem
  -- another `(` would be open too
  obtain ⟨k, hk⟩ := List.mem_iff_getElem?.1 hmem
  rw [List.getElem?_drop] at hk
  have hopen : UnclosedAt text (start + 1 + k) := by
    refine ⟨hk, fun hmem' => hclosed ?_⟩
    rw [show start + 1 + k + 1 = start + 1 + (k + 1) by omega, ← List.drop_drop] at hmem'
    exact List.mem_of_mem_drop hmem'
  rw [h.unclosed, hs] at hopen
  have : start = start + 1 + k := Option.some.inj hopen
  omega

/-- The loops that are open are open in the body of the function. -/
theorem firstOpen_body (h : s.Reads text) {start k : Nat} (hs : s.start? = some start) :
    FirstOpen ofChar? (text.drop (start + 1)) k ↔ FirstOpen ofChar? text (start + 1 + k) := by
  have hlt := ((h.unclosed start).2 hs).lt
  have hshift : ∀ j, OpenAt ofChar? (text.drop (start + 1)) j
      ↔ OpenAt ofChar? text (start + 1 + j) := by
    intro j
    have hlength : (text.take (start + 1)).length = start + 1 := by
      rw [List.length_take]
      omega
    rw [Operator.openAt_iff, Operator.openAt_iff]
    refine exists_congr fun n => ?_
    have happend := Operator.openWith_append (f := ofChar?) (i := j) (k := n)
      (text.take (start + 1)) (text.drop (start + 1))
    rw [List.take_append_drop, hlength] at happend
    exact happend.symm
  constructor
  · rintro ⟨hopen, hfirst⟩
    refine ⟨(hshift k).1 hopen, ?_⟩
    intro j hj hopen'
    have hinside := h.inside start hs j (h.mem_region.2 hopen')
    refine hfirst (j - (start + 1)) (by omega) ((hshift _).2 ?_)
    rwa [show start + 1 + (j - (start + 1)) = j by omega]
  · rintro ⟨hopen, hfirst⟩
    exact ⟨(hshift k).2 hopen, fun j hj hopen' => hfirst _ (by omega) ((hshift j).1 hopen')⟩

/-- **A `)` abandons a loop exactly if the state remembers one in the open
function.** -/
theorem abandonsLoop_iff (h : s.Reads text) :
    AbandonsLoop (text ++ [c]) i ↔ c = ')' ∧ s.start?.isSome ∧ s.region.getLast? = some i := by
  constructor
  · rintro ⟨head, body, k, heq, hopen, hclose, hfirst, rfl⟩
    rw [← List.cons_append, ← List.append_assoc] at heq
    obtain ⟨rfl, hc⟩ := List.append_inj' heq rfl
    have hbody : (head ++ '(' :: body).drop (head.length + 1) = body := by simp
    have hs : s.start? = some head.length := by
      rw [← h.unclosed]
      refine ⟨by simp, ?_⟩
      rw [hbody]
      exact hclose
    rw [h.getLast?_region, ← h.firstOpen_body hs, hbody, hs]
    exact ⟨(List.cons.inj hc).1, rfl, hfirst⟩
  · rintro ⟨rfl, hsome, hlast⟩
    obtain ⟨start, hs⟩ := Option.isSome_iff_exists.1 hsome
    obtain ⟨hstart, hentry⟩ := List.getElem?_eq_some_iff.1 ((h.unclosed start).2 hs).1
    obtain ⟨hopen, hclose⟩ := h.body_parenthesis hs
    have hfirst := h.getLast?_region.1 hlast
    have hinside := h.inside start hs i (h.mem_region.2 hfirst.1)
    refine ⟨text.take start, text.drop (start + 1), i - (start + 1), ?_, hopen, hclose, ?_, ?_⟩
    · rw [← List.cons_append, ← List.append_assoc, ← hentry, ← List.drop_eq_getElem_cons hstart,
        List.take_append_drop]
    · rw [h.firstOpen_body hs, show start + 1 + (i - (start + 1)) = i by omega]
      exact hfirst
    · rw [List.length_take]
      omega

end Scan.Reads

/-- **What is reported on an operator that is refused.** -/
theorem Scan.report_of_step {s : Scan} {t : Token} {report : Validation}
    (h : s.step t = .error report) :
    (∃ error ∈ SyntaxError.breaking, report.error = some error) ∧ report.count = s.count + 1
      ∧ ((t.operator = .bodyClose ∧ s.start?.isSome ∧ ∃ i : Nat, s.region.getLast? = some i
            ∧ report.offset = i)
          ∨ (report.offset = t.offset
            ∧ (t.operator = .bodyClose → s.start?.isSome → s.region.getLast? = none))) := by
  obtain ⟨o, offset⟩ := t
  obtain ⟨count, loops, _ | ⟨start, inner, size⟩⟩ := s
  · cases o with
    | loopClose =>
      cases loops with
      | nil =>
        cases h
        exact ⟨⟨_, by decide, rfl⟩, rfl, .inr ⟨rfl, fun ho => by cases ho⟩⟩
      | cons j outer => cases h
    | bodyOpen =>
      cases loops with
      | nil => cases h
      | cons j outer =>
        cases h
        exact ⟨⟨_, by decide, rfl⟩, rfl, .inr ⟨rfl, fun ho => by cases ho⟩⟩
    | bodyClose =>
      cases h
      exact ⟨⟨_, by decide, rfl⟩, rfl, .inr ⟨rfl, fun _ hs => by cases hs⟩⟩
    | _ => cases h
  · cases o with
    | loopClose =>
      cases inner with
      | nil =>
        cases h
        exact ⟨⟨_, by decide, rfl⟩, rfl, .inr ⟨rfl, fun ho => by cases ho⟩⟩
      | cons j outer => cases h
    | bodyOpen =>
      cases h
      exact ⟨⟨_, by decide, rfl⟩, rfl, .inr ⟨rfl, fun ho => by cases ho⟩⟩
    | bodyClose =>
      unfold step at h
      dsimp only at h
      cases hlast : inner.getLast? with
      | some i =>
        rw [hlast] at h
        cases h
        exact ⟨⟨_, by decide, rfl⟩, rfl, .inl ⟨rfl, rfl, i, hlast, rfl⟩⟩
      | none =>
        rw [hlast] at h
        dsimp only at h
        split at h
        · cases h
          exact ⟨⟨_, by decide, rfl⟩, rfl, .inr ⟨rfl, fun _ _ => hlast⟩⟩
        · cases h
    | _ => cases h

/-! ## §6. The result. -/

/-- A report points at the character behind which the text is not viable any
more, at offset `n`; or, if that is a `)` that closes a body with open loops, at
the first of those. -/
structure PointsAtBreak (text : List Char) (report : Validation) (n : Nat) : Prop where
  breaks : BreaksAt text (n + 1)
  count : report.count = (text.take (n + 1)).countP isSymbol
  abandoned : ∀ i : Nat, AbandonsLoop (text.take (n + 1)) i → report.offset = i
  character : (¬ ∃ i, AbandonsLoop (text.take (n + 1)) i) → report.offset = n

/-- A report points at what the whole of the text leaves open: the `(` that is
not closed, the first `[` of the root that is not closed, or nothing. -/
structure PointsAtOpen (text : List Char) (report : Validation) : Prop where
  count : report.count = text.countP isSymbol
  function : report.error = some .unclosedFunction →
    ∃ i : Nat, report.offset = i ∧ ∀ j, UnclosedAt text j ↔ j = i
  loop : report.error = some .unclosedLoop →
    ∃ i : Nat, report.offset = i ∧ OpenAtRoot text i ∧ ∀ j, j < i → ¬ OpenAtRoot text j
  nothing : report.error = some .noOperators → report.offset = -1

/-- **The report on an operator that is refused points at it.** -/
theorem Scan.Reads.pointsAtBreak {front back : List Char} {c : Char} {o : Operator} {s : Scan}
    {report : Validation} (h : s.Reads front) (hfront : reading front = .ok s)
    (hc : ofChar? c = some o) (hstep : s.step ⟨o, front.length⟩ = .error report) :
    PointsAtBreak (front ++ c :: back) report front.length := by
  have htake : (front ++ c :: back).take (front.length + 1) = front ++ [c] := by
    rw [List.take_length_add_append]
    rfl
  obtain ⟨-, hcount, hoffset⟩ := report_of_step hstep
  refine ⟨⟨?_, ?_⟩, ?_, ?_, ?_⟩
  · rw [htake, viable_iff, reading_concat hc, hfront]
    rintro ⟨s', hs'⟩
    rw [show s.step ⟨o, front.length⟩ = .ok s' from hs'] at hstep
    cases hstep
  · intro k hk
    rw [List.take_append_of_le_length (Nat.le_of_lt_succ hk)]
    exact (viable_iff.2 ⟨s, hfront⟩).take k
  · rw [htake, List.countP_append, hcount, h.count]
    simp [isSymbol, hc]
  · -- a `)` that abandons a loop is reported at the loop
    intro i habandons
    rw [htake, h.abandonsLoop_iff] at habandons
    obtain ⟨rfl, hsome, hlast⟩ := habandons
    rcases hoffset with ⟨-, -, j, hlast', hj⟩ | ⟨-, hnone⟩
    · rw [hlast] at hlast'
      cases hlast'
      exact hj
    · obtain rfl : .bodyClose = o := Option.some.inj hc
      rw [hnone rfl hsome] at hlast
      cases hlast
  · intro hnone
    rcases hoffset with ⟨ho, hsome, i, hlast, -⟩ | ⟨hoffset, -⟩
    · obtain rfl : o = .bodyClose := ho
      refine absurd ⟨i, ?_⟩ hnone
      rw [htake, h.abandonsLoop_iff]
      exact ⟨Operator.ofChar?_eq_some_iff.1 hc, hsome, hlast⟩
    · exact hoffset

/-- **The report at the end points at what is open.** -/
theorem Scan.Reads.pointsAtOpen {text : List Char} {s : Scan} (h : s.Reads text)
    (hfail : s.finish.isSuccess = false) :
    (∃ error ∈ SyntaxError.unfinished, s.finish.error = some error)
      ∧ PointsAtOpen text s.finish := by
  obtain ⟨count, loops, _ | b⟩ := s
  · cases hlast : loops.getLast? with
    | some i =>
      -- an open loop of the root
      have hfinish : (⟨count, loops, none⟩ : Scan).finish = .failure .unclosedLoop i count := by
        unfold finish
        dsimp only
        rw [hlast]
      have hfirst := h.getLast?_region.1 hlast
      rw [hfinish]
      refine ⟨⟨_, by decide, rfl⟩, h.count, fun herror => (by cases herror), ?_,
        fun herror => (by cases herror)⟩
      intro _
      refine ⟨i, rfl, ⟨hfirst.1, h.outside rfl i (h.mem_region.2 hfirst.1)⟩, ?_⟩
      intro j hj hopen
      exact hfirst.2 j hj hopen.1
    | none =>
      have hfinish : (⟨count, loops, none⟩ : Scan).finish
          = if count = 0 then ⟨some .noOperators, -1, 0⟩ else .success count := by
        unfold finish
        dsimp only
        rw [hlast]
      rw [hfinish] at hfail ⊢
      split at hfail
      · next h0 =>
        rw [if_pos h0]
        refine ⟨⟨_, by decide, rfl⟩, ?_, fun herror => (by cases herror),
          fun herror => (by cases herror), fun _ => rfl⟩
        show 0 = _
        rw [← h.count]
        exact h0.symm
      · cases hfail
  · -- an open function, whatever its loops
    refine ⟨⟨.unclosedFunction, by decide, rfl⟩, h.count, ?_, fun herror => (by cases herror),
      fun herror => (by cases herror)⟩
    intro _
    refine ⟨b.start, rfl, fun j => ?_⟩
    rw [h.unclosed]
    show some b.start = some j ↔ j = b.start
    rw [Option.some.injEq, eq_comm]

/-- **Errors are reported at the point of no return.**  Of every script that does
not pass the check: the error is one that is reported before the end exactly if no
text behind the script makes it pass.  Then the operators are counted up to the
end of the shortest beginning for which that is so, and the offset is that of its
last character; if that is a `)` that closes a body with open loops, it is the
offset of the first of them.  The error is one of an unfinished script exactly if
some text behind it makes it pass.  Then all operators are counted, and the offset
is that of the `(` that is not closed, that of the first `[` of the root that is not
closed, or −1. -/
theorem errors_mark_the_point_of_no_return (source : String)
    (h : (validate source).isSuccess = false) :
    ∃ error, (validate source).error = some error
      ∧ (error ∈ SyntaxError.breaking ↔ ¬ Viable source.toList)
      ∧ (error ∈ SyntaxError.unfinished ↔ Viable source.toList)
      ∧ (¬ Viable source.toList → ∃ n, PointsAtBreak source.toList (validate source) n)
      ∧ (Viable source.toList → PointsAtOpen source.toList (validate source)) := by
  have hdisjoint : ∀ error ∈ SyntaxError.breaking, error ∉ SyntaxError.unfinished := by decide
  have hsource : String.ofList (source.toList ++ []) = source := by simp
  rcases reading_cases source.toList with
    ⟨s, hs⟩ | ⟨front, c, back, o, s, report, htext, hc, hfront, hstep, hreading⟩
  · -- all of it is read
    have hviable : Viable source.toList := viable_iff.2 ⟨s, hs⟩
    have hfinish : validate source = s.finish := by
      have hrun := validate_of_read hs []
      rw [hsource] at hrun
      exact hrun
    rw [hfinish] at h ⊢
    obtain ⟨⟨error, hmem, herror⟩, hpoints⟩ := (reads_of_reading _ hs).pointsAtOpen h
    refine ⟨error, herror, ?_, ?_, fun hbroken => absurd hviable hbroken, fun _ => hpoints⟩
    · exact ⟨fun hbreaking => absurd hmem (hdisjoint error hbreaking),
        fun hbroken => absurd hviable hbroken⟩
    · exact ⟨fun _ => hviable, fun _ => hmem⟩
  · -- an operator is refused
    have hbroken : ¬ Viable source.toList := by
      rw [viable_iff, hreading]
      rintro ⟨s', hs'⟩
      cases hs'
    have hreport : validate source = report := by
      have hrun := (validate_of_refused hreading []).1
      rw [hsource] at hrun
      exact hrun
    obtain ⟨⟨error, hmem, herror⟩, -⟩ := Scan.report_of_step hstep
    have hpoints : PointsAtBreak (front ++ c :: back) report front.length :=
      (reads_of_reading _ hfront).pointsAtBreak hfront hc hstep
    rw [← htext] at hpoints
    rw [hreport]
    refine ⟨error, herror, ?_, ?_, fun _ => ⟨_, hpoints⟩, fun hviable => absurd hviable hbroken⟩
    · exact ⟨fun _ => hbroken, fun _ => hmem⟩
    · exact ⟨fun hunfinished => absurd hunfinished (hdisjoint error hmem),
        fun hviable => absurd hviable hbroken⟩

/-- A function that leaves two loops open: the first is reported, though another
one was opened and closed behind it. -/
theorem errors_mark_the_point_of_no_return_in_body :
    validate "+(>[+[-]<[)]" = .failure .mismatchedSquareBracket 3 11
      ∧ ¬ Viable "+(>[+[-]<[)]".toList
      ∧ ∃ n, PointsAtBreak "+(>[+[-]<[)]".toList (.failure .mismatchedSquareBracket 3 11) n := by
  have hreport : validate "+(>[+[-]<[)]" = .failure .mismatchedSquareBracket 3 11 := by
    decide +kernel
  obtain ⟨error, herror, hbreaking, -, hbreak, -⟩ :=
    errors_mark_the_point_of_no_return "+(>[+[-]<[)]" (by rw [hreport]; rfl)
  rw [hreport] at herror hbreak
  cases herror
  have hbroken : ¬ Viable "+(>[+[-]<[)]".toList := hbreaking.1 (by decide)
  exact ⟨hreport, hbroken, hbreak hbroken⟩

end Script

end TapeMachine
