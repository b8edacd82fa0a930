/-
  TapeMachine.Proofs.OpenLoops
  ────────────────────────────
  **LOOPS THAT A STRETCH OF CODE LEAVES OPEN.**

  A stretch of code is a list of opcodes or of characters; `f` says which
  operator an entry is, if it is one.  A `[` and a `]` belong together if the
  loops between them are balanced (`PairAt`), and a `[` that no `]` of the
  stretch belongs to is open (`OpenAt`).  Neither asks a partner table.

    • `PairAt.unique` — a `[` has one `]` at most,
    • `pairAt_slice` — what belongs together in a part of a stretch does so in
      the whole of it,
    • `openAt_iff` — a `[` is open exactly if the depth behind it never goes
      below 0; what the depth is then says how many are open behind it
      (`OpenWith`),
    • `openWith_concat` — what one entry more does to the open loops.
-/
import TapeMachine.Proofs.Pairing

namespace TapeMachine

namespace Operator

/-! ## §1. Where the depth goes below 0. -/

theorem nest?_eq_none_iff {n : Nat} {o : Operator} :
    nest? n o = none ↔ n = 0 ∧ o = .loopClose := by
  cases o <;> cases n <;> simp [nest?]

/-- The depth goes below 0 at a `]` that nothing is open for. -/
theorem depth?_eq_none_iff (ops : List Operator) : ∀ n : Nat,
    depth? n ops = none ↔ ∃ front back, ops = front ++ .loopClose :: back
      ∧ depth? n front = some 0 := by
  induction ops with
  | nil =>
    intro n
    simp [depth?]
  | cons o ops ih =>
    intro n
    show (nest? n o).bind (fun m => depth? m ops) = none ↔ _
    cases hnest : nest? n o with
    | none =>
      obtain ⟨rfl, rfl⟩ := nest?_eq_none_iff.1 hnest
      exact ⟨fun _ => ⟨[], ops, rfl, rfl⟩, fun _ => rfl⟩
    | some m =>
      show depth? m ops = none ↔ _
      rw [ih m]
      constructor
      · rintro ⟨front, back, rfl, hfront⟩
        refine ⟨o :: front, back, rfl, ?_⟩
        show (nest? n o).bind (fun m => depth? m front) = some 0
        rw [hnest]
        exact hfront
      · rintro ⟨front, back, heq, hfront⟩
        cases front with
        | nil =>
          -- then the first operator goes below 0
          obtain rfl : n = 0 := Option.some.inj hfront
          obtain ⟨rfl, -⟩ := List.cons.inj heq
          cases hnest
        | cons o' front =>
          obtain ⟨rfl, rfl⟩ := List.cons.inj heq
          refine ⟨front, back, rfl, ?_⟩
          have hbind : (nest? n o).bind (fun m => depth? m front) = some 0 := hfront
          rw [hnest] at hbind
          exact hbind

/-! ## §2. Which brackets belong together. -/

section Pairs

variable {α : Type} {f : α → Option Operator} {l : List α} {i j : Nat}

/-- The `]` at `j` closes the loop that the `[` at `i` opens: the loops
between them are balanced. -/
structure PairAt (f : α → Option Operator) (l : List α) (i j : Nat) : Prop where
  lt : i < j
  opens : l[i]?.bind f = some .loopOpen
  closes : l[j]?.bind f = some .loopClose
  balanced : LoopsBalanced (((l.drop (i + 1)).take (j - (i + 1))).filterMap f)

/-- At `i` a loop is opened that is not closed. -/
def OpenAt (f : α → Option Operator) (l : List α) (i : Nat) : Prop :=
  l[i]?.bind f = some .loopOpen ∧ ∀ j, ¬ PairAt f l i j

/-- Behind the `]` the depth is below 0. -/
theorem PairAt.depth?_eq_none (h : PairAt f l i j) {k : Nat} (hk : j < k) :
    depth? 0 (((l.drop (i + 1)).take (k - (i + 1))).filterMap f) = none := by
  have hlt := h.lt
  obtain ⟨x, hx, hclose⟩ := Option.bind_eq_some_iff.1 h.closes
  have hsplit : (l.drop (i + 1)).take (k - (i + 1))
      = (l.drop (i + 1)).take (j - (i + 1)) ++ x :: (l.drop (j + 1)).take (k - (j + 1)) := by
    obtain ⟨hj, rfl⟩ := List.getElem?_eq_some_iff.1 hx
    rw [show k - (i + 1) = (j - (i + 1)) + (k - j) by omega, List.take_add, List.drop_drop,
      show i + 1 + (j - (i + 1)) = j by omega, List.drop_eq_getElem_cons hj,
      show k - j = (k - (j + 1)) + 1 by omega, List.take_succ_cons]
  rw [hsplit, List.filterMap_append, List.filterMap_cons_some hclose, depth?_append, h.balanced]
  rfl

/-- **A `[` has one `]` at most.** -/
theorem PairAt.unique {j' : Nat} (h : PairAt f l i j) (h' : PairAt f l i j') : j = j' := by
  have hle : ∀ {a b : Nat}, PairAt f l i a → PairAt f l i b → b ≤ a := by
    intro a b ha hb
    apply Nat.le_of_not_lt
    intro hlt
    have hnone := ha.depth?_eq_none hlt
    rw [hb.balanced] at hnone
    cases hnone
  exact Nat.le_antisymm (hle h' h) (hle h h')

/-- **In a part of a stretch** the brackets belong together as they do in the
whole of it. -/
theorem pairAt_slice {start n : Nat} :
    PairAt f ((l.drop start).take n) i j ↔ PairAt f l (start + i) (start + j) ∧ j < n := by
  have hentry : ∀ k, k < n → ((l.drop start).take n)[k]? = l[start + k]? := by
    intro k hk
    rw [List.getElem?_take_of_lt hk, List.getElem?_drop]
  have hbetween : j ≤ n → (((l.drop start).take n).drop (i + 1)).take (j - (i + 1))
      = (l.drop (start + i + 1)).take (start + j - (start + i + 1)) := by
    intro hj
    rw [List.drop_take, List.take_take, List.drop_drop, Nat.min_eq_left (by omega),
      show start + j - (start + i + 1) = j - (i + 1) by omega, Nat.add_assoc]
  constructor
  · rintro ⟨hlt, hopen, hclose, hbalanced⟩
    have hj : j < n := by
      apply Nat.lt_of_not_le
      intro hge
      rw [List.getElem?_take_eq_none hge] at hclose
      cases hclose
    rw [hentry i (by omega)] at hopen
    rw [hentry j hj] at hclose
    rw [hbetween (by omega)] at hbalanced
    exact ⟨⟨by omega, hopen, hclose, hbalanced⟩, hj⟩
  · rintro ⟨⟨hlt, hopen, hclose, hbalanced⟩, hj⟩
    rw [← hentry i (by omega)] at hopen
    rw [← hentry j hj] at hclose
    rw [← hbetween (by omega)] at hbalanced
    exact ⟨by omega, hopen, hclose, hbalanced⟩

/-! ## §3. Which loops are open. -/

/-- At `i` a loop is opened that is not closed, and `k` of those that are
opened behind it are not closed either. -/
def OpenWith (f : α → Option Operator) (l : List α) (k i : Nat) : Prop :=
  l[i]?.bind f = some .loopOpen ∧ depth? 0 ((l.drop (i + 1)).filterMap f) = some k

/-- At `i` is the first of the loops that are not closed. -/
def FirstOpen (f : α → Option Operator) (l : List α) (i : Nat) : Prop :=
  OpenAt f l i ∧ ∀ j, j < i → ¬ OpenAt f l j

/-- **A `[` is open exactly if the depth behind it never goes below 0.** -/
theorem openAt_iff : OpenAt f l i ↔ ∃ k, OpenWith f l k i := by
  constructor
  · rintro ⟨hopen, hunmatched⟩
    cases hdepth : depth? 0 ((l.drop (i + 1)).filterMap f) with
    | some k => exact ⟨k, hopen, hdepth⟩
    | none =>
      -- the `]` that goes below 0 belongs to the `[`
      obtain ⟨front, back, heq, hfront⟩ := (depth?_eq_none_iff _ 0).1 hdepth
      obtain ⟨xs, ys, hxs, rfl, hys⟩ := List.filterMap_eq_append_iff.1 heq
      obtain ⟨zs, x, ws, rfl, hzs, hx, -⟩ := List.filterMap_eq_cons_iff.1 hys
      have hskip : zs.filterMap f = [] := List.filterMap_eq_nil_iff.2 hzs
      refine absurd ?_ (hunmatched (i + 1 + (xs ++ zs).length))
      refine ⟨by omega, hopen, ?_, ?_⟩
      · rw [← List.getElem?_drop, hxs, ← List.append_assoc,
          List.getElem?_append_right (Nat.le_refl _), Nat.sub_self]
        exact hx
      · rw [hxs, ← List.append_assoc, Nat.add_sub_cancel_left, List.take_left,
          List.filterMap_append, hskip, List.append_nil]
        exact hfront
  · rintro ⟨k, hopen, hdepth⟩
    refine ⟨hopen, ?_⟩
    intro j hpair
    have hj : j < l.length := by
      apply Nat.lt_of_not_le
      intro hge
      have hclose := hpair.closes
      rw [List.getElem?_eq_none hge] at hclose
      cases hclose
    have hnone := hpair.depth?_eq_none hj
    rw [List.take_of_length_le (Nat.le_of_eq List.length_drop)] at hnone
    rw [hnone] at hdepth
    cases hdepth

theorem OpenWith.lt {k : Nat} (h : OpenWith f l k i) : i < l.length := by
  obtain ⟨x, hx, -⟩ := Option.bind_eq_some_iff.1 h.1
  exact (List.getElem?_eq_some_iff.1 hx).1

/-- What stands before does not matter. -/
theorem openWith_append {k : Nat} (xs ys : List α) :
    OpenWith f (xs ++ ys) k (xs.length + i) ↔ OpenWith f ys k i := by
  unfold OpenWith
  rw [List.getElem?_append_right (Nat.le_add_right _ _), Nat.add_sub_cancel_left, Nat.add_assoc,
    List.drop_append, List.drop_of_length_le (Nat.le_add_right _ _), List.nil_append,
    Nat.add_sub_cancel_left]

/-- **One entry more** opens a loop of its own, or leaves some of those that
were open. -/
theorem openWith_concat {x : α} {k : Nat} :
    OpenWith f (l ++ [x]) k i ↔ (i = l.length ∧ f x = some .loopOpen ∧ k = 0)
      ∨ ∃ n, OpenWith f l n i ∧ depth? n (f x).toList = some k := by
  have hlast : [x].filterMap f = (f x).toList := by
    cases hx : f x with
    | none => exact List.filterMap_cons_none hx
    | some o => exact List.filterMap_cons_some hx
  rcases Nat.lt_trichotomy i l.length with hlt | rfl | hgt
  · have hentry : (l ++ [x])[i]? = l[i]? := List.getElem?_append_left hlt
    have hbehind : (l ++ [x]).drop (i + 1) = l.drop (i + 1) ++ [x] :=
      List.drop_append_of_le_length hlt
    unfold OpenWith
    rw [hentry, hbehind, List.filterMap_append, hlast, depth?_append]
    constructor
    · rintro ⟨hopen, hdepth⟩
      obtain ⟨n, hn, hk⟩ := Option.bind_eq_some_iff.1 hdepth
      exact .inr ⟨n, ⟨hopen, hn⟩, hk⟩
    · rintro (⟨heq, -⟩ | ⟨n, ⟨hopen, hn⟩, hk⟩)
      · omega
      · exact ⟨hopen, Option.bind_eq_some_iff.2 ⟨n, hn, hk⟩⟩
  · unfold OpenWith
    rw [List.getElem?_concat_length, List.drop_of_length_le (by simp)]
    constructor
    · rintro ⟨hopen, hk⟩
      exact .inl ⟨rfl, hopen, (Option.some.inj hk).symm⟩
    · rintro (⟨-, hopen, rfl⟩ | ⟨n, hn, -⟩)
      · exact ⟨hopen, rfl⟩
      · exact absurd (OpenWith.lt hn) (Nat.lt_irrefl _)
  · constructor
    · intro hopen
      have hlt := hopen.lt
      rw [List.length_append] at hlt
      have : i < l.length + 1 := hlt
      omega
    · rintro (⟨heq, -⟩ | ⟨n, hn, -⟩)
      · omega
      · exact absurd hn.lt (Nat.lt_asymm hgt)

end Pairs

end Operator

end TapeMachine
