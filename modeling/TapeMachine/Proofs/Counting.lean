/-
  TapeMachine.Proofs.Counting
  ───────────────────────────
  **THE SYNTAX CHECK IN CONSTANT SPACE.**

  `Scan` keeps the offsets of all open loops of a region in a list.  The check
  asks only two things of that list: whether it is empty, and what its last
  entry is.  So a depth and one remembered offset per region do:

    • `LoopCount` — the depth, and where the outermost open loop begins; the
      offset is set when the depth leaves 0 and means nothing while it is 0,
    • `Tally` — the state of the pass with two such counts, the root's and the
      open function's,
    • `Tally.Counts.step` — a `Tally` that counts a `Scan` refuses the same
      operators with the same report, and goes on counting,
    • `validate_eq_tally` — so the two passes report the same on every script.
-/
import TapeMachine.Script.Validation

namespace TapeMachine.Script

/-! ## §1. Loops as a depth and an offset. -/

/-- The open loops of a region: how many there are, and the offset of the
outermost one, if there is one. -/
structure LoopCount where
  depth : Nat := 0
  outermost : Nat := 0
  deriving Repr, DecidableEq

namespace LoopCount

/-- A loop is opened at `offset`. -/
def enter (c : LoopCount) (offset : Nat) : LoopCount :=
  ⟨c.depth + 1, if c.depth = 0 then offset else c.outermost⟩

/-- The innermost loop is closed; `none` if there is none. -/
def leave? (c : LoopCount) : Option LoopCount :=
  match c.depth with
  | 0 => none
  | depth + 1 => some ⟨depth, c.outermost⟩

/-- The count is that of a list of open loops, innermost first. -/
structure Counts (c : LoopCount) (loops : List Nat) : Prop where
  depth : c.depth = loops.length
  outermost : ∀ i, loops.getLast? = some i → c.outermost = i

theorem counts_nil : Counts {} [] where
  depth := rfl
  outermost := by
    intro i h
    cases h

variable {c : LoopCount} {loops : List Nat}

theorem Counts.depth_eq_zero_iff (h : c.Counts loops) : c.depth = 0 ↔ loops = [] := by
  rw [h.depth, List.length_eq_zero_iff]

theorem Counts.enter (h : c.Counts loops) (offset : Nat) :
    (c.enter offset).Counts (offset :: loops) where
  depth := by
    show c.depth + 1 = loops.length + 1
    rw [h.depth]
  outermost := by
    intro i hi
    show (if c.depth = 0 then offset else c.outermost) = i
    cases loops with
    | nil =>
      -- the loop is the outermost one
      rw [if_pos (h.depth_eq_zero_iff.2 rfl)]
      exact Option.some.inj hi
    | cons j loops =>
      have hne : c.depth ≠ 0 := fun h0 => List.cons_ne_nil j loops (h.depth_eq_zero_iff.1 h0)
      rw [if_neg hne]
      rw [List.getLast?_cons_cons] at hi
      exact h.outermost i hi

theorem Counts.leave?_nil (h : c.Counts []) : c.leave? = none := by
  unfold leave?
  rw [h.depth]
  rfl

theorem Counts.leave?_cons {j : Nat} (h : c.Counts (j :: loops)) :
    ∃ c', c.leave? = some c' ∧ c'.Counts loops := by
  have hdepth : c.depth = loops.length + 1 := h.depth
  refine ⟨⟨loops.length, c.outermost⟩, ?_, rfl, ?_⟩
  · unfold leave?
    rw [hdepth]
  · intro i hi
    refine h.outermost i ?_
    cases loops with
    | nil => cases hi
    | cons k loops => rwa [List.getLast?_cons_cons]

end LoopCount

/-! ## §2. The pass. -/

/-- A function whose `)` has not been read, its loops counted. -/
structure BodyTally where
  start : Nat
  loops : LoopCount
  size : Nat
  deriving Repr, DecidableEq

/-- What has been read, the loops of both regions counted. -/
structure Tally where
  count : Nat
  loops : LoopCount
  body : Option BodyTally
  deriving Repr, DecidableEq

namespace Tally

/-- Nothing read yet. -/
def start : Tally := ⟨0, {}, none⟩

/-- Reads one operator. -/
def step (s : Tally) (t : Token) : Except Validation Tally :=
  let count := s.count + 1
  let refuse (error : SyntaxError) (offset : Nat) : Except Validation Tally :=
    .error (.failure error offset count)
  match t.operator, s.body with
  | .loopOpen, none => .ok { s with count, loops := s.loops.enter t.offset }
  | .loopOpen, some b =>
    .ok { s with count, body := some { b with loops := b.loops.enter t.offset, size := b.size + 1 } }
  | .loopClose, none =>
    match s.loops.leave? with
    | none => refuse .mismatchedSquareBracket t.offset
    | some loops => .ok { s with count, loops }
  | .loopClose, some b =>
    match b.loops.leave? with
    | none => refuse .mismatchedSquareBracket t.offset
    | some loops => .ok { s with count, body := some { b with loops, size := b.size + 1 } }
  | .bodyOpen, none =>
    if s.loops.depth = 0 then .ok { s with count, body := some ⟨t.offset, {}, 0⟩ }
    else refuse .functionInLoop t.offset
  | .bodyOpen, some _ => refuse .nestedFunction t.offset
  | .bodyClose, none => refuse .mismatchedParenthesis t.offset
  | .bodyClose, some b =>
    if b.loops.depth = 0 then
      if b.size = 0 then refuse .emptyFunction t.offset else .ok { s with count, body := none }
    else refuse .mismatchedSquareBracket b.loops.outermost
  | _, none => .ok { s with count }
  | _, some b => .ok { s with count, body := some { b with size := b.size + 1 } }

/-- The report at the end of the script. -/
def finish (s : Tally) : Validation :=
  match s.body with
  | some b => .failure .unclosedFunction b.start s.count
  | none =>
    if s.loops.depth = 0 then
      if s.count = 0 then ⟨some .noOperators, -1, 0⟩ else .success s.count
    else .failure .unclosedLoop s.loops.outermost s.count

/-- Reads the remaining operators and reports. -/
def run (s : Tally) : List Token → Validation
  | [] => s.finish
  | t :: rest =>
    match s.step t with
    | .error report => report
    | .ok s' => s'.run rest

/-! ## §3. Counting is enough. -/

/-- The open function, if there is one, with its loops counted. -/
inductive CountsBody : Option BodyTally → Option OpenBody → Prop
  | root : CountsBody none none
  | body {c : LoopCount} {loops : List Nat} (start size : Nat) (h : c.Counts loops) :
      CountsBody (some ⟨start, c, size⟩) (some ⟨start, loops, size⟩)

/-- The state is the other one with its loops counted. -/
structure Counts (s : Tally) (r : Scan) : Prop where
  count : s.count = r.count
  loops : s.loops.Counts r.loops
  body : CountsBody s.body r.body

/-- The same report, or states of which one counts the other. -/
inductive Agree : Except Validation Tally → Except Validation Scan → Prop
  | refused (report : Validation) : Agree (.error report) (.error report)
  | read {s : Tally} {r : Scan} (h : s.Counts r) : Agree (.ok s) (.ok r)

theorem counts_start : start.Counts Scan.start :=
  ⟨rfl, LoopCount.counts_nil, .root⟩

namespace Counts

variable {s : Tally} {r : Scan}

/-- **One operator.** -/
theorem step (h : s.Counts r) (t : Token) : Agree (s.step t) (r.step t) := by
  obtain ⟨count, c, body⟩ := s
  obtain ⟨count', loops, body'⟩ := r
  obtain ⟨rfl, hloops, hbody⟩ := h
  dsimp only at hloops hbody
  unfold Tally.step Scan.step
  cases hbody with
  | root =>
    cases t.operator with
    | loopOpen => exact .read ⟨rfl, hloops.enter t.offset, .root⟩
    | loopClose =>
      cases loops with
      | nil =>
        dsimp only
        rw [hloops.leave?_nil]
        exact .refused _
      | cons j loops =>
        obtain ⟨c', hleave, hloops'⟩ := hloops.leave?_cons
        dsimp only
        rw [hleave]
        exact .read ⟨rfl, hloops', .root⟩
    | bodyOpen =>
      cases loops with
      | nil =>
        dsimp only
        rw [if_pos (hloops.depth_eq_zero_iff.2 rfl)]
        exact .read ⟨rfl, hloops, .body _ _ LoopCount.counts_nil⟩
      | cons j loops =>
        dsimp only
        rw [if_neg (mt hloops.depth_eq_zero_iff.1 (List.cons_ne_nil j loops))]
        exact .refused _
    | bodyClose => exact .refused _
    | right | left | inc | dec | put | get | call => exact .read ⟨rfl, hloops, .root⟩
  | @body d inner start size hinner =>
    cases t.operator with
    | loopOpen => exact .read ⟨rfl, hloops, .body _ _ (hinner.enter t.offset)⟩
    | loopClose =>
      cases inner with
      | nil =>
        dsimp only
        rw [hinner.leave?_nil]
        exact .refused _
      | cons j inner =>
        obtain ⟨d', hleave, hinner'⟩ := hinner.leave?_cons
        dsimp only
        rw [hleave]
        exact .read ⟨rfl, hloops, .body _ _ hinner'⟩
    | bodyOpen => exact .refused _
    | bodyClose =>
      dsimp only
      cases hlast : inner.getLast? with
      | none =>
        rw [if_pos (hinner.depth_eq_zero_iff.2 (List.getLast?_eq_none_iff.1 hlast))]
        by_cases hsize : size = 0
        · rw [if_pos hsize, if_pos hsize]
          exact .refused _
        · rw [if_neg hsize, if_neg hsize]
          exact .read ⟨rfl, hloops, .root⟩
      | some i =>
        have hne : inner ≠ [] := by
          rintro rfl
          cases hlast
        rw [if_neg (mt hinner.depth_eq_zero_iff.1 hne), hinner.outermost i hlast]
        exact .refused _
    | right | left | inc | dec | put | get | call => exact .read ⟨rfl, hloops, .body _ _ hinner⟩

/-- The end of the script. -/
theorem finish_eq (h : s.Counts r) : s.finish = r.finish := by
  obtain ⟨count, c, body⟩ := s
  obtain ⟨count', loops, body'⟩ := r
  obtain ⟨rfl, hloops, hbody⟩ := h
  dsimp only at hloops hbody
  unfold Tally.finish Scan.finish
  cases hbody with
  | body start size hinner => rfl
  | root =>
    dsimp only
    cases hlast : loops.getLast? with
    | none => rw [if_pos (hloops.depth_eq_zero_iff.2 (List.getLast?_eq_none_iff.1 hlast))]
    | some i =>
      have hne : loops ≠ [] := by
        rintro rfl
        cases hlast
      rw [if_neg (mt hloops.depth_eq_zero_iff.1 hne), hloops.outermost i hlast]

/-- **A whole pass.** -/
theorem run_eq (ts : List Token) : ∀ {s : Tally} {r : Scan}, s.Counts r → s.run ts = r.run ts := by
  induction ts with
  | nil =>
    intro s r h
    exact h.finish_eq
  | cons t rest ih =>
    intro s r h
    have hstep := h.step t
    unfold Tally.run Scan.run
    generalize s.step t = x at hstep ⊢
    generalize r.step t = y at hstep ⊢
    cases hstep with
    | refused report => rfl
    | read hnext => exact ih hnext

end Counts

end Tally

/-- **The check reports what counting reports**, on every script. -/
theorem validate_eq_tally (source : String) : validate source = Tally.start.run (tokens source) :=
  (Tally.counts_start.run_eq (tokens source)).symm

end TapeMachine.Script
