/-
  TapeMachine.Counter
  ───────────────────
  Counts and indices have 64 bits.  A sum beyond the greatest of them is not
  reduced to one that fits: it does not exist.
-/

namespace TapeMachine.Counter

/-- The greatest count. -/
def max : Nat := UInt64.size - 1

/-- A count and `k` more, if that is still a count. -/
def add? (n k : Nat) : Option Nat := if n + k ≤ max then some (n + k) else none

theorem add?_eq_some_iff {n k m : Nat} : add? n k = some m ↔ n + k = m ∧ m ≤ max := by
  unfold add?
  split
  · constructor
    · intro h
      cases h
      exact ⟨rfl, by assumption⟩
    · intro h
      rw [h.1]
  · constructor
    · intro h
      cases h
    · intro h
      omega

end TapeMachine.Counter
