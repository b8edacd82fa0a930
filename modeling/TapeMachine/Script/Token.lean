/-
  TapeMachine.Script.Token
  ────────────────────────
  The operators of a script together with where they stand.  Offsets count
  characters from the start of the text, comments included, so an offset
  names the same place in the text whatever stands around it.
-/
import TapeMachine.Operator

namespace TapeMachine

/-- An operator and its character offset in the script. -/
structure Token where
  operator : Operator
  offset : Nat
  deriving Repr, DecidableEq

namespace Script

/-- The operators of a text whose first character has offset `start`. -/
def tokensFrom (start : Nat) (text : List Char) : List Token :=
  (text.zipIdx start).filterMap fun (c, offset) =>
    (Operator.ofChar? c).map fun operator => ⟨operator, offset⟩

/-- The operators of a script, in order of appearance. -/
def tokens (source : String) : List Token := tokensFrom 0 source.toList

@[simp] theorem tokensFrom_nil (start : Nat) : tokensFrom start [] = [] := rfl

theorem tokensFrom_cons (start : Nat) (c : Char) (text : List Char) :
    tokensFrom start (c :: text) =
      match Operator.ofChar? c with
      | some operator => ⟨operator, start⟩ :: tokensFrom (start + 1) text
      | none => tokensFrom (start + 1) text := by
  simp only [tokensFrom, List.zipIdx_cons, List.filterMap_cons]
  cases Operator.ofChar? c <;> rfl

theorem tokensFrom_append (start : Nat) (xs ys : List Char) :
    tokensFrom start (xs ++ ys) = tokensFrom start xs ++ tokensFrom (start + xs.length) ys := by
  unfold tokensFrom
  rw [List.zipIdx_append, List.filterMap_append]

end Script

end TapeMachine
