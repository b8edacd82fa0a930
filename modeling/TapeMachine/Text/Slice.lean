/-
  TapeMachine.Text.Slice
  ──────────────────────
  Text cut at a number of bytes.  A character takes one to four bytes, and a
  cut within one fails.
-/

namespace TapeMachine.Text

/-- The bytes that characters take. -/
def byteSize : List Char → Nat
  | [] => 0
  | c :: cs => c.utf8Size + byteSize cs

/-- The first `size` bytes, and the rest. -/
def split? : (size : Nat) → List Char → Option (List Char × List Char)
  | 0, cs => some ([], cs)
  | _ + 1, [] => none
  | size + 1, c :: cs =>
    if c.utf8Size ≤ size + 1 then
      (split? (size + 1 - c.utf8Size) cs).map fun (before, after) => (c :: before, after)
    else none

/-- The bytes from `first` up to `last`. -/
def slice? (first last : Nat) (cs : List Char) : Option (List Char) :=
  match split? first cs with
  | none => none
  | some (_, after) => (split? (last - first) after).map Prod.fst

end TapeMachine.Text
