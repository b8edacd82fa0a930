/-
  TapeMachine.Text.Column
  ───────────────────────
  Text set to a least width: numbers are filled with zeros on the left,
  words with blanks on the right.  A text that is wide enough already stays
  as it is.
-/

namespace TapeMachine.Text

/-- `n` in decimal with at least `width` digits. -/
def zeroPadded (width n : Nat) : String :=
  String.ofList ((Nat.toDigits 10 n).leftpad width '0')

/-- `s` followed by blanks up to `width` characters. -/
def blankPadded (width : Nat) (s : String) : String :=
  String.ofList (s.toList.rightpad width ' ')

/-- Every line closed by a line feed. -/
def unlines (lines : List String) : String :=
  lines.foldl (fun text line => text ++ line ++ "\n") ""

end TapeMachine.Text
