/-
  TapeMachine.Text.Numeral
  ────────────────────────
  Reading whole numbers, and telling numbers with a fraction or an exponent
  from other texts.
-/
import TapeMachine.Counter

namespace TapeMachine.Text

/-- The value of decimal digits, the highest first. -/
def valueOfDigits (digits : List Char) : Nat :=
  digits.foldl (fun n c => 10 * n + (c.toNat - '0'.toNat)) 0

/-- A count in decimal digits; a plus sign may precede it. -/
def number? (s : String) : Option Nat :=
  let digits := match s.toList with
    | '+' :: rest => rest
    | cs => cs
  if digits.isEmpty || !digits.all Char.isDigit then none
  else Counter.add? 0 (valueOfDigits digits)

/-- Whether a text is digits with a point among or around them at most. -/
def isFraction (cs : List Char) : Bool :=
  let whole := cs.takeWhile Char.isDigit
  match cs.dropWhile Char.isDigit with
  | [] => !whole.isEmpty
  | '.' :: rest => rest.all Char.isDigit && !(whole.isEmpty && rest.isEmpty)
  | _ => false

/-- Whether a text is a number without its sign: digits and perhaps an
exponent, or a word for what is not finite. -/
def isMagnitude (cs : List Char) : Bool :=
  let mantissa := cs.takeWhile fun c => c ≠ 'e' && c ≠ 'E'
  let finite :=
    match cs.dropWhile fun c => c ≠ 'e' && c ≠ 'E' with
    | [] => isFraction mantissa
    | _ :: exponent =>
      let digits := if exponent.head? ∈ [some '+', some '-'] then exponent.tail else exponent
      isFraction mantissa && !digits.isEmpty && digits.all Char.isDigit
  finite || String.ofList (cs.map Char.toLower) ∈ ["inf", "infinity", "nan"]

/-- Whether a text is a number, whole or not. -/
def isNumber (cs : List Char) : Bool :=
  isMagnitude (if cs.head? ∈ [some '+', some '-'] then cs.tail else cs)

end TapeMachine.Text
