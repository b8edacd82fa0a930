/-
  TapeMachine.Text.Decimal
  ────────────────────────
  Numbers with a fixed count of decimal places, rounded once from the exact
  value.  A binary floating-point number is a fraction, so its decimal text
  needs no floating-point arithmetic.
-/
import TapeMachine.Text.Column

namespace TapeMachine.Text

/-- A quotient rounded to the nearest whole number, a half to the even one. -/
def roundDiv (num den : Nat) : Nat :=
  let quotient := num / den
  let twice := 2 * (num % den)
  if twice < den ∨ (twice = den ∧ quotient % 2 = 0) then quotient else quotient + 1

/-- A quotient with `places` decimal places. -/
def fixed (places num den : Nat) : String :=
  let scale := Nat.pow 10 places
  let units := roundDiv (num * scale) den
  s!"{units / scale}.{zeroPadded places (units % scale)}"

/-- The value of a finite, nonnegative double as numerator and denominator. -/
def binaryFraction (x : Float) : Nat × Nat :=
  let bits := x.toBits.toNat
  let exponent := (bits >>> 52) % (1 <<< 11)
  let fraction := bits % (1 <<< 52)
  let mantissa := if exponent = 0 then fraction else fraction + (1 <<< 52)
  let power := if exponent = 0 then 1 else exponent
  if 1075 ≤ power then (mantissa <<< (power - 1075), 1) else (mantissa, 1 <<< (1075 - power))

end TapeMachine.Text
