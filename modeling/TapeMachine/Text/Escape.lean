/-
  TapeMachine.Text.Escape
  ───────────────────────
  Text that a terminal may be shown.  The characters that a terminal takes
  for commands are written out:

      bell, backspace, form feed, escape, delete    \x and two digits
      the second block of control characters        \u and digits in braces

  Every other character stands for itself, line ends and tabs included.
-/

namespace TapeMachine.Text

/-- The digits of `n` to the base 16, at least two. -/
def hexPair (n : Nat) : String := String.ofList ((Nat.toDigits 16 n).leftpad 2 '0')

/-- Whether a control character of the first block is written out. -/
def isTerminalCommand (c : Char) : Bool := c.toNat ∈ [0x07, 0x08, 0x0c, 0x1b, 0x7f]

/-- Whether a character belongs to the second block of control characters. -/
def isHighControl (c : Char) : Bool := 0x80 ≤ c.toNat && c.toNat ≤ 0x9f

/-- A character as a terminal may be shown it. -/
def escapeChar (c : Char) : String :=
  if isTerminalCommand c then "\\x" ++ hexPair c.toNat
  else if isHighControl c then "\\u\x7b" ++ hexPair c.toNat ++ "\x7d"
  else String.singleton c

/-- A text as a terminal may be shown it. -/
def escape (s : String) : String := String.join (s.toList.map escapeChar)

end TapeMachine.Text
