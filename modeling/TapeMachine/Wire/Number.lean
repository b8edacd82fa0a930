/-
  TapeMachine.Wire.Number
  ───────────────────────
  Numbers in base 128, lowest digit first.  Every byte but the last has its
  top bit set.  A width allows a fixed number of bytes, and of the last one
  allowed only the bits that the number still has room for; within that, a
  number may have more bytes than it needs.
-/
import TapeMachine.Wire.Codec

namespace TapeMachine.Wire

/-! ## §1. Unsigned numbers. -/

/-- A width: how many bits, how many bytes they take, and the largest value
of the last of these. -/
structure Width where
  bits : Nat
  bytes : Nat
  top : Nat
  deriving Repr, DecidableEq

namespace Width

/-- 16 bits. -/
def short : Width := ⟨16, 3, 3⟩

/-- 32 bits. -/
def word : Width := ⟨32, 5, 15⟩

/-- 64 bits. -/
def long : Width := ⟨64, 10, 1⟩

end Width

/-- The digits of `n`, as many as `count` at most. -/
def encodeDigits : (count : Nat) → (n : Nat) → Bytes
  | 0, _ => []
  | count + 1, n =>
    if n < 128 then [n.toUInt8] else (n % 128 + 128).toUInt8 :: encodeDigits count (n / 128)

/-- Reads digits, `count` at most, the last of which is at most `top`. -/
def decodeDigits (top : Nat) : (count : Nat) → Bytes → Decoding (Nat × Bytes)
  | 0, _ => .error .badVarint
  | _ + 1, [] => .error .unexpectedEnd
  | count + 1, b :: rest =>
    let digit := b.toNat
    if digit < 128 then
      if count = 0 ∧ top < digit then .error .badVarint else .ok (digit, rest)
    else do
      if count = 0 then throw .badVarint
      let (high, rest) ← decodeDigits top count rest
      return (digit - 128 + 128 * high, rest)

namespace Codec

/-- A number of the given width. -/
def number (w : Width) : Codec Nat where
  Fits n := n < Nat.pow 2 w.bits
  encode := encodeDigits w.bytes
  decode := decodeDigits w.top w.bytes

/-- A number of 16 bits. -/
def short : Codec Nat := number .short

/-- A number of 64 bits, as every length and index is. -/
def long : Codec Nat := number .long

end Codec

/-! ## §2. Signed numbers and choices. -/

/-- Signed numbers as unsigned ones: 0, -1, 1, -2, 2 are 0, 1, 2, 3, 4. -/
def zigzag : Int → Nat
  | .ofNat n => 2 * n
  | .negSucc n => 2 * n + 1

/-- The signed number that `zigzag` takes to `n`. -/
def unzigzag (n : Nat) : Int :=
  if n % 2 = 0 then .ofNat (n / 2) else .negSucc (n / 2)

@[simp] theorem unzigzag_zigzag (i : Int) : unzigzag (zigzag i) = i := by
  cases i with
  | ofNat n =>
    have h : 2 * n / 2 = n := by omega
    simp [zigzag, unzigzag, h]
  | negSucc n =>
    have h : (2 * n + 1) / 2 = n := by omega
    have h' : (2 * n + 1) % 2 = 1 := by omega
    simp [zigzag, unzigzag, h, h']

namespace Codec

/-- A signed number of 64 bits. -/
def signed : Codec Int := long.iso unzigzag zigzag

/-- A value of a finite type, by its place in a list of all of them. -/
def choice {α : Type} [DecidableEq α] (all : List α) : Codec α :=
  (number .word).refine
    (fun i =>
      match all[i]? with
      | some a => .ok a
      | none => .error .outOfRange)
    (fun a => all.idxOf a)

end Codec

end TapeMachine.Wire
