/-
  TapeMachine.Proofs.Format
  ─────────────────────────
  **WHICH BYTES A VALUE MAY HAVE.**

  The byte format, said without writing and without reading.  A number is a
  numeral in base 128, lowest digit first, every byte but the last with its
  top bit set; it may have more digits than it needs, as long as its width
  allows them and holds the number (`Width.Spells`).  Everything else is
  numerals in a row.

  `Codec.Follows` ties a codec to such a description.  Reading accepts what
  is described and nothing else, whatever comes behind it; what is written
  is as described.  That a value is read back (`Follows.read_encode`) is a
  consequence.  One lemma for each way in which codecs are built:

    • `follows_number` — numbers; the rule for the last byte allowed and the
      bound on the number are the same,
    • `Follows.pair`, `Follows.refine`, `Follows.iso`, `Follows.list`,
    • `Follows.option`, `follows_text`, `follows_character`.
-/
import TapeMachine.Wire.Sequence

namespace TapeMachine.Wire

/-! ## §1. Numerals. -/

/-- The number that digits in base 128 stand for, the lowest first.  The top
bit of a byte is not part of its digit. -/
def numeralValue : Bytes → Nat
  | [] => 0
  | b :: rest => b.toNat % 128 + 128 * numeralValue rest

/-- The top bit of each byte says whether another one follows. -/
inductive IsNumeral : Bytes → Prop
  | last {b : UInt8} (h : b.toNat < 128) : IsNumeral [b]
  | more {b : UInt8} {rest : Bytes} (h : 128 ≤ b.toNat) (hrest : IsNumeral rest) :
      IsNumeral (b :: rest)

/-- The bytes are the number `n` at this width. -/
structure Width.Spells (w : Width) (n : Nat) (bytes : Bytes) : Prop where
  numeral : IsNumeral bytes
  length_le : bytes.length ≤ w.bytes
  value : numeralValue bytes = n
  lt : n < Nat.pow 2 w.bits

/-- The last byte allowed has just the bits that are missing in the others. -/
structure Width.Exact (w : Width) : Prop where
  bytes_pos : 0 < w.bytes
  top_lt : w.top < 128
  bound : Nat.pow 128 (w.bytes - 1) * (w.top + 1) = Nat.pow 2 w.bits

theorem Width.exact_short : Width.short.Exact := ⟨by decide, by decide, by decide⟩

theorem Width.exact_word : Width.word.Exact := ⟨by decide, by decide, by decide⟩

theorem Width.exact_long : Width.long.Exact := ⟨by decide, by decide, by decide⟩

theorem IsNumeral.length_pos {bytes : Bytes} (h : IsNumeral bytes) : 0 < bytes.length := by
  cases h with
  | last _ => exact Nat.one_pos
  | more _ _ => exact Nat.succ_pos _

/-! ## §2. Numbers are read and written as numerals. -/

theorem Decoding.bind_eq_ok {α β : Type} {x : Decoding α} {f : α → Decoding β} {b : β} :
    (x >>= f) = .ok b ↔ ∃ a, x = .ok a ∧ f a = .ok b := by
  cases x with
  | error e => simp [bind, Except.bind]
  | ok a => simp [bind, Except.bind]

/-- A byte without its top bit is the last one. -/
theorem decodeDigits_last {top count : Nat} {b : UInt8} (hb : b.toNat < 128) (rest : Bytes) :
    decodeDigits top (count + 1) (b :: rest)
      = if count = 0 ∧ top < b.toNat then .error .badVarint else .ok (b.toNat, rest) := by
  unfold decodeDigits
  exact if_pos hb

/-- A byte with its top bit needs another one. -/
theorem decodeDigits_more {top count : Nat} {b : UInt8} (hb : ¬ b.toNat < 128) (rest : Bytes) :
    decodeDigits top (count + 1) (b :: rest)
      = if count = 0 then .error .badVarint
        else decodeDigits top count rest >>= fun high =>
          .ok (b.toNat - 128 + 128 * high.1, high.2) := by
  rw [decodeDigits]
  simp only [if_neg hb]
  rfl

/-- The bound that the last byte allowed sets on a number of `count` digits. -/
def digitBound (top count : Nat) : Nat := Nat.pow 128 (count - 1) * (top + 1)

theorem digitBound_one (top : Nat) : digitBound top 1 = top + 1 := Nat.one_mul _

theorem digitBound_succ (top count : Nat) :
    digitBound top (count + 2) = 128 * digitBound top (count + 1) := by
  show Nat.pow 128 count * 128 * (top + 1) = 128 * (Nat.pow 128 count * (top + 1))
  rw [Nat.mul_comm (Nat.pow 128 count) 128, Nat.mul_assoc]

/-- The last digit may be any unless it is in the last byte allowed. -/
theorem digit_lt_bound_iff {top count digit : Nat} (hdigit : digit < 128) :
    digit < digitBound top (count + 1) ↔ ¬ (count = 0 ∧ top < digit) := by
  cases count with
  | zero =>
    rw [digitBound_one]
    omega
  | succ count =>
    have hpos : 0 < digitBound top (count + 1) :=
      Nat.mul_pos (Nat.pow_pos (by decide)) (Nat.succ_pos top)
    rw [digitBound_succ]
    omega

/-- **What is read is a numeral**, not too long and below the bound. -/
theorem numeral_of_decodeDigits {top : Nat} (count : Nat) :
    ∀ {bytes : Bytes} {n : Nat} {rest : Bytes}, decodeDigits top count bytes = .ok (n, rest) →
      ∃ front, bytes = front ++ rest ∧ IsNumeral front ∧ front.length ≤ count
        ∧ numeralValue front = n ∧ n < digitBound top count := by
  induction count with
  | zero =>
    intro bytes n rest h
    cases h
  | succ count ih =>
    intro bytes n rest h
    cases bytes with
    | nil => cases h
    | cons b tail =>
      by_cases hb : b.toNat < 128
      · rw [decodeDigits_last hb] at h
        split at h
        · cases h
        · next hlast =>
          cases h
          refine ⟨[b], rfl, .last hb, by simp, ?_, (digit_lt_bound_iff hb).2 hlast⟩
          show b.toNat % 128 + 128 * 0 = b.toNat
          omega
      · rw [decodeDigits_more hb] at h
        split at h
        · cases h
        · next hcount =>
          obtain ⟨⟨high, rest'⟩, hhigh, h⟩ := Decoding.bind_eq_ok.1 h
          cases h
          -- the digits behind this byte, and this byte in front of them
          obtain ⟨front, rfl, hfront, hlength, hvalue, hlt⟩ := ih hhigh
          have hbyte := b.toNat_lt
          refine ⟨b :: front, rfl, .more (by omega) hfront, by simpa using hlength, ?_, ?_⟩
          · show b.toNat % 128 + 128 * numeralValue front = b.toNat - 128 + 128 * high
            omega
          · obtain ⟨count, rfl⟩ : ∃ k, count = k + 1 := ⟨count - 1, by omega⟩
            show b.toNat - 128 + 128 * high < digitBound top (count + 2)
            rw [digitBound_succ]
            omega

/-- **Such a numeral is read**, whatever comes behind it. -/
theorem IsNumeral.decodeDigits {top : Nat} {front : Bytes} (h : IsNumeral front) :
    ∀ {count : Nat}, front.length ≤ count → numeralValue front < digitBound top count →
      ∀ rest, decodeDigits top count (front ++ rest) = .ok (numeralValue front, rest) := by
  induction h with
  | @last b hb =>
    intro count hlength hlt rest
    obtain ⟨count, rfl⟩ : ∃ k, count = k + 1 := ⟨count - 1, by simp at hlength; omega⟩
    have hvalue : numeralValue [b] = b.toNat := by
      show b.toNat % 128 + 128 * 0 = b.toNat
      omega
    rw [hvalue] at hlt ⊢
    rw [List.singleton_append, decodeDigits_last hb]
    exact if_neg ((digit_lt_bound_iff hb).1 hlt)
  | @more b tail hb htail ih =>
    intro count hlength hlt rest
    have hpos := htail.length_pos
    have hbyte := b.toNat_lt
    rw [List.length_cons] at hlength
    obtain ⟨count, rfl⟩ : ∃ k, count = k + 2 := ⟨count - 2, by omega⟩
    have hvalue : numeralValue (b :: tail) = b.toNat - 128 + 128 * numeralValue tail := by
      show b.toNat % 128 + 128 * numeralValue tail = _
      omega
    rw [hvalue, digitBound_succ] at hlt
    rw [hvalue, List.cons_append, decodeDigits_more (Nat.not_lt.2 hb),
      if_neg (Nat.succ_ne_zero count), ih (by omega) (by omega) rest]
    rfl

/-- **Digits are written as a numeral** that is not too long. -/
theorem encodeDigits_spells (count : Nat) : ∀ {n : Nat}, n < Nat.pow 128 (count + 1) →
    IsNumeral (encodeDigits (count + 1) n) ∧ (encodeDigits (count + 1) n).length ≤ count + 1
      ∧ numeralValue (encodeDigits (count + 1) n) = n := by
  have hlast : ∀ {count n : Nat}, n < 128 → IsNumeral (encodeDigits (count + 1) n)
      ∧ (encodeDigits (count + 1) n).length ≤ count + 1
      ∧ numeralValue (encodeDigits (count + 1) n) = n := by
    intro count n hn
    have hbyte : n.toUInt8.toNat = n := by
      show n % 256 = n
      omega
    unfold encodeDigits
    rw [if_pos hn]
    refine ⟨.last (by rw [hbyte]; exact hn), by simp, ?_⟩
    show n.toUInt8.toNat % 128 + 128 * 0 = n
    omega
  induction count with
  | zero =>
    intro n hn
    exact hlast hn
  | succ count ih =>
    intro n hn
    by_cases hlt : n < 128
    · exact hlast hlt
    · have hbyte : (n % 128 + 128).toUInt8.toNat = n % 128 + 128 := by
        show (n % 128 + 128) % 256 = _
        omega
      have hhigh : n / 128 < Nat.pow 128 (count + 1) :=
        Nat.div_lt_of_lt_mul (by rw [Nat.mul_comm]; exact hn)
      obtain ⟨hnumeral, hlength, hvalue⟩ := ih hhigh
      unfold encodeDigits
      rw [if_neg hlt]
      refine ⟨.more (by omega) hnumeral, by rw [List.length_cons]; omega, ?_⟩
      show (n % 128 + 128).toUInt8.toNat % 128 + 128 * numeralValue _ = n
      rw [hvalue, hbyte]
      omega

/-! ## §3. Codecs that follow a description. -/

/-- The codec reads what is described, in front of any bytes, and nothing
else; and it writes the values that fit as described. -/
structure Codec.Follows {α : Type} (a : Codec α) (Spells : α → Bytes → Prop) : Prop where
  decode_iff : ∀ {bytes : Bytes} {v : α} {rest : Bytes},
    a.decode bytes = .ok (v, rest) ↔ ∃ front, bytes = front ++ rest ∧ Spells v front
  encode : ∀ {v : α}, a.Fits v → Spells v (a.encode v)

namespace Codec

variable {α β : Type} {a : Codec α} {b : Codec β} {S : α → Bytes → Prop} {T : β → Bytes → Prop}

/-- The same said in other words. -/
theorem Follows.congr {S' : α → Bytes → Prop} (h : a.Follows S)
    (hsame : ∀ v bytes, S v bytes ↔ S' v bytes) : a.Follows S' where
  decode_iff := by
    intro bytes v rest
    simp only [h.decode_iff, hsame]
  encode := fun hv => (hsame _ _).1 (h.encode hv)

/-- A value is read from bytes that begin with it. -/
theorem Follows.read_iff (h : a.Follows S) {bytes : Bytes} {v : α} :
    a.read bytes = .ok v ↔ ∃ front rest, bytes = front ++ rest ∧ S v front := by
  constructor
  · intro hread
    unfold read at hread
    cases hdecode : a.decode bytes with
    | error cause =>
      rw [hdecode] at hread
      cases hread
    | ok result =>
      rw [hdecode] at hread
      cases hread
      obtain ⟨front, hbytes, hspells⟩ := h.decode_iff.1 hdecode
      exact ⟨front, result.2, hbytes, hspells⟩
  · intro ⟨front, rest, hbytes, hspells⟩
    unfold read
    rw [h.decode_iff.2 ⟨front, hbytes, hspells⟩]
    rfl

/-- **What was written is read back**, whatever comes behind it. -/
theorem Follows.read_encode (h : a.Follows S) {v : α} (hv : a.Fits v) (rest : Bytes) :
    a.read (a.encode v ++ rest) = .ok v :=
  h.read_iff.2 ⟨a.encode v, rest, rfl, h.encode hv⟩

/-- **A number is a numeral of its width.**  For the last byte allowed, its
greatest value and the bound on the number say the same. -/
theorem follows_number {w : Width} (hw : w.Exact) : (number w).Follows w.Spells where
  decode_iff := by
    intro bytes n rest
    constructor
    · intro h
      obtain ⟨front, hbytes, hnumeral, hlength, hvalue, hlt⟩ := numeral_of_decodeDigits w.bytes h
      exact ⟨front, hbytes, hnumeral, hlength, hvalue, hw.bound ▸ hlt⟩
    · intro ⟨front, hbytes, hspells⟩
      have hlt : numeralValue front < digitBound w.top w.bytes := by
        rw [hspells.value, digitBound, hw.bound]
        exact hspells.lt
      have hread := hspells.numeral.decodeDigits hspells.length_le hlt rest
      rw [hspells.value] at hread
      rw [hbytes]
      exact hread
  encode := by
    intro n hn
    obtain ⟨count, hcount⟩ : ∃ count, w.bytes = count + 1 :=
      ⟨w.bytes - 1, (Nat.sub_add_cancel hw.bytes_pos).symm⟩
    have hroom : n < Nat.pow 128 (count + 1) := by
      have hlt : n < Nat.pow 128 (w.bytes - 1) * (w.top + 1) := by
        rw [hw.bound]
        exact hn
      rw [hcount, Nat.add_sub_cancel] at hlt
      have htop : w.top + 1 ≤ 128 := hw.top_lt
      exact Nat.lt_of_lt_of_le hlt (Nat.mul_le_mul_left _ htop)
    show w.Spells n (encodeDigits w.bytes n)
    rw [hcount]
    obtain ⟨hnumeral, hlength, hvalue⟩ := encodeDigits_spells count hroom
    exact ⟨hnumeral, by omega, hvalue, hn⟩

/-- One value after the other. -/
theorem Follows.pair (ha : a.Follows S) (hb : b.Follows T) :
    (a.pair b).Follows fun v bytes => ∃ x y, bytes = x ++ y ∧ S v.1 x ∧ T v.2 y where
  decode_iff := by
    intro bytes v rest
    show (a.decode bytes >>= fun first => b.decode first.2 >>= fun second =>
      Except.ok ((first.1, second.1), second.2)) = _ ↔ _
    rw [Decoding.bind_eq_ok]
    constructor
    · intro ⟨⟨v₁, middle⟩, hfirst, h⟩
      obtain ⟨⟨v₂, rest'⟩, hsecond, h⟩ := Decoding.bind_eq_ok.1 h
      cases h
      obtain ⟨x, rfl, hx⟩ := ha.decode_iff.1 hfirst
      obtain ⟨y, rfl, hy⟩ := hb.decode_iff.1 hsecond
      exact ⟨x ++ y, by rw [List.append_assoc], x, y, rfl, hx, hy⟩
    · intro ⟨front, hbytes, x, y, hfront, hx, hy⟩
      refine ⟨(v.1, y ++ rest), ha.decode_iff.2 ⟨x, ?_, hx⟩, ?_⟩
      · rw [hbytes, hfront, List.append_assoc]
      · rw [Decoding.bind_eq_ok]
        exact ⟨(v.2, rest), hb.decode_iff.2 ⟨y, rfl, hy⟩, rfl⟩
  encode := fun hv => ⟨_, _, rfl, ha.encode hv.1, hb.encode hv.2⟩

/-- A value that passes a check. -/
theorem Follows.refine (ha : a.Follows S) (check : α → Decoding β) (back : β → α) :
    (a.refine check back).Follows fun v bytes => ∃ x, check x = .ok v ∧ S x bytes where
  decode_iff := by
    intro bytes v rest
    show (a.decode bytes >>= fun first => check first.1 >>= fun y =>
      Except.ok (y, first.2)) = _ ↔ _
    rw [Decoding.bind_eq_ok]
    constructor
    · intro ⟨⟨x, rest'⟩, hfirst, h⟩
      obtain ⟨y, hcheck, h⟩ := Decoding.bind_eq_ok.1 h
      cases h
      obtain ⟨front, hbytes, hx⟩ := ha.decode_iff.1 hfirst
      exact ⟨front, hbytes, x, hcheck, hx⟩
    · intro ⟨front, hbytes, x, hcheck, hx⟩
      refine ⟨(x, rest), ha.decode_iff.2 ⟨front, hbytes, hx⟩, ?_⟩
      rw [Decoding.bind_eq_ok]
      exact ⟨v, hcheck, rfl⟩
  encode := fun hv => ⟨_, hv.2, ha.encode hv.1⟩

/-- The same bytes for another type. -/
theorem Follows.iso (ha : a.Follows S) (make : α → β) (back : β → α) :
    (a.iso make back).Follows fun v bytes => ∃ x, make x = v ∧ S x bytes where
  decode_iff := by
    intro bytes v rest
    show (a.decode bytes >>= fun first => Except.ok (make first.1, first.2)) = _ ↔ _
    rw [Decoding.bind_eq_ok]
    constructor
    · intro ⟨⟨x, rest'⟩, hfirst, h⟩
      cases h
      obtain ⟨front, hbytes, hx⟩ := ha.decode_iff.1 hfirst
      exact ⟨front, hbytes, x, rfl, hx⟩
    · intro ⟨front, hbytes, x, hmake, hx⟩
      refine ⟨(x, rest), ha.decode_iff.2 ⟨front, hbytes, hx⟩, ?_⟩
      rw [← hmake]
  encode := fun hv => ⟨_, hv.2, ha.encode hv.1⟩

/-- A value of a finite type is the number of its place. -/
theorem follows_choice [DecidableEq α] (all : List α) :
    (choice all).Follows fun v bytes => ∃ i : Nat, all[i]? = some v ∧ Width.word.Spells i bytes := by
  refine ((follows_number Width.exact_word).refine _ _).congr ?_
  intro v bytes
  -- the check passes at an index of the list, with the value that stands there
  constructor
  · intro ⟨i, hcheck, hi⟩
    refine ⟨i, ?_, hi⟩
    cases hall : all[i]? with
    | none =>
      simp only [hall] at hcheck
      cases hcheck
    | some w =>
      simp only [hall] at hcheck
      cases hcheck
      rfl
  · intro ⟨i, hall, hi⟩
    exact ⟨i, by simp only [hall], hi⟩

/-- Every value of the list fits, if the list is not too long. -/
theorem fits_choice [DecidableEq α] {all : List α} {v : α} (hv : v ∈ all)
    (hlength : all.length ≤ Nat.pow 2 32) : (choice all).Fits v := by
  have hi : all.idxOf v < all.length := List.idxOf_lt_length_of_mem hv
  refine ⟨Nat.lt_of_lt_of_le hi hlength, ?_⟩
  simp only [List.getElem?_eq_getElem hi, List.getElem_idxOf]

/-! ## §4. Lists. -/

/-- Items in a row, each with its bytes. -/
theorem decodeItems_eq_ok_iff (ha : a.Follows S) (count : Nat) :
    ∀ {read : List α} {bytes : Bytes} {vs : List α} {rest : Bytes},
      decodeItems a.decode count read bytes = .ok (vs, rest) ↔
        ∃ items : List (α × Bytes), items.length = count
          ∧ vs = read.reverse ++ items.map (·.1) ∧ bytes = items.flatMap (·.2) ++ rest
          ∧ ∀ item ∈ items, S item.1 item.2 := by
  induction count with
  | zero =>
    intro read bytes vs rest
    constructor
    · intro h
      cases h
      exact ⟨[], rfl, by simp, rfl, fun _ h => absurd h List.not_mem_nil⟩
    · intro ⟨items, hlength, hvs, hbytes, _⟩
      obtain rfl := List.length_eq_zero_iff.1 hlength
      rw [hvs, hbytes]
      simp [decodeItems]
  | succ count ih =>
    intro read bytes vs rest
    show (a.decode bytes >>= fun first => decodeItems a.decode count (first.1 :: read) first.2)
      = _ ↔ _
    rw [Decoding.bind_eq_ok]
    constructor
    · intro ⟨⟨x, rest'⟩, hfirst, h⟩
      obtain ⟨front, rfl, hx⟩ := ha.decode_iff.1 hfirst
      obtain ⟨items, hlength, hvs, rfl, hall⟩ := ih.1 h
      refine ⟨(x, front) :: items, by rw [List.length_cons, hlength], ?_, ?_, ?_⟩
      · rw [hvs]
        simp
      · simp
      · exact List.forall_mem_cons.2 ⟨hx, hall⟩
    · intro ⟨items, hlength, hvs, hbytes, hall⟩
      cases items with
      | nil => cases hlength
      | cons item items =>
        obtain ⟨hitem, hall⟩ := List.forall_mem_cons.1 hall
        refine ⟨(item.1, items.flatMap (·.2) ++ rest),
          ha.decode_iff.2 ⟨item.2, ?_, hitem⟩, ?_⟩
        · rw [hbytes]
          simp
        · refine ih.2 ⟨items, Nat.succ.inj hlength, ?_, rfl, hall⟩
          rw [hvs]
          simp

/-- A list is the number of its items and the items. -/
def ListSpells (S : α → Bytes → Prop) (vs : List α) (bytes : Bytes) : Prop :=
  ∃ (count : Bytes) (items : List (α × Bytes)), bytes = count ++ items.flatMap (·.2)
    ∧ Width.long.Spells vs.length count ∧ vs = items.map (·.1) ∧ ∀ item ∈ items, S item.1 item.2

theorem Follows.list (ha : a.Follows S) : a.list.Follows (ListSpells S) where
  decode_iff := by
    intro bytes vs rest
    show (long.decode bytes >>= fun count => decodeItems a.decode count.1 [] count.2) = _ ↔ _
    rw [Decoding.bind_eq_ok]
    constructor
    · intro ⟨⟨n, rest'⟩, hcount, h⟩
      obtain ⟨count, rfl, hn⟩ := (follows_number Width.exact_long).decode_iff.1 hcount
      obtain ⟨items, hlength, hvs, rfl, hall⟩ := (decodeItems_eq_ok_iff ha n).1 h
      have hvs' : vs = items.map (·.1) := by simpa using hvs
      refine ⟨count ++ items.flatMap (·.2), by rw [List.append_assoc], count, items, rfl, ?_, hvs',
        hall⟩
      rw [hvs', List.length_map, hlength]
      exact hn
    · intro ⟨front, hbytes, count, items, hfront, hcount, hvs, hall⟩
      refine ⟨(vs.length, items.flatMap (·.2) ++ rest),
        (follows_number Width.exact_long).decode_iff.2 ⟨count, ?_, hcount⟩, ?_⟩
      · rw [hbytes, hfront, List.append_assoc]
      · refine (decodeItems_eq_ok_iff ha vs.length).2 ⟨items, ?_, by simpa using hvs, rfl, hall⟩
        rw [hvs, List.length_map]
  encode := by
    intro vs hvs
    refine ⟨long.encode vs.length, vs.map fun v => (v, a.encode v), ?_,
      (follows_number Width.exact_long).encode hvs.1, ?_, ?_⟩
    · show long.encode vs.length ++ vs.flatMap a.encode = _
      rw [List.flatMap_map]
    · rw [List.map_map]
      exact (List.map_id' vs).symm
    · intro item hitem
      obtain ⟨v, hv, rfl⟩ := List.mem_map.1 hitem
      exact ha.encode (hvs.2 v hv)

/-- An array is written as the list of its items. -/
theorem Follows.array (ha : a.Follows S) :
    a.array.Follows fun vs bytes => ListSpells S vs.toList bytes := by
  refine (ha.list.iso List.toArray Array.toList).congr ?_
  intro vs bytes
  constructor
  · intro ⟨items, hmake, hitems⟩
    rw [← hmake]
    exact hitems
  · intro hitems
    exact ⟨vs.toList, rfl, hitems⟩

/-! ## §5. Options. -/

/-- A value that may be missing is a byte 0, or a byte 1 and the value. -/
def OptionSpells (S : α → Bytes → Prop) : Option α → Bytes → Prop
  | none, bytes => bytes = [0]
  | some v, bytes => ∃ tail, bytes = 1 :: tail ∧ S v tail

theorem Follows.option (ha : a.Follows S) : a.option.Follows (OptionSpells S) where
  decode_iff := by
    intro bytes v rest
    constructor
    · intro h
      unfold Codec.option at h
      dsimp only at h
      split at h
      · cases h
      · cases h
        exact ⟨[0], rfl, rfl⟩
      · obtain ⟨⟨x, rest'⟩, hx, h⟩ := Decoding.bind_eq_ok.1 h
        cases h
        obtain ⟨front, rfl, hfront⟩ := ha.decode_iff.1 hx
        exact ⟨1 :: front, rfl, front, rfl, hfront⟩
      · cases h
    · intro ⟨front, hbytes, hfront⟩
      cases v with
      | none =>
        obtain rfl : front = [0] := hfront
        rw [hbytes]
        rfl
      | some x =>
        obtain ⟨tail, rfl, hx⟩ := hfront
        rw [hbytes]
        show (a.decode (tail ++ rest) >>= fun first => Except.ok (some first.1, first.2)) = _
        rw [Decoding.bind_eq_ok]
        exact ⟨(x, rest), ha.decode_iff.2 ⟨tail, rfl, hx⟩, rfl⟩
  encode := by
    intro v hv
    cases v with
    | none => rfl
    | some x => exact ⟨a.encode x, rfl, ha.encode hv⟩

/-! ## §6. Texts and characters. -/

/-- **Bytes are a text if and only if they are its UTF-8 form.** -/
theorem textOfBytes?_eq_some_iff {bytes : Bytes} {s : String} :
    textOfBytes? bytes = some s ↔ bytes = bytesOfText s := by
  unfold textOfBytes? String.fromUTF8?
  constructor
  · intro h
    split at h
    · cases h
      rfl
    · cases h
  · intro h
    have hdata : (⟨bytes.toArray⟩ : ByteArray) = s.toByteArray := by
      rw [h, bytesOfText, Array.toArray_toList]
      rfl
    simp only [hdata, dif_pos s.isValidUTF8]
    rfl

/-- So many bytes off the front. -/
theorem takeBytes_eq_ok_iff {count : Nat} {bytes front rest : Bytes} :
    takeBytes count bytes = .ok (front, rest) ↔ bytes = front ++ rest ∧ front.length = count := by
  unfold takeBytes
  rw [List.splitAt_eq]
  dsimp only
  constructor
  · intro h
    split at h
    · cases h
    · next hlength =>
      cases h
      rw [List.length_take] at hlength ⊢
      exact ⟨(List.take_append_drop count bytes).symm, by omega⟩
  · intro ⟨hbytes, hcount⟩
    subst hbytes hcount
    rw [List.take_left, List.drop_left, if_neg (Nat.lt_irrefl _)]

/-- A text is the number of its bytes and those bytes. -/
def TextSpells (s : String) (bytes : Bytes) : Prop :=
  ∃ count, bytes = count ++ bytesOfText s ∧ Width.long.Spells (bytesOfText s).length count

theorem follows_text : text.Follows TextSpells where
  decode_iff := by
    intro bytes s rest
    unfold Codec.text
    dsimp only
    rw [Decoding.bind_eq_ok]
    constructor
    · intro ⟨⟨n, rest'⟩, hcount, h⟩
      obtain ⟨⟨front, rest''⟩, hfront, h⟩ := Decoding.bind_eq_ok.1 h
      dsimp only at h
      split at h
      · next s' hs =>
        cases h
        obtain ⟨count, rfl, hn⟩ := (follows_number Width.exact_long).decode_iff.1 hcount
        obtain ⟨rfl, rfl⟩ := takeBytes_eq_ok_iff.1 hfront
        obtain rfl := textOfBytes?_eq_some_iff.1 hs
        exact ⟨count ++ bytesOfText s, by rw [List.append_assoc], count, rfl, hn⟩
      · cases h
    · intro ⟨front, hbytes, count, hfront, hcount⟩
      refine ⟨((bytesOfText s).length, bytesOfText s ++ rest),
        (follows_number Width.exact_long).decode_iff.2 ⟨count, ?_, hcount⟩, ?_⟩
      · rw [hbytes, hfront, List.append_assoc]
      · dsimp only
        rw [Decoding.bind_eq_ok]
        refine ⟨(bytesOfText s, rest), takeBytes_eq_ok_iff.2 ⟨rfl, rfl⟩, ?_⟩
        simp only [textOfBytes?_eq_some_iff.2 rfl]
        rfl
  encode := by
    intro s hs
    exact ⟨_, rfl, (follows_number Width.exact_long).encode hs⟩

/-- A character is a text of at most four bytes that begins with it. -/
def CharSpells (c : Char) (bytes : Bytes) : Prop :=
  ∃ s : String, s.toList.head? = some c ∧ (bytesOfText s).length ≤ 4 ∧ TextSpells s bytes

/-- A single character takes four bytes at most. -/
theorem length_bytesOfText_singleton (c : Char) :
    (bytesOfText (String.singleton c)).length ≤ 4 := by
  show (String.singleton c).utf8ByteSize ≤ 4
  rw [String.utf8ByteSize_singleton]
  exact Char.utf8Size_le_four c

theorem follows_character : character.Follows CharSpells where
  decode_iff := by
    intro bytes c rest
    unfold Codec.character
    dsimp only
    rw [Decoding.bind_eq_ok]
    constructor
    · intro ⟨⟨n, rest'⟩, hcount, h⟩
      dsimp only at h
      split at h
      · cases h
      · next hfour =>
        obtain ⟨⟨front, rest''⟩, hfront, h⟩ := Decoding.bind_eq_ok.1 h
        dsimp only at h
        split at h
        · next c' hc =>
          cases h
          obtain ⟨s, hs, hhead⟩ := Option.bind_eq_some_iff.1 hc
          obtain ⟨count, rfl, hn⟩ := (follows_number Width.exact_long).decode_iff.1 hcount
          obtain ⟨rfl, rfl⟩ := takeBytes_eq_ok_iff.1 hfront
          obtain rfl := textOfBytes?_eq_some_iff.1 hs
          exact ⟨count ++ bytesOfText s, by rw [List.append_assoc], s, hhead, by omega, count, rfl,
            hn⟩
        · cases h
    · intro ⟨front, hbytes, s, hhead, hfour, count, hfront, hcount⟩
      refine ⟨((bytesOfText s).length, bytesOfText s ++ rest),
        (follows_number Width.exact_long).decode_iff.2 ⟨count, ?_, hcount⟩, ?_⟩
      · rw [hbytes, hfront, List.append_assoc]
      · dsimp only
        rw [if_neg (Nat.not_lt.2 hfour), Decoding.bind_eq_ok]
        refine ⟨(bytesOfText s, rest), takeBytes_eq_ok_iff.2 ⟨rfl, rfl⟩, ?_⟩
        simp only [textOfBytes?_eq_some_iff.2 rfl, Option.bind_some, hhead]
        rfl
  encode := by
    intro c _
    have hfour := length_bytesOfText_singleton c
    refine ⟨String.singleton c, by simp, hfour, _, rfl, ?_⟩
    apply (follows_number Width.exact_long).encode
    show _ < Nat.pow 2 64
    exact Nat.lt_of_le_of_lt hfour (by decide)

end Codec

end TapeMachine.Wire
