/-
  TapeMachine.Proofs.Records
  ──────────────────────────
  **RECORDS AS BYTES.**

  The bytes of a record are those of its fields, in the order in which the
  fields are declared and with nothing between them (`InRow`).  For a program,
  the report of a check and the report on a run, and for all they are made of,
  `Spells` says which bytes the value may have, without writing and without
  reading.  The codecs follow that because those of the fields do:

    • `Follows.field`, `Follows.last` — one field more in the row,
    • `Follows.record` — the row, as the record it stands for.

  No field has a mark behind it: each of them is read up to where the next
  one begins because the bytes in front of any others are read as one value.

  `InRange` says that every number of a record is one that its field can
  hold.  That is all it takes for a value to be read back
  (`records_round_trip`).
-/
import TapeMachine.Proofs.Snapshots

namespace TapeMachine

open Wire Codec

/-! ## §1. Fields in a row. -/

namespace Wire

/-- Fields one after the other, and nothing else. -/
def InRow : List (Bytes → Prop) → Bytes → Prop
  | [], bytes => bytes = []
  | field :: fields, bytes => ∃ front back, bytes = front ++ back ∧ field front ∧ InRow fields back

/-- A value of a finite type is the number of its place in a list of them. -/
def ChoiceSpells {α : Type} (all : List α) (v : α) (bytes : Bytes) : Prop :=
  ∃ i : Nat, all[i]? = some v ∧ Width.word.Spells i bytes

theorem zigzag_unzigzag (n : Nat) : zigzag (unzigzag n) = n := by
  unfold unzigzag
  split
  · show 2 * (n / 2) = n
    omega
  · show 2 * (n / 2) + 1 = n
    omega

namespace Codec

variable {α β : Type} {a : Codec α} {b : Codec β} {S : α → Bytes → Prop}

/-- The last field of a row. -/
theorem Follows.last (ha : a.Follows S) : a.Follows fun v => InRow [S v] := by
  apply ha.congr
  intro v bytes
  constructor
  · intro h
    exact ⟨bytes, [], (List.append_nil bytes).symm, h, rfl⟩
  · intro ⟨front, back, hbytes, hfront, hback⟩
    rw [hbytes, show back = [] from hback, List.append_nil]
    exact hfront

/-- A field in front of a row. -/
theorem Follows.field {fields : β → List (Bytes → Prop)} (ha : a.Follows S)
    (hb : b.Follows fun v => InRow (fields v)) :
    (a.pair b).Follows fun v => InRow (S v.1 :: fields v.2) :=
  ha.pair hb

/-- The row of fields of a record. -/
theorem Follows.record {fields : α → List (Bytes → Prop)} {make : α → β} {back : β → α}
    (ha : a.Follows fun v => InRow (fields v)) (hback : ∀ x, back (make x) = x)
    (hmake : ∀ v, make (back v) = v) :
    (a.iso make back).Follows fun v => InRow (fields (back v)) := by
  apply (ha.iso make back).congr
  intro v bytes
  constructor
  · intro ⟨x, hx, hfields⟩
    rw [← hx, hback]
    exact hfields
  · intro hfields
    exact ⟨back v, hmake v, hfields⟩

/-- **A value is read back from what was written**, and reading stops there. -/
theorem Follows.decode_encode (ha : a.Follows S) {v : α} (hv : a.Fits v) (rest : Bytes) :
    a.decode (a.encode v ++ rest) = .ok (v, rest) :=
  ha.decode_iff.2 ⟨a.encode v, rfl, ha.encode hv⟩

/-- A signed number is written as the unsigned one it is taken to. -/
theorem follows_signed : signed.Follows fun i => Width.long.Spells (zigzag i) := by
  apply ((follows_number Width.exact_long).iso unzigzag zigzag).congr
  intro i bytes
  constructor
  · intro ⟨n, hn, hspells⟩
    rw [← hn, zigzag_unzigzag]
    exact hspells
  · intro hspells
    exact ⟨zigzag i, unzigzag_zigzag i, hspells⟩

/-! ## §2. What fits. -/

theorem fits_long {n : Nat} (h : n < UInt64.size) : long.Fits n := h

theorem fits_short {n : Nat} (h : n < UInt16.size) : short.Fits n := h

theorem fits_text {s : String} (h : s.utf8ByteSize < UInt64.size) : text.Fits s := h

theorem fits_list {vs : List α} (hlength : vs.length < UInt64.size) (hall : ∀ v ∈ vs, a.Fits v) :
    a.list.Fits vs :=
  ⟨hlength, hall⟩

theorem fits_array {vs : Array α} (hsize : vs.size < UInt64.size) (hall : ∀ v ∈ vs, a.Fits v) :
    a.array.Fits vs :=
  ⟨⟨hsize, fun v hv => hall v (Array.mem_toList_iff.1 hv)⟩, rfl⟩

theorem fits_option {v : Option α} (hall : ∀ x ∈ v, a.Fits x) : a.option.Fits v := by
  cases v with
  | none => trivial
  | some x => exact hall x rfl

/-- The signed numbers of 64 bits. -/
theorem fits_signed {i : Int} (hlow : Int64.minValue.toInt ≤ i) (hhigh : i ≤ Int64.maxValue.toInt) :
    signed.Fits i := by
  have hmin : Int64.minValue.toInt = -9223372036854775808 := by decide
  have hmax : Int64.maxValue.toInt = 9223372036854775807 := by decide
  rw [hmin] at hlow
  rw [hmax] at hhigh
  refine ⟨fits_long ?_, unzigzag_zigzag i⟩
  show zigzag i < 18446744073709551616
  cases i with
  | ofNat n =>
    show 2 * n < _
    have : (n : Int) ≤ 9223372036854775807 := hhigh
    omega
  | negSucc n =>
    show 2 * n + 1 < _
    omega

end Codec

end Wire

/-! ## §3. The bytes of each record. -/

/-- The bytes of an opcode. -/
def Opcode.Spells (op : Opcode) : Bytes → Prop :=
  InRow [ChoiceSpells Operator.all op.operator, Width.short.Spells op.count]

/-- The bytes of a program. -/
def Program.Spells (p : Program) : Bytes → Prop :=
  InRow [
    ListSpells Opcode.Spells p.opcodes.toList,
    ListSpells Width.long.Spells p.offsets.toList,
    ListSpells Width.long.Spells p.partners.toList,
    Width.long.Spells p.functionCount,
    Width.long.Spells p.operatorCount,
    ChoiceSpells Granularity.all p.granularity]

/-- The bytes of the report of a check. -/
def Validation.Spells (v : Validation) : Bytes → Prop :=
  InRow [
    OptionSpells (ChoiceSpells SyntaxError.all) v.error,
    Width.long.Spells (zigzag v.offset),
    Width.long.Spells v.count]

/-- The bytes of a definition. -/
def Definition.Spells (d : Definition) : Bytes → Prop :=
  InRow [
    Width.short.Spells d.key,
    Width.long.Spells d.index,
    Width.long.Spells d.offset,
    TextSpells d.body]

/-- The bytes of a halt. -/
def Halting.Spells (h : Halting) : Bytes → Prop :=
  InRow [ListSpells TextSpells h.trace, CharSpells h.operator, Width.long.Spells h.offset]

/-- The bytes of a duration.  More nanoseconds than a second has are read as
the seconds they are. -/
def Duration.Spells (d : Duration) (bytes : Bytes) : Prop :=
  ∃ seconds nanos, Duration.ofParts? seconds nanos = some d
    ∧ InRow [Width.long.Spells seconds, Width.word.Spells nanos] bytes

/-- The bytes of a report. -/
def Report.Spells (r : Report) : Bytes → Prop :=
  InRow [
    TextSpells r.source,
    ChoiceSpells ExitCode.all r.exitCode,
    OptionSpells Halting.Spells r.halting,
    Tape.Spells r.tape,
    ListSpells Definition.Spells r.definitions,
    TextSpells r.input,
    TextSpells r.output,
    Duration.Spells r.elapsed,
    Width.long.Spells r.operations]

/-! ## §4. The codecs follow them. -/

theorem Opcode.follows_codec : Opcode.codec.Follows Opcode.Spells :=
  Follows.record ((follows_choice Operator.all).field (follows_number Width.exact_short).last)
    (fun _ => rfl) (fun _ => rfl)

theorem Program.follows_codec : Program.codec.Follows Program.Spells :=
  have hlong := follows_number Width.exact_long
  Follows.record (Opcode.follows_codec.array.field (hlong.array.field (hlong.array.field
    (hlong.field (hlong.field (follows_choice Granularity.all).last)))))
    (fun _ => rfl) (fun _ => rfl)

theorem Validation.follows_codec : Validation.codec.Follows Validation.Spells :=
  Follows.record ((follows_choice SyntaxError.all).option.field
    (follows_signed.field (follows_number Width.exact_long).last))
    (fun _ => rfl) (fun _ => rfl)

theorem Definition.follows_codec : Definition.codec.Follows Definition.Spells :=
  have hlong := follows_number Width.exact_long
  Follows.record ((follows_number Width.exact_short).field (hlong.field (hlong.field
    follows_text.last)))
    (fun _ => rfl) (fun _ => rfl)

theorem Halting.follows_codec : Halting.codec.Follows Halting.Spells :=
  Follows.record (follows_text.list.field (follows_character.field
    (follows_number Width.exact_long).last))
    (fun _ => rfl) (fun _ => rfl)

theorem Duration.follows_codec : Duration.codec.Follows Duration.Spells := by
  have hparts := (follows_number Width.exact_long).field (follows_number Width.exact_word).last
  apply (hparts.refine _ _).congr
  intro d bytes
  constructor
  · intro ⟨⟨seconds, nanos⟩, hcheck, hrow⟩
    refine ⟨seconds, nanos, ?_, hrow⟩
    cases hd : Duration.ofParts? seconds nanos with
    | none =>
      simp only [hd] at hcheck
      cases hcheck
    | some d' =>
      simp only [hd] at hcheck
      cases hcheck
      rfl
  · intro ⟨seconds, nanos, hd, hrow⟩
    refine ⟨(seconds, nanos), ?_, hrow⟩
    simp only [hd]

theorem Report.follows_codec : Report.codec.Follows Report.Spells :=
  Follows.record (follows_text.field ((follows_choice ExitCode.all).field
    (Halting.follows_codec.option.field (Tape.follows_codec.field
      (Definition.follows_codec.list.field (follows_text.field (follows_text.field
        (Duration.follows_codec.field (follows_number Width.exact_long).last))))))))
    (fun _ => rfl) (fun _ => rfl)

/-! ## §5. Values in range. -/

/-- The places and counts of a program have 64 bits, the count of an opcode
has 16. -/
structure Program.InRange (p : Program) : Prop where
  size : p.opcodes.size < UInt64.size
  count : ∀ op ∈ p.opcodes, op.count < UInt16.size
  offsets_size : p.offsets.size < UInt64.size
  offset : ∀ i ∈ p.offsets, i < UInt64.size
  partners_size : p.partners.size < UInt64.size
  partner : ∀ i ∈ p.partners, i < UInt64.size
  functionCount : p.functionCount < UInt64.size
  operatorCount : p.operatorCount < UInt64.size

/-- The offset in the report of a check has 64 bits and a sign. -/
structure Validation.InRange (v : Validation) : Prop where
  low : Int64.minValue.toInt ≤ v.offset
  high : v.offset ≤ Int64.maxValue.toInt
  count : v.count < UInt64.size

/-- The key of a function is the value of a cell. -/
structure Definition.InRange (d : Definition) : Prop where
  key : d.key < UInt16.size
  index : d.index < UInt64.size
  offset : d.offset < UInt64.size
  body : d.body.utf8ByteSize < UInt64.size

/-- As many frames as can be counted, and a text for each. -/
structure Halting.InRange (h : Halting) : Prop where
  depth : h.trace.length < UInt64.size
  text : ∀ s ∈ h.trace, s.utf8ByteSize < UInt64.size
  offset : h.offset < UInt64.size

/-- A tape, well-formed or not. -/
structure Tape.InRange (t : Tape) : Prop where
  size : t.cells.size < UInt64.size
  cell : ∀ c ∈ t.cells, c < UInt16.size
  pointer : t.pointer < UInt64.size

/-- No full second among the nanoseconds. -/
structure Duration.InRange (d : Duration) : Prop where
  seconds : d.seconds < UInt64.size
  nanos : d.nanos < Duration.nanosPerSecond

/-- A report all of whose parts are in range. -/
structure Report.InRange (r : Report) : Prop where
  source : r.source.utf8ByteSize < UInt64.size
  halting : ∀ h ∈ r.halting, h.InRange
  tape : r.tape.InRange
  definitions_length : r.definitions.length < UInt64.size
  definition : ∀ d ∈ r.definitions, d.InRange
  input : r.input.utf8ByteSize < UInt64.size
  output : r.output.utf8ByteSize < UInt64.size
  elapsed : r.elapsed.InRange
  operations : r.operations < UInt64.size

theorem Opcode.fits {op : Opcode} (h : op.count < UInt16.size) : Opcode.codec.Fits op := by
  have hoperator : Operator.codec.Fits op.operator :=
    fits_choice (by cases op.operator <;> decide) (by decide)
  exact ⟨⟨hoperator, fits_short h⟩, rfl⟩

theorem Program.InRange.fits {p : Program} (h : p.InRange) : Program.codec.Fits p := by
  have hopcodes : Opcode.codec.array.Fits p.opcodes :=
    fits_array h.size fun op hop => Opcode.fits (h.count op hop)
  have hoffsets : long.array.Fits p.offsets := fits_array h.offsets_size h.offset
  have hpartners : long.array.Fits p.partners := fits_array h.partners_size h.partner
  have hgranularity : Granularity.codec.Fits p.granularity :=
    fits_choice (by cases p.granularity <;> decide) (by decide)
  exact ⟨⟨hopcodes, hoffsets, hpartners, fits_long h.functionCount, fits_long h.operatorCount,
    hgranularity⟩, rfl⟩

theorem Validation.InRange.fits {v : Validation} (h : v.InRange) : Validation.codec.Fits v := by
  have herror : SyntaxError.codec.option.Fits v.error :=
    fits_option fun e _ => fits_choice (by cases e <;> decide) (by decide)
  exact ⟨⟨herror, fits_signed h.low h.high, fits_long h.count⟩, rfl⟩

theorem Definition.InRange.fits {d : Definition} (h : d.InRange) : Definition.codec.Fits d :=
  ⟨⟨fits_short h.key, fits_long h.index, fits_long h.offset, fits_text h.body⟩, rfl⟩

theorem Halting.InRange.fits {h : Halting} (hh : h.InRange) : Halting.codec.Fits h := by
  have htrace : Codec.text.list.Fits h.trace :=
    fits_list hh.depth fun s hs => fits_text (hh.text s hs)
  have hoperator : character.Fits h.operator := trivial
  exact ⟨⟨htrace, hoperator, fits_long hh.offset⟩, rfl⟩

theorem Tape.InRange.fits {t : Tape} (h : t.InRange) : Tape.codec.Fits t := by
  have hmode : CellMode.codec.Fits t.mode :=
    fits_choice (by cases t.mode <;> decide) (by decide)
  exact ⟨⟨fits_array h.size h.cell, fits_long h.pointer, hmode⟩, rfl⟩

/-- Nothing is carried over when there is no full second. -/
theorem Duration.InRange.ofParts? {d : Duration} (h : d.InRange) :
    Duration.ofParts? d.seconds d.nanos = some d := by
  have hcarry : d.nanos / Duration.nanosPerSecond = 0 := Nat.div_eq_of_lt h.nanos
  have hcount : Counter.add? d.seconds 0 = some d.seconds :=
    Counter.add?_eq_some_iff.2 ⟨Nat.add_zero _, Nat.le_sub_one_of_lt h.seconds⟩
  have hparts : Duration.ofParts d.seconds d.nanos = d := by
    unfold Duration.ofParts
    rw [hcarry, Nat.mod_eq_of_lt h.nanos]
    rfl
  unfold Duration.ofParts?
  rw [hcarry, hcount, Option.map_some, hparts]

theorem Duration.InRange.fits {d : Duration} (h : d.InRange) : Duration.codec.Fits d := by
  have hnanos : d.nanos < 4294967296 := Nat.lt_trans h.nanos (by decide)
  refine ⟨⟨fits_long h.seconds, hnanos⟩, ?_⟩
  simp only [h.ofParts?]

theorem Report.InRange.fits {r : Report} (h : r.InRange) : Report.codec.Fits r := by
  have hexit : ExitCode.codec.Fits r.exitCode :=
    fits_choice (by cases r.exitCode <;> decide) (by decide)
  have hhalting : Halting.codec.option.Fits r.halting :=
    fits_option fun x hx => (h.halting x hx).fits
  have hdefinitions : Definition.codec.list.Fits r.definitions :=
    fits_list h.definitions_length fun d hd => (h.definition d hd).fits
  exact ⟨⟨fits_text h.source, hexit, hhalting, h.tape.fits, hdefinitions, fits_text h.input,
    fits_text h.output, h.elapsed.fits, fits_long h.operations⟩, rfl⟩

/-! ## §6. The result. -/

/-- **Records are read back from what was written.**  For a program, the
report of a check and the report on a run: bytes are read as a value if and
only if they begin with the value's fields, each in its form and in the order
of declaration, and reading stops right behind them; a value in range is
written as such bytes; and so it is read back whatever bytes come behind. -/
theorem records_round_trip :
    (Program.codec.Follows Program.Spells
        ∧ ∀ (p : Program) (rest : Bytes), p.InRange →
          Program.codec.decode (Program.codec.encode p ++ rest) = .ok (p, rest))
      ∧ (Validation.codec.Follows Validation.Spells
        ∧ ∀ (v : Validation) (rest : Bytes), v.InRange →
          Validation.codec.decode (Validation.codec.encode v ++ rest) = .ok (v, rest))
      ∧ (Report.codec.Follows Report.Spells
        ∧ ∀ (r : Report) (rest : Bytes), r.InRange →
          Report.codec.decode (Report.codec.encode r ++ rest) = .ok (r, rest)) := by
  refine ⟨⟨Program.follows_codec, ?_⟩, ⟨Validation.follows_codec, ?_⟩, Report.follows_codec, ?_⟩
  · intro p rest hp
    exact Program.follows_codec.decode_encode hp.fits rest
  · intro v rest hv
    exact Validation.follows_codec.decode_encode hv.fits rest
  · intro r rest hr
    exact Report.follows_codec.decode_encode hr.fits rest

/-- A packed program; a check that failed behind so many characters that the
offset takes two bytes; and a report on a halt in a call, with texts that are
not ASCII and one nanosecond less than a second. -/
theorem records_round_trip_halted :
    (∃ p : Program, p.opcodes = #[⟨.inc, 300⟩, ⟨.get, 1⟩] ∧ p.InRange
        ∧ Program.codec.encode p = [2, 2, 0xac, 2, 5, 1, 2, 0, 0xac, 2, 2, 0, 0, 0, 0xad, 2, 1]
        ∧ Program.codec.decode (Program.codec.encode p ++ [7]) = .ok (p, [7]))
      ∧ (∃ v : Validation, v = ⟨some .mismatchedParenthesis, 300, 7⟩ ∧ v.InRange
        ∧ Validation.codec.encode v = [1, 1, 0xd8, 4, 7]
        ∧ Validation.codec.decode (Validation.codec.encode v ++ [7]) = .ok (v, [7]))
      ∧ (∃ r : Report, r.halting = some ⟨["é", "λ-"], '-', 3⟩ ∧ r.elapsed = ⟨1, 999999999⟩
        ∧ r.InRange ∧ Report.codec.decode (Report.codec.encode r ++ [7]) = .ok (r, [7])) := by
  obtain ⟨⟨-, hprogram⟩, ⟨-, hvalidation⟩, -, hreport⟩ := records_round_trip
  have hp : Program.InRange ⟨#[⟨.inc, 300⟩, ⟨.get, 1⟩], #[0, 300], #[0, 0], 0, 301, .packed⟩ :=
    ⟨by decide, by decide, by decide, by decide, by decide, by decide, by decide, by decide⟩
  have hv : Validation.InRange ⟨some .mismatchedParenthesis, 300, 7⟩ :=
    ⟨by decide, by decide, by decide⟩
  have hr : Report.InRange
      { source := "é(λ-)", exitCode := .belowZero, halting := some ⟨["é", "λ-"], '-', 3⟩,
        tape := ⟨#[300, 65535], 1, .wordChecked⟩, definitions := [⟨65535, 0, 1, "-"⟩],
        input := "", output := "ß", elapsed := ⟨1, 999999999⟩, operations := 300 } :=
    { source := by decide
      halting := by
        intro h hh
        cases hh
        exact ⟨by decide, by decide, by decide⟩
      tape := ⟨by decide, by decide, by decide⟩
      definitions_length := by decide
      definition := by
        intro d hd
        cases List.mem_singleton.1 hd
        exact ⟨by decide, by decide, by decide, by decide⟩
      input := by decide
      output := by decide
      elapsed := ⟨by decide, by decide⟩
      operations := by decide }
  exact ⟨⟨_, rfl, hp, by rfl, hprogram _ _ hp⟩, ⟨_, rfl, hv, by rfl, hvalidation _ _ hv⟩,
    ⟨_, rfl, rfl, hr, hreport _ _ hr⟩⟩

end TapeMachine
