/-
  TapeMachine.Proofs.Disassembly
  ──────────────────────────────
  **THE TEXT OF A PROGRAM SAYS ALL THERE IS TO SAY.**

  The text of a program is read back from the outside in:

      · a text of lines gives its lines, since no line has a line feed
        (`Text.unlines_injective`);
      · the second line gives the granularity;
      · the lines of an opcode start with a rule or with digits, which shows
        whether it is marked as a jump target (`opcodeLines_append`);
      · a line is cut at its first `;`, before which the mnemonic stands and
        after which the offset does, both as wide as they need;
      · three letters of a mnemonic give the operator (`find?_label`), and the
        digits after a counted one its count (`opcode_of_mnemonic`).

  The indices of partners are not read: they follow from the opcodes, as do
  the counts of the heading.

  A loop bracket is the partner of its partner, so the opcodes that are jumped
  to are the loop brackets (`jumpTargets_of_balanced`).
-/
import TapeMachine.Program.Disassembly
import TapeMachine.Proofs.Canonical
import TapeMachine.Proofs.Layout

namespace TapeMachine

namespace Text

/-! ## §1. Lines and fields. -/

/-- Equal texts are equal on both sides of the first place where a mark stands. -/
theorem cut_unique {a : Char} {xs : List Char} : ∀ {ys zs ws : List Char}, a ∉ xs → a ∉ ys →
    xs ++ a :: zs = ys ++ a :: ws → xs = ys ∧ zs = ws := by
  induction xs with
  | nil =>
    intro ys zs ws _ hy h
    cases ys with
    | nil => exact ⟨rfl, (List.cons.inj h).2⟩
    | cons y ys => exact absurd ((List.cons.inj h).1 ▸ List.mem_cons_self) hy
  | cons x xs ih =>
    intro ys zs ws hx hy h
    cases ys with
    | nil => exact absurd ((List.cons.inj h).1 ▸ List.mem_cons_self) hx
    | cons y ys =>
      obtain ⟨hxs, hzs⟩ := ih (fun ha => hx (List.mem_cons_of_mem x ha))
        (fun ha => hy (List.mem_cons_of_mem y ha)) (List.cons.inj h).2
      exact ⟨by rw [(List.cons.inj h).1, hxs], hzs⟩

theorem toList_unlines (lines : List String) :
    (unlines lines).toList = lines.flatMap fun line => line.toList ++ ['\n'] := by
  have hfold : ∀ (lines : List String) (text : String),
      (lines.foldl (fun text line => text ++ line ++ "\n") text).toList
        = text.toList ++ lines.flatMap fun line => line.toList ++ ['\n'] := by
    intro lines
    induction lines with
    | nil =>
      intro text
      exact (List.append_nil _).symm
    | cons line lines ih =>
      intro text
      rw [List.foldl_cons, ih, List.flatMap_cons, String.toList_append, String.toList_append,
        List.append_assoc, List.append_assoc, List.append_assoc]
      rfl
  exact hfold lines ""

/-- **A text gives its lines.** -/
theorem unlines_injective {lines : List String} : ∀ {lines' : List String},
    (∀ line ∈ lines, '\n' ∉ line.toList) → (∀ line ∈ lines', '\n' ∉ line.toList) →
      unlines lines = unlines lines' → lines = lines' := by
  suffices hflat : ∀ {lines' : List String},
      (∀ line ∈ lines, '\n' ∉ line.toList) → (∀ line ∈ lines', '\n' ∉ line.toList) →
        (lines.flatMap fun line => line.toList ++ ['\n'])
          = (lines'.flatMap fun line => line.toList ++ ['\n']) → lines = lines' by
    intro lines' h h' heq
    apply hflat h h'
    rw [← toList_unlines, ← toList_unlines, heq]
  induction lines with
  | nil =>
    intro lines' _ _ heq
    cases lines' with
    | nil => rfl
    | cons line' lines' => simp at heq
  | cons line lines ih =>
    intro lines' h h' heq
    cases lines' with
    | nil => simp at heq
    | cons line' lines' =>
      rw [List.flatMap_cons, List.flatMap_cons, List.append_assoc, List.append_assoc] at heq
      obtain ⟨hline, hrest⟩ := cut_unique (h line List.mem_cons_self)
        (h' line' List.mem_cons_self) heq
      rw [String.toList_injective hline, ih (fun l hl => h l (List.mem_cons_of_mem _ hl))
        (fun l hl => h' l (List.mem_cons_of_mem _ hl)) hrest]

theorem isDigit_of_mem_digits {n : Nat} {c : Char} (h : c ∈ Nat.toDigits 10 n) : c.isDigit :=
  Nat.isDigit_of_mem_toDigits (by decide) (by decide) h

/-- A number in decimal followed by blanks gives the number. -/
theorem number_of_field {n m j k : Nat}
    (h : Nat.toDigits 10 n ++ List.replicate j ' ' = Nat.toDigits 10 m ++ List.replicate k ' ') :
    n = m := by
  have hdigits : ∀ n k : Nat,
      (Nat.toDigits 10 n ++ List.replicate k ' ').takeWhile Char.isDigit = Nat.toDigits 10 n := by
    intro n k
    rw [List.takeWhile_append_of_pos fun c hc => isDigit_of_mem_digits hc]
    have hblanks : (List.replicate k ' ').takeWhile Char.isDigit = [] := by
      cases k <;> rfl
    rw [hblanks, List.append_nil]
  have hsame : Nat.toDigits 10 n = Nat.toDigits 10 m := by
    rw [← hdigits n j, h, hdigits]
  rw [← Nat.ofDigitChars_ten_toDigits (n := n), hsame, Nat.ofDigitChars_ten_toDigits]

theorem isDigit_of_mem_zeroPadded {width n : Nat} {c : Char}
    (h : c ∈ (zeroPadded width n).toList) : c.isDigit := by
  rw [zeroPadded, String.toList_ofList, List.leftpad, List.mem_append] at h
  rcases h with h | h
  · rw [(List.mem_replicate.1 h).2]
    rfl
  · exact isDigit_of_mem_digits h

theorem toList_decimal (n : Nat) : (toString n).toList = Nat.toDigits 10 n := by
  rw [Nat.toString_eq_ofList_toDigits, String.toList_ofList]

end Text

/-- An opcode counts more than one operator only if it can be repeated. -/
def Opcode.Proper (op : Opcode) : Prop := op.operator.isRepeatable = false → op.count = 1

namespace Program

/-! ## §2. Mnemonics. -/

/-- The characters of headings and mnemonics: no line feed, nothing of the
marks of a jump target, and not the `;` after a mnemonic. -/
def isPlain (c : Char) : Bool :=
  c.isAlphanum || [' ', '-', '>', '.', '(', ')', ',', '═'].contains c

theorem isPlain_of_isDigit {c : Char} (h : c.isDigit) : isPlain c := by
  simp [isPlain, Char.isAlphanum, h]

theorem isPlain_of_mem_decimal {n : Nat} {c : Char} (h : c ∈ (toString n).toList) :
    isPlain c := by
  rw [Text.toList_decimal] at h
  exact isPlain_of_isDigit (Text.isDigit_of_mem_digits h)

theorem not_mem_of_isPlain {c : Char} {cs : List Char} (hc : isPlain c = false)
    (h : ∀ c ∈ cs, isPlain c) : c ∉ cs := by
  intro hmem
  rw [h c hmem] at hc
  cases hc

/-- The part of a mnemonic that is the same for all opcodes of an operator. -/
def label : Operator → String
  | .right => "FWD         "
  | .left => "BACK        "
  | .inc => "INC         "
  | .dec => "DEC         "
  | .put => "PRINT"
  | .get => "READ"
  | .loopOpen => "JZ          -> "
  | .loopClose => "JNZ         -> "
  | .bodyOpen => "DEF         .."
  | .bodyClose => "END"
  | .call => "CALL"

/-- The digits at the end of a mnemonic: a count or the index of the partner. -/
def numeral (op : Opcode) (partner : Nat) : List Char :=
  match op.operator with
  | .right | .left | .inc | .dec => Nat.toDigits 10 op.count
  | .loopOpen | .loopClose | .bodyOpen => (Text.zeroPadded 4 partner).toList
  | .put | .get | .bodyClose | .call => []

theorem toList_mnemonic (op : Opcode) (partner : Nat) :
    (mnemonic op partner).toList = (label op.operator).toList ++ numeral op partner := by
  unfold mnemonic numeral
  cases op.operator with
  | right | left | inc | dec =>
    rw [String.toList_append, ← Text.toList_decimal]
    rfl
  | loopOpen | loopClose | bodyOpen =>
    rw [String.toList_append]
    rfl
  | put | get | bodyClose | call => exact (List.append_nil _).symm

theorem isPlain_of_mem_numeral {op : Opcode} {partner : Nat} {c : Char}
    (h : c ∈ numeral op partner) : isPlain c := by
  apply isPlain_of_isDigit
  unfold numeral at h
  revert h
  cases op.operator with
  | right | left | inc | dec =>
    intro h
    exact Text.isDigit_of_mem_digits h
  | loopOpen | loopClose | bodyOpen =>
    intro h
    exact Text.isDigit_of_mem_zeroPadded h
  | put | get | bodyClose | call =>
    intro h
    cases h

/-- Three letters of the label give the operator. -/
theorem find?_label (o : Operator) : Operator.all.find? (fun o' =>
    (label o').toList.take 3 == (label o).toList.take 3) = some o := by
  cases o <;> decide

theorem toList_action (op : Opcode) (partner : Nat) :
    ∃ k, (Text.blankPadded 28 (mnemonic op partner)).toList
      = (label op.operator).toList ++ (numeral op partner ++ List.replicate k ' ') := by
  refine ⟨28 - (mnemonic op partner).toList.length, ?_⟩
  rw [Text.blankPadded, String.toList_ofList, List.rightpad, ← List.append_assoc,
    ← toList_mnemonic]

/-- **A mnemonic gives the opcode**, if what is not counted counts one. -/
theorem opcode_of_mnemonic {op op' : Opcode} {partner partner' : Nat}
    (hop : op.Proper) (hop' : op'.Proper)
    (h : Text.blankPadded 28 (mnemonic op partner) = Text.blankPadded 28 (mnemonic op' partner')) :
    op = op' := by
  obtain ⟨k, hk⟩ := toList_action op partner
  obtain ⟨k', hk'⟩ := toList_action op' partner'
  rw [h, hk'] at hk
  obtain ⟨o, n⟩ := op
  obtain ⟨o', n'⟩ := op'
  have hsame : o' = o := by
    -- the first three characters are letters of the label, whatever follows it
    have hthree : ∀ (o : Operator) (rest : List Char),
        ((label o).toList ++ rest).take 3 = (label o).toList.take 3 := by
      intro o rest
      apply List.take_append_of_le_length
      cases o <;> decide
    have htake := congrArg (List.take 3) hk
    rw [hthree, hthree] at htake
    have hfind := find?_label o'
    rw [show (label o').toList.take 3 = (label o).toList.take 3 from htake, find?_label] at hfind
    exact (Option.some.inj hfind).symm
  subst hsame
  have hnumeral := List.append_cancel_left hk
  cases hrep : o'.isRepeatable with
  | false => rw [show n = 1 from hop hrep, show n' = 1 from hop' hrep]
  | true =>
    -- the digits are those of the count
    have hcount : ∀ m q : Nat, numeral ⟨o', m⟩ q = Nat.toDigits 10 m := by
      intro m q
      cases o' with
      | right | left | inc | dec => rfl
      | put | get | loopOpen | loopClose | bodyOpen | bodyClose | call => cases hrep
    rw [hcount, hcount] at hnumeral
    rw [Text.number_of_field hnumeral]

/-! ## §3. The lines of an opcode. -/

/-- What stands in a line after the index. -/
def rowText (op : Opcode) (partner offset : Nat) : String :=
  Text.blankPadded 28 (mnemonic op partner) ++ "; @" ++ toString offset

theorem opcodeLines_eq (i : Nat) (op : Opcode) (partner offset : Nat) (isTarget : Bool) :
    opcodeLines i op partner offset isTarget
      = if isTarget then [targetRule, Text.zeroPadded 4 i ++ " ► " ++ rowText op partner offset]
        else [Text.zeroPadded 4 i ++ "   " ++ rowText op partner offset] := by
  unfold opcodeLines rowText
  cases isTarget with
  | true =>
    simp only [if_true, String.append_assoc]
    rfl
  | false =>
    simp only [Bool.false_eq_true, if_false, String.append_assoc]
    rfl

theorem isPlain_of_mem_action {op : Opcode} {partner : Nat} {c : Char}
    (h : c ∈ (Text.blankPadded 28 (mnemonic op partner)).toList) : isPlain c := by
  obtain ⟨k, hk⟩ := toList_action op partner
  rw [hk, List.mem_append, List.mem_append] at h
  rcases h with h | h | h
  · have hlabel : ∀ o : Operator, (label o).toList.all isPlain := by
      intro o
      cases o <;> decide
    exact List.all_eq_true.1 (hlabel op.operator) c h
  · exact isPlain_of_mem_numeral h
  · rw [(List.mem_replicate.1 h).2]
    rfl

theorem toList_rowText (op : Opcode) (partner offset : Nat) :
    (rowText op partner offset).toList
      = (Text.blankPadded 28 (mnemonic op partner)).toList
        ++ ';' :: ' ' :: '@' :: (toString offset).toList := by
  rw [rowText, String.toList_append, String.toList_append, List.append_assoc]
  rfl

theorem not_mem_rowText {c : Char} (hc : isPlain c = false) (hmarks : c ∉ [';', '@'])
    (op : Opcode) (partner offset : Nat) : c ∉ (rowText op partner offset).toList := by
  intro h
  rw [toList_rowText] at h
  simp only [List.mem_append, List.mem_cons] at h
  rcases h with h | rfl | rfl | rfl | h
  · exact not_mem_of_isPlain hc (fun _ => isPlain_of_mem_action) h
  · exact hmarks (by decide)
  · cases hc
  · exact hmarks (by decide)
  · exact not_mem_of_isPlain hc (fun _ => isPlain_of_mem_decimal) h

/-- **A line gives its opcode and its offset.** -/
theorem rowText_injective {op op' : Opcode} {partner partner' offset offset' : Nat}
    (hop : op.Proper) (hop' : op'.Proper)
    (h : rowText op partner offset = rowText op' partner' offset') :
    op = op' ∧ offset = offset' := by
  have hlist := congrArg String.toList h
  rw [toList_rowText, toList_rowText] at hlist
  have hnot : ∀ (op : Opcode) (partner : Nat),
      ';' ∉ (Text.blankPadded 28 (mnemonic op partner)).toList :=
    fun _ _ => not_mem_of_isPlain (by decide) fun _ => isPlain_of_mem_action
  obtain ⟨haction, hoffset⟩ := Text.cut_unique (hnot op partner) (hnot op' partner') hlist
  refine ⟨opcode_of_mnemonic hop hop' (String.toList_injective haction), ?_⟩
  have hdigits := (List.cons.inj (List.cons.inj hoffset).2).2
  rw [Text.toList_decimal, Text.toList_decimal] at hdigits
  exact Text.number_of_field (j := 0) (k := 0) (by rw [hdigits])

theorem toList_targetRule :
    targetRule.toList = List.replicate 6 ' ' ++ '┌' :: List.replicate 34 '─' := by
  decide +kernel

/-- A line that starts with an index is not a rule. -/
theorem indexed_ne_targetRule (i : Nat) (text : String) :
    Text.zeroPadded 4 i ++ text ≠ targetRule := by
  intro h
  have hrule : targetRule.toList.head? = some ' ' := by
    rw [toList_targetRule]
    rfl
  rw [← h, String.toList_append] at hrule
  cases hindex : (Text.zeroPadded 4 i).toList with
  | nil =>
    rw [Text.zeroPadded, String.toList_ofList] at hindex
    exact absurd hindex (by simp [List.leftpad])
  | cons c cs =>
    have hdigit : c.isDigit := Text.isDigit_of_mem_zeroPadded (hindex ▸ List.mem_cons_self)
    rw [hindex] at hrule
    rw [show c = ' ' from Option.some.inj hrule] at hdigit
    cases hdigit

/-- **The lines of an opcode give it, and leave the lines after it.** -/
theorem opcodeLines_append {i : Nat} {op op' : Opcode} {partner partner' offset offset' : Nat}
    {isTarget isTarget' : Bool} {rest rest' : List String}
    (hop : op.Proper) (hop' : op'.Proper)
    (h : opcodeLines i op partner offset isTarget ++ rest
      = opcodeLines i op' partner' offset' isTarget' ++ rest') :
    (op = op' ∧ offset = offset') ∧ rest = rest' := by
  rw [opcodeLines_eq, opcodeLines_eq] at h
  have hcancel : ∀ {lead a b : String}, lead ++ a = lead ++ b → a = b := by
    intro lead a b heq
    have hlist := congrArg String.toList heq
    rw [String.toList_append, String.toList_append] at hlist
    exact String.toList_injective (List.append_cancel_left hlist)
  cases isTarget with
  | true =>
    cases isTarget' with
    | true =>
      obtain ⟨hline, hrest⟩ := List.cons.inj (List.cons.inj h).2
      exact ⟨rowText_injective hop hop' (hcancel hline), hrest⟩
    | false =>
      -- the rule of the one would be the indexed line of the other
      have hrule := (List.cons.inj h).1
      rw [String.append_assoc] at hrule
      exact absurd hrule.symm (indexed_ne_targetRule _ _)
  | false =>
    cases isTarget' with
    | true =>
      have hrule := (List.cons.inj h).1
      rw [String.append_assoc] at hrule
      exact absurd hrule (indexed_ne_targetRule _ _)
    | false =>
      obtain ⟨hline, hrest⟩ := List.cons.inj h
      exact ⟨rowText_injective hop hop' (hcancel hline), hrest⟩

/-! ## §4. The listing. -/

/-- For each opcode what its lines say: the opcode, its partner, its offset, and
whether it is marked as a jump target. -/
def rows (p : Program) : List (Opcode × Nat × Nat × Bool) :=
  p.opcodes.toList.zip (p.partners.toList.zip (p.offsets.toList.zip p.jumpTargets.toList))

/-- The lines of a row with its index. -/
def rowLines (row : (Opcode × Nat × Nat × Bool) × Nat) : List String :=
  opcodeLines row.2 row.1.1 row.1.2.1 row.1.2.2.1 row.1.2.2.2

theorem listing_eq (p : Program) : p.listing = p.rows.zipIdx.flatMap rowLines := rfl

/-- **A listing gives the opcodes and the offsets**, row by row. -/
theorem rows_of_lines {rows : List (Opcode × Nat × Nat × Bool)} :
    ∀ {rows' : List (Opcode × Nat × Nat × Bool)} {i : Nat},
      (∀ row ∈ rows, row.1.Proper) → (∀ row ∈ rows', row.1.Proper) →
      (rows.zipIdx i).flatMap rowLines = (rows'.zipIdx i).flatMap rowLines →
        rows.map (·.1) = rows'.map (·.1) ∧ rows.map (·.2.2.1) = rows'.map (·.2.2.1) := by
  -- an opcode has a line, so the rows of one text do not end before those of the other
  have hlines : ∀ (row : Opcode × Nat × Nat × Bool) (i : Nat) (rest : List String),
      rowLines (row, i) ++ rest ≠ [] := by
    intro row i rest h
    rw [rowLines, opcodeLines_eq] at h
    split at h <;> cases h
  induction rows with
  | nil =>
    intro rows' i _ _ h
    cases rows' with
    | nil => exact ⟨rfl, rfl⟩
    | cons row' rows' => exact absurd h.symm (hlines row' i _)
  | cons row rows ih =>
    intro rows' i hproper hproper' h
    cases rows' with
    | nil => exact absurd h (hlines row i _)
    | cons row' rows' =>
      rw [List.zipIdx_cons, List.zipIdx_cons, List.flatMap_cons, List.flatMap_cons] at h
      obtain ⟨⟨hop, hoffset⟩, hrest⟩ := opcodeLines_append (hproper row List.mem_cons_self)
        (hproper' row' List.mem_cons_self) h
      obtain ⟨hops, hoffsets⟩ := ih (fun r hr => hproper r (List.mem_cons_of_mem _ hr))
        (fun r hr => hproper' r (List.mem_cons_of_mem _ hr)) hrest
      simp only [List.map_cons]
      exact ⟨by rw [hops, show row.1 = row'.1 from hop],
        by rw [hoffsets, show row.2.2.1 = row'.2.2.1 from hoffset]⟩

/-! ## §5. The jump targets. -/

/-- Whether the operator is a bracket of a loop. -/
def isLoopBracket (o : Operator) : Bool := o == .loopOpen || o == .loopClose

/-- One opcode more whose partner may be a jump target. -/
def markTarget (marks : Array Bool) (row : Opcode × Nat) : Array Bool :=
  match row.1.operator with
  | .loopOpen | .loopClose => marks.setIfInBounds row.2 true
  | _ => marks

theorem jumpTargets_eq (p : Program) : p.jumpTargets
    = (p.opcodes.toList.zip p.partners.toList).foldl markTarget (Array.replicate p.size false) :=
  rfl

theorem getElem?_markTarget (marks : Array Bool) (row : Opcode × Nat) (j : Nat) :
    (markTarget marks row)[j]?
      = marks[j]?.map (· || (isLoopBracket row.1.operator && row.2 == j)) := by
  have hkeep : marks[j]?.map (· || false) = marks[j]? := by
    cases marks[j]? <;> simp
  have hset : (marks.setIfInBounds row.2 true)[j]? = marks[j]?.map (· || row.2 == j) := by
    rw [Array.getElem?_setIfInBounds]
    by_cases hj : row.2 = j
    · subst hj
      by_cases hlt : row.2 < marks.size
      · simp [hlt]
      · simp [hlt]
    · rw [if_neg hj, beq_false_of_ne hj, hkeep]
  unfold markTarget
  cases row.1.operator with
  | loopOpen | loopClose => exact hset
  | right | left | inc | dec | put | get | bodyOpen | bodyClose | call => exact hkeep.symm

theorem getElem?_foldl_markTarget (rows : List (Opcode × Nat)) (j : Nat) :
    ∀ marks : Array Bool, (rows.foldl markTarget marks)[j]?
      = marks[j]?.map (· || rows.any fun row => isLoopBracket row.1.operator && row.2 == j) := by
  induction rows with
  | nil =>
    intro marks
    simp
  | cons row rows ih =>
    intro marks
    rw [List.foldl_cons, ih, getElem?_markTarget, Option.map_map, List.any_cons]
    congr 1
    funext b
    exact Bool.or_assoc _ _ _

theorem jumpTargets_size (p : Program) : p.jumpTargets.size = p.size := by
  have hfold : ∀ (rows : List (Opcode × Nat)) (marks : Array Bool),
      (rows.foldl markTarget marks).size = marks.size := by
    intro rows
    induction rows with
    | nil => exact fun _ => rfl
    | cons row rows ih =>
      intro marks
      rw [List.foldl_cons, ih]
      unfold markTarget
      split
      · exact Array.size_setIfInBounds
      · exact Array.size_setIfInBounds
      · rfl
  rw [jumpTargets_eq, hfold, Array.size_replicate]

/-- **The jump targets are the loop brackets**, each the partner of its own. -/
theorem jumpTargets_of_balanced {p : Program} (hp : p.Balanced) {j : Nat} {op : Opcode}
    (hop : p.opcodes[j]? = some op) :
    p.jumpTargets[j]? = some (isLoopBracket op.operator) := by
  have hj : j < p.size := (Array.getElem?_eq_some_iff.1 hop).1
  have hloop : ∀ o : Operator, isLoopBracket o ↔ o = .loopOpen ∨ o = .loopClose := by
    intro o
    simp [isLoopBracket]
  rw [jumpTargets_eq, getElem?_foldl_markTarget, Array.getElem?_replicate, if_pos hj,
    Option.map_some, Bool.false_or]
  congr 1
  apply Bool.eq_iff_iff.2
  rw [List.any_eq_true]
  constructor
  · rintro ⟨row, hrow, htarget⟩
    obtain ⟨hbracket, hpartner⟩ := Bool.and_eq_true_iff.1 htarget
    obtain ⟨i, hi⟩ := List.getElem?_of_mem hrow
    obtain ⟨hx, hback⟩ := List.getElem?_zip_eq_some.1 hi
    rw [Array.getElem?_toList] at hx hback
    rw [beq_iff_eq.1 hpartner] at hback
    obtain ⟨y, hy, -, hkind⟩ := hp.loop_partner hx hback ((hloop _).1 hbracket)
    rw [hop] at hy
    cases hy
    apply (hloop _).2
    rcases hkind with ⟨-, -, ho⟩ | ⟨-, -, ho⟩
    · exact .inr ho
    · exact .inl ho
  · intro hbracket
    obtain ⟨i, hi⟩ : ∃ i, p.partners[j]? = some i :=
      ⟨_, Array.getElem?_eq_getElem (hp.partners_size.symm ▸ hj)⟩
    obtain ⟨y, hy, hback, hkind⟩ := hp.loop_partner hop hi ((hloop _).1 hbracket)
    refine ⟨(y, j), List.mem_of_getElem? (i := i) ?_, ?_⟩
    · rw [List.getElem?_zip_eq_some, Array.getElem?_toList, Array.getElem?_toList]
      exact ⟨hy, hback⟩
    · rw [Bool.and_eq_true, beq_self_eq_true]
      refine ⟨(hloop _).2 ?_, rfl⟩
      rcases hkind with ⟨-, -, ho⟩ | ⟨-, -, ho⟩
      · exact .inr ho
      · exact .inl ho

/-! ## §6. The whole text. -/

theorem length_heading (p : Program) : p.heading.length = 4 := rfl

theorem toList_headingRule : headingRule.toList = List.replicate 40 '═' := by
  decide +kernel

theorem isPlain_of_mem_heading {p : Program} {line : String} (hline : line ∈ p.heading) :
    ∀ c ∈ line.toList, isPlain c := by
  have happend : ∀ {a b : String}, a.toList.all isPlain → b.toList.all isPlain →
      (a ++ b).toList.all isPlain := by
    intro a b ha hb
    rw [String.toList_append, List.all_append, ha, hb]
    rfl
  have hnumber : ∀ n : Nat, (toString n).toList.all isPlain :=
    fun _ => List.all_eq_true.2 fun _ => isPlain_of_mem_decimal
  apply List.all_eq_true.1
  simp only [heading, List.mem_cons, List.not_mem_nil, or_false] at hline
  have hrule : headingRule.toList.all isPlain := by
    rw [toList_headingRule]
    decide
  rcases hline with rfl | rfl | rfl | rfl
  · exact hrule
  · cases p.granularity <;> decide
  · exact happend (happend (happend (happend (happend (happend (by decide) (hnumber _))
      (by decide)) (hnumber _)) (by decide)) (hnumber _)) (by decide)
  · exact hrule

theorem newline_not_mem_rowLines {row : (Opcode × Nat × Nat × Bool) × Nat} {line : String}
    (hline : line ∈ rowLines row) : '\n' ∉ line.toList := by
  have hindexed : ∀ {arrow : String}, '\n' ∉ arrow.toList → '\n' ∉
      (Text.zeroPadded 4 row.2 ++ arrow ++ rowText row.1.1 row.1.2.1 row.1.2.2.1).toList := by
    intro arrow harrow h
    rw [String.toList_append, String.toList_append, List.mem_append, List.mem_append] at h
    rcases h with (h | h) | h
    · exact not_mem_of_isPlain (by decide)
        (fun _ hc => isPlain_of_isDigit (Text.isDigit_of_mem_zeroPadded hc)) h
    · exact harrow h
    · exact not_mem_rowText (by decide) (by decide) _ _ _ h
  rw [rowLines, opcodeLines_eq] at hline
  split at hline
  · rcases List.mem_cons.1 hline with rfl | hline
    · rw [toList_targetRule]
      decide
    · rw [List.mem_singleton.1 hline]
      exact hindexed (by decide)
  · rw [List.mem_singleton.1 hline]
    exact hindexed (by decide)

theorem newline_not_mem_lines {p : Program} {line : String}
    (hline : line ∈ p.heading ++ p.listing) : '\n' ∉ line.toList := by
  rcases List.mem_append.1 hline with hline | hline
  · exact not_mem_of_isPlain (by decide) (isPlain_of_mem_heading hline)
  · rw [listing_eq] at hline
    obtain ⟨row, -, hrow⟩ := List.mem_flatMap.1 hline
    exact newline_not_mem_rowLines hrow

/-- The rows have all the opcodes and all the offsets. -/
theorem Balanced.columns {p : Program} (hp : p.Balanced) :
    p.rows.map (·.1) = p.opcodes.toList ∧ p.rows.map (·.2.2.1) = p.offsets.toList := by
  have hpartners : p.partners.toList.length = p.opcodes.toList.length := hp.partners_size
  have hoffsets : p.offsets.toList.length = p.opcodes.toList.length := hp.offsets_size
  have htargets : p.jumpTargets.toList.length = p.opcodes.toList.length := p.jumpTargets_size
  have hinner : (p.offsets.toList.zip p.jumpTargets.toList).length = p.opcodes.toList.length := by
    rw [List.length_zip]
    omega
  have hmiddle : (p.partners.toList.zip (p.offsets.toList.zip p.jumpTargets.toList)).length
      = p.opcodes.toList.length := by
    rw [List.length_zip]
    omega
  constructor
  · exact List.map_fst_zip (Nat.le_of_eq hmiddle.symm)
  · calc p.rows.map (·.2.2.1)
        = ((p.rows.map Prod.snd).map Prod.snd).map Prod.fst := by
          rw [List.map_map, List.map_map]
          rfl
      _ = p.offsets.toList := by
          rw [rows, List.map_snd_zip (Nat.le_of_eq hmiddle),
            List.map_snd_zip (Nat.le_of_eq (hinner.trans hpartners.symm)),
            List.map_fst_zip (Nat.le_of_eq (hoffsets.trans htargets.symm))]

/-- **A text gives the granularity, the opcodes and the offsets.** -/
theorem parts_of_disassembly {p q : Program} (hp : p.Balanced) (hq : q.Balanced)
    (hproper : ∀ op ∈ p.opcodes.toList, op.Proper) (hproper' : ∀ op ∈ q.opcodes.toList, op.Proper)
    (h : p.disassembly = q.disassembly) :
    p.granularity = q.granularity ∧ p.opcodes = q.opcodes ∧ p.offsets = q.offsets := by
  have hlines := Text.unlines_injective (fun _ => newline_not_mem_lines)
    (fun _ => newline_not_mem_lines) h
  obtain ⟨hheading, hlisting⟩ :=
    List.append_inj hlines (p.length_heading.trans q.length_heading.symm)
  have hrows : ∀ {p : Program}, p.Balanced → (∀ op ∈ p.opcodes.toList, op.Proper) →
      ∀ row ∈ p.rows, row.1.Proper := by
    intro p hp hproper row hrow
    exact hproper row.1 (hp.columns.1 ▸ List.mem_map_of_mem hrow)
  obtain ⟨hops, hoffsets⟩ := rows_of_lines (hrows hp hproper) (hrows hq hproper') hlisting
  rw [hp.columns.1, hq.columns.1] at hops
  rw [hp.columns.2, hq.columns.2] at hoffsets
  refine ⟨?_, Array.toList_inj.1 hops, Array.toList_inj.1 hoffsets⟩
  have hname := (List.cons.inj (List.cons.inj hheading).2).1
  revert hname
  cases p.granularity <;> cases q.granularity <;> decide

/-- **The lines of each opcode**: a loop bracket has the marks of a jump target,
and nothing else has. -/
theorem Balanced.blocks {p : Program} (hp : p.Balanced) :
    (p.rows.zipIdx.map rowLines).length = p.size
      ∧ ∀ (k : Nat) (op : Opcode), p.opcodes[k]? = some op →
        ∃ text : String, '►' ∉ text.toList ∧ (p.rows.zipIdx.map rowLines)[k]?
          = some (if op.operator = .loopOpen ∨ op.operator = .loopClose then
              [targetRule, Text.zeroPadded 4 k ++ " ► " ++ text]
            else [Text.zeroPadded 4 k ++ "   " ++ text]) := by
  constructor
  · rw [List.length_map, List.length_zipIdx, ← List.length_map (·.1), hp.columns.1]
    rfl
  · intro k op hop
    have hk : k < p.size := (Array.getElem?_eq_some_iff.1 hop).1
    obtain ⟨partner, hpartner⟩ : ∃ i, p.partners[k]? = some i :=
      ⟨_, Array.getElem?_eq_getElem (hp.partners_size.symm ▸ hk)⟩
    obtain ⟨offset, hoffset⟩ : ∃ i, p.offsets[k]? = some i :=
      ⟨_, Array.getElem?_eq_getElem (hp.offsets_size.symm ▸ hk)⟩
    have hrow : p.rows[k]? = some (op, partner, offset, isLoopBracket op.operator) := by
      simp only [rows, List.getElem?_zip_eq_some, Array.getElem?_toList]
      exact ⟨hop, hpartner, hoffset, jumpTargets_of_balanced hp hop⟩
    refine ⟨rowText op partner offset, not_mem_rowText (by decide) (by decide) _ _ _, ?_⟩
    rw [List.getElem?_map, List.getElem?_zipIdx, hrow]
    show some (opcodeLines (0 + k) op partner offset (isLoopBracket op.operator)) = _
    rw [Nat.zero_add, opcodeLines_eq]
    simp only [isLoopBracket, Bool.or_eq_true, beq_iff_eq]

/-- The program with these opcodes and offsets: all else follows from them. -/
def ofParts (g : Granularity) (opcodes : Array Opcode) (offsets : Array Nat) : Program :=
  { opcodes
    offsets
    partners := (Matching.ofOpcodes opcodes.toList).table
    functionCount := (Matching.ofOpcodes opcodes.toList).functions
    operatorCount := Opcode.total opcodes.toList
    granularity := g }

/-- **A script that passes the check compiles to a balanced program** of which
granularity, opcodes and offsets say everything. -/
theorem exists_ofParts {source : String} (hsource : (Script.validate source).isSuccess)
    (g : Granularity) : ∃ p, compile g source = .ok p ∧ p.Balanced
      ∧ p = ofParts p.granularity p.opcodes p.offsets
      ∧ ∀ op ∈ p.opcodes.toList, op.Proper := by
  obtain ⟨b, hb, hoperators⟩ := Script.validate_isSuccess_iff.1 hsource
  refine ⟨_, compile_of_isSuccess hsource g, balanced_ofTokens hb.1 hoperators g _, ?_, ?_⟩
  · rw [ofParts, total_ofTokens, ← Script.count_of_isSuccess hsource]
    rfl
  · intro op hop
    obtain ⟨x, hx, rfl⟩ := List.mem_map.1 hop
    exact ((Instruction.packs_pack g _).counted x hx).2

end Program

/-- **Disassembly loses nothing.**  Scripts that pass the check compile, and if the
programs of two of them, in whatever granularity, have the same text, they are
the same program.  The text of each is a heading and the lines of its opcodes in
order.  A loop bracket has a rule above its line and an arrow in it; no other
opcode has either, and neither has the heading. -/
theorem disassembly_loses_nothing (source source' : String) (g g' : Granularity)
    (hsource : (Script.validate source).isSuccess)
    (hsource' : (Script.validate source').isSuccess) :
    ∃ p q, Program.compile g source = .ok p ∧ Program.compile g' source' = .ok q
      ∧ (p.disassembly = q.disassembly → p = q)
      ∧ (∀ line ∈ p.heading, line ≠ Program.targetRule ∧ '►' ∉ line.toList)
      ∧ ∃ blocks : List (List String),
          p.disassembly = Text.unlines (p.heading ++ blocks.flatten)
          ∧ blocks.length = p.size
          ∧ ∀ (k : Nat) (op : Opcode), p.opcodes[k]? = some op →
            ∃ text : String, '►' ∉ text.toList ∧ blocks[k]?
              = some (if op.operator = .loopOpen ∨ op.operator = .loopClose then
                  [Program.targetRule, Text.zeroPadded 4 k ++ " ► " ++ text]
                else [Text.zeroPadded 4 k ++ "   " ++ text]) := by
  obtain ⟨p, hp, hbalanced, hparts, hproper⟩ := Program.exists_ofParts hsource g
  obtain ⟨q, hq, hbalanced', hparts', hproper'⟩ := Program.exists_ofParts hsource' g'
  refine ⟨p, q, hp, hq, ?_, ?_, _, ?_, hbalanced.blocks⟩
  · intro htext
    obtain ⟨hgranularity, hopcodes, hoffsets⟩ :=
      Program.parts_of_disassembly hbalanced hbalanced' hproper hproper' htext
    rw [hparts, hparts', hgranularity, hopcodes, hoffsets]
  · intro line hline
    have hplain := Program.isPlain_of_mem_heading hline
    refine ⟨?_, Program.not_mem_of_isPlain (by decide) hplain⟩
    rintro rfl
    exact absurd (hplain '┌' (by rw [Program.toList_targetRule]; decide)) (by decide)
  · rw [← List.flatMap_def]
    rfl

/-- Two packings of one script that differ in their texts, and the marks of a
loop in a function's body. -/
theorem disassembly_loses_nothing_in_body :
    ∃ p q, Program.compile .packed "(++[-])" = .ok p ∧ Program.compile .plain "(++[-])" = .ok q
      ∧ p.disassembly ≠ q.disassembly
      ∧ ∃ blocks : List (List String),
          p.disassembly = Text.unlines (p.heading ++ blocks.flatten)
          ∧ ∃ text, blocks[2]? = some [Program.targetRule, "0002 ► " ++ text] := by
  obtain ⟨p, q, hp, hq, hsame, -, blocks, htext, -, hblocks⟩ := disassembly_loses_nothing
    "(++[-])" "(++[-])" .packed .plain (by decide +kernel) (by decide +kernel)
  have hrun : (Program.compile .packed "(++[-])").toOption.map (fun p => p.opcodes.toList)
      = some [⟨.bodyOpen, 1⟩, ⟨.inc, 2⟩, ⟨.loopOpen, 1⟩, ⟨.dec, 1⟩, ⟨.loopClose, 1⟩,
        ⟨.bodyClose, 1⟩] := by
    decide +kernel
  have hrun' : (Program.compile .plain "(++[-])").toOption.map (fun p => p.opcodes.toList)
      = some [⟨.bodyOpen, 1⟩, ⟨.inc, 1⟩, ⟨.inc, 1⟩, ⟨.loopOpen, 1⟩, ⟨.dec, 1⟩, ⟨.loopClose, 1⟩,
        ⟨.bodyClose, 1⟩] := by
    decide +kernel
  rw [hp] at hrun
  rw [hq] at hrun'
  have hopcodes : p.opcodes.toList = _ := Option.some.inj hrun
  refine ⟨p, q, hp, hq, ?_, blocks, htext, ?_⟩
  · intro heq
    rw [hsame heq] at hrun
    rw [hrun'] at hrun
    revert hrun
    decide
  · obtain ⟨text, -, hblock⟩ := hblocks 2 ⟨.loopOpen, 1⟩ (by
      rw [← Array.getElem?_toList, hopcodes]
      rfl)
    exact ⟨text, hblock⟩

end TapeMachine
