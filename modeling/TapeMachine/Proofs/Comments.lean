/-
  TapeMachine.Proofs.Comments
  ───────────────────────────
  **COMMENTS ARE INERT.**

  A script without its comments (`Script.bare`) has the same operators, and
  each of them stands at its own number.  `Script.offsetOf` takes the number
  of an operator to the place where it stands in the full script.

  Every stage carries offsets along and none looks at one, so each of them
  commutes with placing the offsets by ANY function `f`:

    • `Scan.run_placed` — the check,
    • `Instruction.pack_placed`, `Program.ofTokens_placed` — compiling,
    • `Run.steps_placed` — the engine, which does not see offsets at all,
    • `Report.build?_placed` — the report.

  With `tokens_eq_placed` that is a law about the two texts.
-/
import TapeMachine.Proofs.Location

namespace TapeMachine

/-! ## §1. A script without its comments. -/

namespace Script

/-- The script without its comments. -/
def bare (source : String) : String := String.ofList (source.toList.filter Operator.isSymbol)

/-- Where the operators of a script stand, first to last. -/
def operatorOffsets (source : String) : List Nat :=
  (source.toList.zipIdx.filter fun place => Operator.isSymbol place.1).map (·.2)

/-- Where operator number `k` of a script stands. -/
def offsetOf (source : String) (k : Nat) : Nat := (operatorOffsets source).getD k 0

end Script

/-! ## §2. The same with other offsets. -/

section Placed

variable (f : Nat → Nat)

/-- The token at another place. -/
def Token.placed (t : Token) : Token := ⟨t.operator, f t.offset⟩

/-- The report of a check about another text; one that names no place stays
as it is. -/
def Validation.placed (v : Validation) : Validation where
  error := v.error
  offset := match v.offset with
    | .ofNat offset => f offset
    | .negSucc k => .negSucc k
  count := v.count

/-- An error about another text. -/
def Error.placed : Error → Error
  | malformed report => malformed (report.placed f)
  | tapeSize size => tapeSize size
  | breakpoint offset length => breakpoint offset length
  | snapshot cause => snapshot cause

/-- The open function of another text. -/
def Script.OpenBody.placed (b : OpenBody) : OpenBody := ⟨f b.start, b.loops.map f, b.size⟩

/-- The same read in another text. -/
def Script.Scan.placed (s : Scan) : Scan :=
  ⟨s.count, s.loops.map f, s.body.map (OpenBody.placed f)⟩

/-- The instruction at another place. -/
def Instruction.placed (x : Instruction) : Instruction := ⟨x.opcode, f x.offset⟩

/-- The program of another text. -/
def Program.placed (p : Program) : Program := { p with offsets := p.offsets.map f }

/-- The function defined at another place. -/
def Definition.placed (d : Definition) : Definition := { d with offset := f d.offset }

/-- The halt at another place. -/
def Halting.placed (h : Halting) : Halting := { h with offset := f h.offset }

/-- The report on another text, `source`. -/
def Report.placed (source : String) (r : Report) : Report :=
  { r with
    source
    halting := r.halting.map (Halting.placed f)
    definitions := r.definitions.map (Definition.placed f) }

end Placed

/-! ## §3. The tokens of the two texts. -/

namespace Script

/-- In a text of operators only, each stands at its number. -/
theorem tokensFrom_symbols (ops : List Operator) : ∀ start : Nat,
    tokensFrom start (ops.map Operator.symbol)
      = (ops.zipIdx start).map fun place => ⟨place.1, place.2⟩ := by
  induction ops with
  | nil =>
    intro start
    rfl
  | cons o ops ih =>
    intro start
    rw [List.map_cons, tokensFrom_cons, Operator.ofChar?_symbol]
    show ⟨o, start⟩ :: tokensFrom (start + 1) (ops.map Operator.symbol) = _
    rw [ih (start + 1)]
    rfl

/-- The tokens of a text stand where its operators do. -/
theorem offsets_tokensFrom (text : List Char) : ∀ start : Nat,
    (tokensFrom start text).map (·.offset)
      = ((text.zipIdx start).filter fun place => Operator.isSymbol place.1).map (·.2) := by
  induction text with
  | nil =>
    intro start
    rfl
  | cons c text ih =>
    intro start
    rw [tokensFrom_cons, List.zipIdx_cons]
    cases hc : Operator.ofChar? c with
    | none =>
      have hsymbol : Operator.isSymbol c = false := by simp [Operator.isSymbol, hc]
      simp only [List.filter_cons, hsymbol]
      exact ih (start + 1)
    | some o =>
      have hsymbol : Operator.isSymbol c = true := by simp [Operator.isSymbol, hc]
      simp only [List.filter_cons, hsymbol, List.map_cons, if_true]
      exact congrArg (start :: ·) (ih (start + 1))

theorem operatorOffsets_eq (source : String) :
    operatorOffsets source = (tokens source).map (·.offset) :=
  (offsets_tokensFrom source.toList 0).symm

/-- Where the operators stand: from left to right, the bare text. -/
theorem operatorOffsets_spell (source : String) :
    (operatorOffsets source).Pairwise (· < ·)
      ∧ (operatorOffsets source).map (fun offset => source.toList[offset]?)
        = (bare source).toList.map some := by
  rw [operatorOffsets_eq]
  constructor
  · rw [List.pairwise_map]
    exact (sorted_tokensFrom source.toList 0).2
  · unfold bare
    rw [String.toList_ofList, ← symbols_tokens, List.map_map, List.map_map, List.map_map]
    apply List.map_congr_left
    intro t ht
    exact getElem?_of_token ht

example : operatorOffsets "é+[ ß-]" = [1, 2, 5, 6] := by decide

/-- **The tokens of a script are those of the bare script, each at its place.** -/
theorem tokens_eq_placed (source : String) :
    tokens source = (tokens (bare source)).map (Token.placed (offsetOf source)) := by
  have hbare : tokens (bare source)
      = ((tokens source).map (·.operator)).zipIdx.map fun place => ⟨place.1, place.2⟩ := by
    unfold bare
    rw [← symbols_tokens, ← tokensFrom_symbols, tokens, String.toList_ofList]
  rw [hbare]
  apply List.ext_getElem?
  intro k
  -- the token of number `k` on both sides, its offset looked up by that number
  have hplace : offsetOf source k = ((tokens source)[k]?.map (·.offset)).getD 0 := by
    unfold offsetOf
    rw [operatorOffsets_eq, List.getD_eq_getElem?_getD, List.getElem?_map]
  simp only [List.getElem?_map, List.getElem?_zipIdx, Option.map_map]
  cases hk : (tokens source)[k]? with
  | none => rfl
  | some t =>
    rw [hk] at hplace
    show some t = some ⟨t.operator, offsetOf source (0 + k)⟩
    rw [Nat.zero_add, hplace]
    rfl

/-! ## §4. The check. -/

namespace Scan

variable (f : Nat → Nat)

/-- **One operator**, read in either text. -/
theorem step_placed (s : Scan) (t : Token) :
    (s.placed f).step (t.placed f)
      = ((s.step t).map (Scan.placed f)).mapError (Validation.placed f) := by
  obtain ⟨count, loops, body⟩ := s
  obtain ⟨o, offset⟩ := t
  cases o with
  | right | left | inc | dec | put | get | call => cases body <;> rfl
  | loopOpen => cases body <;> rfl
  | loopClose =>
    cases body with
    | none => cases loops <;> rfl
    | some b =>
      obtain ⟨start, inner, size⟩ := b
      cases inner <;> rfl
  | bodyOpen =>
    cases body with
    | none => cases loops <;> rfl
    | some b => rfl
  | bodyClose =>
    cases body with
    | none => rfl
    | some b =>
      obtain ⟨start, inner, size⟩ := b
      simp only [Scan.placed, Token.placed, OpenBody.placed, Option.map_some, step,
        List.getLast?_map]
      cases inner.getLast? with
      | some outermost => rfl
      | none =>
        dsimp only [Option.map_none]
        split <;> rfl

theorem finish_placed (s : Scan) : (s.placed f).finish = s.finish.placed f := by
  obtain ⟨count, loops, body⟩ := s
  cases body with
  | some b => rfl
  | none =>
    simp only [Scan.placed, Option.map_none, finish, List.getLast?_map]
    cases loops.getLast? with
    | some outermost => rfl
    | none =>
      -- the two reports that name no place
      by_cases hcount : count = 0
      · simp only [Option.map_none, hcount, if_true]
        rfl
      · simp only [Option.map_none, hcount, if_false]
        rfl

/-- **The whole pass**, over either text. -/
theorem run_placed (ts : List Token) : ∀ s : Scan,
    (s.placed f).run (ts.map (Token.placed f)) = (s.run ts).placed f := by
  induction ts with
  | nil =>
    intro s
    exact finish_placed f s
  | cons t ts ih =>
    intro s
    rw [List.map_cons, run, run, step_placed]
    cases s.step t with
    | error report => rfl
    | ok s' => exact ih s'

end Scan

/-- **The check of a script says what the check of the bare script says.** -/
theorem validate_eq_placed (source : String) :
    validate source = (validate (bare source)).placed (offsetOf source) := by
  unfold validate
  rw [tokens_eq_placed source]
  exact Scan.run_placed (offsetOf source) (tokens (bare source)) Scan.start

end Script

/-! ## §5. Compiling. -/

theorem Instruction.push_placed (f : Nat → Nat) (g : Granularity) (stream : List Instruction)
    (t : Token) :
    push g (stream.map (Instruction.placed f)) (t.placed f)
      = (push g stream t).map (Instruction.placed f) := by
  cases g with
  | plain => rfl
  | packed =>
    cases stream with
    | nil => rfl
    | cons last older =>
      show (if last.opcode.absorbs t.operator then _ else _)
        = (if last.opcode.absorbs t.operator then _ else _ : List Instruction).map _
      split <;> rfl

theorem Instruction.pack_placed (f : Nat → Nat) (g : Granularity) (ts : List Token) :
    pack g (ts.map (Token.placed f)) = (pack g ts).map (Instruction.placed f) := by
  have h : ∀ (ts : List Token) (stream : List Instruction),
      (ts.map (Token.placed f)).foldl (push g) (stream.map (Instruction.placed f))
        = (ts.foldl (push g) stream).map (Instruction.placed f) := by
    intro ts
    induction ts with
    | nil =>
      intro stream
      rfl
    | cons t ts ih =>
      intro stream
      rw [List.map_cons, List.foldl_cons, List.foldl_cons, push_placed]
      exact ih _
  unfold pack
  rw [List.map_reverse]
  exact congrArg List.reverse (h ts [])

/-- **Brackets have the partners they have without comments.** -/
theorem Program.ofTokens_placed (f : Nat → Nat) (g : Granularity) (n : Nat) (ts : List Token) :
    ofTokens g n (ts.map (Token.placed f)) = (ofTokens g n ts).placed f := by
  have hopcodes : ((Instruction.pack g ts).map (Instruction.placed f)).map (·.opcode)
      = (Instruction.pack g ts).map (·.opcode) := by
    rw [List.map_map]
    rfl
  unfold ofTokens
  rw [Instruction.pack_placed]
  simp only [hopcodes, Program.placed, List.map_toArray, List.map_map]
  rfl

theorem Program.compileAs_eq_placed (report : Validation) (g : Granularity) (source : String) :
    compileAs report g source
      = (compileAs report g (Script.bare source)).map
        (Program.placed (Script.offsetOf source)) := by
  unfold compileAs
  split
  · show Except.ok _ = Except.ok _
    rw [Script.tokens_eq_placed source, ofTokens_placed]
  · rfl

theorem Program.compile_eq_placed (g : Granularity) (source : String) :
    compile g source = ((compile g (Script.bare source)).mapError
      (Error.placed (Script.offsetOf source))).map (Program.placed (Script.offsetOf source)) := by
  unfold compile
  rw [compileAs_eq_placed, Script.validate_eq_placed source]
  generalize Script.validate (Script.bare source) = report
  unfold compileAs
  by_cases hreport : report.isSuccess
  · have hplaced : (report.placed (Script.offsetOf source)).isSuccess := hreport
    rw [if_pos hreport, if_pos hplaced]
    rfl
  · have hplaced : ¬ (report.placed (Script.offsetOf source)).isSuccess := hreport
    rw [if_neg hreport, if_neg hplaced]
    rfl

/-! ## §6. Running. -/

section Running

variable (f : Nat → Nat) (p : Program)

/-- **A step does not see offsets.** -/
theorem Run.step?_placed (t : Terms) (r : Run) : r.step? (p.placed f) t = r.step? p t := rfl

theorem Run.steps_placed (t : Terms) (fuel : Nat) : ∀ r : Run,
    r.steps (p.placed f) t fuel = r.steps p t fuel := by
  induction fuel with
  | zero =>
    intro r
    rfl
  | succ fuel ih =>
    intro r
    rw [steps, steps, step?_placed]
    split
    · rfl
    · rfl
    · exact ih _

theorem Report.definition?_placed (index : Nat) (e : FunctionEntry) :
    definition? (p.placed f) index e = (definition? p index e).map (Definition.placed f) := by
  have hoffset : (p.placed f).offsets[e.declaration]? = p.offsets[e.declaration]?.map f :=
    Array.getElem?_map
  have hpartner : (p.placed f).partners[e.declaration]? = p.partners[e.declaration]? := rfl
  have hbody : ∀ start stop, (p.placed f).sourceOf? start stop = p.sourceOf? start stop :=
    fun _ _ => rfl
  unfold definition?
  simp only [hoffset, hpartner, hbody, Option.bind_eq_bind]
  cases p.offsets[e.declaration]? with
  | none => rfl
  | some offset =>
    cases p.partners[e.declaration]? with
    | none => rfl
    | some stop =>
      simp only [Option.map_some, Option.bind_some]
      cases p.sourceOf? (e.declaration + 1) stop <;> rfl

theorem Report.halting?_placed (s : CallStack) (code : ExitCode) :
    halting? (p.placed f) s code = (halting? p s code).map (Option.map (Halting.placed f)) := by
  have htrace : (p.placed f).stackTrace? s = p.stackTrace? s := rfl
  unfold halting?
  cases s.frames with
  | nil => rfl
  | cons frame callers =>
    have hoffset : (p.placed f).offsets[frame.offset]? = p.offsets[frame.offset]?.map f :=
      Array.getElem?_map
    have hopcode : (p.placed f).opcodes[frame.offset]? = p.opcodes[frame.offset]? := rfl
    simp only [htrace, hoffset, hopcode, Option.bind_eq_bind]
    cases code.isSuccess with
    | true => rfl
    | false =>
      cases p.stackTrace? s with
      | none => rfl
      | some trace =>
        cases p.opcodes[frame.offset]? with
        | none => rfl
        | some op => cases p.offsets[frame.offset]? <;> rfl

/-- **A report is the same up to its offsets.** -/
theorem Report.build?_placed (source source' : String) (m : Machine) (code : ExitCode)
    (elapsed : Duration) :
    build? source (p.placed f) m code elapsed
      = (build? source' p m code elapsed).map (Report.placed f source) := by
  have hdefinitions : m.functions.entries.zipIdx.mapM
        (fun place => definition? (p.placed f) place.2 place.1)
      = (m.functions.entries.zipIdx.mapM fun place => definition? p place.2 place.1).map
          (List.map (Definition.placed f)) :=
    mapM_eq_map (Definition.placed f) fun place _ => definition?_placed f p place.2 place.1
  unfold build?
  simp only [hdefinitions, halting?_placed, Option.bind_eq_bind]
  cases m.functions.entries.zipIdx.mapM fun place => definition? p place.2 place.1 with
  | none => rfl
  | some definitions => cases halting? p m.stack code <;> rfl

/-- A job on the program of another text. -/
theorem Job.run?_placed (source source' : String) (m : Machine) (budget : Budget) (fuel : Nat) :
    (⟨source, p.placed f, m⟩ : Job).run? budget fuel
      = ((⟨source', p, m⟩ : Job).run? budget fuel).map (Report.placed f source) := by
  unfold run? Machine.execute
  rw [Run.steps_placed]
  cases Run.steps p { budget } fuel ⟨m, none, 0⟩ with
  | halted code r => exact Report.build?_placed f p source source' r.machine code {}
  | unfinished r => rfl
  | stuck => rfl

end Running

/-- A run from a tape. -/
theorem runFrom_eq_placed (tape : Tape) (source input : String) (limit : Nat) (budget : Budget)
    (fuel : Nat) :
    runFrom tape source input limit budget fuel
      = ((runFrom tape (Script.bare source) input limit budget fuel).mapError
          (Error.placed (Script.offsetOf source))).map
        (Option.map (Report.placed (Script.offsetOf source) source)) := by
  unfold runFrom Job.load
  rw [Program.compile_eq_placed]
  cases Program.compile .packed (Script.bare source) with
  | error e => rfl
  | ok p =>
    show Except.ok _ = Except.ok _
    rw [← Job.run?_placed]
    rfl

/-! ## §7. The result. -/

/-- **Comments are inert.**  The offsets of a script's operators, from left to
right, are where the characters of the bare script stand.  A check of the
script finds what a check of the bare script finds, having read as many
operators, and the place it names is the one that stands there.  On the word
of any report, or of its own, either granularity compiles both texts to the
same opcodes with the same partners and counts, and to offsets that correspond.
Runs on any configuration, input and answers of the budget halt after
the same number of steps or not at all, and their reports are the same but
for the text and for the places of the halt and of the definitions, which
correspond. -/
theorem comments_are_inert (source : String) :
    ((Script.operatorOffsets source).Pairwise (· < ·)
        ∧ (Script.operatorOffsets source).map (fun offset => source.toList[offset]?)
          = (Script.bare source).toList.map some)
      ∧ Script.validate source
          = (Script.validate (Script.bare source)).placed (Script.offsetOf source)
      ∧ (∀ (report : Validation) (g : Granularity),
          Program.compileAs report g source
            = (Program.compileAs report g (Script.bare source)).map
              (Program.placed (Script.offsetOf source)))
      ∧ (∀ g : Granularity,
          Program.compile g source
            = ((Program.compile g (Script.bare source)).mapError
                (Error.placed (Script.offsetOf source))).map
              (Program.placed (Script.offsetOf source)))
      ∧ ∀ (config : Config) (input : String) (budget : Budget) (fuel : Nat),
          run config source input budget fuel
            = ((run config (Script.bare source) input budget fuel).mapError
                (Error.placed (Script.offsetOf source))).map
              (Option.map (Report.placed (Script.offsetOf source) source)) := by
  refine ⟨Script.operatorOffsets_spell source, Script.validate_eq_placed source, ?_, ?_, ?_⟩
  · intro report g
    exact Program.compileAs_eq_placed report g source
  · intro g
    exact Program.compile_eq_placed g source
  · intro config input budget fuel
    unfold run Tape.create
    by_cases hsize : Tape.AllowedSize config.tapeSize
    · rw [if_pos hsize]
      simp only [bind, Except.bind]
      exact runFrom_eq_placed _ source input config.outputLimit budget fuel
    · rw [if_neg hsize]
      rfl

end TapeMachine
