/-
  TapeMachine.Proofs.Refinement
  ─────────────────────────────
  **THE ENGINE REFINES THE TREE SEMANTICS.**

  Three comparisons in a row, each in both directions:

      evaluation of the tree
        ⇅  `halts_of_evaluate`, `evaluate_of_halts`
      plain program, each opcode by itself
        ⇅  `halts_stepwise`, `halts_of_stepwise`
      plain program, `[-]` in one step
        ⇅  `Shadows.halts`, `Shadows.halts_of_plain`
      program of either granularity

  The functions are compared as a report lists them, by key and by the text
  of the body (`Recorded.definitions`).
-/
import TapeMachine.Proofs.Granularity
import TapeMachine.Proofs.Realization

namespace TapeMachine

variable {p : Program}

/-! ## §1. Definitions in a report. -/

/-- The text of a tree that stands in a program. -/
theorem Block.At.sourceOf? {b : Block} {i : Nat} (h : b.At p i) {text : String}
    (htext : p.sourceOf? i (i + b.length) = some text) : text = String.ofList b.text := by
  have hbound : i + b.length ≤ p.size := by
    unfold Program.sourceOf? at htext
    split at htext
    · next hle => exact hle.2
    · cases htext
  rw [Program.sourceOf?_eq (Nat.le_add_right i _) hbound, h.drop, Nat.add_sub_cancel_left,
    List.take_left' (by rw [List.length_map]; rfl)] at htext
  cases htext
  rw [Opcode.sourceText, Block.text, List.flatMap_map, List.map_eq_flatMap]
  rfl

/-- The `Definition` of a function whose block is known. -/
theorem Report.definition?_text {e : FunctionEntry} {body : Block}
    (hpartner : p.partners[e.declaration]? = some (e.declaration + 1 + body.length))
    (hplace : body.At p (e.declaration + 1)) {index : Nat} {d : Definition}
    (h : definition? p index e = some d) : d.key = e.key ∧ d.body = String.ofList body.text := by
  unfold definition? at h
  simp only [hpartner, Option.bind_eq_bind, Option.bind_some, Option.bind_eq_some_iff] at h
  obtain ⟨offset, -, text, htext, h⟩ := h
  cases h
  exact ⟨rfl, hplace.sourceOf? htext⟩

/-- **The definitions of a report are the bindings**, the oldest first, by
key and text. -/
theorem Recorded.definitions {newest : List FunctionEntry} {bindings : List (Nat × Block)}
    (h : Recorded p newest bindings) : ∀ {definitions : List Definition},
    (newest.reverse.zipIdx.mapM fun (e, index) => Report.definition? p index e)
      = some definitions →
    definitions.map (fun d => (d.key, d.body))
      = bindings.reverse.map fun (key, body) => (key, String.ofList body.text) := by
  induction h with
  | nil =>
    intro definitions hdefinitions
    cases hdefinitions
    rfl
  | @cons e body entries bindings hpartner hplace _ ih =>
    intro definitions hdefinitions
    -- the newest entry is the last of the definitions
    rw [List.reverse_cons, List.zipIdx_append, List.mapM_append] at hdefinitions
    simp only [List.zipIdx_singleton, List.mapM_cons, List.mapM_nil, Option.bind_eq_bind,
      Option.bind_eq_some_iff] at hdefinitions
    obtain ⟨older, holder, last, ⟨d, hd, tail, htail, hlast⟩, hdefinitions⟩ := hdefinitions
    cases htail
    cases hlast
    cases hdefinitions
    obtain ⟨hkey, hbody⟩ := Report.definition?_text hpartner hplace hd
    rw [List.map_append, ih holder, List.reverse_cons, List.map_append]
    simp only [List.map_cons, List.map_nil, hkey, hbody]

/-! ## §2. Evaluations and calls. -/

/-- The code that an evaluation ends with. -/
def Evaluation.exitCode (e : Evaluation) : ExitCode := e.fault.getD .success

/-- A machine that halted with `code` agrees with an evaluation: on the
code, the tape, the buffers and the number of operators, and in its report on
the functions, by key and by the text of the body. -/
structure Evaluation.Agrees (e : Evaluation) (source : String) (p : Program) (code : ExitCode)
    (m : Machine) : Prop where
  exitCode : code = e.exitCode
  tape : m.tape = e.store.tape
  output : m.output = e.store.output
  input : m.input = e.store.input
  operations : m.operations = e.store.operations
  definitions : ∃ report, Report.build? source p m code {} = some report
    ∧ report.definitions.map (fun d => (d.key, d.body))
      = e.store.bindings.reverse.map fun (key, body) => (key, String.ofList body.text)

section Chain

variable {b : Block} {ts : List Token} {tape : Tape} {t : Terms} {input : String} {limit : Nat}
  (hitems : b.IsItems) (hb : b.operators = ts.map (·.operator)) (htape : tape.WellFormed)
  (hbudget : ∀ n, t.budget n = false) (g : Granularity) (n : Nat)

include hitems hb htape hbudget

/-- **An evaluation that ends is a call that halts and agrees.** -/
theorem exists_halts {fuel : Nat} {e : Evaluation}
    (he : b.evaluate fuel 1 (.start tape input limit) = some e) (source : String) :
    ∃ r, Run.Halts (.ofTokens g n ts) t ⟨.load (.ofTokens g n ts) tape input limit, none, 0⟩
        e.exitCode r
      ∧ e.Agrees source (.ofTokens g n ts) e.exitCode r.machine := by
  have hunpacks := Program.unpacks_plain g n ts
  have hp := Program.balanced_ofTokens hitems hb g n
  have hq := Program.balanced_ofTokens hitems hb .plain n
  -- down the chain, from the tree to the program
  obtain ⟨s₁, hs₁, hend⟩ := halts_of_evaluate hitems (Block.at_plain hitems hb n)
    (Program.size_plain hb n) htape he
  obtain ⟨s, hs, hmachine⟩ := halts_of_stepwise hq.toCoherent hbudget
    (Machine.fits_load (.ofTokens .plain n ts) htape input limit) hs₁
  rw [← hmachine] at hend
  obtain ⟨r, hr, hends⟩ := (shadows_load hunpacks htape input limit).halts_of_plain hunpacks hp
    hq.toCoherent hs
  obtain ⟨report, report', hreport, hreport', hdefinitions, -⟩ :=
    Report.exists_build? hunpacks hp hq htape hr hs hends source
  refine ⟨r, hr, rfl, ?_, ?_, ?_, ?_, report, hreport, ?_⟩
  · rw [← hends.tape, hend.tape]
  · rw [← hends.output, hend.output]
  · rw [← hends.input, hend.input]
  · rw [← hends.operations, hend.operations]
  · rw [hdefinitions]
    exact hend.record.definitions (Report.parts_of_build? hreport').1

/-- **A call that halts is an evaluation that ends.** -/
theorem exists_evaluate {code : ExitCode} {r : Run} (h : Run.Halts (.ofTokens g n ts) t
      ⟨.load (.ofTokens g n ts) tape input limit, none, 0⟩ code r) :
    ∃ fuel e, b.evaluate fuel 1 (.start tape input limit) = some e := by
  have hunpacks := Program.unpacks_plain g n ts
  have hp := Program.balanced_ofTokens hitems hb g n
  have hq := Program.balanced_ofTokens hitems hb .plain n
  obtain ⟨s, hs, -⟩ := (shadows_load hunpacks htape input limit).halts hunpacks hp hq.toCoherent h
  obtain ⟨s₁, hs₁, -⟩ := halts_stepwise hq.toCoherent hbudget
    (Machine.fits_load (.ofTokens .plain n ts) htape input limit) hs
  exact evaluate_of_halts hitems (Block.at_plain hitems hb n) (Program.size_plain hb n) htape hs₁

end Chain

/-! ## §3. The result. -/

/-- **The engine refines the tree semantics.**  A script that passes the
check compiles, in either granularity, and its operators have one tree.  On
any tape and any buffers, with a budget that never runs out and no
breakpoints, a call never gets stuck; it halts if and only if the
evaluation of the tree ends; and then the two agree. -/
theorem execute_refines_evaluate (source : String) (tape : Tape) (input : String) (limit : Nat)
    (t : Terms) (g : Granularity) (hsource : (Script.validate source).isSuccess)
    (htape : tape.WellFormed) (hbudget : ∀ n, t.budget n = false) :
    ∃ p b, Program.compile g source = .ok p
      ∧ (b.IsScript ∧ b.operators = (Script.tokens source).map (·.operator))
      ∧ (∀ b' : Block, b'.IsScript ∧ b'.operators = (Script.tokens source).map (·.operator) →
          b' = b)
      ∧ (∀ fuel, (Machine.load p tape input limit).execute p t none fuel ≠ .stuck)
      ∧ ((∃ fuel code r, (Machine.load p tape input limit).execute p t none fuel = .halted code r)
          ↔ ∃ fuel e, b.evaluate fuel 1 (.start tape input limit) = some e)
      ∧ ∀ fuel fuel' code r e,
          (Machine.load p tape input limit).execute p t none fuel = .halted code r →
          b.evaluate fuel' 1 (.start tape input limit) = some e →
          e.Agrees source p code r.machine := by
  obtain ⟨b, ⟨hscript, hb⟩, hunique⟩ := Script.existsUnique_tree hsource
  refine ⟨_, b, Program.compile_of_isSuccess hsource g, ⟨hscript, hb⟩, hunique, ?_, ⟨?_, ?_⟩, ?_⟩
  · intro fuel
    exact Machine.Fits.not_stuck (Program.coherent_ofTokens g _ _)
      (Machine.fits_load _ htape input limit) trivial
  · rintro ⟨fuel, code, r, hr⟩
    exact exists_evaluate hscript.1 hb htape hbudget g _ ⟨fuel, hr⟩
  · rintro ⟨fuel, e, he⟩
    obtain ⟨r, ⟨k, hr⟩, -⟩ := exists_halts hscript.1 hb htape hbudget g _ he source
    exact ⟨k, e.exitCode, r, hr⟩
  · intro fuel fuel' code r e hr he
    obtain ⟨r', hr', hagrees⟩ := exists_halts hscript.1 hb htape hbudget g _ he source
    obtain ⟨rfl, rfl⟩ := hr'.unique ⟨fuel, hr⟩
    exact hagrees

/-- A function that calls itself until the stack is full. -/
theorem execute_refines_evaluate_recursion :
    ∃ p b fuel fuel' r e, Program.compile .packed "(:):" = .ok p
      ∧ (Machine.load p (.blank 32 .byteChecked) "" 0).execute p {} none fuel = .halted .stackFull r
      ∧ Block.evaluate fuel' 1 b (.start (.blank 32 .byteChecked) "" 0) = some e
      ∧ e.exitCode = .stackFull ∧ r.machine.operations = e.store.operations := by
  have hrun : ((Program.compile .packed "(:):").toOption.bind fun p =>
      ((Machine.load p (.blank 32 .byteChecked) "" 0).execute p {} none 520).rest?.bind fun rest =>
        some rest.1) = some .stackFull := by decide +kernel
  obtain ⟨p, b, hp, -, -, -, hiff, hsame⟩ := execute_refines_evaluate "(:):"
    (.blank 32 .byteChecked) "" 0 {} .packed (by decide) (Tape.wellFormed_blank _ (by decide))
    (fun _ => rfl)
  replace hrun := seen_of_ok hrun hp
  obtain ⟨code, m, marks, _, ⟨fuel, polls, hr⟩, hcode⟩ := Machine.exists_haltsWith hrun
  obtain rfl : code = .stackFull := Option.some.inj hcode
  obtain ⟨fuel', e, he⟩ := hiff.1 ⟨fuel, _, _, hr⟩
  have hagrees := hsame fuel fuel' _ _ e hr he
  exact ⟨p, b, fuel, fuel', _, e, hp, hr, he, hagrees.exitCode.symm, hagrees.operations⟩

end TapeMachine
