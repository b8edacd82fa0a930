/-
  TapeMachine.Proofs.Concatenation
  ────────────────────────────────
  **SCRIPTS PUT TOGETHER.**

  The text of two scripts, one behind the other, has the tokens of both
  (`Script.tokens_append`), so its tree is the one put behind the other
  (`Block.append`) and its plain program holds both programs
  (`Script.holds_append`).  A run of the whole is therefore a run of the first
  script (`Script.halts_opening`) and, if that comes to its end, a run of the
  second from where the first one left tape, input and room for output
  (`Script.halts_closing`).

  Runs are compared on plain programs, one opcode at a time.  What a report
  on a run says in terms of the plain program is collected in
  `Report.Tells`.
-/
import TapeMachine.Proofs.Embedding
import TapeMachine.Proofs.Growth
import TapeMachine.Proofs.Location
import TapeMachine.Proofs.Lockstep
import TapeMachine.Proofs.Snapshots

namespace TapeMachine

/-! ## §1. Texts. -/

/-- A token that stands `k` characters further on. -/
def Token.shift (k : Nat) (t : Token) : Token := ⟨t.operator, k + t.offset⟩

namespace Script

theorem tokensFrom_add (k : Nat) (text : List Char) :
    ∀ start, tokensFrom (k + start) text = (tokensFrom start text).map (·.shift k) := by
  induction text with
  | nil =>
    intro start
    rfl
  | cons x text ih =>
    intro start
    rw [tokensFrom_cons, tokensFrom_cons, Nat.add_assoc, ih (start + 1)]
    cases Operator.ofChar? x with
    | none => rfl
    | some o => rfl

/-- **The tokens of a text put together.** -/
theorem tokens_append (s₁ s₂ : String) :
    tokens (s₁ ++ s₂) = tokens s₁ ++ (tokens s₂).map (·.shift s₁.length) := by
  unfold tokens
  rw [String.toList_append, tokensFrom_append, Nat.zero_add, String.length_toList]
  exact congrArg _ (tokensFrom_add s₁.length s₂.toList 0)

end Script

/-! ## §2. Trees. -/

namespace Block

/-- The items of one block, then those of another. -/
def append : Block → Block → Block
  | done, c => c
  | simple o next, c => simple o (next.append c)
  | loop body next, c => loop body (next.append c)
  | define body next, c => define body (next.append c)

theorem operators_append (b c : Block) : (b.append c).operators = b.operators ++ c.operators := by
  induction b with
  | done => rfl
  | simple o next ih => simp only [append, operators, ih, List.cons_append]
  | loop body next _ ih => simp only [append, operators, ih, List.cons_append, List.append_assoc]
  | define body next _ ih => simp only [append, operators, ih, List.cons_append, List.append_assoc]

theorem IsItems.append {b c : Block} (hb : b.IsItems) (hc : c.IsItems) : (b.append c).IsItems := by
  induction b with
  | done => exact hc
  | simple o next ih => exact ⟨hb.1, ih hb.2⟩
  | loop body next _ ih => exact ⟨hb.1, ih hb.2⟩
  | define body next _ ih => exact ⟨hb.1, ih hb.2⟩

theorem append_ne_done {b c : Block} (hb : b ≠ done) : b.append c ≠ done := by
  cases b with
  | done => exact absurd rfl hb
  | simple _ _ | loop _ _ | define _ _ => simp [append]

/-- A tree put together stands in a program if its parts do. -/
theorem At.of_append {p : Program} {b c : Block} : ∀ {i : Nat}, (b.append c).At p i →
    b.At p i ∧ c.At p (i + b.length) := by
  induction b with
  | done =>
    intro i h
    exact ⟨trivial, h⟩
  | simple o next ih =>
    intro i h
    obtain ⟨hnext, hc⟩ := ih h.2
    refine ⟨⟨h.1, hnext⟩, ?_⟩
    rw [length_simple, Nat.add_comm next.length 1, ← Nat.add_assoc]
    exact hc
  | loop body next _ ih =>
    intro i h
    obtain ⟨hopen, hclose, hbody, hrest⟩ := h
    obtain ⟨hnext, hc⟩ := ih hrest
    refine ⟨⟨hopen, hclose, hbody, hnext⟩, ?_⟩
    rw [length_loop, show i + (body.length + next.length + 2)
      = i + 1 + body.length + 1 + next.length by omega]
    exact hc
  | define body next _ ih =>
    intro i h
    obtain ⟨hopen, hclose, hbody, hrest⟩ := h
    obtain ⟨hnext, hc⟩ := ih hrest
    refine ⟨⟨hopen, hclose, hbody, hnext⟩, ?_⟩
    rw [length_define, show i + (body.length + next.length + 2)
      = i + 1 + body.length + 1 + next.length by omega]
    exact hc

end Block

/-! ## §3. Programs. -/

namespace Script

/-- The plain program of a script. -/
def plain (source : String) : Program :=
  .ofTokens .plain (validate source).count (tokens source)

variable {s₁ s₂ : String}

/-- **Two scripts that pass the check pass it together.** -/
theorem validate_append (h₁ : (validate s₁).isSuccess) (h₂ : (validate s₂).isSuccess) :
    (validate (s₁ ++ s₂)).isSuccess := by
  obtain ⟨b₁, ⟨hitems₁, hne⟩, hb₁⟩ := validate_isSuccess_iff.1 h₁
  obtain ⟨b₂, ⟨hitems₂, -⟩, hb₂⟩ := validate_isSuccess_iff.1 h₂
  refine validate_isSuccess_iff.2 ⟨b₁.append b₂, ⟨hitems₁.append hitems₂, ?_⟩, ?_⟩
  · exact Block.append_ne_done hne
  · rw [Block.operators_append, hb₁, hb₂, tokens_append, List.map_append, List.map_map]
    rfl

theorem balanced_plain (h : (validate s₁).isSuccess) : (plain s₁).Balanced := by
  obtain ⟨b, ⟨hitems, -⟩, hb⟩ := validate_isSuccess_iff.1 h
  exact Program.balanced_plain hitems hb _

theorem size_plain (source : String) : (plain source).size = (tokens source).length := by
  simp [plain, Program.size, Program.ofTokens, Instruction.pack_plain]

theorem size_append (s₁ s₂ : String) :
    (plain (s₁ ++ s₂)).size = (plain s₁).size + (plain s₂).size := by
  rw [size_plain, size_plain, size_plain, tokens_append, List.length_append, List.length_map]

/-- **Both programs stand in the program of the whole**, one behind the
other. -/
theorem holds_append (h₁ : (validate s₁).isSuccess) (h₂ : (validate s₂).isSuccess) :
    (plain (s₁ ++ s₂)).Holds 0 (plain s₁)
      ∧ (plain (s₁ ++ s₂)).Holds (plain s₁).size (plain s₂) := by
  obtain ⟨b₁, ⟨hitems₁, -⟩, hb₁⟩ := validate_isSuccess_iff.1 h₁
  obtain ⟨b₂, ⟨hitems₂, -⟩, hb₂⟩ := validate_isSuccess_iff.1 h₂
  have hsize₁ : (plain s₁).size = b₁.length := Program.size_plain hb₁ _
  have hsize₂ : (plain s₂).size = b₂.length := Program.size_plain hb₂ _
  have hb : (b₁.append b₂).operators = (tokens (s₁ ++ s₂)).map (·.operator) := by
    rw [Block.operators_append, hb₁, hb₂, tokens_append, List.map_append, List.map_map]
    rfl
  obtain ⟨hat₁', hat₂'⟩ := (Block.at_plain (hitems₁.append hitems₂) hb
    (validate (s₁ ++ s₂)).count).of_append
  have hat₁ : b₁.At (plain s₁) 0 := Block.at_plain hitems₁ hb₁ _
  have hat₂ : b₂.At (plain s₂) 0 := Block.at_plain hitems₂ hb₂ _
  rw [Nat.zero_add, ← hsize₁] at hat₂'
  have hlt : ∀ {p : Program} {n k : Nat} {op : Opcode}, p.size = n → p.opcodes[k]? = some op →
      k < 0 + n := by
    intro p n k op hsize hop
    rw [Nat.zero_add, ← hsize]
    exact (Array.getElem?_eq_some_iff.1 hop).1
  refine ⟨⟨?_, ?_⟩, ⟨?_, ?_⟩⟩
  · intro k op hop
    exact (hat₁.holds hitems₁ hat₁' (Nat.zero_le k) (hlt hsize₁ hop) hop).1
  · intro k op hop
    exact (hat₁.holds hitems₁ hat₁' (Nat.zero_le k) (hlt hsize₁ hop) hop).2
  · intro k op hop
    exact (hat₂.holds hitems₂ hat₂' (Nat.zero_le k) (hlt hsize₂ hop) hop).1
  · intro k op hop
    exact (hat₂.holds hitems₂ hat₂' (Nat.zero_le k) (hlt hsize₂ hop) hop).2

/-- The offsets of the second script are those it had, behind the first. -/
theorem offset_append (s₁ s₂ : String) (k : Nat) :
    (plain (s₁ ++ s₂)).offsets[(plain s₁).size + k]?
      = (plain s₂).offsets[k]?.map (s₁.length + ·) := by
  rw [size_plain]
  simp only [plain, Program.ofTokens, Instruction.pack_plain, List.map_map, List.getElem?_toArray,
    List.getElem?_map, tokens_append]
  rw [List.getElem?_append_right (Nat.le_add_right _ _), Nat.add_sub_cancel_left,
    List.getElem?_map, Option.map_map, Option.map_map]
  rfl

/-- A script without `(` has no opcode for it. -/
theorem not_bodyOpen (h : '(' ∉ s₁.toList) {k : Nat} {op : Opcode}
    (hop : (plain s₁).opcodes[k]? = some op) : op.operator ≠ .bodyOpen := by
  intro ho
  simp only [plain, Program.ofTokens, Instruction.pack_plain, List.map_map, List.getElem?_toArray,
    List.getElem?_map, Option.map_eq_some_iff] at hop
  obtain ⟨t, ht, rfl⟩ := hop
  have hmem := List.mem_of_getElem? (getElem?_of_token (List.mem_of_getElem? ht))
  rw [show t.operator = .bodyOpen from ho] at hmem
  exact h hmem

end Script

/-- A definition that stands `k` characters further on. -/
def Definition.shift (k : Nat) (d : Definition) : Definition := { d with offset := k + d.offset }

/-- **A definition of the second script** is reported as it was, at a shifted
offset. -/
theorem Report.definition?_append {s₁ s₂ : String} (h₁ : (Script.validate s₁).isSuccess)
    (h₂ : (Script.validate s₂).isSuccess) {e : FunctionEntry} {x : Opcode}
    (hx : (Script.plain s₂).opcodes[e.declaration]? = some x) (ho : x.operator = .bodyOpen)
    (index : Nat) :
    definition? (Script.plain (s₁ ++ s₂)) index (e.relocate ((Script.plain s₁).size + ·))
      = (definition? (Script.plain s₂) index e).map (·.shift s₁.length) := by
  obtain ⟨-, hholds⟩ := Script.holds_append h₁ h₂
  have hp := Script.balanced_plain h₂
  obtain ⟨stop, hlt, hpartner, hback⟩ := hp.opened hx (by rw [ho]; rfl)
  have hstop : stop ≤ (Script.plain s₂).size :=
    Nat.le_of_lt (hp.partners_size ▸ (Array.getElem?_eq_some_iff.1 hback).1)
  have hpartner' := hholds.partner hx (by rw [ho]; rfl)
  have hbody := hholds.sourceOf? (Nat.succ_le_of_lt hlt) (by omega) hstop
  unfold definition?
  simp only [FunctionEntry.relocate, Script.offset_append, hpartner', hpartner, Option.map_some,
    Option.bind_eq_bind, Option.bind_some]
  cases (Script.plain s₂).offsets[e.declaration]? with
  | none => rfl
  | some offset =>
    simp only [Option.map_some, Option.bind_some]
    rw [Nat.add_assoc, hbody]
    cases (Script.plain s₂).sourceOf? (e.declaration + 1) stop <;> rfl

/-! ## §4. What a report says of the plain program. -/

/-- What a report says of a machine on the plain program of its script. -/
structure Report.Tells (report : Report) (q : Program) (m : Machine) : Prop where
  tape : report.tape = m.tape
  output : report.output = m.output.text
  operations : report.operations = m.operations
  definitions : (m.functions.entries.zipIdx.mapM fun x => definition? q x.2 x.1)
    = some report.definitions
  operator : report.halting.map (·.operator)
    = if report.exitCode.isSuccess then none else (q.operatorAt? m.stack).map (·.symbol)

/-- How many characters of its input a run from a tape has read when it
halts. -/
def consumedFrom? (tape : Tape) (source input : String) (outputLimit : Nat) (budget : Budget)
    (fuel : Nat) : Option Nat :=
  match Job.load .packed source tape input outputLimit with
  | .error _ => none
  | .ok job => (job.machine.execute job.program { budget } none fuel).rest?.map fun rest =>
      rest.2.machine.input.position

section Plain

variable {source input : String} {tape : Tape} {limit : Nat}

/-- **If a run has a report, its plain program halts**, one opcode at a time, on a
machine that the report describes. -/
theorem exists_tells (hsource : (Script.validate source).isSuccess) (htape : tape.WellFormed)
    {fuel : Nat} {report : Report}
    (h : runFrom tape source input limit .unlimited fuel = .ok (some report)) :
    ∃ s, Run.Halts (Script.plain source) .stepwise
        ⟨.load (Script.plain source) tape input limit, none, 0⟩ report.exitCode s
      ∧ report.Tells (Script.plain source) s.machine
      ∧ consumedFrom? tape source input limit .unlimited fuel
        = some s.machine.input.position := by
  obtain ⟨b, ⟨hitems, -⟩, hb⟩ := Script.validate_isSuccess_iff.1 hsource
  have hcompile := Program.compile_of_isSuccess hsource .packed
  have hunpacks := Program.unpacks_plain .packed (Script.validate source).count
    (Script.tokens source)
  have hp := Program.balanced_ofTokens hitems hb .packed (Script.validate source).count
  have hq := Script.balanced_plain hsource
  rw [runFrom_eq hcompile] at h
  obtain ⟨code, r, hr, hreport⟩ := Job.run?_eq_some_iff.1 (Except.ok.inj h)
  obtain ⟨s, hs, hends⟩ := hunpacks.halts_stepwise hp hq.toCoherent htape ⟨fuel, hr⟩
  obtain ⟨hfits, -⟩ := Run.Halts.fits ⟨fuel, hr⟩ hp.toCoherent
    (Machine.fits_load _ htape input limit)
  obtain ⟨hfits', hrests'⟩ := hs.fits hq.toCoherent (Machine.fits_load _ htape input limit)
  -- the report on the plain program has the same definitions and the same operator
  obtain ⟨report', hreport'⟩ := Option.isSome_iff_exists.1
    (Report.build?_isSome hq hfits' hrests' source {})
  obtain ⟨hdefinitions, hoperator⟩ :=
    Report.build?_endsLike hunpacks hp hfits hends hreport hreport'
  obtain ⟨hdefinitions', hhalting', -⟩ := Report.parts_of_build? hreport'
  obtain ⟨htape', houtput, hoperations⟩ := Report.contents_of_build? hreport
  obtain rfl := (Report.parts_of_build? hreport).2.2
  refine ⟨s, hs, ⟨?_, ?_, ?_, ?_, ?_⟩, ?_⟩
  · rw [htape', hends.tape]
  · rw [houtput, hends.output]
  · rw [hoperations, hends.operations]
  · rw [hdefinitions]
    exact hdefinitions'
  · rw [hoperator, Report.halting?_operator hhalting']
  · rw [hends.input]
    unfold consumedFrom? Job.load
    rw [hcompile]
    show Option.map _ (Outcome.rest? (Run.steps _ _ fuel _)) = _
    rw [hr]
    rfl

/-- **If the plain program halts, a run has a report** that describes the machine. -/
theorem exists_runFrom (hsource : (Script.validate source).isSuccess) (htape : tape.WellFormed)
    {code : ExitCode} {s : Run} (hs : Run.Halts (Script.plain source) .stepwise
      ⟨.load (Script.plain source) tape input limit, none, 0⟩ code s) :
    ∃ fuel report, runFrom tape source input limit .unlimited fuel = .ok (some report)
      ∧ report.exitCode = code ∧ report.Tells (Script.plain source) s.machine := by
  obtain ⟨b, ⟨hitems, -⟩, hb⟩ := Script.validate_isSuccess_iff.1 hsource
  have hunpacks := Program.unpacks_plain .packed (Script.validate source).count
    (Script.tokens source)
  have hp := Program.balanced_ofTokens hitems hb .packed (Script.validate source).count
  have hq := Script.balanced_plain hsource
  obtain ⟨s₀, hs₀, -⟩ := halts_of_stepwise (t := {}) hq.toCoherent (fun _ => rfl)
    (Machine.fits_load _ htape input limit) hs
  obtain ⟨r, ⟨fuel, hr⟩, -⟩ := (shadows_load hunpacks htape input limit).halts_of_plain hunpacks hp
    hq.toCoherent hs₀
  obtain ⟨hfits, hrests⟩ := Run.Halts.fits ⟨fuel, hr⟩ hp.toCoherent
    (Machine.fits_load _ htape input limit)
  obtain ⟨report, hreport⟩ := Option.isSome_iff_exists.1
    (Report.build?_isSome hp hfits hrests source {})
  have hrun : runFrom tape source input limit .unlimited fuel = .ok (some report) := by
    rw [runFrom_eq (Program.compile_of_isSuccess hsource .packed)]
    exact congrArg Except.ok (Job.run?_eq_some_iff.2 ⟨code, r, hr, hreport⟩)
  obtain ⟨s', hs', htells, -⟩ := exists_tells hsource htape hrun
  obtain ⟨hcode, rfl⟩ := hs'.unique hs
  exact ⟨fuel, report, hrun, hcode, htells⟩

end Plain

/-! ## §5. One script behind the other. -/

/-- Where there is no `(`, no function is defined. -/
theorem Machine.functions_of_step {p : Program}
    (hopen : ∀ {k : Nat} {op : Opcode}, p.opcodes[k]? = some op → op.operator ≠ .bodyOpen)
    {t : Terms} {r : Run} {step : Step} (h : r.machine.functions = .empty)
    (hstep : r.step? p t = some step) : step.run.machine.functions = .empty := by
  obtain ⟨m, marks, polls⟩ := r
  cases Run.takes_of_step? hstep with
  | ended _ => exact h
  | left _ _ => exact h
  | paused _ _ _ _ => exact h
  | moved hf _ hop hmove =>
    rcases (does_of_move? hf hmove).control with ⟨hfun, -⟩ | ⟨ho, -⟩ | ⟨-, body, -, hfun, -⟩
    · exact hfun.trans h
    · exact absurd ho (hopen hop)
    · exact hfun.trans h
  | halted hf _ _ hmove => exact (does_of_move? hf hmove).control.2.1.trans h

/-- No functions are the same wherever they stand. -/
theorem FunctionTable.relocates_empty (u : Nat → Nat) : empty.Relocates u empty where
  newest := rfl
  get? := by
    intro key
    rw [get?_empty]
    rfl

section Sequence

variable {s₁ s₂ input : String} {tape : Tape} {limit : Nat}

/-- The first script in a run of both. -/
def Script.opening (s₁ s₂ : String) : Surroundings :=
  ⟨0, (plain s₁).size, (plain s₂).size, [], 0⟩

/-- The second script in a run of both, the first having left `m`. -/
def Script.closing (s₁ s₂ : String) (m : Machine) : Surroundings :=
  ⟨(plain s₁).size, (plain s₂).size, 0, m.output.written, m.operations⟩

/-- A run of both starts like a run of the first. -/
theorem Script.echoes_load (s₁ s₂ : String) (tape : Tape) (input : String) (limit : Nat) :
    (Machine.load (plain s₁) tape input limit).Echoes (opening s₁ s₂)
      (.load (plain (s₁ ++ s₂)) tape input limit) where
  tape := rfl
  unread := rfl
  written := rfl
  room := rfl
  operations := rfl
  functions := FunctionTable.relocates_empty _
  frames := by
    refine .script rfl rfl ?_
    show (plain (s₁ ++ s₂)).size = 0 + (plain s₁).size + (plain s₂).size
    rw [size_append, Nat.zero_add]

/-- **Where the first script ended, a run of the second starts**, on what the
first one left, if it has defined nothing. -/
theorem Script.echoes_closing {m m' : Machine} {f' : Frame} (hempty : m.functions = .empty)
    (htrails : m.Trails (opening s₁ s₂) m') (hf' : m'.stack.frames = [f'])
    (hoffset : f'.offset = (opening s₁ s₂).before + (opening s₁ s₂).size)
    (hstop : f'.body.stop
      = (opening s₁ s₂).before + (opening s₁ s₂).size + (opening s₁ s₂).after) :
    (Machine.load (plain s₂) m.tape (String.ofList m.input.unread) m.output.room).Echoes
      (closing s₁ s₂ m) m' where
  tape := htrails.tape
  unread := by
    rw [htrails.unread]
    exact String.toList_ofList.symm
  written := by
    show m'.output.written = [] ++ m.output.written
    rw [htrails.written, List.nil_append]
    exact List.append_nil _
  room := htrails.room
  operations := by
    show m'.operations = m.operations + 0
    rw [htrails.operations]
    exact Nat.zero_add _
  functions := by
    -- without functions it does not matter where they would stand
    have hfunctions := htrails.functions
    rw [hempty] at hfunctions
    refine ⟨hfunctions.newest, fun key => ?_⟩
    show m'.functions.get? key = (FunctionTable.empty.get? key).map _
    rw [hfunctions.get?, FunctionTable.get?_empty]
    rfl
  frames := by
    rw [hf']
    refine .script ?_ rfl ?_
    · show f'.offset = (plain s₁).size + 0
      rw [hoffset]
      exact Nat.zero_add _
    · show f'.body.stop = (plain s₁).size + (plain s₂).size + 0
      rw [hstop]
      show 0 + (plain s₁).size + (plain s₂).size = _
      omega

/-- **A run of both is a run of the first**, up to its end or its fault; at its
end it stands where a run of the second starts, on what the first one left. -/
theorem Script.halts_opening (h₁ : (validate s₁).isSuccess) (h₂ : (validate s₂).isSuccess)
    (hopen : '(' ∉ s₁.toList) (htape : tape.WellFormed) {code : ExitCode} {r : Run}
    (hr : Run.Halts (plain s₁) .stepwise ⟨.load (plain s₁) tape input limit, none, 0⟩ code r) :
    (code = .success ∧ ∃ k s,
        Run.Leads (plain (s₁ ++ s₂)) .stepwise k
          ⟨.load (plain (s₁ ++ s₂)) tape input limit, none, 0⟩ s
        ∧ Keeps (closing s₁ s₂ r.machine) (plain s₂)
          ⟨.load (plain s₂) r.machine.tape (String.ofList r.machine.input.unread)
            r.machine.output.room, none, 0⟩ s)
      ∨ (code ≠ .success ∧ ∃ s,
        Run.Halts (plain (s₁ ++ s₂)) .stepwise
          ⟨.load (plain (s₁ ++ s₂)) tape input limit, none, 0⟩ code s
        ∧ r.machine.RestsLike (opening s₁ s₂) (plain s₁) (plain (s₁ ++ s₂)) s.machine) := by
  have hp := (balanced_plain h₁).toCoherent
  have hfits := Machine.fits_load (plain s₁) htape input limit
  obtain ⟨n, hn⟩ := hr
  rcases (echoes_load s₁ s₂ tape input limit).prelude (holds_append h₁ h₂).1 hp rfl n 0 hfits hn with
    ⟨hcode, k, s, f', hleads, hmarks, htrails, hf', hoffset, hstop⟩ | hfault
  · have hempty : r.machine.functions = .empty :=
      Run.keeps_of_halted (P := fun m => m.functions = .empty)
        (fun hm hstep => Machine.functions_of_step (not_bodyOpen hopen) hm hstep) n
        (r := ⟨.load (plain s₁) tape input limit, none, 0⟩) rfl hn
    have hfits' := (Machine.Fits.halted (r := ⟨_, none, 0⟩) hp hfits trivial hn).1
    exact .inl ⟨hcode, k, s, hleads, rfl, hmarks, Machine.fits_load _ hfits'.tape _ _,
      .inl (echoes_closing hempty htrails hf' hoffset hstop)⟩
  · exact .inr hfault

/-- **A run of both goes on like a run of the second.** -/
theorem Script.halts_closing (h₁ : (validate s₁).isSuccess) (h₂ : (validate s₂).isSuccess)
    {m : Machine} {r₀ s₀ : Run} (h : Keeps (closing s₁ s₂ m) (plain s₂) r₀ s₀) :
    (∀ {code : ExitCode} {r : Run}, Run.Halts (plain s₂) .stepwise r₀ code r →
        ∃ s, Run.Halts (plain (s₁ ++ s₂)) .stepwise s₀ code s
          ∧ r.machine.RestsLike (closing s₁ s₂ m) (plain s₂) (plain (s₁ ++ s₂)) s.machine)
      ∧ ∀ {code : ExitCode} {s : Run}, Run.Halts (plain (s₁ ++ s₂)) .stepwise s₀ code s →
        ∃ r, Run.Halts (plain s₂) .stepwise r₀ code r := by
  have sim := simulation_finale (c := closing s₁ s₂ m) (holds_append h₁ h₂).2
    (balanced_plain h₂).toCoherent rfl
  refine ⟨?_, ?_⟩
  · intro code r hr
    obtain ⟨k, s₁', hleads, s, hstep, hrests⟩ := sim.forward h hr
    exact ⟨s, hleads.halts (Run.halts_of_step hstep), hrests⟩
  · intro code s hs
    obtain ⟨n, hn⟩ := hs
    obtain ⟨code', r, k, s₁', hr, hleads, s', hstep, -⟩ := sim.backward h hn
    obtain ⟨rfl, -⟩ := (hleads.halts (Run.halts_of_step hstep)).unique ⟨n, hn⟩
    exact ⟨r, hr⟩

/-- What has been read and written determines the unread input and the room left. -/
theorem Run.Halts.rest_eq {p : Program} {t : Terms} {code : ExitCode} {r : Run}
    (hr : Run.Halts p t ⟨.load p tape input limit, none, 0⟩ code r) :
    r.machine.input.position ≤ input.length
      ∧ r.machine.input.unread = input.toList.drop r.machine.input.position
      ∧ r.machine.output.text.length + r.machine.output.room = limit := by
  obtain ⟨n, hn⟩ := hr
  have hpast : (Machine.load p tape input limit).Precedes r.machine :=
    Run.keeps_of_halted (P := (Machine.load p tape input limit).Precedes)
      (fun hm hstep => hm.trans (.of_step hstep)) n (.refl _) hn
  obtain ⟨-, hposition, hunread⟩ := hpast.input.unread_eq
  exact ⟨hposition, hunread, hpast.output.length_add_room⟩

/-- The report on a run of both scripts, and the report on a run of the first that
failed alike. -/
theorem Report.Tells.opening {m₁ m' : Machine} {report report₁ : Report}
    (htells : report.Tells (Script.plain (s₁ ++ s₂)) m')
    (htells₁ : report₁.Tells (Script.plain s₁) m₁)
    (hrests : m₁.RestsLike (Script.opening s₁ s₂) (Script.plain s₁) (Script.plain (s₁ ++ s₂)) m')
    (hcode : report.exitCode = report₁.exitCode) :
    report.tape = report₁.tape ∧ report.output = report₁.output
      ∧ report.operations = report₁.operations
      ∧ report.halting.map (·.operator) = report₁.halting.map (·.operator) := by
  refine ⟨?_, ?_, ?_, ?_⟩
  · rw [htells.tape, htells₁.tape, hrests.tape]
  · rw [htells.output, htells₁.output, Output.text, hrests.written]
    exact congrArg (fun written => String.ofList (List.reverse written)) (List.append_nil _)
  · rw [htells.operations, htells₁.operations, hrests.operations]
    exact Nat.zero_add _
  · rw [htells.operator, htells₁.operator, hcode, hrests.operator]

/-- The report on a run of both scripts, and the report on a run of the second that
halted alike. -/
theorem Report.Tells.closing {m m₂ m' : Machine} {report report₂ : Report}
    (h₁ : (Script.validate s₁).isSuccess) (h₂ : (Script.validate s₂).isSuccess)
    (htells : report.Tells (Script.plain (s₁ ++ s₂)) m')
    (htells₂ : report₂.Tells (Script.plain s₂) m₂) (hm₂ : m₂.Fits (Script.plain s₂))
    (hrests : m₂.RestsLike (Script.closing s₁ s₂ m) (Script.plain s₂) (Script.plain (s₁ ++ s₂)) m')
    (hcode : report.exitCode = report₂.exitCode) :
    report.tape = report₂.tape
      ∧ report.halting.map (·.operator) = report₂.halting.map (·.operator)
      ∧ report.output = m.output.text ++ report₂.output
      ∧ report.operations = m.operations + report₂.operations
      ∧ report.definitions = report₂.definitions.map (·.shift s₁.length) := by
  -- the record of the longer run is that of the second, behind the first script
  have hentries : m'.functions.entries.zipIdx = m₂.functions.entries.zipIdx.map
      (Prod.map (·.relocate ((Script.plain s₁).size + ·)) id) := by
    rw [FunctionTable.entries, hrests.functions.newest, ← List.map_reverse, List.zipIdx_map]
    rfl
  refine ⟨?_, ?_, ?_, ?_, ?_⟩
  · rw [htells.tape, htells₂.tape, hrests.tape]
  · rw [htells.operator, htells₂.operator, hcode, hrests.operator]
  · rw [htells.output, htells₂.output, Output.text, hrests.written, List.reverse_append,
      String.ofList_append]
    rfl
  · rw [htells.operations, htells₂.operations, hrests.operations]
    rfl
  · have hdefinitions := htells.definitions
    rw [hentries, List.mapM_map] at hdefinitions
    have hshift := mapM_eq_map (l := m₂.functions.entries.zipIdx)
      (f := fun x => definition? (Script.plain (s₁ ++ s₂)) x.2
        (x.1.relocate ((Script.plain s₁).size + ·)))
      (g := fun x => definition? (Script.plain s₂) x.2 x.1) (·.shift s₁.length) (by
        intro x hmem
        obtain ⟨e, index⟩ := x
        have he : e ∈ m₂.functions.newest := List.mem_reverse.1 (List.fst_mem_of_mem_zipIdx hmem)
        obtain ⟨x, hx, ho⟩ := hm₂.entry e he
        exact definition?_append h₁ h₂ hx ho index)
    rw [htells₂.definitions] at hshift
    exact Option.some.inj (hdefinitions.symm.trans hshift)

end Sequence

/-! ## §6. The result. -/

/-- **Seeded runs compose.**  Two scripts that pass the check pass it together.
Let the first define no function and halt on a tape and an input, the
budget never being spent.  If it comes to its end, having read `k` characters,
a run of both halts exactly when a run of the second does, on the tape
that the first left, saved and loaded again, on the input without its first `k`
characters and in the room that is left for output.  It does so with the same
code, tape and operator; its output is the output of both runs and its count is
the count of both; and it has the definitions of the second run, behind the
text of the first script.  If the first script fails, so does a run of both,
with the same code, tape, output, count and operator. -/
theorem seeded_runs_compose (s₁ s₂ input : String) (tape : Tape) (limit : Nat)
    (h₁ : (Script.validate s₁).isSuccess) (h₂ : (Script.validate s₂).isSuccess)
    (hopen : '(' ∉ s₁.toList) (htape : tape.WellFormed) :
    (Script.validate (s₁ ++ s₂)).isSuccess
      ∧ ∀ fuel₁ report₁, runFrom tape s₁ input limit .unlimited fuel₁ = .ok (some report₁) →
        (report₁.exitCode = .success → ∃ k tape₁,
          consumedFrom? tape s₁ input limit .unlimited fuel₁ = some k
            ∧ k ≤ input.length ∧ report₁.output.length ≤ limit
            ∧ Tape.load report₁.tape.save = .ok tape₁
            ∧ ((∃ fuel report, runFrom tape (s₁ ++ s₂) input limit .unlimited fuel
                  = .ok (some report))
              ↔ ∃ fuel report₂, runFrom tape₁ s₂ (String.ofList (input.toList.drop k))
                  (limit - report₁.output.length) .unlimited fuel = .ok (some report₂))
            ∧ ∀ fuel fuel₂ report report₂,
                runFrom tape (s₁ ++ s₂) input limit .unlimited fuel = .ok (some report) →
                runFrom tape₁ s₂ (String.ofList (input.toList.drop k))
                  (limit - report₁.output.length) .unlimited fuel₂ = .ok (some report₂) →
                report.exitCode = report₂.exitCode ∧ report.tape = report₂.tape
                  ∧ report.halting.map (·.operator) = report₂.halting.map (·.operator)
                  ∧ report.output = report₁.output ++ report₂.output
                  ∧ report.operations = report₁.operations + report₂.operations
                  ∧ report.definitions = report₂.definitions.map (·.shift s₁.length))
        ∧ (report₁.exitCode ≠ .success → ∃ fuel report,
            runFrom tape (s₁ ++ s₂) input limit .unlimited fuel = .ok (some report)
              ∧ report.exitCode = report₁.exitCode ∧ report.tape = report₁.tape
              ∧ report.output = report₁.output ∧ report.operations = report₁.operations
              ∧ report.halting.map (·.operator) = report₁.halting.map (·.operator)) := by
  have hboth := Script.validate_append h₁ h₂
  refine ⟨hboth, fun fuel₁ report₁ hrun₁ => ?_⟩
  obtain ⟨r, hr, htells₁, hconsumed⟩ := exists_tells h₁ htape hrun₁
  have hwell : r.machine.tape.WellFormed :=
    (hr.fits (Script.balanced_plain h₁).toCoherent (Machine.fits_load _ htape input limit)).1.tape
  obtain ⟨hposition, hunread, hroom⟩ := Run.Halts.rest_eq hr
  rw [← htells₁.output] at hroom
  have hlimit : limit - report₁.output.length = r.machine.output.room := by omega
  rcases Script.halts_opening h₁ h₂ hopen htape hr with
    ⟨hcode, k, s₀, hleads, hkeeps⟩ | ⟨hcode, s, hs, hrests⟩
  · refine ⟨fun _ => ?_, fun hfault => absurd hcode hfault⟩
    have hload : Tape.load report₁.tape.save = .ok r.machine.tape := by
      have hsave := hwell.load_save []
      rw [List.append_nil] at hsave
      rw [htells₁.tape]
      exact hsave
    refine ⟨r.machine.input.position, r.machine.tape, hconsumed, hposition, by omega, hload, ?_⟩
    rw [← hunread, hlimit]
    obtain ⟨hforward, hbackward⟩ := Script.halts_closing h₁ h₂ hkeeps
    refine ⟨⟨?_, ?_⟩, ?_⟩
    · intro hrun
      obtain ⟨fuel, report, hrun⟩ := hrun
      obtain ⟨s, hs, -⟩ := exists_tells hboth htape hrun
      obtain ⟨r₂, hr₂⟩ := hbackward (hleads.halts_iff.1 hs)
      obtain ⟨fuel₂, report₂, hrun₂, -⟩ := exists_runFrom h₂ hwell hr₂
      exact ⟨fuel₂, report₂, hrun₂⟩
    · intro hrun₂
      obtain ⟨fuel₂, report₂, hrun₂⟩ := hrun₂
      obtain ⟨r₂, hr₂, -⟩ := exists_tells h₂ hwell hrun₂
      obtain ⟨s, hs, -⟩ := hforward hr₂
      obtain ⟨fuel, report, hrun, -⟩ := exists_runFrom hboth htape (hleads.halts hs)
      exact ⟨fuel, report, hrun⟩
    · intro fuel fuel₂ report report₂ hrun hrun₂
      obtain ⟨s, hs, htells, -⟩ := exists_tells hboth htape hrun
      obtain ⟨r₂, hr₂, htells₂, -⟩ := exists_tells h₂ hwell hrun₂
      obtain ⟨s', hs', hrests⟩ := hforward hr₂
      obtain ⟨hcode₂, rfl⟩ := hs.unique (hleads.halts hs')
      have hfits₂ := (hr₂.fits (Script.balanced_plain h₂).toCoherent
        (Machine.fits_load _ hwell _ _)).1
      refine ⟨hcode₂, ?_⟩
      rw [htells₁.output, htells₁.operations]
      exact htells.closing h₁ h₂ htells₂ hfits₂ hrests hcode₂
  · -- the first script failed, and a run of both never gets to the second
    refine ⟨fun hsuccess => absurd hsuccess hcode, fun _ => ?_⟩
    obtain ⟨fuel, report, hrun, hcode', htells⟩ := exists_runFrom hboth htape hs
    exact ⟨fuel, report, hrun, hcode', htells.opening htells₁ hrests hcode'⟩

/-- A `+` at the end of the first script and one at the start of the second,
which packing makes one opcode; a definition behind it, a call of it, and a
`.` that finds no room. -/
theorem seeded_runs_compose_packed :
    (Script.validate "x,.+").isSuccess ∧ (Script.validate "+(.):.").isSuccess
      ∧ ∃ report₁ report₂ fuel report,
        runFrom (.blank 32 .byteChecked) "x,.+" "ab" 2 .unlimited 20 = .ok (some report₁)
          ∧ runFrom ((Tape.blank 32 .byteChecked).write 98) "+(.):." "b" 1 .unlimited 20
            = .ok (some report₂)
          ∧ runFrom (.blank 32 .byteChecked) ("x,.+" ++ "+(.):.") "ab" 2 .unlimited fuel
            = .ok (some report)
          ∧ report.exitCode = .outputFull ∧ report.output = "a" ++ "c"
          ∧ report.operations = 3 + 4
          ∧ report.definitions.map (·.offset) = [4 + 1] := by
  obtain ⟨report₁, hrun₁, hreport₁⟩ : ∃ report,
      runFrom (.blank 32 .byteChecked) "x,.+" "ab" 2 .unlimited 20 = .ok (some report)
        ∧ (report.exitCode, report.output, report.operations, report.tape)
          = (.success, "a", 3, (Tape.blank 32 .byteChecked).write 98) :=
    exists_report (by decide +kernel)
  obtain ⟨report₂, hrun₂, hreport₂⟩ : ∃ report,
      runFrom ((Tape.blank 32 .byteChecked).write 98) "+(.):." "b" 1 .unlimited 20
          = .ok (some report)
        ∧ (report.exitCode, report.output, report.operations, report.definitions)
          = (.outputFull, "c", 4, [⟨99, 0, 1, "."⟩]) :=
    exists_report (by decide +kernel)
  simp only [Prod.mk.injEq] at hreport₁ hreport₂
  obtain ⟨hcode₁, houtput₁, hoperations₁, htape₁⟩ := hreport₁
  obtain ⟨hcode₂, houtput₂, hoperations₂, hdefinitions₂⟩ := hreport₂
  have hwell : (Tape.blank 32 .byteChecked).WellFormed := Tape.wellFormed_blank _ (by decide)
  have hwell₁ : ((Tape.blank 32 .byteChecked).write 98).WellFormed := hwell.write (by decide)
  obtain ⟨-, hall⟩ := seeded_runs_compose "x,.+" "+(.):." "ab" (.blank 32 .byteChecked) 2
    (by decide) (by decide) (by decide) hwell
  obtain ⟨k, tape₁, hk, -, -, hload, hiff, hsame⟩ := (hall 20 report₁ hrun₁).1 hcode₁
  obtain rfl : k = 1 := by
    have hone : consumedFrom? (.blank 32 .byteChecked) "x,.+" "ab" 2 .unlimited 20 = some 1 := by
      decide +kernel
    exact Option.some.inj (hk.symm.trans hone)
  obtain rfl : tape₁ = (Tape.blank 32 .byteChecked).write 98 := by
    have hsave := hwell₁.load_save []
    rw [List.append_nil, ← htape₁] at hsave
    exact (Except.ok.inj (hsave.symm.trans hload)).symm.trans htape₁
  rw [houtput₁] at hiff hsame
  obtain ⟨fuel, report, hrun⟩ := hiff.2 ⟨20, report₂, hrun₂⟩
  obtain ⟨hcode, -, -, houtput, hoperations, hdefinitions⟩ :=
    hsame fuel 20 report report₂ hrun hrun₂
  refine ⟨by decide, by decide, report₁, report₂, fuel, report, hrun₁, hrun₂, hrun, ?_, ?_, ?_, ?_⟩
  · rw [hcode, hcode₂]
  · rw [houtput, houtput₂]
  · rw [hoperations, hoperations₁, hoperations₂]
  · rw [hdefinitions, hdefinitions₂]
    decide

end TapeMachine
