/-
  TapeMachine.Proofs.Traces
  ─────────────────────────
  **A TRACE IS THE TRAVERSED CODE, CUT AT THE OPEN LOOPS.**

  Each frame has traversed a stretch of code (`Frame.traversed`): from its
  start up to where it goes on, and the innermost one up to and with the opcode
  that it stopped on.  A trace is made from the partner table: a `[` counts as
  open if its partner lies behind the stretch.

    • `LoopsPaired.isOpenLoop_iff` — that is so exactly if no `]` of the stretch
      belongs to the `[`, the brackets of the stretch being all that is looked at,
    • `exists_parts` — the texts between cuts are those of parts that make up the
      stretch and meet at the cuts and nowhere else,
    • `LoopsPaired.exists_cut` — so the trace entries of a frame are the texts of
      the parts of its stretch.  A `[` at the end is open, but starts no part.
-/
import TapeMachine.Proofs.Diagnosis
import TapeMachine.Proofs.OpenLoops

namespace TapeMachine

/-! ## §1. Stretches of code and their parts. -/

/-- The stretches that the frames of a stack have traversed, innermost
first: up to where a frame goes on, and for the innermost one up to and with
the opcode that it stopped on. -/
def Frame.traversed : List Frame → List Span
  | [] => []
  | frame :: callers =>
    ⟨frame.body.start, frame.offset + 1⟩ :: callers.map fun caller =>
      ⟨caller.body.start, caller.offset⟩

namespace Opcode

/-- Two of the parts meet behind the first `k` opcodes. -/
def MeetAt (parts : List (List Opcode)) (k : Nat) : Prop :=
  ∃ front back, parts = front ++ back ∧ front ≠ [] ∧ back ≠ [] ∧ front.flatten.length = k

/-- The parts of a stretch of code: none is empty, and two of them meet behind
every `[` that the stretch does not close and nowhere else, a `[` at the end
of the stretch apart. -/
structure CutAtLoops (slice : List Opcode) (parts : List (List Opcode)) : Prop where
  flatten : parts.flatten = slice
  nonempty : ∀ part ∈ parts, part ≠ []
  meets : ∀ k, MeetAt parts k ↔ ∃ i, k = i + 1 ∧ k < slice.length
    ∧ Operator.OpenAt (some ∘ operator) slice i

/-- A part alone meets nothing. -/
theorem not_meetAt_singleton (part : List Opcode) (k : Nat) : ¬ MeetAt [part] k := by
  rintro ⟨front, back, heq, hfront, hback, -⟩
  cases front with
  | nil => exact hfront rfl
  | cons x front =>
    obtain ⟨-, heq⟩ := List.cons.inj heq
    exact hback (List.append_eq_nil_iff.1 heq.symm).2

/-- **One part more** meets the others where they end. -/
theorem meetAt_concat {parts : List (List Opcode)} (hparts : parts ≠ []) (part : List Opcode)
    (k : Nat) : MeetAt (parts ++ [part]) k ↔ MeetAt parts k ∨ k = parts.flatten.length := by
  constructor
  · rintro ⟨front, back, heq, hfront, hback, rfl⟩
    -- the last part is the last one behind the place
    obtain ⟨rest, last, rfl⟩ := (List.eq_nil_or_concat' back).resolve_left hback
    rw [← List.append_assoc] at heq
    obtain ⟨rfl, -⟩ := List.append_inj' heq rfl
    by_cases hrest : rest = []
    · right
      rw [hrest, List.append_nil]
    · left
      exact ⟨front, rest, rfl, hfront, hrest, rfl⟩
  · rintro (⟨front, back, rfl, hfront, -, rfl⟩ | rfl)
    · exact ⟨front, back ++ [part], List.append_assoc .., hfront, by simp, rfl⟩
    · exact ⟨parts, [part], rfl, hparts, by simp, rfl⟩

end Opcode

namespace Program

variable {p : Program}

theorem length_slice {a b : Nat} (hb : b ≤ p.size) : (p.slice ⟨a, b⟩).length = b - a := by
  have hsize : p.opcodes.toList.length = p.size := Array.length_toList
  unfold slice
  rw [List.length_take, List.length_drop, hsize]
  show min (b - a) (p.size - a) = b - a
  omega

/-! ## §2. The texts between cuts. -/

/-- **Between cuts in order** stand the parts of the whole, which meet at the
inner cuts. -/
theorem exists_parts {a : Nat} (cuts : List Nat) : ∀ stop : Nat,
    (a :: cuts ++ [stop]).Pairwise (· < ·) → stop ≤ p.size →
      ∃ parts, p.texts? (a :: cuts ++ [stop]) = some (parts.map Opcode.sourceText).reverse
        ∧ parts.flatten = p.slice ⟨a, stop⟩ ∧ (∀ part ∈ parts, part ≠ [])
        ∧ ∀ k, Opcode.MeetAt parts k ↔ a + k ∈ cuts := by
  have hne : ∀ {b c : Nat}, b < c → c ≤ p.size → p.slice ⟨b, c⟩ ≠ [] := by
    intro b c hbc hc heq
    have hlength := length_slice (p := p) (a := b) hc
    rw [heq] at hlength
    have : 0 = c - b := hlength
    omega
  induction cuts using List.reverseRecOn with
  | nil =>
    intro stop hsorted hstop
    have hlt : a < stop := by simpa using hsorted
    refine ⟨[p.slice ⟨a, stop⟩], ?_, by simp, by simpa using hne hlt hstop, ?_⟩
    · show p.texts? ([] ++ [a] ++ [stop]) = _
      rw [texts?_concat hlt, sourceOf?_eq (Nat.le_of_lt hlt) hstop]
      rfl
    · intro k
      exact ⟨fun h => absurd h (Opcode.not_meetAt_singleton _ k), fun h => by cases h⟩
  | append_singleton cuts c ih =>
    intro stop hsorted hstop
    have hsplit := List.pairwise_append.1 hsorted
    have hlt : c < stop := hsplit.2.2 c (by simp) stop (by simp)
    have hfirst : a < c := (List.pairwise_cons.1 hsplit.1).1 c (by simp)
    obtain ⟨parts, htexts, hflatten, hparts, hmeets⟩ := ih c hsplit.1 (by omega)
    refine ⟨parts ++ [p.slice ⟨c, stop⟩], ?_, ?_, ?_, ?_⟩
    · show p.texts? (a :: cuts ++ [c] ++ [stop]) = _
      rw [texts?_concat hlt, sourceOf?_eq (Nat.le_of_lt hlt) hstop, htexts, List.map_append,
        List.reverse_append]
      rfl
    · rw [List.flatten_append, hflatten]
      simpa using slice_append (Nat.le_of_lt hfirst) (Nat.le_of_lt hlt)
    · intro part hmem
      rcases List.mem_append.1 hmem with hmem | hmem
      · exact hparts part hmem
      · rw [List.mem_singleton.1 hmem]
        exact hne hlt hstop
    · intro k
      have hsome : parts ≠ [] := by
        rintro rfl
        exact hne hfirst (by omega) hflatten.symm
      rw [Opcode.meetAt_concat hsome, hmeets, hflatten, length_slice (by omega), List.mem_append,
        List.mem_singleton]
      refine or_congr_right ?_
      omega

/-- The cuts of a stretch that are neither of its ends. -/
def innerCuts (p : Program) (start last : Nat) : List Nat :=
  ((List.range' start (last - start)).filter (p.isOpenLoop (last + 1))).map (· + 1)

/-- A `[` at the end adds a cut at the end, with nothing behind it. -/
theorem texts?_cutPoints {start last : Nat} (hle : start ≤ last) :
    p.texts? (p.cutPoints start (last + 1))
      = p.texts? (start :: p.innerCuts start last ++ [last + 1]) := by
  have hrange : List.range' start (last + 1 - start)
      = List.range' start (last - start) ++ [last] := by
    rw [show last + 1 - start = (last - start) + 1 by omega, List.range'_concat,
      show start + 1 * (last - start) = last by omega]
  unfold cutPoints innerCuts
  dsimp only
  rw [hrange, List.filter_append, List.map_append]
  by_cases hopen : p.isOpenLoop (last + 1) last
  · rw [List.filter_cons_of_pos hopen]
    exact p.texts?_concat_self (start :: p.innerCuts start last) (last + 1)
  · rw [List.filter_cons_of_neg hopen, List.filter_nil, List.map_nil, List.append_nil]

theorem mem_innerCuts {start last c : Nat} :
    c ∈ p.innerCuts start last
      ↔ ∃ i, c = i + 1 ∧ start ≤ i ∧ i < last ∧ p.isOpenLoop (last + 1) i := by
  unfold innerCuts
  simp only [List.mem_map, List.mem_filter, List.mem_range'_1]
  constructor
  · rintro ⟨i, ⟨⟨hstart, hlast⟩, hopen⟩, rfl⟩
    exact ⟨i, rfl, hstart, by omega, hopen⟩
  · rintro ⟨i, rfl, hstart, hlast, hopen⟩
    exact ⟨i, ⟨⟨hstart, by omega⟩, hopen⟩, rfl⟩

theorem sorted_innerCuts (p : Program) {start last : Nat} (hle : start ≤ last) :
    (start :: p.innerCuts start last ++ [last + 1]).Pairwise (· < ·) := by
  have hinner : (p.innerCuts start last).Pairwise (· < ·) := by
    unfold innerCuts
    rw [List.pairwise_map]
    refine List.Pairwise.imp ?_ (List.Pairwise.filter _ List.pairwise_lt_range')
    intro i j hij
    omega
  have hfirst : ∀ c ∈ p.innerCuts start last, start < c ∧ c < last + 1 := by
    intro c hc
    obtain ⟨i, rfl, hstart, hlast, -⟩ := mem_innerCuts.1 hc
    omega
  refine List.pairwise_append.2 ⟨List.pairwise_cons.2 ⟨fun c hc => (hfirst c hc).1, hinner⟩,
    List.pairwise_singleton _ _, ?_⟩
  intro c hc stop hstop
  obtain rfl := List.mem_singleton.1 hstop
  rcases List.mem_cons.1 hc with rfl | hc
  · omega
  · exact (hfirst c hc).2

/-! ## §3. Open loops of a stretch. -/

/-- The partner of a `[` is the `]` that belongs to it. -/
structure LoopsPaired (p : Program) : Prop where
  partner : ∀ {i : Nat} {x : Opcode}, p.opcodes[i]? = some x → x.operator = .loopOpen →
    ∃ j, p.partners[i]? = some j ∧ Operator.PairAt (some ∘ Opcode.operator) p.opcodes.toList i j

/-- That is so if the script passes the check. -/
theorem loopsPaired_ofTokens {b : Block} (hb : b.IsItems) {ts : List Token}
    (h : b.operators = ts.map (·.operator)) (g : Granularity) (n : Nat) :
    (ofTokens g n ts).LoopsPaired := by
  refine ⟨fun {i x} hx ho => ?_⟩
  obtain ⟨j, y, hy, hcloser, hmatched⟩ := exists_matched hb h g n hx (by rw [ho]; rfl)
  have hclose : y.operator = .loopClose := by
    rw [ho] at hcloser
    exact (Option.some.inj hcloser).symm
  refine ⟨j, hmatched.pair.2.1, hmatched.pair.1, ?_, ?_, ?_⟩
  · rw [Array.getElem?_toList, hx]
    exact congrArg some ho
  · rw [Array.getElem?_toList, hy]
    exact congrArg some hclose
  · rw [List.filterMap_eq_map]
    exact hmatched.loops

/-- **A `[` counts as open exactly if no `]` of the stretch belongs to it.** -/
theorem LoopsPaired.isOpenLoop_iff (h : p.LoopsPaired) {start stop k : Nat}
    (hk : start + k < stop) : p.isOpenLoop stop (start + k)
      ↔ Operator.OpenAt (some ∘ Opcode.operator) (p.slice ⟨start, stop⟩) k := by
  have hentry : (p.slice ⟨start, stop⟩)[k]? = p.opcodes[start + k]? := by
    unfold slice
    rw [List.getElem?_take_of_lt (show k < stop - start by omega), List.getElem?_drop,
      Array.getElem?_toList]
  rw [Program.isOpenLoop_iff]
  constructor
  · rintro ⟨op, partner, hop, ho, hpartner, hge⟩
    refine ⟨by rw [hentry, hop]; exact congrArg some ho, ?_⟩
    intro j hpair
    obtain ⟨hpair, hj⟩ := Operator.pairAt_slice.1 hpair
    obtain ⟨j', hj', hpair'⟩ := h.partner hop ho
    obtain rfl : j' = partner := Option.some.inj (hj'.symm.trans hpartner)
    -- the `]` would be the partner, which lies behind the stretch
    have heq : start + j = j' := hpair.unique hpair'
    have hlt : j < stop - start := hj
    omega
  · rintro ⟨hopen, hunmatched⟩
    rw [hentry] at hopen
    obtain ⟨op, hop, ho⟩ := Option.bind_eq_some_iff.1 hopen
    obtain ⟨j, hj, hpair⟩ := h.partner hop (Option.some.inj ho)
    refine ⟨op, j, hop, Option.some.inj ho, hj, ?_⟩
    apply Nat.le_of_not_lt
    intro hlt
    have hbehind := hpair.lt
    refine hunmatched (j - start) (Operator.pairAt_slice.2 ⟨?_, ?_⟩)
    · show Operator.PairAt _ _ (start + k) (start + (j - start))
      rwa [show start + (j - start) = j by omega]
    · show j - start < stop - start
      omega

/-- **The trace entries of a frame are the texts of the parts of its stretch.** -/
theorem LoopsPaired.exists_cut (h : p.LoopsPaired) {start stop : Nat} (hlt : start < stop)
    (hstop : stop ≤ p.size) :
    ∃ parts, Opcode.CutAtLoops (p.slice ⟨start, stop⟩) parts
      ∧ p.parts? start stop = some (parts.map Opcode.sourceText).reverse := by
  obtain ⟨last, rfl⟩ : ∃ last, stop = last + 1 := ⟨stop - 1, by omega⟩
  have hle : start ≤ last := Nat.le_of_lt_succ hlt
  obtain ⟨parts, htexts, hflatten, hparts, hmeets⟩ :=
    exists_parts (p.innerCuts start last) (last + 1) (p.sorted_innerCuts hle) hstop
  refine ⟨parts, ⟨hflatten, hparts, ?_⟩, by rw [parts?_eq, texts?_cutPoints hle, htexts]⟩
  intro k
  rw [hmeets, mem_innerCuts, length_slice hstop]
  constructor
  · rintro ⟨i, hk, hstart, hlast, hopen⟩
    refine ⟨i - start, by omega, by omega, ?_⟩
    refine (h.isOpenLoop_iff (show start + (i - start) < last + 1 by omega)).1 ?_
    rwa [show start + (i - start) = i by omega]
  · rintro ⟨i, rfl, hlast, hopen⟩
    exact ⟨start + i, rfl, Nat.le_add_right _ _, by omega,
      (h.isOpenLoop_iff (show start + i < last + 1 by omega)).2 hopen⟩

/-! ## §4. The frames of a stack. -/

/-- Parts make up the stretches that they are parts of. -/
theorem flatten_of_cuts {slices : List (List Opcode)} {parts : List (List (List Opcode))}
    (h : List.Forall₂ Opcode.CutAtLoops slices parts) : parts.map List.flatten = slices := by
  induction h with
  | nil => rfl
  | cons hcut _ ih => rw [List.map_cons, hcut.flatten, ih]

/-- **Stretch by stretch.** -/
theorem LoopsPaired.exists_cuts (h : p.LoopsPaired) {spans : List Span}
    (hspans : ∀ s ∈ spans, s.start < s.stop ∧ s.stop ≤ p.size) :
    ∃ parts, List.Forall₂ Opcode.CutAtLoops (spans.map p.slice) parts
      ∧ spans.mapM (fun s => p.parts? s.start s.stop)
        = some (parts.map fun ps => (ps.map Opcode.sourceText).reverse) := by
  induction spans with
  | nil => exact ⟨[], .nil, rfl⟩
  | cons s spans ih =>
    obtain ⟨⟨hlt, hstop⟩, hrest⟩ := List.forall_mem_cons.1 hspans
    obtain ⟨parts, hcut, hparts⟩ := h.exists_cut hlt hstop
    obtain ⟨rest, hcuts, htexts⟩ := ih hrest
    refine ⟨parts :: rest, .cons hcut hcuts, ?_⟩
    rw [List.mapM_cons, hparts, htexts]
    rfl

/-- The trace, in terms of the stretches that the frames have traversed. -/
theorem stackTrace?_eq {s : CallStack} {frame : Frame} {callers : List Frame}
    (hf : s.frames = frame :: callers) (hp : p.Coherent) (hwithin : ∀ f ∈ s.frames, f.Within p)
    (hlt : frame.offset < frame.body.stop) :
    p.stackTrace? s = ((Frame.traversed s.frames).mapM fun span =>
      p.parts? span.start span.stop).map List.flatten := by
  rw [hf] at hwithin
  obtain ⟨hframe, hcallers⟩ := List.forall_mem_cons.1 hwithin
  unfold stackTrace?
  rw [hf]
  dsimp only [Frame.traversed]
  have houter : callers.mapM (fun caller => p.frameParts? caller.body caller.offset)
      = (callers.map fun caller => (⟨caller.body.start, caller.offset⟩ : Span)).mapM
        fun span => p.parts? span.start span.stop := by
    rw [List.mapM_map]
    refine mapM_congr fun caller hmem => ?_
    have hcaller := hcallers caller hmem
    exact frameParts?_eq hcaller.start_le hcaller.le_stop (hcaller.stop_le hp)
  rw [frameParts?_eq (Nat.le_succ_of_le hframe.start_le) hlt (hframe.stop_le hp), houter,
    List.mapM_cons]
  show (p.parts? frame.body.start (frame.offset + 1)).bind _ = _
  cases p.parts? frame.body.start (frame.offset + 1) with
  | none => rfl
  | some inner =>
    generalize List.mapM (fun span : Span => p.parts? span.start span.stop) _ = outer
    cases outer <;> rfl

end Program

/-- All frames but the innermost one wait behind a `:`. -/
theorem FunctionTable.Stacks.resumes {p : Program} {f : FunctionTable} {callers : List Frame} :
    ∀ {frame : Frame}, f.Stacks p (frame :: callers) → ∀ caller ∈ callers, caller.Resumes p := by
  induction callers with
  | nil =>
    intro frame _ caller hmem
    cases hmem
  | cons first callers ih =>
    intro frame h caller hmem
    obtain ⟨-, hresumes, hrest⟩ := h
    rcases List.mem_cons.1 hmem with rfl | hmem
    · exact hresumes
    · exact ih hrest caller hmem

/-- **What the frames of a machine have traversed is code**, and not
nothing. -/
theorem Machine.Orderly.traversed {p : Program} {m : Machine} (hp : p.Coherent) (h : m.Orderly p)
    {frame : Frame} {callers : List Frame} (hf : m.stack.frames = frame :: callers)
    (hlt : frame.offset < frame.body.stop) :
    ∀ s ∈ Frame.traversed m.stack.frames, s.start < s.stop ∧ s.stop ≤ p.size := by
  have hwithin := h.frame
  have hstacks := h.frames
  rw [hf] at hwithin hstacks ⊢
  obtain ⟨hframe, hcallers⟩ := List.forall_mem_cons.1 hwithin
  refine List.forall_mem_cons.2 ⟨?_, ?_⟩
  · have hstart := hframe.start_le
    have hstop := hframe.stop_le hp
    exact ⟨Nat.lt_succ_of_le hstart, Nat.le_trans hlt hstop⟩
  · intro s hs
    obtain ⟨caller, hmem, rfl⟩ := List.mem_map.1 hs
    have hcaller := hcallers caller hmem
    obtain ⟨i, -, hoffset, hstart, -⟩ := hstacks.resumes caller hmem
    refine ⟨?_, Nat.le_trans hcaller.le_stop (hcaller.stop_le hp)⟩
    show caller.body.start < caller.offset
    omega

/-! ## §5. The result. -/

/-- The text of parts, one after the other, is the text of the whole. -/
theorem Opcode.join_sourceText (parts : List (List Opcode)) :
    String.join (parts.map sourceText) = sourceText parts.flatten := by
  induction parts with
  | nil => rfl
  | cons part parts ih =>
    rw [List.map_cons, String.join_cons, ih, List.flatten_cons]
    simp only [sourceText, List.flatMap_append, String.ofList_append]

/-- **A trace is the code that the frames have traversed, cut at the loops
that are open.**  Take a script that passes the check, in either granularity, any
machine that calls of the engine lead to, and any further call that halts
before the end of the script.  Then there is a trace, and read from its last entry
to its first it is the text of the stretches of the frames, from the frame of the
script to the innermost one, each in parts.  No entry is empty.  Within a stretch
two entries meet behind each `[` that has no `]` in the stretch, by the brackets of
the stretch alone, and nowhere else; a `[` at its end has nothing behind it. -/
theorem traces_are_cut_at_open_loops (source : String) (g : Granularity) (tape : Tape)
    (input : String) (limit : Nat) (hsource : (Script.validate source).isSuccess) :
    ∃ p, Program.compile g source = .ok p ∧
      ∀ m, Machine.Reachable p (.load p tape input limit) m →
        ∀ (t : Terms) (marks : Option (Array Bool)) code m' marks',
          m.HaltsWith p t marks code m' marks' → code ≠ .success →
          ∃ trace parts, p.stackTrace? m'.stack = some trace
            ∧ List.Forall₂ Opcode.CutAtLoops
                ((Frame.traversed m'.stack.frames).map p.slice).reverse parts
            ∧ trace.reverse = parts.flatten.map Opcode.sourceText
            ∧ String.join trace.reverse = String.join
                (((Frame.traversed m'.stack.frames).map p.slice).reverse.map Opcode.sourceText)
            ∧ ∀ text ∈ trace, text ≠ "" := by
  obtain ⟨b, ⟨hitems, -⟩, hb⟩ := Script.validate_isSuccess_iff.1 hsource
  have hp := Program.layout_ofTokens hitems hb g (Script.validate source).count
  have hloops := Program.loopsPaired_ofTokens hitems hb g (Script.validate source).count
  refine ⟨_, Program.compile_of_isSuccess hsource g, ?_⟩
  intro m hm t marks code m' marks' ⟨fuel, polls, hfuel⟩ hcode
  have horderly := hm.keeps (Machine.orderly_load _ tape input limit) fun h hstep => h.step hp hstep
  obtain ⟨horderly', hstands, -⟩ := Machine.Orderly.halted hp (r := ⟨m, marks, 0⟩) horderly hfuel
  cases hstands with
  | done _ => exact absurd rfl hcode
  | stopped _ hf hlt hop _ _ =>
    obtain ⟨parts, hcuts, htexts⟩ :=
      hloops.exists_cuts (horderly'.traversed hp.toCoherent hf hlt)
    have htrace := Program.stackTrace?_eq hf hp.toCoherent horderly'.frame hlt
    rw [htexts] at htrace
    have hreverse : (parts.map fun ps => (ps.map Opcode.sourceText).reverse).flatten.reverse
        = parts.reverse.flatten.map Opcode.sourceText := by
      rw [List.reverse_flatten, List.map_map, ← List.map_reverse, List.map_flatten]
      simp only [Function.comp_def, List.reverse_reverse]
    have hcuts' := List.rel_reverse hcuts
    refine ⟨_, parts.reverse, htrace, hcuts', hreverse, ?_, ?_⟩
    · rw [hreverse, Opcode.join_sourceText, Opcode.join_sourceText, List.flatten_flatten,
        Program.flatten_of_cuts hcuts']
    · have hunpacks := Program.unpacks_plain g (Script.validate source).count (Script.tokens source)
      exact (Program.trace_of_stackTrace? hp.toCoherent (fun hop => hunpacks.count_pos hop) hf
        (horderly'.frame _ (by rw [hf]; exact List.mem_cons_self)) hlt hop htrace).2

/-- A call that finds no input in a loop of a function, entered from a loop of the
script.  The script's stretch has the function's loops in it, but they are closed
there. -/
theorem traces_are_cut_at_open_loops_in_call :
    ∃ p m parts, Program.compile .packed "(++[,[.]])+[>:]" = .ok p
      ∧ (∃ marks, (Machine.load p (.blank 32 .byteWrapping) "" 0).HaltsWith p {} none
          .inputExhausted m marks)
      ∧ p.stackTrace? m.stack = some [",", "++[", ">:", "(++[,[.]])+["]
      ∧ List.Forall₂ Opcode.CutAtLoops [p.slice ⟨0, 13⟩, p.slice ⟨1, 4⟩] parts
      ∧ parts.flatten.map Opcode.sourceText = ["(++[,[.]])+[", ">:", "++[", ","] := by
  obtain ⟨p, hp, hall⟩ := traces_are_cut_at_open_loops "(++[,[.]])+[>:]" .packed
    (.blank 32 .byteWrapping) "" 0 (by decide +kernel)
  have hrun : ((Program.compile .packed "(++[,[.]])+[>:]").toOption.bind fun p =>
      ((Machine.load p (.blank 32 .byteWrapping) "" 0).execute p {} none 40).rest?.bind fun rest =>
        some (rest.1, rest.2.machine.stack.frames, p.stackTrace? rest.2.machine.stack))
      = some (.inputExhausted, [⟨⟨1, 8⟩, 3⟩, ⟨⟨0, 14⟩, 13⟩],
          some [",", "++[", ">:", "(++[,[.]])+["]) := by
    decide +kernel
  replace hrun := seen_of_ok hrun hp
  obtain ⟨code, m, marks, polls, hhalts, heq⟩ := Machine.exists_haltsWith hrun
  rw [Option.some.injEq, Prod.mk.injEq, Prod.mk.injEq] at heq
  obtain ⟨rfl, hframes, htrace⟩ := heq
  obtain ⟨trace, parts, htrace', hcuts, hparts, -⟩ := hall _ .start _ _ _ _ _ hhalts (by decide)
  rw [htrace] at htrace'
  cases htrace'
  rw [hframes] at hcuts
  exact ⟨p, m, parts, hp, ⟨_, hhalts⟩, htrace, hcuts, hparts.symm⟩

end TapeMachine
