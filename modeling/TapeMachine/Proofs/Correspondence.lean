/-
  TapeMachine.Proofs.Correspondence
  ─────────────────────────────────
  **PACKING COMMUTES WITH MATCHING.**

  A script is compiled twice, packed and plain, and its brackets are matched
  in either stream on its own.  An opcode of the packed stream begins, in the
  plain one, behind all the operators that the opcodes before it stand for
  (`Program.operatorsBefore`).  Under this map of indices

    • the brackets of the one are the brackets of the other, one by one
      (`Balanced.exists_partner`, `Unpacks.cover_one`),
    • partners go to partners, and both streams count the same definitions
      (`Opcode.countP_expand`),
    • a loop is `[-]` in the one exactly if it is in the other.
-/
import TapeMachine.Proofs.Canonical
import TapeMachine.Proofs.Layout

namespace TapeMachine

/-! ## §1. Operators that are not counted. -/

theorem Operator.isRepeatable_of_isSimple {o : Operator} (h : o.isSimple = false) :
    o.isRepeatable = false := by
  revert h
  cases o <;> decide

/-- **Writing a stream out keeps how often an operator occurs**, if it is not
one that is counted. -/
theorem Opcode.countP_expand {ops : List Opcode} {o : Operator} (ho : o.isRepeatable = false)
    (hone : ∀ op ∈ ops, op.operator.isRepeatable = false → op.count = 1) :
    (expand ops).countP (·.operator == o) = ops.countP (·.operator == o) := by
  induction ops with
  | nil => rfl
  | cons op ops ih =>
    have hrest := ih fun x hx => hone x (List.mem_cons_of_mem op hx)
    have hfirst : (List.replicate op.count (Opcode.one op.operator)).countP (·.operator == o)
        = if op.operator == o then 1 else 0 := by
      rw [List.countP_replicate]
      show (if op.operator == o then op.count else 0) = _
      split
      · next hsame =>
        rw [hone op List.mem_cons_self (by rw [eq_of_beq hsame, ho])]
      · rfl
    show (List.replicate op.count _ ++ expand ops).countP _ = _
    rw [List.countP_append, hfirst, hrest, List.countP_cons]
    omega

namespace Program

/-- How many operators the opcodes before index `k` stand for. -/
def operatorsBefore (p : Program) (k : Nat) : Nat := Opcode.total (p.opcodes.toList.take k)

theorem operatorsBefore_ofTokens (g : Granularity) (n : Nat) (ts : List Token) :
    (ofTokens g n ts).operatorsBefore = Opcode.place ((Instruction.pack g ts).map (·.opcode)) := by
  funext k
  rw [operatorsBefore, opcodes_ofTokens, Opcode.place_eq_total]

/-- **Both streams count the same definitions.** -/
theorem functionCount_ofTokens (g : Granularity) (n : Nat) (ts : List Token) :
    (ofTokens g n ts).functionCount = (ofTokens .plain n ts).functionCount := by
  have hpacks := Instruction.packs_pack g ts
  have hexpand : (ofTokens .plain n ts).opcodes.toList
      = Opcode.expand (ofTokens g n ts).opcodes.toList := by
    rw [opcodes_ofTokens, opcodes_ofTokens, hpacks.expand_eq, Instruction.pack_plain, List.map_map]
    rfl
  rw [count_ofTokens, count_ofTokens, hexpand, Opcode.countP_expand rfl]
  intro op hop
  rw [opcodes_ofTokens] at hop
  obtain ⟨x, hx, rfl⟩ := List.mem_map.1 hop
  exact (hpacks.counted x hx).2

/-- **Every bracket has a partner that names it.** -/
theorem Balanced.exists_partner {p : Program} (hp : p.Balanced) {k : Nat} {x : Opcode}
    (hx : p.opcodes[k]? = some x) (hbracket : x.operator.isSimple = false) :
    ∃ j, p.partners[k]? = some j ∧ p.partners[j]? = some k := by
  cases hopen : x.operator.closer?.isSome with
  | true =>
    obtain ⟨j, -, hj, hback⟩ := hp.opened hx hopen
    exact ⟨j, hj, hback⟩
  | false =>
    have hclose : x.operator.isCloser := by
      revert hbracket hopen
      cases x.operator <;> decide
    obtain ⟨j, -, hback, hj⟩ := hp.closed hx hclose
    exact ⟨j, hj, hback⟩

/-! ## §2. A program and its plain form. -/

section Unpacked

variable {p q : Program} {u : Nat → Nat} {k : Nat} {x : Opcode}

/-- **Partners go to partners.** -/
theorem Unpacks.exists_partner (h : p.Unpacks q u) (hp : p.Balanced) (hx : p.opcodes[k]? = some x)
    (hbracket : x.operator.isSimple = false) :
    ∃ j, p.partners[k]? = some j ∧ p.partners[j]? = some k ∧ q.partners[u k]? = some (u j) := by
  obtain ⟨j, hj, hback⟩ := hp.exists_partner hx hbracket
  refine ⟨j, hj, hback, ?_⟩
  rw [h.partner (Array.getElem?_eq_some_iff.1 hx).1, hj]
  rfl

/-- **Whether a loop is `[-]`** can be said in both, and they say the same. -/
theorem Unpacks.exists_isReset? (h : p.Unpacks q u) (hp : p.Balanced) (hq : q.Coherent)
    (hx : p.opcodes[k]? = some x) (ho : x.operator = .loopOpen) :
    ∃ reset, p.isReset? none k = some reset ∧ q.isReset? none (u k) = some reset := by
  have hmarks : p.FitsMarks none := trivial
  have hsome : (p.isReset? none k).isSome := hp.resets?_isSome hx hmarks {}
  obtain ⟨reset, hreset⟩ := Option.isSome_iff_exists.1 hsome
  exact ⟨reset, hreset, (h.isReset?_eq hp hq hx ho).trans hreset⟩

end Unpacked

end Program

/-! ## §3. The result. -/

/-- **Packing commutes with matching.**  A script that passes the check compiles
packed and plain.  A bracket or parenthesis at index `k` of the packed program,
with partner `j`, stands in the plain program at the index that counts the
operators before `k`, and its partner there at the one that counts those before
`j`.  The plain program has no others, and both count the same definitions.  A
`[` is recognised as that of a `[-]` in both programs or in neither. -/
theorem packing_commutes_with_matching (source : String)
    (hsource : (Script.validate source).isSuccess) :
    ∃ p q, Program.compile .packed source = .ok p ∧ Program.compile .plain source = .ok q
      ∧ (∀ (k : Nat) (x : Opcode), p.opcodes[k]? = some x → x.operator.isSimple = false →
          q.opcodes[p.operatorsBefore k]? = some x
            ∧ ∃ j, p.partners[k]? = some j ∧ p.partners[j]? = some k
              ∧ q.partners[p.operatorsBefore k]? = some (p.operatorsBefore j))
      ∧ (∀ (i : Nat) (y : Opcode), q.opcodes[i]? = some y → y.operator.isSimple = false →
          ∃ k, k < p.size ∧ i = p.operatorsBefore k)
      ∧ p.functionCount = q.functionCount
      ∧ (∀ (k : Nat) (x : Opcode), p.opcodes[k]? = some x → x.operator = .loopOpen →
          ∃ reset, p.isReset? none k = some reset
            ∧ q.isReset? none (p.operatorsBefore k) = some reset) := by
  obtain ⟨b, ⟨hitems, -⟩, hb⟩ := Script.validate_isSuccess_iff.1 hsource
  have hunpacks := Program.unpacks_plain .packed (Script.validate source).count
    (Script.tokens source)
  have hp := Program.balanced_ofTokens hitems hb .packed (Script.validate source).count
  have hq := Program.balanced_ofTokens hitems hb .plain (Script.validate source).count
  refine ⟨_, _, Program.compile_of_isSuccess hsource .packed,
    Program.compile_of_isSuccess hsource .plain, ?_, ?_,
    Program.functionCount_ofTokens .packed _ _, ?_⟩
  all_goals rw [Program.operatorsBefore_ofTokens]
  · intro k x hx hbracket
    exact ⟨hunpacks.opcode_one hx (Operator.isRepeatable_of_isSimple hbracket),
      hunpacks.exists_partner hp hx hbracket⟩
  · intro i y hy hbracket
    obtain ⟨k, hk, hi⟩ := hunpacks.cover_one hy (Operator.isRepeatable_of_isSimple hbracket)
    exact ⟨k, (Array.getElem?_eq_some_iff.1 hk).1, hi⟩
  · intro k x hx ho
    exact hunpacks.exists_isReset? hp hq.toCoherent hx ho

/-- A loop in front of which operators are merged, one of which the body is
merged, and one that is `[-]` in the body of a function. -/
theorem packing_commutes_with_matching_in_body :
    (Script.validate "++[--](>>[-])").isSuccess
      ∧ ∃ p q, Program.compile .packed "++[--](>>[-])" = .ok p
        ∧ Program.compile .plain "++[--](>>[-])" = .ok q
        ∧ p.partners = #[0, 3, 0, 1, 9, 0, 8, 0, 6, 4]
        ∧ p.operatorsBefore 4 = 6 ∧ p.operatorsBefore 9 = 12 ∧ q.partners[6]? = some 12
        ∧ p.isReset? none 6 = some true ∧ p.operatorsBefore 6 = 9 ∧ q.isReset? none 9 = some true
        ∧ p.isReset? none 1 = some false ∧ p.operatorsBefore 1 = 2
        ∧ q.isReset? none 2 = some false := by
  have hsource : (Script.validate "++[--](>>[-])").isSuccess := by decide
  obtain ⟨p, q, hp, hq, hbrackets, -, -, hresets⟩ := packing_commutes_with_matching _ hsource
  have hcompile : (Program.compile .packed "++[--](>>[-])").toOption.map
      (fun p => (p.opcodes, p.partners, p.isReset? none 6, p.isReset? none 1))
      = some (#[⟨.inc, 2⟩, .one .loopOpen, ⟨.dec, 2⟩, .one .loopClose, .one .bodyOpen,
        ⟨.right, 2⟩, .one .loopOpen, .one .dec, .one .loopClose, .one .bodyClose],
        #[0, 3, 0, 1, 9, 0, 8, 0, 6, 4], some true, some false) := by
    decide +kernel
  rw [hp] at hcompile
  obtain ⟨hopcodes, hcompile⟩ := Prod.mk.inj (Option.some.inj hcompile)
  obtain ⟨hpartners, hcompile⟩ := Prod.mk.inj hcompile
  obtain ⟨hinner, houter⟩ := Prod.mk.inj hcompile
  have hbefore : p.operatorsBefore = fun k => Opcode.total
      ([⟨.inc, 2⟩, .one .loopOpen, ⟨.dec, 2⟩, .one .loopClose, .one .bodyOpen, ⟨.right, 2⟩,
        .one .loopOpen, .one .dec, .one .loopClose, .one .bodyClose].take k) := by
    funext k
    rw [Program.operatorsBefore, hopcodes]
  rw [hbefore] at hbrackets hresets
  obtain ⟨-, j, hj, -, hplain⟩ := hbrackets 4 (.one .bodyOpen) (by rw [hopcodes]; rfl) rfl
  rw [hpartners] at hj
  cases hj
  obtain ⟨b, hb, hinner'⟩ := hresets 6 (.one .loopOpen) (by rw [hopcodes]; rfl) rfl
  obtain ⟨c, hc, houter'⟩ := hresets 1 (.one .loopOpen) (by rw [hopcodes]; rfl) rfl
  rw [hinner] at hb
  cases hb
  rw [houter] at hc
  cases hc
  refine ⟨hsource, p, q, hp, hq, hpartners, ?_⟩
  rw [hbefore]
  exact ⟨rfl, rfl, hplain, hinner, rfl, hinner', houter, rfl, houter'⟩

end TapeMachine
