/-
  TapeMachine.Proofs.Balance
  ──────────────────────────
  **THE BRACKETS OF A SCRIPT THAT PASSES THE CHECK.**

  Partners name each other in every compiled program, but a bracket of a
  stream that is not balanced may have none.  In a script that passes the
  check every bracket has one: `Program.Balanced`, read off the tree that
  stands in the program (`Block.At.pair`, an induction on the tree).
-/
import TapeMachine.Proofs.Grammar
import TapeMachine.Proofs.Partners

namespace TapeMachine

/-- The closing bracket and the closing parenthesis. -/
def Operator.isCloser : Operator → Bool
  | loopClose | bodyClose => true
  | _ => false

theorem Operator.isSimple_iff (o : Operator) :
    o.isSimple ↔ o.closer? = none ∧ o.isCloser = false := by
  cases o <;> decide

namespace Program

/-- The brackets at `i` and `j` belong together, the opening one first. -/
def Pair (p : Program) (i j : Nat) : Prop :=
  i < j ∧ p.partners[i]? = some j ∧ p.partners[j]? = some i

/-- Every bracket of the program has its partner, and every opcode its
place in the text. -/
structure Balanced (p : Program) : Prop extends p.Coherent where
  opened : ∀ {i : Nat} {x : Opcode}, p.opcodes[i]? = some x → x.operator.closer?.isSome →
    ∃ j, p.Pair i j
  closed : ∀ {i : Nat} {x : Opcode}, p.opcodes[i]? = some x → x.operator.isCloser →
    ∃ j, p.Pair j i
  offsets_size : p.offsets.size = p.size

end Program

/-- Every bracket of a tree that stands in a program has its partner. -/
theorem Block.At.pair {p : Program} {b : Block} (hb : b.IsItems) : ∀ {i k : Nat} {x : Opcode},
    b.At p i → i ≤ k → k < i + b.length → p.opcodes[k]? = some x →
      (x.operator.closer?.isSome → ∃ j, p.Pair k j) ∧ (x.operator.isCloser → ∃ j, p.Pair j k) := by
  -- an opening bracket at `i` and its partner at `j`, seen from either end
  have hopener : ∀ {i j : Nat} {o : Operator} {x : Opcode}, o.isCloser = false → i < j →
      p.opcodes[i]? = some (.one o) → p.partners[i]? = some j → p.partners[j]? = some i →
      p.opcodes[i]? = some x →
      (x.operator.closer?.isSome → ∃ j, p.Pair i j) ∧ (x.operator.isCloser → ∃ j, p.Pair j i) := by
    intro i j o x ho hij hop hpartner hback hx
    rw [hop] at hx
    cases hx
    refine ⟨fun _ => ⟨j, hij, hpartner, hback⟩, fun h => ?_⟩
    rw [show (Opcode.one o).operator.isCloser = false from ho] at h
    cases h
  have hcloser : ∀ {i j : Nat} {o : Operator} {x : Opcode}, o.closer? = none → i < j →
      p.opcodes[j]? = some (.one o) → p.partners[i]? = some j → p.partners[j]? = some i →
      p.opcodes[j]? = some x →
      (x.operator.closer?.isSome → ∃ k, p.Pair j k) ∧ (x.operator.isCloser → ∃ k, p.Pair k j) := by
    intro i j o x ho hij hop hpartner hback hx
    rw [hop] at hx
    cases hx
    refine ⟨fun h => ?_, fun _ => ⟨i, hij, hpartner, hback⟩⟩
    rw [show (Opcode.one o).operator.closer? = none from ho] at h
    cases h
  induction b with
  | done =>
    intro i k x _ hle hlt
    rw [length_done] at hlt
    omega
  | simple o next ih =>
    intro i k x hat hle hlt hx
    rw [length_simple] at hlt
    obtain ⟨hsimple, hnext⟩ := hb
    by_cases hk : k = i
    · subst hk
      rw [hat.1] at hx
      cases hx
      obtain ⟨ho, hc⟩ := (Operator.isSimple_iff o).1 hsimple
      simp only [Opcode.one, ho, hc]
      exact ⟨fun h => (by cases h), fun h => (by cases h)⟩
    · exact ih hnext hat.2 (by omega) (by omega) hx
  | loop body next ihb ih =>
    intro i k x hat hle hlt hx
    rw [length_loop] at hlt
    obtain ⟨⟨hop, hpartner⟩, ⟨hop', hback⟩, hbody, hnext⟩ := hat
    by_cases hk : k = i
    · subst hk
      exact hopener rfl (by omega) hop hpartner hback hx
    by_cases hk' : k = i + 1 + body.length
    · subst hk'
      exact hcloser rfl (by omega) hop' hpartner hback hx
    by_cases hin : k < i + 1 + body.length
    · exact ihb hb.1.isItems hbody (by omega) hin hx
    · exact ih hb.2 hnext (by omega) (by omega) hx
  | define body next ihb ih =>
    intro i k x hat hle hlt hx
    rw [length_define] at hlt
    obtain ⟨⟨hop, hpartner⟩, ⟨hop', hback⟩, hbody, hnext⟩ := hat
    by_cases hk : k = i
    · subst hk
      exact hopener rfl (by omega) hop hpartner hback hx
    by_cases hk' : k = i + 1 + body.length
    · subst hk'
      exact hcloser rfl (by omega) hop' hpartner hback hx
    by_cases hin : k < i + 1 + body.length
    · exact ihb hb.1.1.isItems hbody (by omega) hin hx
    · exact ih hb.2 hnext (by omega) (by omega) hx

namespace Program

theorem offsets_size_ofTokens (g : Granularity) (n : Nat) (ts : List Token) :
    (ofTokens g n ts).offsets.size = (ofTokens g n ts).size := by
  simp [ofTokens, Program.size]

/-- Compiled plain, a tree has one opcode for each operator. -/
theorem size_plain {b : Block} {ts : List Token} (h : b.operators = ts.map (·.operator)) (n : Nat) :
    (ofTokens .plain n ts).size = b.length := by
  rw [Block.length, h]
  simp [ofTokens, Program.size, Instruction.pack_plain]

/-- **A tree compiled plain is balanced.** -/
theorem balanced_plain {b : Block} (hb : b.IsItems) {ts : List Token}
    (h : b.operators = ts.map (·.operator)) (n : Nat) : (ofTokens .plain n ts).Balanced := by
  have hat := Block.at_plain hb h n
  have hlt : ∀ {i : Nat} {x : Opcode}, (ofTokens .plain n ts).opcodes[i]? = some x →
      i < 0 + b.length := by
    intro i x hx
    rw [Nat.zero_add, ← size_plain h n]
    exact (Array.getElem?_eq_some_iff.1 hx).1
  exact {
    toCoherent := coherent_ofTokens .plain n ts
    opened := fun hx ho => (hat.pair hb (Nat.zero_le _) (hlt hx) hx).1 ho
    closed := fun hx ho => (hat.pair hb (Nat.zero_le _) (hlt hx) hx).2 ho
    offsets_size := offsets_size_ofTokens .plain n ts }

/-- A script that passes the check compiles, to the program of its tokens. -/
theorem compile_of_isSuccess {source : String} (h : (Script.validate source).isSuccess)
    (g : Granularity) : compile g source
      = .ok (ofTokens g (Script.validate source).count (Script.tokens source)) := by
  rw [compile, compileAs, if_pos h]

end Program

end TapeMachine
