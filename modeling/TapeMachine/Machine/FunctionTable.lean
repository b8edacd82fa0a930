/-
  TapeMachine.Machine.FunctionTable
  ─────────────────────────────────
  The functions defined so far.  A key has a function once a nonempty body
  is bound to it; from then on it cannot be defined again.  An empty body is
  recorded like any other, but leaves its key free.

  Main statements: what a definition does to the look-up (`get?_define?`)
  and to the record (`entries_define?`).
-/
import Std.Data.TreeMap

namespace TapeMachine

/-! ## §1. Spans of opcodes. -/

/-- The opcodes from `start` up to `stop`. -/
structure Span where
  start : Nat
  stop : Nat
  deriving Repr, DecidableEq

namespace Span

/-- Whether the two ends coincide. -/
def isEmpty (s : Span) : Bool := s.start == s.stop

/-- The number of opcodes, if the ends are in order. -/
def length? (s : Span) : Option Nat :=
  if s.start ≤ s.stop then some (s.stop - s.start) else none

end Span

/-! ## §2. The table. -/

/-- A definition on record: the key, and the index of its `(`. -/
structure FunctionEntry where
  key : Nat
  declaration : Nat
  deriving Repr, DecidableEq

/-- The definitions on record, newest first, and the body last bound to
each key. -/
structure FunctionTable where
  newest : List FunctionEntry
  bodies : Std.TreeMap Nat Span

namespace FunctionTable

/-- No definitions. -/
def empty : FunctionTable := ⟨[], ∅⟩

/-- The definitions on record, in the order in which they were made. -/
def entries (f : FunctionTable) : List FunctionEntry := f.newest.reverse

/-- The body of the function with this key. -/
def get? (f : FunctionTable) (key : Nat) : Option Span :=
  f.bodies[key]?.filter fun body => !body.isEmpty

/-- Binds a body to a key, unless the key has a function. -/
def define? (f : FunctionTable) (e : FunctionEntry) (body : Span) : Option FunctionTable :=
  match f.get? e.key with
  | some _ => none
  | none => some ⟨e :: f.newest, f.bodies.insert e.key body⟩

/-! ## §3. What a definition changes. -/

@[simp] theorem entries_empty : empty.entries = [] := rfl

@[simp] theorem get?_empty (key : Nat) : empty.get? key = none := by
  simp [empty, get?]

/-- A key can be defined exactly when it has no function. -/
theorem define?_isSome (f : FunctionTable) (e : FunctionEntry) (body : Span) :
    (f.define? e body).isSome = (f.get? e.key).isNone := by
  unfold define?
  cases f.get? e.key <;> rfl

/-- A definition is recorded after all earlier ones. -/
theorem entries_define? {f g : FunctionTable} {e : FunctionEntry} {body : Span}
    (h : f.define? e body = some g) : g.entries = f.entries ++ [e] := by
  unfold define? at h
  split at h
  · cases h
  · cases h
    simp [entries]

/-- A definition binds its own key, if the body is not empty, and leaves all
others as they were. -/
theorem get?_define? {f g : FunctionTable} {e : FunctionEntry} {body : Span}
    (h : f.define? e body = some g) (key : Nat) :
    g.get? key = if key = e.key then (some body).filter (fun b => !b.isEmpty) else f.get? key := by
  unfold define? at h
  split at h
  · cases h
  · cases h
    simp only [get?, Std.TreeMap.getElem?_insert]
    by_cases hk : key = e.key
    · simp [hk]
    · rw [if_neg hk, if_neg]
      simpa [Nat.compare_eq_eq] using fun h => hk h.symm

end FunctionTable

end TapeMachine
