/-
  TapeMachine.Proofs.Logging
  ──────────────────────────
  **A JOURNAL THAT NOBODY READS NEED NOT BE KEPT.**

  The journal of a call is used for one thing: its events become entries of
  the log, at the levels `debug` and `trace`.  If no directive of the filter
  reaches `debug`, none of them is shown, so the calls may as well be made
  without a journal.

    • `Filter.shows_ofEvent_eq_false` — such a filter shows no event,
    • `Dialogue.unjournaled` — the same plan, whose calls give no events,
    • `play_unjournaled_program` — the command-line program prints, writes and
      exits the same either way.
-/
import TapeMachine.Console.Program

namespace TapeMachine.Console

open Wire (Bytes)

/-! ## §1. Filters that show no event. -/

/-- A filter that reaches a level reaches every more urgent one. -/
theorem Filter.reaches_of_rank_le {f : Filter} {a b : Level} (hle : a.rank ≤ b.rank)
    (h : f.reaches b = true) : f.reaches a = true := by
  obtain ⟨d, hd, hrank⟩ := List.any_eq_true.1 h
  refine List.any_eq_true.2 ⟨d, hd, ?_⟩
  have hb : b.rank ≤ d.rank := of_decide_eq_true hrank
  exact decide_eq_true (Nat.le_trans hle hb)

/-- Events are entries of the two least urgent levels. -/
theorem Entry.debug_rank_le_ofEvent (e : Event) :
    Level.debug.rank ≤ (Entry.ofEvent e).level.rank := by
  cases e with
  | entered | returned => exact Nat.le_succ 4
  | completed | halted => exact Nat.le_refl 4

/-- **Events are not shown** unless the filter reaches `debug`. -/
theorem Filter.shows_ofEvent_eq_false {f : Filter} (h : f.reaches .debug = false) (e : Event) :
    f.shows (.ofEvent e) = false := by
  rw [Bool.eq_false_iff]
  intro hshows
  have hreaches := reaches_of_rank_le (Entry.debug_rank_le_ofEvent e) (reaches_of_shows hshows)
  rw [h] at hreaches
  cases hreaches

-- without a setting nothing below `warn` is shown
example : Filter.standard.reaches .debug = false := by decide

/-! ## §2. Plans without a journal. -/

namespace Dialogue

/-- The plan in which every call returns an empty journal. -/
def unjournaled : Dialogue → Dialogue
  | .exit status => .exit status
  | .print text next => .print text next.unjournaled
  | .complain text next => .complain text next.unjournaled
  | .log entry next => .log entry next.unjournaled
  | .readFile path next => .readFile path fun result => (next result).unjournaled
  | .writeFile path bytes next => .writeFile path bytes fun result => (next result).unjournaled
  | .call c next => .call c fun h => (next { h with events := [] }).unjournaled

/-- Leaving out the journals changes nothing, from any transcript on. -/
def Discreet (w : World) (fuel : Nat) (d : Dialogue) : Prop :=
  ∀ s, d.unjournaled.play w fuel s = d.play w fuel s

variable {w : World} {fuel : Nat} {d : Dialogue}

/-- Entries that are not shown leave nothing. -/
theorem play_logAll_of_hidden {entries : List Entry}
    (h : ∀ e ∈ entries, w.filter.shows e = false) (s : Transcript) :
    (logAll entries d).play w fuel s = d.play w fuel s := by
  induction entries with
  | nil => rfl
  | cons e rest ih =>
    have hfirst : w.filter.shows e = false := h e List.mem_cons_self
    show (Dialogue.log e (logAll rest d)).play w fuel s = _
    rw [play, hfirst]
    exact ih fun e he => h e (List.mem_cons_of_mem _ he)

theorem discreet_exit (status : Nat) : (exit status).Discreet w fuel := fun _ => rfl

namespace Discreet

theorem print (h : d.Discreet w fuel) (text : String) :
    (Dialogue.print text d).Discreet w fuel :=
  fun _ => h _

theorem complain (h : d.Discreet w fuel) (text : String) :
    (Dialogue.complain text d).Discreet w fuel :=
  fun _ => h _

theorem log (h : d.Discreet w fuel) (entry : Entry) : (Dialogue.log entry d).Discreet w fuel := by
  intro s
  rw [unjournaled, play, play, h, h]

theorem readFile {path : String} {next : Except FileError Bytes → Dialogue}
    (h : ∀ result, (next result).Discreet w fuel) :
    (Dialogue.readFile path next).Discreet w fuel :=
  fun _ => h _ _

theorem writeFile {path : String} {bytes : Bytes} {next : Option FileError → Dialogue}
    (h : ∀ result, (next result).Discreet w fuel) :
    (Dialogue.writeFile path bytes next).Discreet w fuel := by
  intro s
  rw [unjournaled, play, play]
  cases w.folder.target path with
  | error e => exact h _ _
  | ok destination => exact h _ _

/-- **A call whose events are logged**, and used for nothing else. -/
theorem call {c : Call} {rest : Halt → Dialogue} (hfilter : w.filter.reaches .debug = false)
    (hrest : ∀ halt, rest { halt with events := [] } = rest halt)
    (h : ∀ halt, (rest halt).Discreet w fuel) :
    (Dialogue.call c fun halt =>
      logAll (halt.events.map .ofEvent) (rest halt)).Discreet w fuel := by
  intro s
  rw [unjournaled, play, play]
  obtain ⟨outcome, events⟩ := c.play fuel
  cases outcome with
  | stuck => rfl
  | unfinished r => rfl
  | halted code run =>
    have hhidden : ∀ e ∈ events.map Entry.ofEvent, w.filter.shows e = false := by
      intro e he
      obtain ⟨event, -, rfl⟩ := List.mem_map.1 he
      exact Filter.shows_ofEvent_eq_false hfilter event
    show (rest ⟨code, run, [], {}⟩).unjournaled.play w fuel s
      = (logAll (events.map .ofEvent) (rest ⟨code, run, events, {}⟩)).play w fuel s
    rw [play_logAll_of_hidden hhidden, h, ← hrest ⟨code, run, events, {}⟩]

end Discreet

end Dialogue

/-! ## §3. The program. -/

open Dialogue

section Parts

variable {w : World} {fuel : Nat}

theorem discreet_giveUp (text : String) : (giveUp text).Discreet w fuel :=
  (discreet_exit 1).log _

theorem discreet_refuse (e : Error) : (refuse e).Discreet w fuel :=
  (discreet_exit 1).complain _

theorem discreet_conclude (o : Options) (r? : Option Report) :
    (conclude o r?).Discreet w fuel := by
  cases r? with
  | none => exact discreet_exit _
  | some r =>
    have hsave : (saveTape o.saveTo r).Discreet w fuel := by
      unfold saveTape
      cases o.saveTo with
      | none => exact discreet_exit _
      | some path =>
        refine .writeFile fun result => ?_
        cases result with
        | none => exact discreet_exit _
        | some e => exact discreet_giveUp _
    have hrest := (hsave.complain (r.text ++ "\n")).log (.finished r)
    unfold conclude
    dsimp only
    split
    · exact hrest
    · exact hrest.print _

variable (hfilter : w.filter.reaches .debug = false)
include hfilter

theorem discreet_runOn (o : Options) (source : String) (tape : Tape) :
    (runOn o source tape).Discreet w fuel := by
  unfold runOn
  cases Job.load .packed source tape o.input Output.standardLimit with
  | error e => exact discreet_refuse e
  | ok job =>
    refine .log (.call hfilter (fun _ => rfl) fun halt => ?_) _
    exact discreet_conclude o _

theorem discreet_runScript (o : Options) (source : String) :
    (runScript o source).Discreet w fuel := by
  unfold runScript
  split
  · cases Tape.create o.tapeSize o.mode with
    | error e => exact discreet_refuse e
    | ok tape => exact discreet_runOn hfilter o source tape
  · next path =>
    extract_lets load
    have hload : load.Discreet w fuel := by
      refine .readFile fun result => ?_
      cases result with
      | error e => exact discreet_giveUp _
      | ok bytes =>
        dsimp only
        cases Tape.load bytes with
        | error e => exact discreet_refuse e
        | ok tape => exact discreet_runOn hfilter o source tape
    split
    · exact hload
    · exact hload.log _

/-- A session, by induction on the pauses it may still make. -/
theorem discreet_debugSession (o : Options) (pauses : Nat) :
    ∀ s : Session, (debugSession o pauses s).Discreet w fuel := by
  induction pauses with
  | zero =>
    intro s
    exact discreet_exit _
  | succ pauses ih =>
    intro s
    refine .call hfilter (fun _ => rfl) fun halt => ?_
    cases (s.settle halt.code halt.run halt.took).withReport? with
    | none => exact discreet_exit _
    | some settled =>
      obtain ⟨s', r⟩ := settled
      dsimp only
      split
      · exact (ih s').print _
      · exact discreet_conclude o _

theorem discreet_debugScript (o : Options) (source : String) :
    (debugScript o source).Discreet w fuel := by
  unfold debugScript
  extract_lets config start
  have hstart : start.Discreet w fuel := by
    unfold start
    cases Program.compile .plain source with
    | error e => exact discreet_refuse e
    | ok program =>
      refine .log ?_ _
      cases Session.ofProgram config source program o.breakpoints o.input with
      | error e => exact discreet_refuse e
      | ok s => exact (discreet_debugSession hfilter o _ s).log _
  split
  · exact hstart.log _
  · exact hstart

theorem discreet_handle (o : Options) (source : String) : (handle o source).Discreet w fuel := by
  unfold handle
  dsimp only
  split
  · exact (discreet_exit _).print _
  split
  · exact (discreet_exit _).complain _
  split
  · unfold printProgram
    cases Program.compile .packed source with
    | error e => exact (discreet_exit _).complain _
    | ok p => exact ((discreet_exit _).print _).log _
  split
  · exact discreet_runScript hfilter o source
  · exact discreet_debugScript hfilter o source

end Parts

/-- **The program without a journal.**  Under a filter that does not reach
`debug`, its calls need not keep one: texts, files and status are the same. -/
theorem play_unjournaled_program {w : World} (hfilter : w.filter.reaches .debug = false)
    (words : List String) (fuel : Nat) :
    (program words).unjournaled.play w fuel {} = (program words).play w fuel {} := by
  have hprogram : (program words).Discreet w fuel := by
    unfold program
    cases Options.parse? words with
    | none => exact discreet_exit _
    | some o =>
      refine .readFile fun result => ?_
      cases result with
      | error e => exact discreet_giveUp _
      | ok bytes =>
        dsimp only
        cases Wire.textOfBytes? bytes with
        | none => exact discreet_giveUp _
        | some source => exact discreet_handle hfilter o source
  exact hprogram {}

end TapeMachine.Console
