/-
  TapeMachine.Console.Program
  ───────────────────────────
  **THE COMMAND-LINE PROGRAM.**

  Reads a script and does one of four things with it:

      --tokens     lists its operators, valid or not
      --bc         prints the compiled program
      --break      runs it with pauses and prints a line for each
      otherwise    runs it to the end

  and after a run reports and, if asked to, saves the tape.  The status is 0
  if the script ran to its end, 1 if anything went wrong, 2 if the command
  line was not understood.  A request for help (`-h`, `--help`) is among the
  command lines that are not understood: it ends with status 2 and prints
  nothing.
-/
import TapeMachine.Console.Dialogue
import TapeMachine.Console.Options
import TapeMachine.Program.Disassembly
import TapeMachine.Report.Text
import TapeMachine.Script.Listing
import TapeMachine.Tape.Snapshot

namespace TapeMachine.Console

/-! ## §1. Endings. -/

/-- Gives up with an entry in the log. -/
def giveUp (text : String) : Dialogue := .log (.error text) (.exit 1)

/-- Gives up because a script cannot be started. -/
def refuse (e : Error) : Dialogue := .complain s!"Error: {e.message}\n" (.exit 1)

/-- The wording for a file that cannot be read. -/
def unreadable (path reason : String) : String := s!"failed to read '{path}': {reason}"

/-- The wording for a file that cannot be written. -/
def unwritable (path reason : String) : String := s!"failed to write '{path}': {reason}"

/-- Exits after a run. -/
def exitAfter (r : Report) : Dialogue := .exit (if r.exitCode.isSuccess then 0 else 1)

/-- Saves the tape a run has left, if a path is given. -/
def saveTape (saveTo : Option String) (r : Report) : Dialogue :=
  match saveTo with
  | none => exitAfter r
  | some path =>
    .writeFile path r.tape.save fun
      | none => exitAfter r
      | some e => giveUp (unwritable path e.message)

/-- Prints the result of a run. -/
def conclude (o : Options) : Option Report → Dialogue
  | none => .exit brokenStatus
  | some r =>
    let rest := Dialogue.log (.finished r) (.complain (r.text ++ "\n") (saveTape o.saveTo r))
    if r.output.isEmpty then rest else .print (r.output ++ "\n") rest

/-! ## §2. Running to the end. -/

/-- Runs a script from a tape. -/
def runOn (o : Options) (source : String) (tape : Tape) : Dialogue :=
  match Job.load .packed source tape o.input Output.standardLimit with
  | .error e => refuse e
  | .ok job =>
    .log (.compiled job.program) <|
      .call ⟨job.program, true, o.budgetMs, ⟨job.machine, none, 0⟩⟩ fun h =>
        .logAll (h.events.map .ofEvent) <|
          conclude o ({ job with machine := h.run.machine }.report? h.code h.took)

/-- Runs a script from the tape that is loaded, or else from a blank one. -/
def runScript (o : Options) (source : String) : Dialogue :=
  match o.loadFrom with
  | none =>
    match Tape.create o.tapeSize o.mode with
    | .error e => refuse e
    | .ok tape => runOn o source tape
  | some path =>
    let load : Dialogue := .readFile path fun
      | .error e => giveUp (unreadable path e.message)
      | .ok bytes =>
        match Tape.load bytes with
        | .error e => refuse e
        | .ok tape => runOn o source tape
    if o.tapeSize = Tape.standardSize ∧ o.mode = default then load
    else .log (.warning "--memory and --mode are ignored when --load-state is given") load

/-! ## §3. Running with pauses. -/

/-- The lines printed at a pause. -/
def pauseText (r : Report) : String :=
  match r.halting with
  | none => ""
  | some h =>
    s!"-- breakpoint at offset {h.offset} ('{h.operator}'), {r.operations} operations so far\n" ++
      s!"   pointer {r.tape.pointer} = {r.tape.current}\n"

/-- Takes a session through up to `pauses` calls.  Each pause uses up a
breakpoint, so one call more than there are breakpoints is enough. -/
def debugSession (o : Options) : (pauses : Nat) → Session → Dialogue
  | 0, _ => .exit brokenStatus
  | pauses + 1, s =>
    .call ⟨s.job.program, false, o.budgetMs, ⟨s.job.machine, some s.marks, 0⟩⟩ fun h =>
      .logAll (h.events.map .ofEvent) <|
        match (s.settle h.code h.run h.took).withReport? with
        | none => .exit brokenStatus
        | some (s', r) =>
          if r.exitCode.isBreakpoint then .print (pauseText r) (debugSession o pauses s')
          else conclude o (some r)

/-- Runs a script with pauses. -/
def debugScript (o : Options) (source : String) : Dialogue :=
  let config : Config := { tapeSize := o.tapeSize, mode := o.mode }
  let start : Dialogue :=
    match Program.compile .plain source with
    | .error e => refuse e
    | .ok program =>
      .log (.compiled program) <|
        match Session.ofProgram config source program o.breakpoints o.input with
        | .error e => refuse e
        | .ok s => .log (.sessionCreated s) (debugSession o (s.marks.size + 1) s)
  if o.loadFrom.isSome then
    .log (.warning "--load-state is ignored when breakpoints are set") start
  else start

/-! ## §4. The program. -/

/-- Prints the compiled program. -/
def printProgram (source : String) : Dialogue :=
  match Program.compile .packed source with
  | .error e => .complain s!"Compile error: {e.message}\n" (.exit 1)
  | .ok p => .log (.compiled p) (.print p.disassembly (.exit 0))

/-- Lists the operators. -/
def printTokens (plainText : Bool) (source : String) : Dialogue :=
  let layout : Script.Listing := ⟨!plainText, false⟩
  .print (layout.render (Script.tokens source)) (.exit 0)

/-- Does what is asked for with a script. -/
def handle (o : Options) (source : String) : Dialogue :=
  if o.tokens then printTokens o.plainText source
  else
    let report := Script.validate source
    if !report.isSuccess then .complain s!"Syntax error: {report.message}\n" (.exit 1)
    else if o.bytecode then printProgram source
    else if o.breakpoints.isEmpty then runScript o source
    else debugScript o source

/-- The program, given the words of its command line. -/
def program (words : List String) : Dialogue :=
  match Options.parse? words with
  | none => .exit 2
  | some o =>
    .readFile o.file fun
      | .error e => giveUp (unreadable o.file e.message)
      | .ok bytes =>
        match Wire.textOfBytes? bytes with
        | none => giveUp (unreadable o.file "stream did not contain valid UTF-8")
        | some source => handle o source

/-- Plays the program in a folder, under a setting of the log filter. -/
def playProgram (words : List String) (setting : Option String) (folder : Folder) (fuel : Nat) :
    Option Transcript :=
  match Filter.ofSetting? setting with
  | none => some { status := brokenStatus }
  | some filter => (program words).play ⟨folder, filter⟩ fuel {}

end TapeMachine.Console
