import Interpose.CommandLine.Command
import Interpose.Pass
import Interpose.Terminal
import Interpose.Unit.Listing

/-!
Running a command on a tree of files: what it prints and logs, and how it ends.
-/

namespace Interpose.CommandLine

def programName : String := "callweave"

def versionLine : String := programName ++ " 0.1.0\n"

/-- The exit code of a pass that asks for a full rebuild. -/
def rebuildCode : Nat := 3

def failureCode : Nat := 1

def usageCode : Nat := 2

/-- What the program was doing when a fault stopped it. -/
structure Failed where
  doing : String
  cause : Fault
  deriving Repr

namespace Failed

/-- The messages of a fault and of those that it stems from. -/
def chain : Fault → List String
  | .weaver name unit cause => (Fault.weaver name unit cause).message :: chain cause
  | e => [e.message]

def message (f : Failed) : String := ": ".intercalate (f.doing :: chain f.cause)

end Failed

/-- The end of a run. -/
structure Finished where
  code : Nat
  files : Files
  stdout : String
  log : Log
  error : Option Failed

def succeed (fs : Files) (stdout : String) (log : Log) : Finished := ⟨0, fs, stdout, log, none⟩

def fail (fs : Files) (log : Log) (doing : String) (cause : Fault) : Finished :=
  ⟨failureCode, fs, "", log, some ⟨doing, cause⟩⟩

/-! ### Commands -/

/-- The settings file: the one asked for, or that of the manifest, or the default one beside it. -/
def settingsPath (manifestPath : Path) (m : Manifest) (asked : Option Path) : Path :=
  match asked, m.settingsPath with
  | some p, _ => p
  | none, some p => p
  | none, none => (Manifest.baseOf manifestPath).join ⟨ExclusionSettings.fileName⟩

def loadManifest (fs : Files) (p : Path) (f : Manifest → Finished) : Finished :=
  match fs.readManifest p with
  | .error e => fail fs [] ("Failed to load manifest " ++ p.text) e
  | .ok m => f m

/-- The state after units were compiled, and what was logged. -/
def reportCompiled (s : PassState) (log : Log) : List Path → PassState × Log
  | [] => (s, log)
  | p :: ps => reportCompiled (s.addCompiled p) (log ++ s.compiledLog p) ps

def outcomeCode : PassOutcome → Nat
  | .rebuildRequested _ => rebuildCode
  | _ => 0

def outcomeEvent : PassOutcome → Event
  | .completed report =>
    .passDone report.written.length report.unchanged.length report.skipped.length
  | .rebuildRequested reason => .rebuildRequested reason
  | .skipped reason => .passSkipped reason

def runWeave (fs : Files) (manifestPath : Path) (dirty : List Path) (release : Bool)
    (settings : Option Path) (weaverUnit : String) : Finished :=
  loadManifest fs manifestPath fun m =>
    let config : PassConfig :=
      ⟨.ofOptions m.capture, weaverUnit, settingsPath manifestPath m settings⟩
    let host := { Host.ofManifest m with releaseBuild := m.releaseBuild || release }
    let (state, log) := reportCompiled PassState.initial.start []
      (dirty.map (Manifest.baseOf manifestPath).join)
    let result := config.finish host fs state
    let log := log ++ result.run.log
    match result.run.outcome with
    | .error e => fail result.files log "Weaving pass failed" e
    | .ok outcome =>
      ⟨outcomeCode outcome, result.files, "", log ++ [⟨.info, outcomeEvent outcome⟩], none⟩

def runDump (fs : Files) (p : Path) : Finished :=
  match fs.readUnit p with
  | .error e => fail fs [] ("Failed to load unit " ++ p.text) e
  | .ok u => succeed fs u.listing []

/-- The excluded names, each on a line. -/
def nameLines (s : ExclusionSettings) : String := String.join (s.excludedUnits.map (· ++ "\n"))

def runSettings (fs : Files) (manifestPath : Path) (asked : Option Path) (action : SettingsAction) :
    Finished :=
  loadManifest fs manifestPath fun m =>
    let p := settingsPath manifestPath m asked
    let (log, current) := ExclusionSettings.load fs p m.units
    match action with
    | .show => succeed fs (nameLines current) log
    | .reset =>
      let defaults := ExclusionSettings.defaultsFor m.units
      match defaults.save fs p with
      | (saved, .error e) => fail saved log ("Failed to save settings " ++ p.text) e
      | (saved, .ok ()) => succeed saved (nameLines defaults) (log ++ [⟨.info, .settingsReset p⟩])

/-- Runs a command. -/
def Command.run (fs : Files) : Command → Finished
  | .weave manifest dirty release asked weaverUnit =>
    runWeave fs manifest dirty release asked (weaverUnit.getD defaultWeaverUnit)
  | .dump unit => runDump fs unit
  | .settings manifest asked action => runSettings fs manifest asked action
  | .version => succeed fs versionLine []

/-- The entries that are shown: all of a verbose run, and otherwise those above debug level. -/
def shown (verbose : Bool) (log : Log) : Log := log.filter fun e => verbose || e.level != .debug

/-- What stands in front of every line of a logged message but the first. -/
def lineIndent : List Char := [' ', ' ', ' ', ' ']

/-- A text with its lines after the first indented. -/
def indentLines (s : String) : String :=
  String.ofList (s.toList.flatMap fun c => if c = '\n' then c :: lineIndent else [c])

/-- What the program writes for what it logs. The indentation and the line break behind the message
come first: a control sequence that takes in a line break takes in the indentation behind it too,
and one that does not end takes in the end of the line. -/
def eventLines (e : Event) : String := Terminal.plain (indentLines e.message ++ "\n")

/-- What a run writes beside its output: its log, with a head for every entry, and then the error
that it ended with. -/
def Finished.stderr (head : LogLevel → String) (f : Finished) : String :=
  String.join (f.log.map fun e => head e.level ++ eventLines e.event) ++
    match f.error with
    | none => ""
    | some e => "Error: " ++ e.message ++ "\n"

def usageText : String :=
  "Usage: callweave [OPTIONS] <COMMAND>\n\nCommands:\n" ++
  "  weave     Run one weaving pass over a project\n" ++
  "  dump      Print a compiled unit in readable form\n" ++
  "  settings  Inspect or reset the exclusion settings\n" ++
  "  version   Print version information\n" ++
  "  help      Print this message or the help of the given subcommand(s)\n"

/-- What a run of the program comes to: an end, or arguments that make no sense. -/
inductive Response where
  | finished (f : Finished)
  | misused (message : String)

/-- Runs the program with a list of arguments. -/
def respond (fs : Files) (args : List String) : Response :=
  match read args with
  | .error (.usage message) => .misused message
  | .error .help => .finished (succeed fs usageText [])
  | .error .version => .finished (succeed fs versionLine [])
  | .ok i =>
    let f := i.command.run fs
    .finished { f with log := shown i.verbose f.log }

end Interpose.CommandLine
