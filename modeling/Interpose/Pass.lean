import Interpose.Policy
import Interpose.Resolver
import Interpose.Weaver

/-!
Weaving passes over a project, driven by what the compiler reports.

A compilation starts, units are compiled, the compilation finishes; then a pass weaves the files of
the units that were compiled. When the weaver itself was compiled, or the project lists no unit yet,
the pass asks for a full rebuild first, once, and the next pass goes on.
-/

namespace Interpose

/-- The name of the unit that the weaver is compiled into, unless configured. -/
def defaultWeaverUnit : String := "Callweave.Editor"

inductive Phase where
  | idle
  | collecting
  deriving DecidableEq, Repr

/-- What is kept between the reports of the compiler. -/
structure PassState where
  phase : Phase
  /-- The output paths of the units compiled, each once; after a pass over all units, those of all
  units. -/
  dirty : List Path
  /-- A rebuild was asked for, and no pass has gone through since. -/
  forcedRebuild : Bool
  deriving Repr

structure PassConfig where
  weavers : WeaverList
  weaverUnit : String
  settingsPath : Path

structure PassReport where
  written : List Path
  unchanged : List Path
  skipped : List (Path × SkipReason)
  deriving Repr

inductive PassOutcome where
  | skipped (reason : PassSkip)
  | rebuildRequested (reason : RebuildReason)
  | completed (report : PassReport)
  deriving Repr

/-! ### Reports of the compiler -/

namespace PassState

def initial : PassState := ⟨.idle, [], false⟩

/-- A compilation starts: nothing is dirty yet. -/
def start (s : PassState) : PassState := { s with phase := .collecting, dirty := [] }

def addCompiled (s : PassState) (p : Path) : PassState :=
  { s with phase := .collecting, dirty := if s.dirty.contains p then s.dirty else s.dirty ++ [p] }

def compiledLog (s : PassState) (p : Path) : Log :=
  if s.phase = .collecting then [] else [⟨.warn, .unitOutsideCompilation p⟩]

def hasCompiled (s : PassState) (unit : String) : Bool := s.dirty.any (·.stem? == some unit)

end PassState

/-! ### References of a project -/

namespace Resolver

/-- Adds the directory that a referenced file lies in. -/
def addDirectoryOf (r : Resolver) (p : Path) : Resolver × Log :=
  match p.directory? with
  | some d => (r.addSearchPath d, [])
  | none => (r, [⟨.error, .directoryUnknown p⟩])

def addDirectories (unit : String) (r : Resolver) : List (Except String Path) → Resolver × Log
  | [] => (r, [])
  | .error name :: rest =>
    let (r, log) := r.addDirectories unit rest
    (r, ⟨.error, .unitReferenceUnknown name unit⟩ :: log)
  | .ok p :: rest =>
    let (r, log) := r.addDirectoryOf p
    let (r, later) := r.addDirectories unit rest
    (r, log ++ later)

/-- The files that a unit refers to: the outputs of project units, by name, and prebuilt units. -/
def referencedFiles (units : List UnitDescriptor) (u : UnitDescriptor) : List (Except String Path) :=
  u.unitReferences.map (fun name =>
    match units.find? (·.name == name) with
    | some v => .ok v.outputPath
    | none => .error name)
  ++ u.precompiledReferences.map .ok

/-- Adds the directories of all references of some units of a project. -/
def addUnits (units : List UnitDescriptor) (r : Resolver) : List UnitDescriptor → Resolver × Log
  | [] => (r, [])
  | u :: us =>
    let (r, log) := r.addDirectories u.name (referencedFiles units u)
    let (r, later) := r.addUnits units us
    (r, log ++ later)

/-- A resolver that looks where the references of the units of a project lie. -/
def ofUnits (units : List UnitDescriptor) : Resolver × Log := empty.addUnits units units

end Resolver

/-! ### Weaving the file of a unit -/

inductive UnitResult where
  | written
  | unchanged
  | skipped (reason : SkipReason)
  deriving DecidableEq, Repr

/-- The files and the resolver after a step of a pass. -/
structure OnFiles (α : Type) where
  files : Files
  resolver : Resolver
  run : Traced α

structure PassPlan where
  weavers : WeaverList
  units : List UnitDescriptor
  policy : Policy
  verbose : Bool

namespace PassPlan

def traceLevel (plan : PassPlan) : LogLevel := .trace plan.verbose

/-- Why the file at a path is not woven, with what is logged, or the unit that it holds and its
descriptor. -/
def unitAt (plan : PassPlan) (fs : Files) (p : Path) :
    Except (SkipReason × Log) (UnitDescriptor × CompiledUnit) :=
  if !fs.has p then .error (.fileMissing, [⟨.warn, .outputMissing p⟩])
  else
    match plan.units.find? (·.outputPath == p) with
    | none => .error (.unknownUnit, [⟨.warn, .outputUnknown p⟩])
    | some d =>
      match plan.policy.skipReason? d with
      | some reason => .error (reason, [⟨plan.traceLevel, .unitSkipped d.name reason⟩])
      | none =>
        match fs.readUnit p with
        | .error e => .error (.unreadable, [⟨.error, .unitUnreadable e⟩])
        | .ok u =>
          if Policy.weavesCompiled u then .ok (d, u)
          else .error (.marked, [⟨plan.traceLevel, .unitSkipped d.name .marked⟩])

/-- The hierarchy that a unit is woven in: what the weavers rely on, then the types that the unit
refers to, then its own. -/
def hierarchyFor (plan : PassPlan) (referenced : Hierarchy) (u : CompiledUnit) : Hierarchy :=
  ((plan.weavers.seed .empty).merge referenced).addUnit u

/-- Weaves the file at a path and writes it if the unit changed. -/
def weaveFile (plan : PassPlan) (fs : Files) (r : Resolver) (p : Path) : OnFiles UnitResult :=
  match plan.unitAt fs p with
  | .error (reason, log) => ⟨fs, r, ⟨log, .ok (.skipped reason)⟩⟩
  | .ok (d, u) =>
    let c := r.hierarchyFor fs u
    let woven := plan.weavers.weave ⟨plan.hierarchyFor c.hierarchy u, plan.verbose⟩ u
    let log := c.log ++ woven.run.log
    match woven.run.outcome with
    | .error e => ⟨fs, c.resolver, ⟨log ++ [⟨.error, .unitFailed e⟩], .error e⟩⟩
    | .ok false =>
      ⟨fs, c.resolver, ⟨log ++ [⟨plan.traceLevel, .unitUnchanged d.name⟩], .ok .unchanged⟩⟩
    | .ok true =>
      let log := log ++ [⟨plan.traceLevel, .unitWriting p⟩]
      match fs.writeUnit woven.value p with
      | .error e => ⟨fs, c.resolver, ⟨log, .error e⟩⟩
      | .ok fs => ⟨fs, c.resolver.invalidate woven.value.name, ⟨log, .ok .written⟩⟩

end PassPlan

namespace PassReport

def empty : PassReport := ⟨[], [], []⟩

def add (report : PassReport) (p : Path) : UnitResult → PassReport
  | .written => { report with written := report.written ++ [p] }
  | .unchanged => { report with unchanged := report.unchanged ++ [p] }
  | .skipped reason => { report with skipped := report.skipped ++ [(p, reason)] }

end PassReport

/-- Weaves files one after the other; a failure leaves out the rest. -/
def PassPlan.weaveFiles (plan : PassPlan) (fs : Files) (r : Resolver) (report : PassReport) :
    List Path → OnFiles PassReport
  | [] => ⟨fs, r, pure report⟩
  | p :: ps =>
    let here := plan.weaveFile fs r p
    match here.run.outcome with
    | .error e => ⟨here.files, here.resolver, ⟨here.run.log, .error e⟩⟩
    | .ok result =>
      let later := plan.weaveFiles here.files here.resolver (report.add p result) ps
      ⟨later.files, later.resolver, later.run.after here.run.log⟩

/-! ### Passes -/

/-- What a finished compilation leads to. -/
structure PassResult where
  state : PassState
  files : Files
  /-- The compiler was asked to rebuild every unit. -/
  rebuildRequested : Bool
  run : Traced PassOutcome

namespace PassConfig

/-- The pass that weaves the files of the dirty units, or of all units if none is dirty. -/
def weave (config : PassConfig) (host : Host) (fs : Files) (s : PassState) : PassResult :=
  let verbose := host.defines Define.verboseLogging
  let all := s.dirty.isEmpty
  let dirty := if all then host.units.map (·.outputPath) else s.dirty
  let allLog : Log := if all then [⟨.trace verbose, .weavingAllUnits⟩] else []
  let (settingsLog, settings) := ExclusionSettings.load fs config.settingsPath host.units
  let (resolver, resolverLog) := Resolver.ofUnits host.units
  let plan : PassPlan := ⟨config.weavers, host.units, ⟨settings, host.releaseBuild⟩, verbose⟩
  let woven := plan.weaveFiles fs resolver .empty dirty
  let log := allLog ++ settingsLog ++ resolverLog ++ woven.run.log
  let state : PassState := ⟨.idle, dirty, false⟩
  match woven.run.outcome with
  | .error e => ⟨state, woven.files, false, ⟨log, .error e⟩⟩
  | .ok report =>
    let written : Log :=
      if report.written.isEmpty then [] else [⟨.info, .unitsModified report.written⟩]
    ⟨state, woven.files, false, ⟨log ++ written, .ok (.completed report)⟩⟩

def leaveOut (fs : Files) (s : PassState) (reason : PassSkip) : PassResult :=
  ⟨{ s with phase := .idle }, fs, false, pure (.skipped reason)⟩

def askRebuild (fs : Files) (s : PassState) (entry : LogEntry) (reason : RebuildReason) :
    PassResult :=
  ⟨{ s with phase := .idle, forcedRebuild := true }, fs, true,
    ⟨[entry], .ok (.rebuildRequested reason)⟩⟩

/-- A compilation finishes: leaves out the pass, asks for a rebuild, or weaves. -/
def finish (config : PassConfig) (host : Host) (fs : Files) (s : PassState) : PassResult :=
  if config.weavers.isEmpty then leaveOut fs s .noWeavers
  else if !host.defines Define.enabled then leaveOut fs s .weavingDisabled
  else if s.hasCompiled config.weaverUnit && !s.forcedRebuild then
    askRebuild fs s ⟨.trace (host.defines Define.verboseLogging), .rebuildForWeaver⟩ .weaverChanged
  else if host.units.isEmpty then
    if s.forcedRebuild then leaveOut fs s .noUnits
    else askRebuild fs s ⟨.info, .rebuildForEmptyProject⟩ .emptyProject
  else config.weave host fs s

end PassConfig

end Interpose
