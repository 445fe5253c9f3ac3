import Interpose.Fault
import Interpose.Reason

/-!
The log as data: what happened, at which level, and computations that keep a log.

A step that may fail is a `Traced` value. It carries what was logged up to its end, whether it
succeeded or not, so a log is a function of the inputs like any other result.
-/

namespace Interpose

inductive LogLevel where
  | error
  | warn
  | info
  | debug
  deriving DecidableEq, Repr

def LogLevel.name : LogLevel → String
  | .error => "ERROR"
  | .warn => "WARN"
  | .info => "INFO"
  | .debug => "DEBUG"

/-- The level of decisions that only a verbose run shows. -/
def LogLevel.trace (verbose : Bool) : LogLevel := if verbose then .info else .debug

/-- What a log can tell. -/
inductive Event where
  -- weaving
  | receiverAssumed (method : String) (index : Nat) (target : String)
  | callReplaced (callee replacement method : String)
  | typeSkipped (fullName : String)
  | methodSkipped (type method : String)
  -- settings and references
  | settingsMissing (path : Path)
  | settingsUnusable (path : Path) (cause : Fault)
  | settingsReset (path : Path)
  | referenceUnresolved (name unit : String) (cause : Fault)
  | unitReferenceUnknown (name unit : String)
  | directoryUnknown (path : Path)
  -- passes
  | unitOutsideCompilation (path : Path)
  | rebuildForWeaver
  | rebuildForEmptyProject
  | weavingAllUnits
  | outputMissing (path : Path)
  | outputUnknown (path : Path)
  | unitSkipped (name : String) (reason : SkipReason)
  | unitUnreadable (cause : Fault)
  | unitFailed (cause : Fault)
  | unitUnchanged (name : String)
  | unitWriting (path : Path)
  | unitsModified (paths : List Path)
  | passDone (written unchanged skipped : Nat)
  | passSkipped (reason : PassSkip)
  | rebuildRequested (reason : RebuildReason)
  deriving Repr

namespace Event

def message : Event → String
  | .receiverAssumed method index target =>
    "Weaver could not prove the receiver type at " ++ method ++ "+" ++ toString index
      ++ "; assuming " ++ target
  | .callReplaced callee replacement method =>
    "Weaver replacing \"" ++ callee ++ "\" with \"" ++ replacement ++ "\" in \"" ++ method ++ "\""
  | .typeSkipped fullName =>
    "Weaver skipped type " ++ fullName ++ " because it or its origin method is excluded"
  | .methodSkipped type method =>
    "Weaver skipped " ++ type ++ "." ++ method ++ " because it is excluded"
  | .settingsMissing path =>
    "Weaver settings not found at " ++ path.text ++ ", using default exclusions"
  | .settingsUnusable path cause => "Failed to parse " ++ path.text ++ ": " ++ cause.message
  | .settingsReset path => "Reset exclusion settings at " ++ path.text
  | .referenceUnresolved name unit cause =>
    "Reference " ++ name ++ " of " ++ unit ++ " not resolved: " ++ cause.message
  | .unitReferenceUnknown name unit =>
    "Failed to resolve unit reference " ++ name ++ " of " ++ unit
  | .directoryUnknown path => "Failed to parse directory name for path: " ++ path.text
  | .unitOutsideCompilation path =>
    "Unit " ++ path.text ++ " finished outside of a compilation; collecting it anyway"
  | .rebuildForWeaver => "Forcing a full project rebuild due to the weaver unit being rebuilt."
  | .rebuildForEmptyProject => "Forcing a full project rebuild due to an empty unit list."
  | .weavingAllUnits => "Dirty unit list empty, weaving all units."
  | .outputMissing path => "Weaver skipped a unit path that did not exist: " ++ path.text
  | .outputUnknown path => "Failed to find a unit with output path: " ++ path.text
  | .unitSkipped name reason => "Weaver skipped unit " ++ name ++ " because " ++ reason.message
  | .unitUnreadable cause => "Failed to read unit for weaving: " ++ cause.message
  | .unitFailed cause => cause.message
  | .unitUnchanged name =>
    "Weaver processed unit " ++ name ++ " but did not make any modifications."
  | .unitWriting path => "Weaver writing changes to " ++ path.text
  | .unitsModified paths =>
    "Weaver modified the following units:\n" ++ "\n".intercalate (paths.map ("    " ++ ·.text))
  | .passDone written unchanged skipped =>
    "Weaving done: " ++ toString written ++ " written, " ++ toString unchanged ++ " unchanged, "
      ++ toString skipped ++ " skipped"
  | .passSkipped reason => "Weaving pass skipped (" ++ reason.name ++ ")"
  | .rebuildRequested reason => "Full rebuild requested (" ++ reason.name ++ ")"

end Event

structure LogEntry where
  level : LogLevel
  event : Event
  deriving Repr

abbrev Log := List LogEntry

/-- The outcome of a step that may fail, with what was logged up to its end. -/
structure Traced (α : Type) where
  log : Log
  outcome : Except Fault α

namespace Traced

/-- Logs one entry. -/
def tell (level : LogLevel) (event : Event) : Traced Unit := ⟨[⟨level, event⟩], .ok ()⟩

/-- A step that logs nothing. -/
def lift {α : Type} (outcome : Except Fault α) : Traced α := ⟨[], outcome⟩

/-- A step, and a second one on its value; a failure of the first is the outcome. -/
def andThen {α β : Type} (x : Traced α) (f : α → Traced β) : Traced β :=
  match x.outcome with
  | .error e => ⟨x.log, .error e⟩
  | .ok a => let y := f a; ⟨x.log ++ y.log, y.outcome⟩

instance : Monad Traced where
  pure a := ⟨[], .ok a⟩
  bind := andThen

instance : MonadExcept Fault Traced where
  throw e := ⟨[], .error e⟩
  tryCatch x handler :=
    match x.outcome with
    | .error e => let y := handler e; ⟨x.log ++ y.log, y.outcome⟩
    | .ok _ => x

/-- The step with its fault, if it fails, turned into another one. -/
def mapFault {α : Type} (f : Fault → Fault) (x : Traced α) : Traced α :=
  ⟨x.log, match x.outcome with
    | .error e => .error (f e)
    | .ok a => .ok a⟩

/-- The step with entries put in front of its log. -/
def after {α : Type} (log : Log) (x : Traced α) : Traced α := ⟨log ++ x.log, x.outcome⟩

@[simp] theorem pure_log {α : Type} (a : α) : (pure a : Traced α).log = [] := rfl
@[simp] theorem pure_outcome {α : Type} (a : α) : (pure a : Traced α).outcome = .ok a := rfl

theorem bind_eq {α β : Type} (x : Traced α) (f : α → Traced β) :
    x >>= f = match x.outcome with
      | .error e => ⟨x.log, .error e⟩
      | .ok a => ⟨x.log ++ (f a).log, (f a).outcome⟩ := rfl

end Traced

end Interpose
