/-!
Why weaving is left out: of a unit, of a whole pass, or for now because a rebuild comes first.

The defines and the marker that decide it are here too. A unit is never woven without the first
define, and one of the editor not without the third; with the second, it is woven in release builds
only. The last one makes decisions show in a log.
-/

namespace Interpose

namespace Define

def enabled : String := "WEAVER_ENABLED"

def buildsOnly : String := "WEAVER_BUILDS_ONLY"

def includeEditorUnit : String := "WEAVER_INCLUDE_EDITOR_UNIT"

def verboseLogging : String := "WEAVER_VERBOSE_LOGGING"

end Define

/-- The attribute that keeps weaving out of what it is attached to. -/
def exclusionMarker : String := "WeaverExcludeAttribute"

/-- Why a unit was left as it is. -/
inductive SkipReason where
  | fileMissing
  | unknownUnit
  | unreadable
  | weavingDisabled
  | excludedByName
  | buildsOnly
  | editorUnit
  | marked
  deriving DecidableEq, Repr

def SkipReason.message : SkipReason → String
  | .fileMissing => "its output file does not exist"
  | .unknownUnit => "no project unit has this output path"
  | .unreadable => "its output file could not be read"
  | .weavingDisabled => Define.enabled ++ " is not defined"
  | .excludedByName => "its name is in the exclude list"
  | .buildsOnly => Define.buildsOnly ++ " is defined and this is not a release build"
  | .editorUnit => "it is an editor unit and does not define " ++ Define.includeEditorUnit
  | .marked => "it has the " ++ exclusionMarker

def SkipReason.name : SkipReason → String
  | .fileMissing => "FileMissing"
  | .unknownUnit => "UnknownUnit"
  | .unreadable => "Unreadable"
  | .weavingDisabled => "WeavingDisabled"
  | .excludedByName => "ExcludedByName"
  | .buildsOnly => "BuildsOnly"
  | .editorUnit => "EditorUnit"
  | .marked => "Marked"

/-- Why a pass asked for a full rebuild: when the weaver itself changed, every unit must come back
unwoven, and a project that lists no unit may list some then. -/
inductive RebuildReason where
  | weaverChanged
  | emptyProject
  deriving DecidableEq, Repr

def RebuildReason.name : RebuildReason → String
  | .weaverChanged => "WeaverChanged"
  | .emptyProject => "EmptyProject"

/-- Why a pass did nothing; that there are no units is said after a rebuild only. -/
inductive PassSkip where
  | noWeavers
  | weavingDisabled
  | noUnits
  deriving DecidableEq, Repr

def PassSkip.name : PassSkip → String
  | .noWeavers => "NoWeavers"
  | .weavingDisabled => "WeavingDisabled"
  | .noUnits => "NoUnits"

end Interpose
