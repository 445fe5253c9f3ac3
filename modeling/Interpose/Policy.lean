import Interpose.Settings

/-!
Which units of a project a pass weaves.
-/

namespace Interpose

structure Policy where
  settings : ExclusionSettings
  releaseBuild : Bool
  deriving Repr

namespace Policy

/-- The first reason to leave a unit out, before its output is looked at. -/
def skipReason? (p : Policy) (u : UnitDescriptor) : Option SkipReason :=
  if !u.defines.contains Define.enabled then some .weavingDisabled
  else if p.settings.excludes u.name then some .excludedByName
  else if !p.releaseBuild && u.defines.contains Define.buildsOnly then some .buildsOnly
  else if u.editorOnly && !u.defines.contains Define.includeEditorUnit then some .editorUnit
  else none

/-- A compiled unit is woven unless it carries the marker. -/
def weavesCompiled (u : CompiledUnit) : Bool := !u.hasAttribute exclusionMarker

end Policy

end Interpose
