import Interpose.NameSet
import Interpose.NetworkCapture
import Interpose.Path

/-!
Projects: the units that a compiler builds, and the manifest that lists them.
-/

namespace Interpose

structure UnitDescriptor where
  name : String
  outputPath : Path
  defines : NameSet
  unitReferences : List String
  /-- The paths of the prebuilt units that it refers to. -/
  precompiledReferences : List Path
  editorOnly : Bool
  deriving Repr

structure Manifest where
  units : List UnitDescriptor
  /-- The defines of every unit. -/
  projectDefines : NameSet
  releaseBuild : Bool
  capture : CaptureOptions
  settingsPath : Option Path
  deriving Repr

namespace Manifest

def empty : Manifest := ⟨[], .empty, false, .default, none⟩

/-- The directory that relative paths of a manifest at `p` start from. -/
def baseOf (p : Path) : Path := p.parent?.getD ⟨"."⟩

def resolvePaths (base : Path) (m : Manifest) : Manifest :=
  { m with
    units := m.units.map fun u =>
      { u with
        outputPath := base.join u.outputPath
        precompiledReferences := u.precompiledReferences.map base.join }
    settingsPath := m.settingsPath.map base.join }

end Manifest

/-- What a pass asks the compiler: its units, the defines of the whole project, and the kind of
build. -/
structure Host where
  units : List UnitDescriptor
  projectDefines : NameSet
  releaseBuild : Bool
  deriving Repr

namespace Host

def ofManifest (m : Manifest) : Host := ⟨m.units, m.projectDefines, m.releaseBuild⟩

/-- The project or one of its units has a define. -/
def defines (h : Host) (flag : String) : Bool :=
  h.projectDefines.contains flag || h.units.any (·.defines.contains flag)

end Host

end Interpose
