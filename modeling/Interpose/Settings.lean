import Interpose.Log
import Interpose.Project.Document

/-!
Exclusion settings: the names of units that are never woven, in a file that people edit.

Without a usable file the units that come with the framework are excluded.
-/

namespace Interpose

structure ExclusionSettings where
  excludedUnits : List String
  deriving DecidableEq, Repr

namespace ExclusionSettings

/-- The name of the settings file next to a manifest. -/
def fileName : String := "WeaverSettings.json"

/-- What the names of framework units start with. -/
def frameworkStarts : List String := ["Unity.", "UnityEngine.", "UnityEditor."]

def isFrameworkUnit (name : String) : Bool :=
  frameworkStarts.any fun s => s.toList.isPrefixOf name.toList

/-- The framework units of a project, in its order. -/
def defaultsFor (units : List UnitDescriptor) : ExclusionSettings :=
  ⟨(units.map (·.name)).filter isFrameworkUnit⟩

def excludes (s : ExclusionSettings) (name : String) : Bool := s.excludedUnits.contains name

def toJson (s : ExclusionSettings) : Json := .record [("excluded_units", .texts s.excludedUnits)]

def ofJson? : DocumentReader ExclusionSettings
  | 0, _ => none
  | room + 1, v => do
    let [excluded] ← Document.fields? ["excluded_units"] v | none
    return ⟨← Document.listField Document.text room excluded⟩

/-- Reads the settings; the defaults stand in for a file that is missing or cannot be read. -/
def load (fs : Files) (p : Path) (units : List UnitDescriptor) : Log × ExclusionSettings :=
  if fs.has p then
    match fs.readDocument ofJson? p with
    | .ok s => ([], s)
    | .error e => ([⟨.warn, .settingsUnusable p e⟩], defaultsFor units)
  else ([⟨.warn, .settingsMissing p⟩], defaultsFor units)

/-- Makes the directory that a file is to lie in. -/
def makeParent (fs : Files) (p : Path) : Files × Except Fault Unit :=
  match p.parent? with
  | none => (fs, .ok ())
  | some d =>
    match fs.makeDirectories d with
    | (made, .ok ()) => (made, .ok ())
    | (made, .error f) => (made, .error (Files.fault d f))

/-- Writes the settings, in a directory that is made if it is missing. -/
def save (s : ExclusionSettings) (fs : Files) (p : Path) : Files × Except Fault Unit :=
  match makeParent fs p with
  | (made, .error e) => (made, .error e)
  | (made, .ok ()) =>
    match made.writeDocument s.toJson p with
    | .error e => (made, .error e)
    | .ok written => (written, .ok ())

end ExclusionSettings

end Interpose
