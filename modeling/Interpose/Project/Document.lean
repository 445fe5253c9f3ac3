import Interpose.Project.Basic
import Interpose.Unit.Document

/-!
Manifests and capture options as documents.
-/

namespace Interpose

open Document

namespace Platform

def name : Platform → String
  | .android => "android"
  | .ios => "ios"
  | .tvos => "tvos"
  | .standalone => "standalone"

def ofName? : String → Option Platform
  | "android" => some .android
  | "ios" => some .ios
  | "tvos" => some .tvos
  | "standalone" => some .standalone
  | _ => none

def ofJson? : DocumentReader Platform := fun room v => (loneName? room v).bind ofName?

end Platform

namespace CaptureOptions

def fieldNames : List String := ["platform", "capture_data_processing_errors"]

def toJson (o : CaptureOptions) : Json :=
  .record [("platform", .text o.platform.name),
    ("capture_data_processing_errors", .bool o.captureProcessingErrors)]

def ofJson? : DocumentReader CaptureOptions
  | 0, _ => none
  | room + 1, v => do
    let [platform, errors] ← fields? fieldNames v | none
    return {
      platform := ← withDefault .android Platform.ofJson? room platform
      captureProcessingErrors := ← withDefault false flag room errors }

end CaptureOptions

namespace Path

def ofJson? : DocumentReader Path := fun room v => (Document.text room v).map Path.mk

def toJson (p : Path) : Json := .text p.text

end Path

namespace NameSet

/-- Reads a set of names from a list with any order and repetitions. -/
def ofField? (room : Nat) (field : Option Json) : Option NameSet :=
  (listField text room field).map ofList

def toJson (s : NameSet) : Json := .texts s.names

end NameSet

namespace UnitDescriptor

def fieldNames : List String :=
  ["name", "output_path", "defines", "unit_references", "precompiled_references", "editor_only"]

def toJson (u : UnitDescriptor) : Json :=
  .record [("name", .text u.name), ("output_path", u.outputPath.toJson),
    ("defines", u.defines.toJson), ("unit_references", .texts u.unitReferences),
    ("precompiled_references", .arr (u.precompiledReferences.map (·.toJson))),
    ("editor_only", .bool u.editorOnly)]

def ofJson? : DocumentReader UnitDescriptor
  | 0, _ => none
  | room + 1, v => do
    let [name, outputPath, defines, unitReferences, precompiled, editorOnly] ←
      fields? fieldNames v | none
    return {
      name := ← required text room name
      outputPath := ← required Path.ofJson? room outputPath
      defines := ← NameSet.ofField? room defines
      unitReferences := ← listField text room unitReferences
      precompiledReferences := ← listField Path.ofJson? room precompiled
      editorOnly := ← withDefault false flag room editorOnly }

end UnitDescriptor

namespace Manifest

def fieldNames : List String :=
  ["units", "project_defines", "release_build", "capture", "settings_path"]

def toJson (m : Manifest) : Json :=
  .record [("units", .arr (m.units.map (·.toJson))), ("project_defines", m.projectDefines.toJson),
    ("release_build", .bool m.releaseBuild), ("capture", m.capture.toJson),
    ("settings_path", .nullable (·.toJson) m.settingsPath)]

def ofJson? : DocumentReader Manifest
  | 0, _ => none
  | room + 1, v => do
    let [units, projectDefines, releaseBuild, capture, settingsPath] ← fields? fieldNames v | none
    return {
      units := ← listField UnitDescriptor.ofJson? room units
      projectDefines := ← NameSet.ofField? room projectDefines
      releaseBuild := ← withDefault false flag room releaseBuild
      capture := ← withDefault .default CaptureOptions.ofJson? room capture
      settingsPath := ← nullable Path.ofJson? room settingsPath }

end Manifest

/-- Reads a manifest; its relative paths start from the directory that it lies in. -/
def Files.readManifest (fs : Files) (p : Path) : Except Fault Manifest :=
  match fs.readDocument Manifest.ofJson? p with
  | .error e => .error e
  | .ok m => .ok (m.resolvePaths (Manifest.baseOf p))

end Interpose
