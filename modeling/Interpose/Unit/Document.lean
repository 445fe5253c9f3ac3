import Interpose.Files
import Interpose.Instruction.Document
import Interpose.Json.Writer
import Interpose.Unit.Basic

/-!
Compiled units as documents, and as files that hold them.
-/

namespace Interpose

open Document

namespace FieldDecl

def fieldNames : List String := ["name", "field_type", "is_public"]

def toJson (f : FieldDecl) : Json :=
  .record [("name", .text f.name), ("field_type", .text f.fieldType), ("is_public", .bool f.isPublic)]

def ofJson? : DocumentReader FieldDecl
  | 0, _ => none
  | room + 1, v => do
    let [name, fieldType, isPublic] ← fields? fieldNames v | none
    return {
      name := ← required text room name
      fieldType := ← required text room fieldType
      isPublic := ← withDefault false flag room isPublic }

end FieldDecl

namespace PropertyDecl

def fieldNames : List String := ["name", "getter", "setter", "attributes"]

def toJson (p : PropertyDecl) : Json :=
  .record [("name", .text p.name), ("getter", .nullable .text p.getter),
    ("setter", .nullable .text p.setter), ("attributes", .texts p.attributes)]

def ofJson? : DocumentReader PropertyDecl
  | 0, _ => none
  | room + 1, v => do
    let [name, getter, setter, attributes] ← fields? fieldNames v | none
    return {
      name := ← required text room name
      getter := ← nullable text room getter
      setter := ← nullable text room setter
      attributes := ← listField text room attributes }

end PropertyDecl

namespace Parameter

def fieldNames : List String := ["name", "param_type"]

def toJson (p : Parameter) : Json :=
  .record [("name", .text p.name), ("param_type", .text p.paramType)]

def ofJson? : DocumentReader Parameter
  | 0, _ => none
  | room + 1, v => do
    let [name, paramType] ← fields? fieldNames v | none
    return { name := ← required text room name, paramType := ← required text room paramType }

end Parameter

namespace Local

def fieldNames : List String := ["name", "local_type"]

def toJson (l : Local) : Json :=
  .record [("name", .nullable .text l.name), ("local_type", .text l.localType)]

def ofJson? : DocumentReader Local
  | 0, _ => none
  | room + 1, v => do
    let [name, localType] ← fields? fieldNames v | none
    return { name := ← nullable text room name, localType := ← required text room localType }

end Local

namespace MethodDecl

def fieldNames : List String :=
  ["name", "has_this", "return_type", "params", "locals", "attributes", "body"]

def toJson (m : MethodDecl) : Json :=
  .record [("name", .text m.name), ("has_this", .bool m.hasThis), ("return_type", .text m.returnType),
    ("params", .arr (m.params.map (·.toJson))), ("locals", .arr (m.locals.map (·.toJson))),
    ("attributes", .texts m.attributes),
    ("body", .nullable (fun is => .arr (is.map (·.toJson))) m.body)]

def ofJson? : DocumentReader MethodDecl
  | 0, _ => none
  | room + 1, v => do
    let [name, hasThis, returnType, params, locals, attributes, body] ← fields? fieldNames v | none
    return {
      name := ← required text room name
      hasThis := ← withDefault false flag room hasThis
      returnType := ← required text room returnType
      params := ← listField Parameter.ofJson? room params
      locals := ← listField Local.ofJson? room locals
      attributes := ← listField text room attributes
      body := ← nullable (listOf Instruction.ofJson?) room body }

end MethodDecl

namespace TypeDecl

def fieldNames : List String :=
  ["name", "full_name", "base_type", "interfaces", "compiler_generated", "attributes", "fields",
    "properties", "methods", "nested_types"]

mutual

def toJson : TypeDecl → Json
  | ⟨name, fullName, baseType, interfaces, isGenerated, attributes, fields, properties, methods, nested⟩ =>
    .record [("name", .text name), ("full_name", .text fullName),
      ("base_type", .nullable .text baseType), ("interfaces", .texts interfaces),
      ("compiler_generated", .bool isGenerated), ("attributes", .texts attributes),
      ("fields", .arr (fields.map (·.toJson))), ("properties", .arr (properties.map (·.toJson))),
      ("methods", .arr (methods.map (·.toJson))), ("nested_types", .arr (toJsons nested))]

def toJsons : List TypeDecl → List Json
  | [] => []
  | t :: ts => toJson t :: toJsons ts

end

/-- The room decides how deep types may be nested: a nested type stands two levels further in. -/
def ofJson? : DocumentReader TypeDecl
  | 0, _ => none
  | 1, v => read (fun _ => none) 0 v
  | room + 2, v => read (ofJson? room) (room + 1) v
where
  /-- Reads a type whose own level is open, given how to read nested types. -/
  read (nestedType : Json → Option TypeDecl) (room : Nat) (v : Json) : Option TypeDecl := do
    let [name, fullName, baseType, interfaces, isGenerated, attributes, fields, properties,
      methods, nested] ← fields? fieldNames v | none
    return {
      name := ← required text room name
      fullName := ← required text room fullName
      baseType := ← nullable text room baseType
      interfaces := ← listField text room interfaces
      isGenerated := ← withDefault false flag room isGenerated
      attributes := ← listField text room attributes
      fields := ← listField FieldDecl.ofJson? room fields
      properties := ← listField PropertyDecl.ofJson? room properties
      methods := ← listField MethodDecl.ofJson? room methods
      nestedTypes := ← listField (fun _ => nestedType) room nested }

end TypeDecl

namespace CompiledUnit

def fieldNames : List String := ["name", "attributes", "references", "types"]

def toJson (u : CompiledUnit) : Json :=
  .record [("name", .text u.name), ("attributes", .texts u.attributes),
    ("references", .texts u.references), ("types", .arr (TypeDecl.toJsons u.types))]

def ofJson? : DocumentReader CompiledUnit
  | 0, _ => none
  | room + 1, v => do
    let [name, attributes, references, types] ← fields? fieldNames v | none
    return {
      name := ← required text room name
      attributes := ← listField text room attributes
      references := ← listField text room references
      types := ← listField TypeDecl.ofJson? room types }

/-- The text of a unit as its file holds it. -/
def render (u : CompiledUnit) : String := u.toJson.pretty

/-- The unit that a text spells. -/
def parse? (s : String) : Option CompiledUnit := Document.parse? ofJson? s

end CompiledUnit

/-! ### Files with documents -/

namespace Files

/-- The fault of an access to a file. -/
def fault (p : Path) (f : Failure) : Fault := .io p f.message

/-- Reads the document that a file holds. -/
def readDocument {α : Type} (fs : Files) (read : DocumentReader α) (p : Path) : Except Fault α :=
  match fs.read p with
  | .error f => .error (fault p f)
  | .ok s =>
    match Document.parse? read s with
    | none => .error (.malformedDocument p "the text is no document of this kind")
    | some a => .ok a

/-- Writes a value to a file in its indented form. -/
def writeDocument (fs : Files) (v : Json) (p : Path) : Except Fault Files :=
  match fs.write p v.pretty with
  | .error f => .error (fault p f)
  | .ok fs => .ok fs

/-- Reads the unit that a file holds. -/
def readUnit (fs : Files) (p : Path) : Except Fault CompiledUnit :=
  fs.readDocument CompiledUnit.ofJson? p

def writeUnit (fs : Files) (u : CompiledUnit) (p : Path) : Except Fault Files :=
  fs.writeDocument u.toJson p

end Files

end Interpose
