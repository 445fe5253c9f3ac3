import Interpose.Document
import Interpose.Instruction.Basic

/-!
Instructions as documents.
-/

namespace Interpose

open Document

namespace MethodRef

def fieldNames : List String := ["declaring_type", "name", "params", "return_type", "has_this"]

def toJson (m : MethodRef) : Json :=
  .record [("declaring_type", .text m.declaringType), ("name", .text m.name),
    ("params", .texts m.params), ("return_type", .text m.returnType), ("has_this", .bool m.hasThis)]

def ofJson? : DocumentReader MethodRef
  | 0, _ => none
  | room + 1, v => do
    let [declaringType, name, params, returnType, hasThis] ← fields? fieldNames v | none
    return {
      declaringType := ← required text room declaringType
      name := ← required text room name
      params := ← listField text room params
      returnType := ← required text room returnType
      hasThis := ← withDefault false flag room hasThis }

end MethodRef

namespace FieldRef

def fieldNames : List String := ["declaring_type", "name", "field_type"]

def toMembers (f : FieldRef) : List (String × Json) :=
  [("declaring_type", .text f.declaringType), ("name", .text f.name),
    ("field_type", .text f.fieldType)]

/-- Reads a record whose own level is open already. -/
def ofRecord? (room : Nat) (v : Json) : Option FieldRef := do
  let [declaringType, name, fieldType] ← fields? fieldNames v | none
  return {
    declaringType := ← required text room declaringType
    name := ← required text room name
    fieldType := ← required text room fieldType }

end FieldRef

namespace Slot

def tags : List String := ["field", "local", "parameter", "this"]

def toJson : Slot → Json
  | .field ref => .record (("kind", .text "field") :: ref.toMembers)
  | .local i => .record [("kind", .text "local"), ("index", .ofNat i)]
  | .parameter i => .record [("kind", .text "parameter"), ("index", .ofNat i)]
  | .this => .record [("kind", .text "this")]

/-- The receiver has no fields: an array holds its tag alone, an object may hold anything. -/
def isBare : Json → Bool
  | .arr items => items.isEmpty
  | _ => true

/-- Reads a slot, given how to read its tag. -/
def ofTagged? (tag? : Json → Option String) : DocumentReader Slot
  | 0, _ => none
  | room + 1, v => do
    if !isStorable (room + 1) v then none
    let (tag, fields) ← variant? "kind" v
    match ← tag? tag with
    | "field" => return .field (← FieldRef.ofRecord? room fields)
    | "local" =>
      let [i] ← fields? ["index"] fields | none
      return .local (← required index room i)
    | "parameter" =>
      let [i] ← fields? ["index"] fields | none
      return .parameter (← required index room i)
    | "this" => if isBare fields then return .this else none
    | _ => none

/-- Reads a slot that stands alone. -/
def ofJson? : DocumentReader Slot := ofTagged? tagName?

/-- Reads a slot inside an instruction. -/
def ofStored? : DocumentReader Slot := ofTagged? (storedTagName? tags)

end Slot

namespace CallKind

def name : CallKind → String
  | .direct => "direct"
  | .virtual => "virtual"
  | .construct => "construct"

def toJson (k : CallKind) : Json := .text k.name

def ofName? : String → Option CallKind
  | "direct" => some .direct
  | "virtual" => some .virtual
  | "construct" => some .construct
  | _ => none

/-- Reads a call kind that stands alone. -/
def ofJson? : DocumentReader CallKind := fun room v => (loneName? room v).bind ofName?

/-- Reads a call kind inside an instruction. -/
def ofStored? : DocumentReader CallKind := fun room v => (storedLoneName? room v).bind ofName?

end CallKind

namespace Instruction

def toJson : Instruction → Json
  | .load slot => .record [("op", .text "load"), ("target", slot.toJson)]
  | .store slot => .record [("op", .text "store"), ("target", slot.toJson)]
  | .call callee kind =>
    .record [("op", .text "call"), ("callee", callee.toJson), ("kind", kind.toJson)]
  | .other opcode => .record [("op", .text "other"), ("opcode", .text opcode)]

def ofJson? : DocumentReader Instruction
  | 0, _ => none
  | room + 1, v => do
    if !isStorable (room + 1) v then none
    let (tag, fields) ← variant? "op" v
    match ← tagName? tag with
    | "load" =>
      let [slot] ← fields? ["target"] fields | none
      return .load (← required Slot.ofStored? room slot)
    | "store" =>
      let [slot] ← fields? ["target"] fields | none
      return .store (← required Slot.ofStored? room slot)
    | "call" =>
      let [callee, kind] ← fields? ["callee", "kind"] fields | none
      return .call (← required MethodRef.ofJson? room callee) (← required CallKind.ofStored? room kind)
    | "other" =>
      let [opcode] ← fields? ["opcode"] fields | none
      return .other (← required text room opcode)
    | _ => none

end Instruction

end Interpose
