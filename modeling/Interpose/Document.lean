import Interpose.Json.Range
import Interpose.Json.Reader

/-!
Reading typed documents out of JSON values.

A reader is given the number of levels of arrays and objects that may still be opened, its room;
only what a document takes in counts against it. A record is an object, where other members are
ignored, or an array of its fields in order, where fields at the end may be left out. A variant
is a record with a tag among its members or in front of its fields; it is taken in as a whole,
so that everything in it, ignored or not, must be storable.
-/

namespace Interpose

/-- The levels of arrays and objects that a document may have. -/
def documentRoom : Nat := 127

/-- Reads a document with the given room for levels. -/
abbrev DocumentReader (α : Type) := (room : Nat) → Json → Option α

namespace Document

/-! ### Values -/

def text : DocumentReader String
  | _, .str s => s
  | _, _ => none

def flag : DocumentReader Bool
  | _, .bool b => some b
  | _, _ => none

def index : DocumentReader Nat
  | _, .num x => x.index?
  | _, _ => none

def listOf {α : Type} (read : DocumentReader α) : DocumentReader (List α)
  | room + 1, .arr items => items.mapM (read room)
  | _, _ => none

/-! ### Records -/

/-- The fields of a record with these names, in their order; a field that is not given is none.
Only members with known names are looked at, and none of them may be given twice. -/
def fields? (names : List String) : Json → Option (List (Option Json))
  | .obj members =>
    if members.all (·.1.isSome) && names.all (fun n => members.countP (·.1 == some n) ≤ 1) then
      some (names.map fun n => (members.find? (·.1 == some n)).map (·.2))
    else none
  | .arr items =>
    if items.length ≤ names.length then
      some (names.zipIdx.map fun n => items[n.2]?)
    else none
  | _ => none

/-- A field that must be given. -/
def required {α : Type} (read : DocumentReader α) (room : Nat) (field : Option Json) : Option α :=
  field.bind (read room)

/-- A field with a default. -/
def withDefault {α : Type} (default : α) (read : DocumentReader α) (room : Nat) :
    Option Json → Option α
  | none => some default
  | some v => read room v

/-- A field that may be left out or null. -/
def nullable {α : Type} (read : DocumentReader α) (room : Nat) : Option Json → Option (Option α)
  | none => some none
  | some .null => some none
  | some v => (read room v).map some

/-- A field with a list, which is empty by default. -/
def listField {α : Type} (read : DocumentReader α) (room : Nat) (field : Option Json) :
    Option (List α) :=
  withDefault [] (listOf read) room field

/-! ### Variants -/

mutual

/-- Every string has a text, every number is in range, and there is room for every level. -/
def isStorable : (room : Nat) → Json → Bool
  | _, .null => true
  | _, .bool _ => true
  | _, .num x => x.isFinite
  | _, .str s => s.isSome
  | 0, .arr _ => false
  | room + 1, .arr items => areStorable room items
  | 0, .obj _ => false
  | room + 1, .obj members => areMembersStorable room members

def areStorable (room : Nat) : List Json → Bool
  | [] => true
  | v :: vs => isStorable room v && areStorable room vs

def areMembersStorable (room : Nat) : List (Option String × Json) → Bool
  | [] => true
  | (k, v) :: ms => k.isSome && (isStorable room v && areMembersStorable room ms)

end

/-- The tag of a variant and the record of its other fields. -/
def variant? (tagName : String) : Json → Option (Json × Json)
  | .obj members =>
    match members.filter (·.1 == some tagName) with
    | [(_, tag)] => some (tag, .obj (members.filter (·.1 != some tagName)))
    | _ => none
  | .arr (tag :: fields) => some (tag, .arr fields)
  | _ => none

/-- The name that a tag gives. -/
def tagName? : Json → Option String
  | .str s => s
  | _ => none

/-- The name that a tag gives inside a value that was taken in as a whole: there the place of a
name in the list of names is as good as the name. -/
def storedTagName? (names : List String) : Json → Option String
  | .str s => s
  | .num x => x.index?.bind (names[·]?)
  | _ => none

/-- A name that stands alone, as a string or as the one key of an object with a null. -/
def loneName? : DocumentReader String
  | _, .str s => s
  | _ + 1, .obj [(k, .null)] => k
  | _, _ => none

/-- A name that stands alone inside a value that was taken in as a whole; there an empty object
does for a null. -/
def storedLoneName? : DocumentReader String
  | _, .str s => s
  | _, .obj [(k, .null)] => k
  | _, .obj [(k, .obj [])] => k
  | _, _ => none

/-! ### Texts -/

/-- The document that a text spells. -/
def parse? {α : Type} (read : DocumentReader α) (s : String) : Option α :=
  (Json.parse? s).bind (read documentRoom)

end Document

end Interpose
