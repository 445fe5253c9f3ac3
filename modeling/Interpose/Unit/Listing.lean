import Interpose.Unit.Basic

/-!
The listing of a unit for a human reader, as lines.

The lines of a type and of a method are indented by two spaces per level; an instruction stands
on a line of its own behind its index, of at least four digits. A text inside a line may hold line
breaks, so a line of the listing is one item, not one line of its text.
-/

namespace Interpose.Listing

/-- A line at an indentation level. -/
def line (level : Nat) (s : String) : String := String.ofList (List.replicate (2 * level) ' ') ++ s

def attributeLines (level : Nat) (attributes : List String) : List String :=
  attributes.map fun a => line level ("[" ++ a ++ "]")

def fieldLine (level : Nat) (f : FieldDecl) : String :=
  line level ((if f.isPublic then "pub " else "") ++ "field " ++ f.name ++ ": " ++ f.fieldType)

/-- The index of an instruction, with zeros in front up to four digits. -/
def position (index : Nat) : String :=
  let digits := Nat.toDigits 10 index
  String.ofList (List.replicate (4 - digits.length) '0' ++ digits)

def instructionLine (level index : Nat) (i : Instruction) : String :=
  line level (position index ++ ": " ++ i.listing)

def localLine (level index : Nat) (l : Local) : String :=
  line level (".local loc" ++ toString index ++ " " ++ l.name.getD "_" ++ ": " ++ l.localType)

/-- The lines of instructions, numbered from `index` on. -/
def instructionLines (level index : Nat) : List Instruction → List String
  | [] => []
  | i :: is => instructionLine level index i :: instructionLines level (index + 1) is

/-- The lines of locals, numbered from `index` on. -/
def localLines (level index : Nat) : List Local → List String
  | [] => []
  | l :: ls => localLine level index l :: localLines level (index + 1) ls

def signature (m : MethodDecl) : String :=
  (if m.hasThis then "method " else "static method ") ++ m.name ++ "("
    ++ ", ".intercalate (m.params.map fun p => p.name ++ ": " ++ p.paramType) ++ ") -> " ++ m.returnType

def methodLines (level : Nat) (m : MethodDecl) : List String :=
  attributeLines level m.attributes ++
    match m.body with
    | none => [line level (signature m ++ ";")]
    | some body =>
      line level (signature m ++ " \x7b")
        :: (localLines (level + 1) 0 m.locals ++ instructionLines (level + 1) 0 body
          ++ [line level "\x7d"])

def typeHead (fullName : String) (isGenerated : Bool) (parents : List String) : String :=
  "type " ++ fullName ++ (if isGenerated then " (generated)" else "")
    ++ (if parents.isEmpty then "" else " : " ++ ", ".intercalate parents) ++ " \x7b"

mutual

def typeLines (level : Nat) : TypeDecl → List String
  | ⟨_, fullName, baseType, interfaces, isGenerated, attributes, fields, _, methods, nested⟩ =>
    attributeLines level attributes
      ++ line level (typeHead fullName isGenerated (baseType.toList ++ interfaces))
      :: (fields.map (fieldLine (level + 1)) ++ methods.flatMap (methodLines (level + 1))
        ++ nestedLines (level + 1) nested ++ [line level "\x7d"])

def nestedLines (level : Nat) : List TypeDecl → List String
  | [] => []
  | t :: ts => typeLines level t ++ nestedLines level ts

end

def headLines (u : CompiledUnit) : List String :=
  ("; Unit: " ++ u.name)
    :: ((if u.references.isEmpty then [] else ["; References: " ++ ", ".intercalate u.references])
      ++ u.attributes.map fun a => "; [" ++ a ++ "]")

/-- The lines of a unit: its head, and a blank line before and after each of its types. -/
def unitLines (u : CompiledUnit) : List String :=
  headLines u ++ "" :: u.types.flatMap fun t => typeLines 0 t ++ [""]

end Interpose.Listing

namespace Interpose.CompiledUnit

/-- The listing of a unit; every line ends in a line break. -/
def listing (u : CompiledUnit) : String := String.join ((Listing.unitLines u).map (· ++ "\n"))

end Interpose.CompiledUnit
