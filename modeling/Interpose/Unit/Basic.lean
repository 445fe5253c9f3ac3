import Interpose.Fault
import Interpose.Instruction.Basic

/-!
Compiled units: types, nested to any depth, with the methods that they declare.

A type inside a unit is found by its index path, the index of a top-level type followed by
indices of nested types. The types of a unit are listed in pre-order.
-/

namespace Interpose

structure FieldDecl where
  name : String
  fieldType : String
  isPublic : Bool
  deriving DecidableEq, Repr

structure PropertyDecl where
  name : String
  getter : Option String
  setter : Option String
  attributes : List String
  deriving DecidableEq, Repr

structure Parameter where
  name : String
  paramType : String
  deriving DecidableEq, Repr

structure Local where
  name : Option String
  localType : String
  deriving DecidableEq, Repr

structure MethodDecl where
  name : String
  hasThis : Bool
  returnType : String
  params : List Parameter
  locals : List Local
  attributes : List String
  /-- Abstract and external methods have none. -/
  body : Option (List Instruction)
  deriving DecidableEq, Repr

structure TypeDecl where
  name : String
  /-- The namespace and name of a top-level type; the outer full name, a slash and the name of a
  nested one. -/
  fullName : String
  baseType : Option String
  interfaces : List String
  /-- Made by the compiler, not written by hand. -/
  isGenerated : Bool
  attributes : List String
  fields : List FieldDecl
  properties : List PropertyDecl
  methods : List MethodDecl
  nestedTypes : List TypeDecl
  deriving Repr

structure CompiledUnit where
  name : String
  attributes : List String
  /-- The names of the units that this one refers to. -/
  references : List String
  types : List TypeDecl
  deriving Repr

/-! ### Methods -/

namespace PropertyDecl

def hasAttribute (p : PropertyDecl) (name : String) : Bool := p.attributes.contains name

/-- The method of this name reads or writes the property. -/
def isAccessedBy (p : PropertyDecl) (method : String) : Bool :=
  p.getter == some method || p.setter == some method

end PropertyDecl

namespace MethodDecl

/-- A method without receiver, parameters, locals and body. -/
def ofName (name returnType : String) : MethodDecl :=
  ⟨name, false, returnType, [], [], [], none⟩

def hasAttribute (m : MethodDecl) (name : String) : Bool := m.attributes.contains name

/-- The body, empty when there is none. -/
def instructions (m : MethodDecl) : List Instruction := m.body.getD []

/-- The signature that faults and logs show. -/
def displayName (m : MethodDecl) (declaringType : String) : String :=
  m.returnType ++ " " ++ declaringType ++ "::" ++ m.name
    ++ "(" ++ ",".intercalate (m.params.map (·.paramType)) ++ ")"

/-- The fault of a body of this method. -/
def fault (m : MethodDecl) (declaringType : String) (cause : BodyFault) : Fault :=
  .malformedBody (m.displayName declaringType) cause

/-- The declared type of a slot. -/
def slotType (m : MethodDecl) (declaringType : String) : Slot → Except Fault String
  | .field ref => .ok ref.fieldType
  | .local i =>
    match m.locals[i]? with
    | some l => .ok l.localType
    | none => .error (m.fault declaringType (.localOutOfRange i))
  | .parameter i =>
    match m.params[i]? with
    | some p => .ok p.paramType
    | none => .error (m.fault declaringType (.parameterOutOfRange i))
  | .this =>
    if m.hasThis then .ok declaringType
    else .error (m.fault declaringType .receiverInStaticMethod)

end MethodDecl

/-! ### Types -/

namespace TypeDecl

/-- An empty type in a namespace, which may be empty too. -/
def ofName (space name : String) : TypeDecl :=
  ⟨name, if space.isEmpty then name else space ++ "." ++ name, none, [], false, [], [], [], [], []⟩

def hasAttribute (t : TypeDecl) (name : String) : Bool := t.attributes.contains name

def publicFields (t : TypeDecl) : List FieldDecl := t.fields.filter (·.isPublic)

/-- The first property that the method of this name reads or writes. -/
def propertyAccessedBy? (t : TypeDecl) (method : String) : Option PropertyDecl :=
  t.properties.find? (·.isAccessedBy method)

mutual

/-- The type under another full name, with the full names of all nested types following it. -/
def withFullName (fullName : String) : TypeDecl → TypeDecl
  | ⟨name, _, baseType, interfaces, isGenerated, attributes, fields, properties, methods, nested⟩ =>
    ⟨name, fullName, baseType, interfaces, isGenerated, attributes, fields, properties, methods,
      withOuterName fullName nested⟩

/-- The types as nested types of the one with this full name. -/
def withOuterName (outer : String) : List TypeDecl → List TypeDecl
  | [] => []
  | t :: ts => withFullName (outer ++ "/" ++ t.name) t :: withOuterName outer ts

end

/-- The type with one more nested type, whose full name and those below it follow this type. -/
def addNested (t nested : TypeDecl) : TypeDecl :=
  { t with nestedTypes := t.nestedTypes ++ [nested.withFullName (t.fullName ++ "/" ++ nested.name)] }

mutual

/-- The number of types in a tree of types. -/
def count : TypeDecl → Nat
  | ⟨_, _, _, _, _, _, _, _, _, nested⟩ => countAll nested + 1

def countAll : List TypeDecl → Nat
  | [] => 0
  | t :: ts => count t + countAll ts

end

theorem count_eq (t : TypeDecl) : t.count = countAll t.nestedTypes + 1 := by
  cases t; rw [count]

theorem count_pos (t : TypeDecl) : 0 < t.count := by
  rw [count_eq]; omega

theorem countAll_append (ts us : List TypeDecl) : countAll (ts ++ us) = countAll ts + countAll us := by
  induction ts with
  | nil => simp [countAll]
  | cons t ts ih => simp [countAll, ih]; omega

/-- The types of a work list and those nested in them: a type, then its nested types before the
rest of the list. -/
def visit (found : List TypeDecl) (work : List TypeDecl) : List TypeDecl :=
  match work with
  | [] => found.reverse
  | t :: rest => visit (t :: found) (t.nestedTypes ++ rest)
termination_by countAll work
decreasing_by
  rw [countAll_append, countAll, count_eq]; omega

/-- The type at an index path below this one. -/
def nestedAt? (t : TypeDecl) : List Nat → Option TypeDecl
  | [] => some t
  | i :: path => (t.nestedTypes[i]?).bind (nestedAt? · path)

theorem nestedAt?_singleton (t : TypeDecl) (i : Nat) : t.nestedAt? [i] = t.nestedTypes[i]? := by
  rw [nestedAt?]
  exact Option.bind_fun_some _

theorem nestedAt?_append (t : TypeDecl) (path rest : List Nat) :
    t.nestedAt? (path ++ rest) = (t.nestedAt? path).bind (·.nestedAt? rest) := by
  induction path generalizing t with
  | nil => rfl
  | cons i path ih =>
    rw [List.cons_append, nestedAt?, nestedAt?, Option.bind_assoc]
    exact Option.bind_congr fun s _ => ih s

/-- The type with the one at an index path below it changed. -/
def modifyNested (f : TypeDecl → TypeDecl) (t : TypeDecl) : List Nat → TypeDecl
  | [] => f t
  | i :: path => { t with nestedTypes := t.nestedTypes.modify i (modifyNested f · path) }

end TypeDecl

/-! ### Units -/

namespace CompiledUnit

def ofName (name : String) : CompiledUnit := ⟨name, [], [], []⟩

def hasAttribute (u : CompiledUnit) (name : String) : Bool := u.attributes.contains name

/-- The type at an index path. -/
def typeAt? (u : CompiledUnit) : List Nat → Option TypeDecl
  | [] => none
  | i :: path => (u.types[i]?).bind (·.nestedAt? path)

/-- The unit with the type at an index path changed. -/
def modifyTypeAt (f : TypeDecl → TypeDecl) (u : CompiledUnit) : List Nat → CompiledUnit
  | [] => u
  | i :: path => { u with types := u.types.modify i (TypeDecl.modifyNested f · path) }

/-- Every type of the unit in pre-order. -/
def allTypes (u : CompiledUnit) : List TypeDecl := TypeDecl.visit [] u.types

end CompiledUnit

end Interpose
