import Interpose.Container
import Interpose.Reason

/-!
Which types and methods of a unit are woven.

The exclusion marker keeps a type out with all that is nested in it, and a method alone. A container
made by the compiler follows the method that it was made for, an accessor follows its property.
-/

namespace Interpose.Scope

/-- The first method of the declaring type that a container can have been made for. -/
def origin? (parent t : TypeDecl) (name : String) : Option MethodDecl :=
  (parent.methods.filter (·.name == name)).find? (Container.isFor t)

/-- A type is woven, given the type that declares it if it is nested. -/
def weavesType (parent : Option TypeDecl) (t : TypeDecl) : Bool :=
  if t.hasAttribute exclusionMarker then false
  else if !t.isGenerated then true
  else
    match parent, Container.originName? t.name with
    | some p, some name =>
      match origin? p t name with
      | some m => !m.hasAttribute exclusionMarker
      | none => true
    | _, _ => true

/-- A method of a type is woven. -/
def weavesMethod (t : TypeDecl) (m : MethodDecl) : Bool :=
  if m.hasAttribute exclusionMarker then false
  else
    match t.propertyAccessedBy? m.name with
    | some p => !p.hasAttribute exclusionMarker
    | none => true

end Interpose.Scope
