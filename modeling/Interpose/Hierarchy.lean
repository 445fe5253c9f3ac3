import Interpose.NameGraph
import Interpose.Unit.Basic

/-!
What is known of the types of a program: the base and the interfaces of each declared type.

A value of one type may be stored in a slot of another if a chain of bases and interfaces leads
there. The chain is looked for by a search, so declarations may form cycles and may name parents
that are not declared.
-/

namespace Interpose

structure TypeRelations where
  base : Option String
  interfaces : List String
  deriving DecidableEq, Repr

/-- The types that a value of the type is a value of, one step up. -/
def TypeRelations.parents (r : TypeRelations) : List String := r.base.toList ++ r.interfaces

/-- Declared types by name, each once. -/
structure Hierarchy where
  entries : List (String × TypeRelations)
  deriving Repr

namespace Hierarchy

def empty : Hierarchy := ⟨[]⟩

/-- The relations of a declared type. -/
def find? (h : Hierarchy) (name : String) : Option TypeRelations :=
  (h.entries.find? (·.1 == name)).map (·.2)

/-- Declares a type, in place of an earlier declaration of its name. -/
def insert (h : Hierarchy) (name : String) (r : TypeRelations) : Hierarchy :=
  if h.entries.any (·.1 == name) then
    ⟨h.entries.map fun e => if e.1 == name then (name, r) else e⟩
  else ⟨h.entries ++ [(name, r)]⟩

def declare (h : Hierarchy) (name : String) (base : Option String) (interfaces : List String) :
    Hierarchy :=
  h.insert name ⟨base, interfaces⟩

/-- Declares the types of a list by their full names. -/
def addTypes (h : Hierarchy) (ts : List TypeDecl) : Hierarchy :=
  ts.foldl (fun h t => h.insert t.fullName ⟨t.baseType, t.interfaces⟩) h

/-- Declares every type of a unit. -/
def addUnit (h : Hierarchy) (u : CompiledUnit) : Hierarchy := h.addTypes u.allTypes

/-- Takes over all declarations of another hierarchy. -/
def merge (h other : Hierarchy) : Hierarchy :=
  other.entries.foldl (fun h e => h.insert e.1 e.2) h

def contains (h : Hierarchy) (name : String) : Bool := (h.find? name).isSome

def size (h : Hierarchy) : Nat := h.entries.length

def isEmpty (h : Hierarchy) : Bool := h.entries.isEmpty

/-- The parents of a name; none if it is not declared. -/
def parents (h : Hierarchy) (name : String) : List String :=
  match h.find? name with
  | none => []
  | some r => r.parents

theorem parents_subset (h : Hierarchy) (name : String) :
    h.parents name ⊆ h.entries.flatMap (·.2.parents) := by
  intro p hp
  unfold parents find? at hp
  cases hf : h.entries.find? (·.1 == name) with
  | none => simp [hf] at hp
  | some e =>
    simp only [hf, Option.map_some] at hp
    exact List.mem_flatMap.2 ⟨e, List.mem_of_find?_eq_some hf, hp⟩

/-- The step up from a type to its parents, as a graph. -/
def graph (h : Hierarchy) : NameGraph := ⟨h.parents, _, h.parents_subset⟩

/-- A value of type `candidate` can be stored in a slot of type `target`. -/
def isAssignable (h : Hierarchy) (target candidate : String) : Bool :=
  (h.graph.reach [] [candidate]).contains target

/-- The types differ, and a value of `candidate` can be stored in a slot of type `target`. -/
def isStrictSupertype (h : Hierarchy) (target candidate : String) : Bool :=
  target != candidate && h.isAssignable target candidate

end Hierarchy

end Interpose
