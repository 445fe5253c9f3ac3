import Interpose.Hierarchy
import Interpose.Log
import Interpose.Unit.Document

/-!
Finding the units that a unit refers to.

A resolver looks for the file of a unit in a list of directories and keeps the units that it has
read. The relations of all units that can be reached through references make up the hierarchy that
a unit is woven in; units that cannot be found or read are left out.
-/

namespace Interpose

structure Resolver where
  /-- The directories to look into, in order; no two are equal. -/
  searchPaths : List Path
  /-- The units read so far, by the names that they were looked for. -/
  loaded : List (String × CompiledUnit)
  deriving Repr

namespace Resolver

def empty : Resolver := ⟨[], []⟩

def addSearchPath (r : Resolver) (p : Path) : Resolver :=
  if r.searchPaths.contains p then r else { r with searchPaths := r.searchPaths ++ [p] }

def unitExtension : String := "json"

def fileName (unit : String) : Path := ⟨unit ++ "." ++ unitExtension⟩

/-- The file of a unit in the first directory that has one. -/
def findFile? (r : Resolver) (fs : Files) (unit : String) : Option Path :=
  (r.searchPaths.map (·.join (fileName unit))).find? fs.has

def cached? (r : Resolver) (unit : String) : Option CompiledUnit :=
  (r.loaded.find? (·.1 == unit)).map (·.2)

/-- The unit of a name: the one read before, or else the one in its file. -/
def lookup (r : Resolver) (fs : Files) (unit : String) : Except Fault CompiledUnit :=
  match r.cached? unit with
  | some u => .ok u
  | none =>
    match r.findFile? fs unit with
    | none => .error (.unitNotFound unit)
    | some p => fs.readUnit p

/-- Keeps a unit that was found under a name, unless there is one. -/
def keep (r : Resolver) (unit : String) (u : CompiledUnit) : Resolver :=
  if (r.cached? unit).isSome then r else { r with loaded := r.loaded ++ [(unit, u)] }

def load (r : Resolver) (fs : Files) (unit : String) : Resolver × Except Fault CompiledUnit :=
  match r.lookup fs unit with
  | .ok u => (r.keep unit u, .ok u)
  | .error e => (r, .error e)

/-- Forgets a unit, so that it is read again. -/
def invalidate (r : Resolver) (unit : String) : Resolver :=
  { r with loaded := r.loaded.filter (·.1 != unit) }

/-! ### References -/

def references (r : Resolver) (fs : Files) (unit : String) : List String :=
  match r.lookup fs unit with
  | .ok u => u.references
  | .error _ => []

def nodeReferences : Node → List String
  | .file (.text s) =>
    match CompiledUnit.parse? s with
    | some u => u.references
    | none => []
  | _ => []

/-- The references of every unit that the resolver keeps or that lies in a file. -/
def allReferences (r : Resolver) (fs : Files) : List String :=
  r.loaded.flatMap (·.2.references) ++ fs.nodes.flatMap (nodeReferences ·.2)

theorem read_mem {fs : Files} {p : Path} {s : String} (h : fs.read p = .ok s) :
    ∃ e ∈ fs.nodes, e.2 = .file (.text s) := by
  unfold Files.read at h
  cases hp : fs.follow p with
  | error f => simp [hp, bind, Except.bind] at h
  | ok l =>
    simp only [hp, bind, Except.bind] at h
    cases hn : fs.node? l with
    | none => simp [hn] at h
    | some n =>
      match n, hn, h with
      | .directory, hn, h => simp [hn] at h
      | .file (.bytes _), hn, h => simp [hn] at h
      | .file (.text t), hn, h =>
        simp only [hn, Except.ok.injEq] at h
        subst h
        unfold Files.node? at hn
        split at hn
        · simp at hn
        · obtain ⟨e, he, hv⟩ := Option.map_eq_some_iff.1 hn
          exact ⟨e, List.mem_of_find?_eq_some he, hv⟩

theorem references_subset (r : Resolver) (fs : Files) (unit : String) :
    r.references fs unit ⊆ r.allReferences fs := by
  intro n hn
  unfold references at hn
  cases hl : r.lookup fs unit with
  | error e => simp [hl] at hn
  | ok u =>
    simp only [hl] at hn
    unfold lookup at hl
    cases hc : r.cached? unit with
    | some v =>
      -- the unit was read before
      simp only [hc, Except.ok.injEq] at hl
      subst hl
      obtain ⟨e, he, rfl⟩ := Option.map_eq_some_iff.1 hc
      exact List.mem_append_left _ (List.mem_flatMap.2 ⟨e, List.mem_of_find?_eq_some he, hn⟩)
    | none =>
      -- the unit lies in a file
      simp only [hc] at hl
      cases hf : r.findFile? fs unit with
      | none => simp [hf] at hl
      | some p =>
        simp only [hf, Files.readUnit, Files.readDocument] at hl
        cases hr : fs.read p with
        | error f => simp [hr] at hl
        | ok s =>
          simp only [hr] at hl
          obtain ⟨e, he, hs⟩ := read_mem hr
          refine List.mem_append_right _ (List.mem_flatMap.2 ⟨e, he, ?_⟩)
          cases hu : Document.parse? CompiledUnit.ofJson? s with
          | none => simp [hu] at hl
          | some v =>
            simp only [hu, Except.ok.injEq] at hl
            subst hl
            simpa [hs, nodeReferences, CompiledUnit.parse?, hu] using hn

/-- The step from a unit to those that it refers to, as a graph. -/
def graph (r : Resolver) (fs : Files) : NameGraph :=
  ⟨r.references fs, _, r.references_subset fs⟩

structure Collected where
  resolver : Resolver
  log : Log
  hierarchy : Hierarchy

/-- Adds the types of the unit of a name, which `unit` refers to. -/
def collect (fs : Files) (unit : String) (c : Collected) (name : String) : Collected :=
  match c.resolver.load fs name with
  | (r, .ok u) => ⟨r, c.log, c.hierarchy.addUnit u⟩
  | (r, .error e) => ⟨r, c.log ++ [⟨.debug, .referenceUnresolved name unit e⟩], c.hierarchy⟩

/-- The types of every unit that can be reached through references without passing through the
unit itself. -/
def hierarchyFor (r : Resolver) (fs : Files) (u : CompiledUnit) : Collected :=
  ((r.graph fs).reach [u.name] u.references).foldl (collect fs u.name) ⟨r, [], .empty⟩

end Resolver

end Interpose
