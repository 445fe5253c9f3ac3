import Interpose.Proofs.FileChanges
import Interpose.Proofs.Outline
import Interpose.Resolver

/-!
What a unit sees of the units that it refers to.

A hierarchy is collected from what the found units declare. Overwriting a file with a woven form of
the unit that it holds changes no declaration, and the units that a resolver keeps declare what their
files declare. Main statement: under these two conditions a unit gets the same hierarchy, whichever
units have been woven or kept before.
-/

namespace Interpose

/-! ### Files that hold the same declarations -/

/-- What can be seen of a node without bodies: the outline of the unit that it holds, or else the
node. -/
def Node.outline : Node → CompiledUnit ⊕ Node
  | .file (.text s) =>
    match CompiledUnit.parse? s with
    | some u => .inl u.bodiless
    | none => .inr (.file (.text s))
  | n => .inr n

namespace Files

variable {fs fs' fs'' : Files} {p : Path} {l : Location}

/-- The same is seen at every location without bodies. -/
structure SameOutlines (fs fs' : Files) : Prop where
  workingDirectory : fs.workingDirectory = fs'.workingDirectory
  outline : ∀ l, (fs.node? l).map Node.outline = (fs'.node? l).map Node.outline

lemma SameOutlines.refl (fs : Files) : SameOutlines fs fs := ⟨rfl, fun _ => rfl⟩

lemma SameOutlines.symm (h : SameOutlines fs fs') : SameOutlines fs' fs :=
  ⟨h.workingDirectory.symm, fun l => (h.outline l).symm⟩

lemma SameOutlines.trans (h : SameOutlines fs fs') (h' : SameOutlines fs' fs'') :
    SameOutlines fs fs'' :=
  ⟨h.workingDirectory.trans h'.workingDirectory, fun l => (h.outline l).trans (h'.outline l)⟩

/-- A node is a directory exactly if its outline is. -/
lemma isDirectory_eq (n : Node) :
    n.isDirectory = n.outline.elim (fun _ => false) Node.isDirectory := by
  rcases n with ⟨s | bs⟩ | _
  · rcases h : CompiledUnit.parse? s with _ | u <;> simp [Node.outline, h, Node.isDirectory]
  · rfl
  · rfl

lemma SameOutlines.sameTree (h : SameOutlines fs fs') : SameTree fs fs' := by
  have hdir : Node.isDirectory = (Sum.elim (fun _ => false) Node.isDirectory) ∘ Node.outline :=
    funext isDirectory_eq
  refine ⟨h.workingDirectory, fun l => ?_⟩
  rw [hdir, ← Option.map_map, ← Option.map_map, h.outline l]

/-- The outline of what is read at a path, told from the outline of the node there. -/
lemma map_readUnit_of_follow (h : fs.follow p = .ok l) :
    (fs.readUnit p).map CompiledUnit.bodiless =
      match (fs.node? l).map Node.outline with
      | none => .error (fault p .notFound)
      | some (.inl u) => .ok u
      | some (.inr .directory) => .error (fault p .isADirectory)
      | some (.inr (.file (.bytes _))) => .error (fault p .notText)
      | some (.inr (.file (.text _))) =>
        .error (.malformedDocument p "the text is no document of this kind") := by
  rw [readUnit, readDocument, read_of_follow h]
  rcases fs.node? l with _ | ⟨s | bs⟩ | _
  · rfl
  · rcases hu : CompiledUnit.parse? s with _ | u
    · have hparse : Document.parse? CompiledUnit.ofJson? s = none := hu
      simp [hparse, Node.outline, hu, Except.map]
    · have hparse : Document.parse? CompiledUnit.ofJson? s = some u := hu
      simp [hparse, Node.outline, hu, Except.map]
  · rfl
  · rfl

/-- Where the same is seen, units of the same outlines are read. -/
lemma SameOutlines.readUnit (h : SameOutlines fs fs') (p : Path) :
    (fs.readUnit p).map CompiledUnit.bodiless = (fs'.readUnit p).map CompiledUnit.bodiless := by
  rcases hf : fs'.follow p with f | l
  · have hf' : fs.follow p = .error f := by rw [follow_congr h.sameTree, hf]
    rw [Files.readUnit, Files.readUnit, readDocument, readDocument, read, read, hf, hf']
    rfl
  · have hf' : fs.follow p = .ok l := by rw [follow_congr h.sameTree, hf]
    rw [map_readUnit_of_follow hf', map_readUnit_of_follow hf, h.outline l]

/-- A unit that is read lies as a text in a file. -/
lemma exists_text_of_readUnit {u : CompiledUnit} (h : fs.readUnit p = .ok u) :
    ∃ l s, fs.follow p = .ok l ∧ fs.node? l = some (.file (.text s)) ∧
      CompiledUnit.parse? s = some u := by
  unfold Files.readUnit readDocument at h
  split at h
  · cases h
  · next s hs =>
    obtain ⟨l, hf, hn⟩ := exists_file_of_read hs
    refine ⟨l, s, hf, hn, ?_⟩
    split at h
    · cases h
    · next u' hu =>
      cases h
      exact hu

lemma readUnit_of_text {s : String} {u : CompiledUnit} (hf : fs.follow p = .ok l)
    (hn : fs.node? l = some (.file (.text s))) (hu : CompiledUnit.parse? s = some u) :
    fs.readUnit p = .ok u := by
  have hparse : Document.parse? CompiledUnit.ofJson? s = some u := hu
  rw [Files.readUnit, readDocument, read_of_follow hf, hn]
  simp [hparse]

/-- A unit may be overwritten with one of the same outline. -/
lemma sameOutlines_insert {s s' : String} {u v : CompiledUnit}
    (hn : fs.node? l = some (.file (.text s))) (hu : CompiledUnit.parse? s = some u)
    (hv : CompiledUnit.parse? s' = some v) (huv : v.bodiless = u.bodiless) :
    SameOutlines fs (fs.insert l (.file (.text s'))) := by
  refine ⟨(workingDirectory_insert fs l _).symm, fun l' => ?_⟩
  by_cases hl : l' = l
  · rw [hl, hn, node?_insert_self (by simp [hn])]
    simp [Node.outline, hu, hv, huv]
  · rw [node?_insert_of_ne hl]

end Files

/-! ### What a resolver tells -/

namespace Resolver

open Files (SameOutlines)

variable {r r' : Resolver} {fs fs' : Files}

/-- The outline of the unit that is found under a name. -/
def outline (r : Resolver) (fs : Files) (name : String) : Except Fault CompiledUnit :=
  (r.lookup fs name).map CompiledUnit.bodiless

/-- The resolver with no unit read. -/
def forgetAll (r : Resolver) : Resolver := { r with loaded := [] }

/-- What has been read declares the same as what would be found now. -/
def Agrees (r : Resolver) (fs : Files) : Prop :=
  ∀ name u, r.cached? name = some u → r.forgetAll.outline fs name = .ok u.bodiless

lemma lookup_of_cached {name : String} {u : CompiledUnit} (h : r.cached? name = some u) :
    r.lookup fs name = .ok u := by
  rw [lookup, h]

lemma lookup_of_not_cached {name : String} (h : r.cached? name = none) :
    r.lookup fs name = r.forgetAll.lookup fs name := by
  rw [lookup, h]
  rfl

lemma Agrees.outline_eq (h : r.Agrees fs) (name : String) :
    r.outline fs name = r.forgetAll.outline fs name := by
  rcases hc : r.cached? name with _ | u
  · rw [outline, lookup_of_not_cached hc, outline]
  · rw [outline, lookup_of_cached hc, h name u hc]
    rfl

lemma findFile?_congr (ht : Files.SameTree fs fs') (hp : r.searchPaths = r'.searchPaths)
    (name : String) : r.findFile? fs name = r'.findFile? fs' name := by
  rw [findFile?, findFile?, hp, funext (Files.has_congr ht)]

lemma lookup_of_missing {name : String} (hc : r.cached? name = none)
    (hf : r.findFile? fs name = none) : r.lookup fs name = .error (.unitNotFound name) := by
  rw [lookup, hc, hf]

lemma lookup_of_file {name : String} {p : Path} (hc : r.cached? name = none)
    (hf : r.findFile? fs name = some p) : r.lookup fs name = fs.readUnit p := by
  rw [lookup, hc, hf]

/-- Where the same is seen in the same directories, names lead to the same outlines. -/
lemma outline_forgetAll_congr (ho : SameOutlines fs fs') (hp : r.searchPaths = r'.searchPaths)
    (name : String) : r.forgetAll.outline fs name = r'.forgetAll.outline fs' name := by
  have hfile : r.forgetAll.findFile? fs name = r'.forgetAll.findFile? fs' name :=
    findFile?_congr ho.sameTree hp name
  rcases hf : r'.forgetAll.findFile? fs' name with _ | p
  · rw [outline, outline, lookup_of_missing rfl (hfile.trans hf), lookup_of_missing rfl hf]
  · rw [outline, outline, lookup_of_file rfl (hfile.trans hf), lookup_of_file rfl hf]
    exact ho.readUnit p

/-- Agreement is with what is seen, not with the bodies. -/
lemma Agrees.congr (h : r.Agrees fs) (ho : SameOutlines fs fs') : r.Agrees fs' :=
  fun name u hc => by rw [← outline_forgetAll_congr ho rfl, h name u hc]

lemma cached?_append (r : Resolver) (name name' : String) (u : CompiledUnit) :
    ({ r with loaded := r.loaded ++ [(name, u)] } : Resolver).cached? name' =
      (r.cached? name').or (if name = name' then some u else none) := by
  have hone : ([(name, u)].find? (·.1 == name')).map (·.2) =
      if name = name' then some u else none := by
    by_cases h : name = name' <;> simp [h]
  rw [cached?, List.find?_append, Option.map_or, hone]
  rfl

/-- Keeping what is found changes nothing that is found. -/
lemma lookup_keep {name : String} {u : CompiledUnit} (h : r.lookup fs name = .ok u)
    (name' : String) : (r.keep name u).lookup fs name' = r.lookup fs name' := by
  unfold keep
  split
  · rfl
  · rw [lookup, cached?_append]
    rcases hc : r.cached? name' with _ | v
    · by_cases hn : name = name'
      · subst hn
        rw [if_pos rfl, h]
        rfl
      · rw [if_neg hn, lookup_of_not_cached hc]
        rfl
    · rw [lookup_of_cached hc]
      rfl

lemma searchPaths_keep (r : Resolver) (name : String) (u : CompiledUnit) :
    (r.keep name u).searchPaths = r.searchPaths := by
  unfold keep
  split <;> rfl

lemma Agrees.keep (h : r.Agrees fs) {name : String} {u : CompiledUnit}
    (hu : r.lookup fs name = .ok u) : (r.keep name u).Agrees fs := by
  intro name' v hc
  have hforget : (r.keep name u).forgetAll = r.forgetAll := by
    rw [forgetAll, searchPaths_keep]
    rfl
  have hv : r.lookup fs name' = .ok v := by rw [← lookup_keep hu name', lookup_of_cached hc]
  rw [hforget, ← h.outline_eq name', outline, hv]
  rfl

lemma Agrees.invalidate (h : r.Agrees fs) (name : String) : (r.invalidate name).Agrees fs := by
  intro name' v hc
  have hold : r.cached? name' = some v := by
    unfold cached? Resolver.invalidate at hc
    rw [List.find?_filter] at hc
    obtain ⟨e, he, rfl⟩ := Option.map_eq_some_iff.1 hc
    have hkey : e.1 ≠ name ∧ e.1 = name' := by simpa using List.find?_some he
    have hsame : (fun e : String × CompiledUnit =>
        decide ((e.1 != name) = true ∧ (e.1 == name') = true)) = fun e => e.1 == name' := by
      funext e
      by_cases hen : e.1 = name'
      · simp [hen, ← hkey.2, hkey.1]
      · simp [hen]
    rw [hsame] at he
    rw [cached?, he]
    rfl
  exact h name' v hold

/-! ### Hierarchies -/

/-- Adds what is found under a name, if anything is. -/
def addFound (h : Hierarchy) : Except Fault CompiledUnit → Hierarchy
  | .ok u => h.addUnit u
  | .error _ => h

lemma addFound_map (h : Hierarchy) (x : Except Fault CompiledUnit) :
    addFound h (x.map CompiledUnit.bodiless) = addFound h x := by
  rcases x with e | u
  · rfl
  · exact Hierarchy.addUnit_bodiless h u

/-- What a step of the collection does: the hierarchy gets what is found, and the resolver finds
what it has found. -/
lemma collect_step (fs : Files) (unit : String) (c : Collected) (name : String) :
    (collect fs unit c name).hierarchy = addFound c.hierarchy (c.resolver.outline fs name) ∧
      ((collect fs unit c name).resolver = c.resolver ∨
        ∃ u, c.resolver.lookup fs name = .ok u ∧
          (collect fs unit c name).resolver = c.resolver.keep name u) := by
  rw [outline, addFound_map]
  rcases h : c.resolver.lookup fs name with e | u
  · have hload : c.resolver.load fs name = (c.resolver, .error e) := by rw [load, h]
    rw [collect, hload]
    exact ⟨rfl, .inl rfl⟩
  · have hload : c.resolver.load fs name = (c.resolver.keep name u, .ok u) := by rw [load, h]
    rw [collect, hload]
    exact ⟨rfl, .inr ⟨u, rfl, rfl⟩⟩

/-- The collection adds what is found under each name at the start. -/
lemma hierarchy_foldl_collect (fs : Files) (unit : String) (names : List String) (c : Collected) :
    (names.foldl (collect fs unit) c).hierarchy =
      names.foldl (fun h name => addFound h (c.resolver.outline fs name)) c.hierarchy := by
  induction names generalizing c with
  | nil => rfl
  | cons name names ih =>
    obtain ⟨hh, hr⟩ := collect_step fs unit c name
    have hsame : (collect fs unit c name).resolver.outline fs = c.resolver.outline fs := by
      funext name'
      rcases hr with hr | ⟨u, hu, hr⟩
      · rw [hr]
      · rw [hr, outline, lookup_keep hu, outline]
    rw [List.foldl_cons, ih, hh, hsame, List.foldl_cons]

/-- The resolver behind a collection looks into the same directories and still agrees. -/
lemma resolver_foldl_collect (fs : Files) (unit : String) (names : List String) (c : Collected)
    (h : c.resolver.Agrees fs) :
    (names.foldl (collect fs unit) c).resolver.searchPaths = c.resolver.searchPaths ∧
      (names.foldl (collect fs unit) c).resolver.Agrees fs := by
  induction names generalizing c with
  | nil => exact ⟨rfl, h⟩
  | cons name names ih =>
    rw [List.foldl_cons]
    rcases (collect_step fs unit c name).2 with hr | ⟨u, hu, hr⟩
    · rw [← hr] at h
      obtain ⟨hp, ha⟩ := ih _ h
      exact ⟨by rw [hp, hr], ha⟩
    · have hkeep := h.keep hu
      rw [← hr] at hkeep
      obtain ⟨hp, ha⟩ := ih _ hkeep
      exact ⟨by rw [hp, hr, searchPaths_keep], ha⟩

lemma references_eq (r : Resolver) (fs : Files) (name : String) :
    r.references fs name = match r.outline fs name with
      | .ok u => u.references
      | .error _ => [] := by
  rw [references, outline]
  rcases r.lookup fs name with e | u <;> rfl

/-- **One hierarchy**: it depends on what is found under each name, without bodies, and on the
declarations of the unit itself. -/
theorem hierarchyFor_congr {u v : CompiledUnit} (ho : r.outline fs = r'.outline fs')
    (huv : u.bodiless = v.bodiless) :
    (r.hierarchyFor fs u).hierarchy = (r'.hierarchyFor fs' v).hierarchy := by
  have hnext : r.references fs = r'.references fs' := by
    funext name
    rw [references_eq, references_eq, ho]
  have hgraph : r.graph fs = r'.graph fs' := by
    simp only [graph, hnext]
  rw [hierarchyFor, hierarchyFor, hierarchy_foldl_collect, hierarchy_foldl_collect, hgraph,
    CompiledUnit.name_congr huv, CompiledUnit.references_congr huv]
  simp only [ho]

end Resolver

end Interpose
