import Interpose.Proofs.Assignability
import Interpose.Proofs.RoundTrip
import Interpose.Proofs.StaleUnits

/-!
Which types are collected for a unit.

A resolver that has read nothing goes from a unit along references, through every unit that is found
and can be read, and never back through the unit itself. Main statement: it collects the types of
exactly the units that are reached this way, so what is missing or unreadable hides nothing else.
Where a name is declared once, its relations are those of that declaration, whatever the order of
references.
-/

namespace Interpose

/-! ### Types of a unit -/

namespace TypeDecl

variable {t s : TypeDecl}

/-- The type is this one, or nested in it at any depth. -/
def IsWithin (t s : TypeDecl) : Prop := ∃ path, s.nestedAt? path = some t

lemma isWithin_iff : t.IsWithin s ↔ t = s ∨ ∃ n ∈ s.nestedTypes, t.IsWithin n := by
  constructor
  · rintro ⟨_ | ⟨i, path⟩, h⟩
    · exact .inl (Option.some.inj h).symm
    · rw [nestedAt?] at h
      obtain ⟨n, hn, h⟩ := Option.bind_eq_some_iff.1 h
      exact .inr ⟨n, List.mem_of_getElem? hn, path, h⟩
  · rintro (rfl | ⟨n, hn, path, h⟩)
    · exact ⟨[], rfl⟩
    · obtain ⟨i, hi⟩ := List.mem_iff_getElem?.1 hn
      exact ⟨i :: path, by rw [nestedAt?, hi, Option.bind_some, h]⟩

/-- The walk over a forest comes to every type in it. -/
lemma mem_visit_iff {found work : List TypeDecl} :
    t ∈ visit found work ↔ t ∈ found ∨ ∃ s ∈ work, t.IsWithin s := by
  induction found, work using visit.induct with
  | case1 found => simp [visit]
  | case2 found s rest ih =>
    rw [visit, ih, List.exists_mem_cons_iff, isWithin_iff (s := s), List.mem_cons]
    simp only [List.mem_append, or_and_right, exists_or, or_assoc, or_left_comm]

end TypeDecl

namespace CompiledUnit

variable {u v : CompiledUnit} {t : TypeDecl}

lemma mem_allTypes_iff : t ∈ u.allTypes ↔ ∃ path, u.typeAt? path = some t := by
  rw [allTypes, TypeDecl.mem_visit_iff]
  constructor
  · rintro (h | ⟨s, hs, path, h⟩)
    · cases h
    · obtain ⟨i, hi⟩ := List.mem_iff_getElem?.1 hs
      exact ⟨i :: path, by rw [typeAt?, hi, Option.bind_some, h]⟩
  · rintro ⟨_ | ⟨i, path⟩, h⟩
    · cases h
    · rw [typeAt?] at h
      obtain ⟨s, hs, h⟩ := Option.bind_eq_some_iff.1 h
      exact .inr ⟨s, List.mem_of_getElem? hs, path, h⟩

/-- The same unit, but for the order of its references. -/
def ReferencesReordered (u v : CompiledUnit) : Prop :=
  ∃ references, u.references.Perm references ∧ v = { u with references := references }

lemma ReferencesReordered.name_eq (h : u.ReferencesReordered v) : v.name = u.name := by
  obtain ⟨references, order, rfl⟩ := h
  rfl

lemma ReferencesReordered.mem_references_iff (h : u.ReferencesReordered v) {name : String} :
    name ∈ u.references ↔ name ∈ v.references := by
  obtain ⟨references, order, rfl⟩ := h
  exact order.mem_iff

lemma ReferencesReordered.typeAt?_eq (h : u.ReferencesReordered v) (path : List Nat) :
    u.typeAt? path = v.typeAt? path := by
  obtain ⟨references, order, rfl⟩ := h
  cases path <;> rfl

end CompiledUnit

namespace Resolver

variable {r r' : Resolver} {fs fs' : Files} {u u' : CompiledUnit} {name : String} {t : TypeDecl}

/-! ### Units that are reached -/

/-- The unit in the file of a name, if there is such a file and a unit can be read from it. -/
def unitOnDisk? (r : Resolver) (fs : Files) (name : String) : Option CompiledUnit :=
  (r.findFile? fs name).bind fun p => (fs.readUnit p).toOption

/-- The references of a unit lead to the name, by way of units that can be read and without coming
to the unit itself. -/
inductive Reaches (r : Resolver) (fs : Files) (u : CompiledUnit) : String → Prop
  | first {name : String} (listed : name ∈ u.references) (other : name ≠ u.name) :
      Reaches r fs u name
  | next {via name : String} {v : CompiledUnit} (reached : Reaches r fs u via)
      (readable : r.unitOnDisk? fs via = some v) (listed : name ∈ v.references)
      (other : name ≠ u.name) : Reaches r fs u name

/-- A unit that is reached declares the type, nested to any depth. -/
def Declares (r : Resolver) (fs : Files) (u : CompiledUnit) (t : TypeDecl) : Prop :=
  ∃ name v path, r.Reaches fs u name ∧ r.unitOnDisk? fs name = some v ∧ v.typeAt? path = some t

/-- All declarations of the name in units that are reached give the same relations. -/
def DeclaredAlike (r : Resolver) (fs : Files) (u : CompiledUnit) (name : String) : Prop :=
  ∀ t t', r.Declares fs u t → r.Declares fs u t' → t.fullName = name → t'.fullName = name →
    t.declaration = t'.declaration

lemma unitOnDisk?_of_text {p : Path} {l : Location} {s : String} {v : CompiledUnit}
    (hfile : r.findFile? fs name = some p) (hf : fs.follow p = .ok l)
    (hn : fs.node? l = some (.file (.text s))) (hv : CompiledUnit.parse? s = some v) :
    r.unitOnDisk? fs name = some v := by
  rw [unitOnDisk?, hfile, Option.bind_some, Files.readUnit_of_text hf hn hv]
  rfl

/-- What is not kept yet is looked for in the files. -/
lemma toOption_lookup (hc : r.cached? name = none) :
    (r.lookup fs name).toOption = r.unitOnDisk? fs name := by
  rw [unitOnDisk?]
  rcases hf : r.findFile? fs name with _ | p
  · rw [lookup_of_missing hc hf]
    rfl
  · rw [lookup_of_file hc hf]
    rfl

lemma cached?_of_loaded (hr : r.loaded = []) (name : String) : r.cached? name = none := by
  rw [cached?, hr]
  rfl

lemma mem_references_iff (hr : r.loaded = []) {via : String} :
    name ∈ r.references fs via ↔ ∃ v, r.unitOnDisk? fs via = some v ∧ name ∈ v.references := by
  rw [references, ← toOption_lookup (cached?_of_loaded hr via)]
  rcases r.lookup fs via with e | v <;> simp [Except.toOption]

/-- The search goes where references lead. -/
lemma mem_reached_iff (hr : r.loaded = []) : name ∈ r.reached fs u ↔ r.Reaches fs u name := by
  rw [reached, NameGraph.mem_reach_iff]
  constructor
  · rintro ⟨m, hm, hs, hpath⟩
    induction hpath with
    | refl => exact .first hm (by simpa using hs)
    | tail _ hstep ih =>
      obtain ⟨v, hv, hlisted⟩ := (mem_references_iff hr).1 hstep.1
      exact .next ih hv hlisted (by simpa using hstep.2)
  · intro h
    induction h with
    | first listed other => exact ⟨_, listed, by simpa using other, .refl⟩
    | next reached readable listed other ih =>
      obtain ⟨m, hm, hs, hpath⟩ := ih
      have hnext := (mem_references_iff hr).2 ⟨_, readable, listed⟩
      exact ⟨m, hm, hs, hpath.tail ⟨hnext, by simpa using other⟩⟩

/-! ### Units that are kept -/

lemma resolver_collect_of_none {c : Collected} (unit : String) (hc : c.resolver.cached? name = none)
    (h : c.resolver.unitOnDisk? fs name = none) :
    (collect fs unit c name).resolver = c.resolver := by
  rw [← toOption_lookup hc] at h
  rcases (collect_step fs unit c name).2 with hr | ⟨v, hv, hr⟩
  · exact hr
  · rw [hv] at h
    cases h

lemma resolver_collect_of_some {c : Collected} {v : CompiledUnit} (unit : String)
    (hc : c.resolver.cached? name = none) (h : c.resolver.unitOnDisk? fs name = some v) :
    (collect fs unit c name).resolver =
      { c.resolver with loaded := c.resolver.loaded ++ [(name, v)] } := by
  rw [← toOption_lookup hc] at h
  rcases hv : c.resolver.lookup fs name with e | v'
  · rw [hv] at h
    cases h
  · rw [hv] at h
    cases h
    rw [collect, load, hv]
    exact if_neg (by simp [hc])


/-- Names that are not kept yet are kept in order, if a unit is read for them. -/
lemma loaded_foldl_collect (fs : Files) (unit : String) (names : List String) (c : Collected)
    (hn : names.Nodup) (hnew : ∀ name ∈ names, c.resolver.cached? name = none) :
    (names.foldl (collect fs unit) c).resolver.loaded = c.resolver.loaded ++
      names.filterMap fun name => (c.resolver.unitOnDisk? fs name).map (name, ·) := by
  induction names generalizing c with
  | nil => exact (List.append_nil _).symm
  | cons name names ih =>
    obtain ⟨hname, hn⟩ := List.nodup_cons.1 hn
    have hc := hnew name List.mem_cons_self
    have hrest (n : String) (h : n ∈ names) := hnew n (List.mem_cons_of_mem name h)
    rw [List.foldl_cons, List.filterMap_cons]
    rcases h : c.resolver.unitOnDisk? fs name with _ | v
    · have hsame := resolver_collect_of_none unit hc h
      rw [ih _ hn (by rwa [hsame]), hsame]
      rfl
    · have hkept := resolver_collect_of_some unit hc h
      rw [ih _ hn ?_, hkept]
      · simp [unitOnDisk?, findFile?]
      · intro n hmem
        rw [hkept, cached?_append, hrest n hmem]
        exact if_neg fun heq : name = n => hname (heq ▸ hmem)

/-- What is kept in the end: the units that are reached, in the order in which these are read. -/
lemma loaded_hierarchyFor (hr : r.loaded = []) :
    (r.hierarchyFor fs u).resolver.loaded =
      (r.reached fs u).filterMap fun name => (r.unitOnDisk? fs name).map (name, ·) := by
  rw [hierarchyFor, loaded_foldl_collect fs u.name _ _ (NameGraph.nodup_reach _ _ _)
    fun name _ => cached?_of_loaded hr name, hr]
  rfl

lemma mem_loaded_hierarchyFor (hr : r.loaded = []) {v : CompiledUnit} :
    (name, v) ∈ (r.hierarchyFor fs u).resolver.loaded ↔
      r.Reaches fs u name ∧ r.unitOnDisk? fs name = some v := by
  rw [loaded_hierarchyFor hr]
  simp [mem_reached_iff hr]

/-- No name is kept twice. -/
lemma nodup_loaded_hierarchyFor (hr : r.loaded = []) :
    ((r.hierarchyFor fs u).resolver.loaded.map (·.1)).Nodup := by
  have hnames : (r.hierarchyFor fs u).resolver.loaded.map (·.1) =
      (r.reached fs u).filter fun name => (r.unitOnDisk? fs name).isSome := by
    rw [loaded_hierarchyFor hr, List.map_filterMap, ← List.filterMap_eq_filter]
    congr 1
    funext name
    rcases h : r.unitOnDisk? fs name with _ | v <;> simp [h, Option.guard]
  rw [hnames]
  exact List.filter_sublist.nodup (NameGraph.nodup_reach _ _ _)

/-! ### Types that are collected -/

/-- The types of the units that are reached, in the order in which these are read. -/
def typesReached (r : Resolver) (fs : Files) (u : CompiledUnit) : List TypeDecl :=
  (r.reached fs u).flatMap fun name => (r.unitOnDisk? fs name).elim [] CompiledUnit.allTypes

lemma mem_typesReached_iff (hr : r.loaded = []) :
    t ∈ r.typesReached fs u ↔ r.Declares fs u t := by
  rw [typesReached, List.mem_flatMap]
  constructor
  · rintro ⟨name, hname, ht⟩
    rcases hv : r.unitOnDisk? fs name with _ | v
    · rw [hv] at ht
      cases ht
    · rw [hv] at ht
      obtain ⟨path, hpath⟩ := CompiledUnit.mem_allTypes_iff.1 ht
      exact ⟨name, v, path, (mem_reached_iff hr).1 hname, hv, hpath⟩
  · rintro ⟨name, v, path, hname, hv, hpath⟩
    refine ⟨name, (mem_reached_iff hr).2 hname, ?_⟩
    rw [hv]
    exact CompiledUnit.mem_allTypes_iff.2 ⟨path, hpath⟩

lemma addFound_eq (h : Hierarchy) (x : Except Fault CompiledUnit) :
    addFound h x = h.addTypes (x.toOption.elim [] CompiledUnit.allTypes) := by
  rcases x with e | v <;> rfl

/-- What is collected are the types of the units that are reached. -/
lemma hierarchy_eq (hr : r.loaded = []) :
    (r.hierarchyFor fs u).hierarchy = Hierarchy.empty.addTypes (r.typesReached fs u) := by
  have hstep (h : Hierarchy) (name : String) : addFound h (r.outline fs name) =
      h.addTypes ((r.unitOnDisk? fs name).elim [] CompiledUnit.allTypes) := by
    rw [outline, addFound_map, addFound_eq, toOption_lookup (cached?_of_loaded hr name)]
  rw [hierarchyFor, hierarchy_foldl_collect, typesReached, reached, Hierarchy.addTypes,
    List.foldl_flatMap]
  simp only [hstep]
  rfl

lemma find?_hierarchyFor (hr : r.loaded = []) (name : String) :
    (r.hierarchyFor fs u).hierarchy.find? name =
      (Hierarchy.declarationsOf name
        ((r.typesReached fs u).map TypeDecl.declaration)).getLast? := by
  rw [hierarchy_eq hr, Hierarchy.addTypes_eq, Hierarchy.find?_foldl_insert]
  exact Option.or_none

/-- Relations that are recorded have been declared. -/
lemma exists_declares_of_find? (hr : r.loaded = []) {rel : TypeRelations}
    (h : (r.hierarchyFor fs u).hierarchy.find? name = some rel) :
    ∃ t, r.Declares fs u t ∧ t.declaration = (name, rel) := by
  rw [find?_hierarchyFor hr] at h
  have hmem := Hierarchy.mem_declarationsOf.1 (List.mem_of_getLast? h)
  obtain ⟨t, ht, hdecl⟩ := List.mem_map.1 hmem
  exact ⟨t, (mem_typesReached_iff hr).1 ht, hdecl⟩

/-- Relations are recorded for what is declared. -/
lemma exists_find?_of_declares (hr : r.loaded = []) (h : r.Declares fs u t) :
    ∃ rel, (r.hierarchyFor fs u).hierarchy.find? t.fullName = some rel := by
  have hmem : (⟨t.baseType, t.interfaces⟩ : TypeRelations) ∈ Hierarchy.declarationsOf t.fullName
      ((r.typesReached fs u).map TypeDecl.declaration) :=
    Hierarchy.mem_declarationsOf.2 (List.mem_map_of_mem ((mem_typesReached_iff hr).2 h))
  rw [find?_hierarchyFor hr]
  exact ⟨_, List.getLast?_eq_some_getLast (List.ne_nil_of_mem hmem)⟩

lemma contains_hierarchyFor (hr : r.loaded = []) :
    (r.hierarchyFor fs u).hierarchy.contains name = true ↔
      ∃ t, r.Declares fs u t ∧ t.fullName = name := by
  rw [Hierarchy.contains, Option.isSome_iff_exists]
  constructor
  · rintro ⟨rel, h⟩
    obtain ⟨t, ht, hdecl⟩ := exists_declares_of_find? hr h
    exact ⟨t, ht, congrArg Prod.fst hdecl⟩
  · rintro ⟨t, ht, rfl⟩
    exact exists_find?_of_declares hr ht

lemma find?_of_declares (hr : r.loaded = []) (h : r.Declares fs u t)
    (halike : r.DeclaredAlike fs u t.fullName) :
    (r.hierarchyFor fs u).hierarchy.find? t.fullName = some ⟨t.baseType, t.interfaces⟩ := by
  obtain ⟨rel, hrel⟩ := exists_find?_of_declares hr h
  obtain ⟨s, hs, hdecl⟩ := exists_declares_of_find? hr hrel
  have hsame : s.declaration = t.declaration := halike s t hs h (congrArg Prod.fst hdecl) rfl
  have hrels : rel = ⟨t.baseType, t.interfaces⟩ := congrArg Prod.snd (hdecl.symm.trans hsame)
  rw [hrel, hrels]

/-- Names are declared alike if none of them is declared twice. -/
lemma declaredAlike_of_nodup {ts : List TypeDecl} (hts : ∀ t, r.Declares fs u t → t ∈ ts)
    (hn : (ts.map (·.fullName)).Nodup) (name : String) : r.DeclaredAlike fs u name := by
  intro t t' ht ht' hname hname'
  rw [List.inj_on_of_nodup_map hn (hts t ht) (hts t' ht') (hname.trans hname'.symm)]

/-! ### References in another order -/

/-- Each unit that is reached in the files of `fs` lies in those of `fs'` too, but for the order of
its references. -/
def Reorders (r : Resolver) (fs : Files) (u : CompiledUnit) (r' : Resolver) (fs' : Files) : Prop :=
  ∀ name, r.Reaches fs u name → Option.Rel CompiledUnit.ReferencesReordered
    (r.unitOnDisk? fs name) (r'.unitOnDisk? fs' name)

/-- What does not depend on the order of references holds of both units or of none. -/
lemma exists_some_iff_of_rel {P : CompiledUnit → Prop} {x y : Option CompiledUnit}
    (h : Option.Rel CompiledUnit.ReferencesReordered x y)
    (hP : ∀ v v', CompiledUnit.ReferencesReordered v v' → (P v ↔ P v')) :
    (∃ v, x = some v ∧ P v) ↔ ∃ v, y = some v ∧ P v := by
  cases h with
  | some h => simpa using hP _ _ h
  | none => simp

lemma reaches_congr (hu : u.ReferencesReordered u') (ho : r.Reorders fs u r' fs') :
    r'.Reaches fs' u' name ↔ r.Reaches fs u name := by
  have hname := hu.name_eq
  have hlisted (via name : String) (h : r.Reaches fs u via) :=
    exists_some_iff_of_rel (P := fun v => name ∈ v.references) (ho via h)
      fun _ _ horder => horder.mem_references_iff
  constructor
  · intro h
    induction h with
    | first listed other => exact .first (hu.mem_references_iff.2 listed) (hname ▸ other)
    | next _ readable listed other ih =>
      obtain ⟨v, hv, hmem⟩ := (hlisted _ _ ih).2 ⟨_, readable, listed⟩
      exact .next ih hv hmem (hname ▸ other)
  · intro h
    induction h with
    | first listed other => exact .first (hu.mem_references_iff.1 listed) (hname.symm ▸ other)
    | next reached readable listed other ih =>
      obtain ⟨v, hv, hmem⟩ := (hlisted _ _ reached).1 ⟨_, readable, listed⟩
      exact .next ih hv hmem (hname.symm ▸ other)

lemma declares_congr (hu : u.ReferencesReordered u') (ho : r.Reorders fs u r' fs') (t : TypeDecl) :
    r'.Declares fs' u' t ↔ r.Declares fs u t := by
  have hdeclared (name : String) (path : List Nat) (h : r.Reaches fs u name) :=
    exists_some_iff_of_rel (P := fun v => v.typeAt? path = some t) (ho name h)
      fun _ _ horder => by rw [horder.typeAt?_eq]
  constructor
  · rintro ⟨name, v, path, hreach, hv⟩
    have hreach' := (reaches_congr hu ho).1 hreach
    obtain ⟨v', hv'⟩ := (hdeclared name path hreach').2 ⟨v, hv⟩
    exact ⟨name, v', path, hreach', hv'⟩
  · rintro ⟨name, v, path, hreach, hv⟩
    obtain ⟨v', hv'⟩ := (hdeclared name path hreach).1 ⟨v, hv⟩
    exact ⟨name, v', path, (reaches_congr hu ho).2 hreach, hv'⟩

/-- Names that are declared alike have the same relations in both orders. -/
lemma find?_hierarchyFor_congr (hr : r.loaded = []) (hr' : r'.loaded = [])
    (hu : u.ReferencesReordered u') (ho : r.Reorders fs u r' fs')
    (halike : r.DeclaredAlike fs u name) :
    (r'.hierarchyFor fs' u').hierarchy.find? name =
      (r.hierarchyFor fs u).hierarchy.find? name := by
  rcases h : (r.hierarchyFor fs u).hierarchy.find? name with _ | rel
  · rcases h' : (r'.hierarchyFor fs' u').hierarchy.find? name with _ | rel'
    · rfl
    · -- what is declared in one order is declared in the other
      obtain ⟨t, ht, hdecl⟩ := exists_declares_of_find? hr' h'
      obtain ⟨rel, hrel⟩ := exists_find?_of_declares hr ((declares_congr hu ho t).1 ht)
      obtain rfl : t.fullName = name := congrArg Prod.fst hdecl
      rw [h] at hrel
      cases hrel
  · obtain ⟨t, ht, hdecl⟩ := exists_declares_of_find? hr h
    obtain rfl : t.fullName = name := congrArg Prod.fst hdecl
    have halike' : r'.DeclaredAlike fs' u' t.fullName := fun s s' hs hs' =>
      halike s s' ((declares_congr hu ho s).1 hs) ((declares_congr hu ho s').1 hs')
    rw [← h, find?_of_declares hr ht halike,
      find?_of_declares hr' ((declares_congr hu ho t).2 ht) halike']

/-- **What is collected for a unit**: a resolver that has read nothing ends up with the units that
are reached and can be read, each read once, even if references lead in circles. It knows a type
name then exactly if one of these units declares a type of this full name, at any depth. If all
declarations of the name are alike, as when there is only one, their relations are recorded, and
these stay the same when the references of any unit are put into another order. -/
theorem hierarchyFor_collects {r : Resolver} (hr : r.loaded = []) (fs : Files) (u : CompiledUnit) :
    (((r.hierarchyFor fs u).resolver.loaded.map (·.1)).Nodup ∧
      ∀ name v, (name, v) ∈ (r.hierarchyFor fs u).resolver.loaded ↔
        r.Reaches fs u name ∧ r.unitOnDisk? fs name = some v) ∧
    (∀ name, (r.hierarchyFor fs u).hierarchy.contains name = true ↔
      ∃ t, r.Declares fs u t ∧ t.fullName = name) ∧
    (∀ t, r.Declares fs u t → r.DeclaredAlike fs u t.fullName →
      (r.hierarchyFor fs u).hierarchy.find? t.fullName = some ⟨t.baseType, t.interfaces⟩) ∧
    ∀ (r' : Resolver) (fs' : Files) (u' : CompiledUnit), r'.loaded = [] →
      u.ReferencesReordered u' → r.Reorders fs u r' fs' →
      ∀ name, (r'.hierarchyFor fs' u').hierarchy.contains name =
          (r.hierarchyFor fs u).hierarchy.contains name ∧
        (r.DeclaredAlike fs u name → (r'.hierarchyFor fs' u').hierarchy.find? name =
          (r.hierarchyFor fs u).hierarchy.find? name) := by
  refine ⟨⟨nodup_loaded_hierarchyFor hr, fun name v => mem_loaded_hierarchyFor hr⟩,
    fun name => contains_hierarchyFor hr, fun t => find?_of_declares hr, ?_⟩
  intro r' fs' u' hr' hu ho name
  refine ⟨?_, find?_hierarchyFor_congr hr hr' hu ho⟩
  rw [Bool.eq_iff_iff, contains_hierarchyFor hr', contains_hierarchyFor hr]
  simp only [declares_congr hu ho]

/-! #### Units that refer to each other, and to some that cannot be read -/

/-- A list, or the same the other way round. -/
def turnedIf (turned : Bool) (names : List String) : List String :=
  if turned then names.reverse else names

lemma turnedIf_perm (turned : Bool) (names : List String) :
    (turnedIf false names).Perm (turnedIf turned names) := by
  cases turned with
  | false => exact .refl names
  | true => exact (List.reverse_perm names).symm

def gameUnit (turned : Bool) : CompiledUnit := ⟨"Game", [], turnedIf turned ["Net", "Lost"], []⟩

/-- Its one type has another nested in it. -/
def netUnit (turned : Bool) : CompiledUnit :=
  ⟨"Net", [], turnedIf turned ["Base", "Lost", "Game"],
    [{ (TypeDecl.ofName "Net" "Client").addNested (.ofName "" "Pool") with
      baseType := some "Base.Resource" }]⟩

def baseUnit (turned : Bool) : CompiledUnit :=
  ⟨"Base", [], turnedIf turned ["Net", "Torn"],
    [{ TypeDecl.ofName "Base" "Resource" with interfaces := ["System.IDisposable"] }]⟩

/-- The first two units refer to each other; what should be the third is no text. -/
def circle (turned : Bool) : Files :=
  ⟨["home", "game"],
    [(["lib"], .directory), (["lib", "Net.json"], .file (.text (netUnit turned).render)),
      (["lib", "Torn.json"], .file (.bytes [255])),
      (["home", "Base.json"], .file (.text (baseUnit turned).render))]⟩

/-- Looks into a directory below the root, and into the one above the working directory. -/
def libraries : Resolver := ⟨[⟨"/lib"⟩, ⟨".."⟩], []⟩

lemma unitOnDisk?_net (turned : Bool) :
    libraries.unitOnDisk? (circle turned) "Net" = some (netUnit turned) := by
  refine unitOnDisk?_of_text (by rfl) (by rfl) (by rfl)
    (CompiledUnit.parse?_render_iff.2 ⟨by cases turned <;> decide, ?_⟩)
  simp [netUnit, CompiledUnit.Fits, TypeDecl.AllFit, TypeDecl.Fits, TypeDecl.ofName,
    TypeDecl.addNested, TypeDecl.withFullName, TypeDecl.withOuterName]

lemma unitOnDisk?_base (turned : Bool) :
    libraries.unitOnDisk? (circle turned) "Base" = some (baseUnit turned) := by
  refine unitOnDisk?_of_text (by rfl) (by rfl) (by rfl)
    (CompiledUnit.parse?_render_iff.2 ⟨by cases turned <;> decide, ?_⟩)
  simp [baseUnit, CompiledUnit.Fits, TypeDecl.AllFit, TypeDecl.Fits, TypeDecl.ofName]

lemma unitOnDisk?_lost (turned : Bool) :
    libraries.unitOnDisk? (circle turned) "Lost" = none := by rfl

lemma unitOnDisk?_torn (turned : Bool) :
    libraries.unitOnDisk? (circle turned) "Torn" = none := by rfl

/-- The names that are reached in this circle. -/
lemma mem_of_reaches_circle (h : libraries.Reaches (circle false) (gameUnit false) name) :
    name = "Net" ∨ name = "Base" ∨ name = "Lost" ∨ name = "Torn" := by
  induction h with
  | @first name listed _ =>
    have hname : name = "Net" ∨ name = "Lost" := by simpa [gameUnit, turnedIf] using listed
    tauto
  | @next via name v _ readable listed other ih =>
    rcases ih with rfl | rfl | rfl | rfl
    · cases (unitOnDisk?_net false).symm.trans readable
      have hname : name = "Base" ∨ name = "Lost" ∨ name = "Game" := by
        simpa [netUnit, turnedIf] using listed
      have hother : name ≠ "Game" := other
      tauto
    · cases (unitOnDisk?_base false).symm.trans readable
      have hname : name = "Net" ∨ name = "Torn" := by simpa [baseUnit, turnedIf] using listed
      tauto
    · cases (unitOnDisk?_lost false).symm.trans readable
    · cases (unitOnDisk?_torn false).symm.trans readable

lemma reorders_circle :
    libraries.Reorders (circle false) (gameUnit false) libraries (circle true) := by
  intro name h
  rcases mem_of_reaches_circle h with rfl | rfl | rfl | rfl
  · rw [unitOnDisk?_net, unitOnDisk?_net]
    exact .some ⟨_, turnedIf_perm true _, rfl⟩
  · rw [unitOnDisk?_base, unitOnDisk?_base]
    exact .some ⟨_, turnedIf_perm true _, rfl⟩
  · rw [unitOnDisk?_lost, unitOnDisk?_lost]
    exact .none
  · rw [unitOnDisk?_torn, unitOnDisk?_torn]
    exact .none

/-- All that is declared in this circle. -/
def circleTypes : List TypeDecl := (netUnit false).allTypes ++ (baseUnit false).allTypes

lemma mem_of_declares_circle (h : libraries.Declares (circle false) (gameUnit false) t) :
    t ∈ circleTypes := by
  obtain ⟨name, v, path, hreach, hv, ht⟩ := h
  have hmem := CompiledUnit.mem_allTypes_iff.2 ⟨path, ht⟩
  rcases mem_of_reaches_circle hreach with rfl | rfl | rfl | rfl
  · cases (unitOnDisk?_net false).symm.trans hv
    exact List.mem_append_left _ hmem
  · cases (unitOnDisk?_base false).symm.trans hv
    exact List.mem_append_right _ hmem
  · cases (unitOnDisk?_lost false).symm.trans hv
  · cases (unitOnDisk?_torn false).symm.trans hv

lemma fullNames_circleTypes :
    circleTypes.map (·.fullName) = ["Net.Client", "Net.Client/Pool", "Base.Resource"] := by
  simp [circleTypes, CompiledUnit.allTypes, TypeDecl.visit, netUnit, baseUnit, TypeDecl.ofName,
    TypeDecl.addNested, TypeDecl.withFullName, TypeDecl.withOuterName]

lemma declaredAlike_circle (name : String) :
    libraries.DeclaredAlike (circle false) (gameUnit false) name :=
  declaredAlike_of_nodup (fun _ => mem_of_declares_circle) (by rw [fullNames_circleTypes]; decide)
    name

/-- In both orders the nested type is known and the relations of its base are recorded, past a unit
that is missing and one that cannot be read; the types of what cannot be reached are not known. -/
theorem hierarchyFor_collects_circle :
    (libraries.hierarchyFor (circle false) (gameUnit false)).hierarchy.contains
      "Net.Client/Pool" = true ∧
    (libraries.hierarchyFor (circle true) (gameUnit true)).hierarchy.contains
      "Net.Client/Pool" = true ∧
    (libraries.hierarchyFor (circle false) (gameUnit false)).hierarchy.find? "Base.Resource" =
      some ⟨none, ["System.IDisposable"]⟩ ∧
    (libraries.hierarchyFor (circle true) (gameUnit true)).hierarchy.find? "Base.Resource" =
      some ⟨none, ["System.IDisposable"]⟩ ∧
    (libraries.hierarchyFor (circle false) (gameUnit false)).hierarchy.contains
      "Lost.Type" = false := by
  obtain ⟨-, hcontains, hfind, horder⟩ :=
    hierarchyFor_collects (r := libraries) rfl (circle false) (gameUnit false)
  have hturned := horder libraries (circle true) (gameUnit true) rfl ⟨_, turnedIf_perm true _, rfl⟩
    reorders_circle
  have hnet : libraries.Reaches (circle false) (gameUnit false) "Net" :=
    .first (by decide) (by decide)
  have hbase : libraries.Reaches (circle false) (gameUnit false) "Base" :=
    .next hnet (unitOnDisk?_net false) (by decide) (by decide)
  have hpool := (hcontains "Net.Client/Pool").2
    ⟨_, ⟨"Net", _, [0, 0], hnet, unitOnDisk?_net false, rfl⟩, by decide⟩
  have hresource := hfind _ ⟨"Base", _, [0], hbase, unitOnDisk?_base false, rfl⟩
    (declaredAlike_circle _)
  have hlost :
      (libraries.hierarchyFor (circle false) (gameUnit false)).hierarchy.contains "Lost.Type" =
        false := by
    rw [Bool.eq_false_iff]
    intro h
    obtain ⟨t, ht, hname⟩ := (hcontains "Lost.Type").1 h
    have hmem := List.mem_map_of_mem (f := TypeDecl.fullName) (mem_of_declares_circle ht)
    rw [hname] at hmem
    exact absurd (fullNames_circleTypes ▸ hmem) (by decide)
  exact ⟨hpool, (hturned _).1.trans hpool, hresource,
    ((hturned _).2 (declaredAlike_circle _)).trans hresource, hlost⟩

end Resolver

end Interpose
