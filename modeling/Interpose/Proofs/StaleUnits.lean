import Interpose.Proofs.References
import Interpose.Proofs.Search

/-!
Kept units that are out of date, as one resolver sees them.

A kept unit is out of date if it declares something else than what is found under its name in the
files as they are now. Collecting a hierarchy keeps units without making any out of date; writing a
file does so to the units that are kept under the names that lead to it. Main statement: a resolver
finds what one that has read nothing would find exactly if nothing that is reached is out of date.
-/

namespace Interpose

open Files (SameTree)

/-! ### Units that are kept -/

namespace Resolver

variable {r r' : Resolver} {fs fs' : Files} {name : String} {u : CompiledUnit} {p : Path}

/-- A unit is kept under the name that declares something else than what is found there now. -/
def IsStale (r : Resolver) (fs : Files) (name : String) : Prop :=
  ∃ u, r.cached? name = some u ∧ r.forgetAll.outline fs name ≠ .ok u.bodiless

lemma outline_eq_iff : r.outline fs name = r.forgetAll.outline fs name ↔ ¬r.IsStale fs name := by
  rcases hc : r.cached? name with _ | u
  · refine iff_of_true ?_ ?_
    · rw [outline, lookup_of_not_cached hc, outline]
    · rintro ⟨u, hu, -⟩
      rw [hc] at hu
      cases hu
  · rw [outline, lookup_of_cached hc]
    constructor
    · rintro h ⟨v, hv, hne⟩
      rw [hc] at hv
      cases hv
      exact hne h.symm
    · intro h
      by_contra hne
      exact h ⟨u, hc, fun heq => hne heq.symm⟩

/-- The names that can be reached through the references of a unit. -/
def reached (r : Resolver) (fs : Files) (u : CompiledUnit) : List String :=
  (r.graph fs).reach [u.name] u.references

/-- What is found for a unit: the outlines under the names that it reaches. -/
def found (r : Resolver) (fs : Files) (u : CompiledUnit) :
    List (String × Except Fault CompiledUnit) :=
  (r.reached fs u).map fun name => (name, r.outline fs name)

/-- The hierarchy of a unit comes from what is found for it. -/
lemma hierarchy_congr (h : r.found fs u = r'.found fs' u) :
    (r.hierarchyFor fs u).hierarchy = (r'.hierarchyFor fs' u).hierarchy := by
  have hfound (r : Resolver) (fs : Files) : (r.hierarchyFor fs u).hierarchy =
      (r.found fs u).foldl (fun h e => addFound h e.2) .empty := by
    rw [found, List.foldl_map, reached, hierarchyFor, hierarchy_foldl_collect]
  rw [hfound, hfound, h]

/-- The same is found as by a resolver that has read nothing exactly if nothing reached is out of
date. -/
lemma found_eq_iff :
    r.found fs u = r.forgetAll.found fs u ↔ ∀ name ∈ r.reached fs u, ¬r.IsStale fs name := by
  constructor
  · intro h name hname
    have hmem : (name, r.outline fs name) ∈ r.forgetAll.found fs u := by
      rw [← h]
      exact List.mem_map_of_mem hname
    obtain ⟨name', -, heq⟩ := List.mem_map.1 hmem
    obtain ⟨rfl, heq⟩ := Prod.mk.injEq .. ▸ heq
    exact outline_eq_iff.1 heq.symm
  · intro h
    have houtline (name : String) (hname : name ∈ r.reached fs u) :
        r.outline fs name = r.forgetAll.outline fs name := outline_eq_iff.2 (h name hname)
    have hreached : r.reached fs u = r.forgetAll.reached fs u := by
      refine NameGraph.search_congr fun name hname => ?_
      have hnext : r.references fs name = r.forgetAll.references fs name := by
        rw [references_eq, references_eq, houtline name hname]
      exact hnext
    rw [found, found, ← hreached]
    exact List.map_congr_left fun name hname => by rw [houtline name hname]

/-! ### What a collection keeps -/

/-- `r'` keeps what `r` keeps, and beyond that only what is found now. -/
structure Extends (r r' : Resolver) (fs : Files) : Prop where
  paths : r'.forgetAll = r.forgetAll
  retains : ∀ name u, r.cached? name = some u → r'.cached? name = some u
  introduced : ∀ name u, r'.cached? name = some u → r.cached? name = none →
    r.forgetAll.lookup fs name = .ok u

lemma Extends.refl (r : Resolver) (fs : Files) : r.Extends r fs :=
  ⟨rfl, fun _ _ h => h, fun name u h hno => by rw [hno] at h; cases h⟩

lemma Extends.keep (h : r.Extends r' fs) (hu : r'.lookup fs name = .ok u) :
    r.Extends (r'.keep name u) fs := by
  by_cases hc : (r'.cached? name).isSome
  · rwa [Resolver.keep, if_pos hc]
  · have hnone : r'.cached? name = none := by simpa using hc
    rw [Resolver.keep, if_neg hc]
    refine ⟨h.paths, fun name' v hv => ?_, fun name' v hv hno => ?_⟩
    · rw [cached?_append, h.retains name' v hv]
      rfl
    · rw [cached?_append] at hv
      rcases Option.or_eq_some_iff.1 hv with hold | ⟨-, hnew⟩
      · exact h.introduced name' v hold hno
      · obtain ⟨rfl, huv⟩ := Option.ite_none_right_eq_some.1 hnew
        cases huv
        rw [← h.paths, ← lookup_of_not_cached hnone, hu]

lemma extends_hierarchyFor (r : Resolver) (fs : Files) (u : CompiledUnit) :
    r.Extends (r.hierarchyFor fs u).resolver fs := by
  have hfold (names : List String) (c : Collected) (h : r.Extends c.resolver fs) :
      r.Extends (names.foldl (collect fs u.name) c).resolver fs := by
    induction names generalizing c with
    | nil => exact h
    | cons name names ih =>
      refine ih _ ?_
      rcases (collect_step fs u.name c name).2 with hr | ⟨v, hv, hr⟩
      · rwa [hr]
      · rw [hr]
        exact h.keep hv
  exact hfold _ _ (.refl r fs)

/-- A unit that refers to one other, which refers to none. -/
lemma hierarchyFor_of_leaf {v : CompiledUnit} (hrefs : u.references = [name]) (hne : name ≠ u.name)
    (hv : r.lookup fs name = .ok v) (hleaf : v.references = []) :
    (r.hierarchyFor fs u).resolver = r.keep name v ∧
      (r.hierarchyFor fs u).hierarchy = Hierarchy.empty.addUnit v := by
  have hnext : (r.graph fs).next name = [] := by
    have hreferences : r.references fs name = [] := by
      rw [references, hv]
      exact hleaf
    exact hreferences
  have hload : r.load fs name = (r.keep name v, .ok v) := by rw [load, hv]
  rw [hierarchyFor, hrefs, NameGraph.reach_singleton (by simpa using hne) hnext, List.foldl_cons,
    List.foldl_nil, collect, hload]
  exact ⟨rfl, rfl⟩

/-- What is found now is not out of date. -/
lemma Extends.isStale_iff (h : r.Extends r' fs) : r'.IsStale fs name ↔ r.IsStale fs name := by
  constructor
  · rintro ⟨u, hu, hne⟩
    rw [h.paths] at hne
    rcases hc : r.cached? name with _ | v
    · refine absurd ?_ hne
      rw [outline, h.introduced name u hu hc]
      rfl
    · have huv := h.retains name v hc
      rw [hu] at huv
      cases huv
      exact ⟨u, hc, hne⟩
  · rintro ⟨u, hu, hne⟩
    exact ⟨u, h.retains name u hu, h.paths ▸ hne⟩

lemma cached?_invalidate (r : Resolver) (name name' : String) :
    (r.invalidate name).cached? name' = if name' = name then none else r.cached? name' := by
  have hkey : (fun e : String × CompiledUnit =>
      decide ((e.1 != name) = true ∧ (e.1 == name') = true)) =
        fun e => if name' = name then false else e.1 == name' := by
    funext e
    by_cases hn : name' = name
    · subst hn
      by_cases he : e.1 = name' <;> simp [he]
    · by_cases he : e.1 = name'
      · simp [he, hn]
      · simp [he, hn]
  rw [cached?, invalidate, List.find?_filter, hkey]
  split
  · simp
  · rfl

/-! ### Where a name leads -/

/-- A name leads to the file at a path. -/
def LeadsTo (r : Resolver) (fs : Files) (name : String) (p : Path) : Prop :=
  ∃ q, r.findFile? fs name = some q ∧ fs.SameFile q p

lemma LeadsTo.congr (ht : SameTree fs fs') (hr : r.forgetAll = r'.forgetAll)
    (h : r.LeadsTo fs name p) : r'.LeadsTo fs' name p := by
  obtain ⟨q, hq, hsame⟩ := h
  have hp := congrArg Resolver.searchPaths hr
  exact ⟨q, (findFile?_congr ht hp name).symm.trans hq, hsame.congr ht⟩

variable {l : Location} {c : Content} {s : String}

/-- Under a name that leads to the file that was written the text is found. -/
lemma LeadsTo.outline_insert (h : r.LeadsTo fs name p) (hf : fs.follow p = .ok l)
    (hn : fs.node? l = some (.file c)) {o : CompiledUnit} :
    r.forgetAll.outline (fs.insert l (.file (.text s))) name = .ok o ↔
      (CompiledUnit.parse? s).map CompiledUnit.bodiless = some o := by
  obtain ⟨q, hq, l', c', hl', hl, -⟩ := h
  rw [hf] at hl
  cases hl
  have ht : SameTree fs (fs.insert l (.file (.text s))) := Files.insert_sameTree hn
  have hfind : r.forgetAll.findFile? (fs.insert l (.file (.text s))) name = some q :=
    (findFile?_congr ht rfl name).symm.trans hq
  have hread := Files.read_insert hl' hn s
  rw [outline, lookup_of_file rfl hfind, Files.readUnit, Files.readDocument, hread,
    CompiledUnit.parse?]
  rcases hv : Document.parse? CompiledUnit.ofJson? s with _ | v <;> simp [hv, Except.map]

/-- Under all other names the same is found as before. -/
lemma outline_insert_of_not_leadsTo (h : ¬r.LeadsTo fs name p)
    (hf : fs.follow p = .ok l) (hn : fs.node? l = some (.file c)) :
    r.forgetAll.outline (fs.insert l (.file (.text s))) name = r.forgetAll.outline fs name := by
  have ht : SameTree fs (fs.insert l (.file (.text s))) := Files.insert_sameTree hn
  have hfind : r.forgetAll.findFile? fs name =
      r.forgetAll.findFile? (fs.insert l (.file (.text s))) name := findFile?_congr ht rfl name
  rcases hq : r.forgetAll.findFile? fs name with _ | q
  · rw [outline, outline, lookup_of_missing rfl (hfind.symm.trans hq), lookup_of_missing rfl hq]
  · have hlookup : (fs.insert l (.file (.text s))).lookup? q = fs.lookup? q := by
      refine Files.lookup?_congr ht fun l' hl' => Files.node?_insert_of_ne ?_ _
      rintro rfl
      exact h ⟨q, hq, l', c, hl', hf, hn⟩
    have hread := Files.read_congr (Files.follow_congr ht q).symm hlookup
    rw [outline, outline, lookup_of_file rfl (hfind.symm.trans hq), lookup_of_file rfl hq,
      Files.readUnit, Files.readUnit, Files.readDocument, Files.readDocument, hread]

end Resolver

end Interpose
