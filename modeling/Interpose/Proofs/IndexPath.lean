import Interpose.Proofs.TypeTree

/-!
Changing a unit at an index path.

The forest at a path is what is nested there, and at the empty path the types of the unit. A change
of one of its types, or of what is nested in one, is a change of the forest, so the weaving of a
type at a path can be followed in the forest alone.
-/

namespace Interpose

/-! ### Changing nested types -/

namespace TypeDecl

variable {f g : TypeDecl → TypeDecl}

lemma withNested_self (t : TypeDecl) : t.withNested t.nestedTypes = t := by
  cases t; rfl

lemma modifyNested_cons (f : TypeDecl → TypeDecl) (t : TypeDecl) (i : Nat) (path : List Nat) :
    modifyNested f t (i :: path) = t.withNested (t.nestedTypes.modify i (modifyNested f · path)) :=
  rfl

lemma modify_congr {ts : List TypeDecl} {i : Nat} (h : ∀ t, ts[i]? = some t → f t = g t) :
    ts.modify i f = ts.modify i g := by
  refine List.ext_getElem? fun j => ?_
  rw [List.getElem?_modify, List.getElem?_modify]
  by_cases hij : i = j
  · subst hij
    rcases hi : ts[i]? with _ | t
    · rfl
    · simp [h t hi]
  · simp [hij]

/-- A change at a path depends on the type there only. -/
lemma modifyNested_congr {path : List Nat} :
    ∀ {t s : TypeDecl}, t.nestedAt? path = some s → f s = g s →
      modifyNested f t path = modifyNested g t path := by
  induction path with
  | nil =>
    intro t s hs h
    cases hs
    exact h
  | cons i path ih =>
    intro t s hs h
    rw [modifyNested_cons, modifyNested_cons, modify_congr fun t' ht' => ?_]
    rw [nestedAt?, ht', Option.bind_some] at hs
    exact ih hs h

lemma modifyNested_modifyNested (path : List Nat) :
    ∀ t : TypeDecl, modifyNested g (modifyNested f t path) path = modifyNested (g ∘ f) t path := by
  induction path with
  | nil => exact fun _ => rfl
  | cons i path ih =>
    intro t
    have hcomp : (modifyNested g · path) ∘ (modifyNested f · path) =
        (modifyNested (g ∘ f) · path) := funext ih
    rw [modifyNested_cons, modifyNested_cons, modifyNested_cons, ← hcomp,
      ← List.modify_modify_eq]
    rfl

lemma modifyNested_id (path : List Nat) : ∀ t : TypeDecl, modifyNested id t path = t := by
  induction path with
  | nil => exact fun _ => rfl
  | cons i path ih =>
    intro t
    have hid : (modifyNested id · path) = id := funext ih
    rw [modifyNested_cons, hid, List.modify_id, withNested_self]

/-- A change below a path is a change at the path. -/
lemma modifyNested_snoc (path : List Nat) (i : Nat) :
    ∀ t : TypeDecl, modifyNested f t (path ++ [i]) =
      modifyNested (fun s => s.withNested (s.nestedTypes.modify i f)) t path := by
  induction path with
  | nil => exact fun _ => rfl
  | cons j path ih =>
    intro t
    rw [List.cons_append, modifyNested_cons, modifyNested_cons, funext ih]

lemma nestedAt?_modifyNested (path : List Nat) :
    ∀ t : TypeDecl, (modifyNested f t path).nestedAt? path = (t.nestedAt? path).map f := by
  induction path with
  | nil => exact fun _ => rfl
  | cons i path ih =>
    intro t
    rw [modifyNested_cons, nestedAt?, nestedAt?, withNested, List.getElem?_modify_eq]
    rcases t.nestedTypes[i]? with _ | s
    · rfl
    · exact ih s

end TypeDecl

/-! ### Forests in a unit -/

namespace CompiledUnit

/-- The unit as a type that declares its types. -/
def root (u : CompiledUnit) : TypeDecl := (TypeDecl.ofName "" u.name).withNested u.types

/-- What is nested at an index path. -/
def forestAt? (u : CompiledUnit) (path : List Nat) : Option (List TypeDecl) :=
  (u.root.nestedAt? path).map (·.nestedTypes)

/-- The unit with another forest at an index path. -/
def withForest (u : CompiledUnit) (path : List Nat) (ts : List TypeDecl) : CompiledUnit :=
  { u with types := (TypeDecl.modifyNested (TypeDecl.withNested ts) u.root path).nestedTypes }

variable {u : CompiledUnit} {path : List Nat} {ts : List TypeDecl}

lemma nestedAt?_root_of_ne_nil (h : path ≠ []) : u.root.nestedAt? path = u.typeAt? path := by
  rcases path with _ | ⟨i, path⟩
  · exact absurd rfl h
  · rfl

lemma modifyTypeAt_of_ne_nil (f : TypeDecl → TypeDecl) (h : path ≠ []) :
    u.modifyTypeAt f path =
      { u with types := (TypeDecl.modifyNested f u.root path).nestedTypes } := by
  rcases path with _ | ⟨i, path⟩
  · exact absurd rfl h
  · rfl

lemma root_withForest (u : CompiledUnit) (path : List Nat) (ts : List TypeDecl) :
    (u.withForest path ts).root = TypeDecl.modifyNested (TypeDecl.withNested ts) u.root path := by
  rcases path with _ | ⟨i, path⟩ <;> rfl

lemma typeAt?_snoc (h : u.forestAt? path = some ts) (i : Nat) :
    u.typeAt? (path ++ [i]) = ts[i]? := by
  rw [← nestedAt?_root_of_ne_nil (by simp), TypeDecl.nestedAt?_append]
  unfold forestAt? at h
  rcases hp : u.root.nestedAt? path with _ | p
  · simp [hp] at h
  · rw [hp] at h
    cases h
    exact p.nestedAt?_singleton i

lemma forestAt?_withForest (h : u.forestAt? path = some ts) (ts' : List TypeDecl) :
    (u.withForest path ts').forestAt? path = some ts' := by
  unfold forestAt? at h ⊢
  rw [root_withForest, TypeDecl.nestedAt?_modifyNested]
  rcases hp : u.root.nestedAt? path with _ | p
  · simp [hp] at h
  · rfl

lemma withForest_withForest (u : CompiledUnit) (path : List Nat) (ts ts' : List TypeDecl) :
    (u.withForest path ts).withForest path ts' = u.withForest path ts' := by
  rw [withForest, root_withForest, TypeDecl.modifyNested_modifyNested]
  rfl

lemma withForest_self (h : u.forestAt? path = some ts) : u.withForest path ts = u := by
  unfold forestAt? at h
  rcases hp : u.root.nestedAt? path with _ | p
  · simp [hp] at h
  · have hts : p.nestedTypes = ts := by simpa [hp] using h
    have hself : p.withNested ts = id p := by
      rw [← hts]
      exact p.withNested_self
    rw [withForest, TypeDecl.modifyNested_congr hp hself, TypeDecl.modifyNested_id]
    rfl

/-- A change of one type of a forest is a change of the forest. -/
lemma modifyTypeAt_snoc (h : u.forestAt? path = some ts) (f : TypeDecl → TypeDecl) (i : Nat) :
    u.modifyTypeAt f (path ++ [i]) = u.withForest path (ts.modify i f) := by
  rw [modifyTypeAt_of_ne_nil f (by simp), withForest, TypeDecl.modifyNested_snoc]
  unfold forestAt? at h
  rcases hp : u.root.nestedAt? path with _ | p
  · simp [hp] at h
  · have hts : p.nestedTypes = ts := by simpa [hp] using h
    rw [TypeDecl.modifyNested_congr hp (by rw [hts])]

lemma forestAt?_snoc (h : u.forestAt? path = some ts) {i : Nat} {t : TypeDecl}
    (ht : ts[i]? = some t) : u.forestAt? (path ++ [i]) = some t.nestedTypes := by
  rw [forestAt?, nestedAt?_root_of_ne_nil (by simp), typeAt?_snoc h, ht]
  rfl

/-- A change of what is nested in one type of a forest is a change of the forest. -/
lemma withForest_snoc (h : u.forestAt? path = some ts) (i : Nat) (ns : List TypeDecl) :
    u.withForest (path ++ [i]) ns = u.withForest path (ts.modify i (TypeDecl.withNested ns)) := by
  rw [← modifyTypeAt_snoc h, modifyTypeAt_of_ne_nil _ (by simp), withForest]

/-- Exclusion below a path does not depend on what is nested there. -/
lemma weavesType_withForest (u : CompiledUnit) (path : List Nat) (ts : List TypeDecl)
    (s : TypeDecl) :
    Scope.weavesType ((u.withForest path ts).typeAt? path) s =
      Scope.weavesType (u.typeAt? path) s := by
  rcases path with _ | ⟨i, path⟩
  · rfl
  · rw [← nestedAt?_root_of_ne_nil (by simp), ← nestedAt?_root_of_ne_nil (by simp),
      root_withForest, TypeDecl.nestedAt?_modifyNested]
    rcases u.root.nestedAt? (i :: path) with _ | p
    · rfl
    · exact @Scope.weavesType_congr (p.withNested ts) p rfl s

end CompiledUnit

end Interpose
