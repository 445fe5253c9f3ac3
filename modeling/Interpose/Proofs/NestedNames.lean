import Interpose.Proofs.IndexPath

/-!
The full names of nested types.

A type that is nested in another one is named after it, and adding a whole tree to a type renames all
that is nested in the tree. The renaming takes the types from a stack and names the types nested in
each; what it leaves to do lies at or below the paths on the stack. Main statement: in trees that are
built by adding, in any order, every nested type is named after the one that declares it, so its full
name can be read off its index path; and adding changes full names only.
-/

namespace Interpose.TypeDecl

/-! ### Named after the declaring type -/

/-- The types that this one declares are named after it. -/
def NamesOwn (t : TypeDecl) : Prop := ∀ s ∈ t.nestedTypes, s.fullName = t.fullName ++ "/" ++ s.name

/-- Every type nested at any depth is named after the one that declares it. -/
def NamesFollow (t : TypeDecl) : Prop := ∀ path s, t.nestedAt? path = some s → s.NamesOwn

variable {t s nested : TypeDecl} {ts : List TypeDecl} {path : List Nat}

lemma namesFollow_iff : t.NamesFollow ↔ t.NamesOwn ∧ ∀ s ∈ t.nestedTypes, s.NamesFollow := by
  constructor
  · intro h
    refine ⟨h [] t rfl, fun s hs path s' hs' => ?_⟩
    obtain ⟨i, hi⟩ := List.mem_iff_getElem?.1 hs
    exact h (i :: path) s' (by rw [nestedAt?, hi, Option.bind_some, hs'])
  · rintro ⟨hown, hnested⟩ path s hs
    rcases path with _ | ⟨i, path⟩
    · cases hs
      exact hown
    · obtain ⟨s', hi, hs'⟩ := Option.bind_eq_some_iff.1 hs
      exact hnested s' (List.mem_of_getElem? hi) path s hs'

/-- The names of the types that an index path goes through. -/
def stepNames (t : TypeDecl) : List Nat → List String
  | [] => []
  | i :: path =>
    match t.nestedTypes[i]? with
    | none => []
    | some s => s.name :: s.stepNames path

/-- The full name of a nested type is that of the outermost type and a name for each step. -/
lemma fullName_of_namesFollow (h : t.NamesFollow) (hs : t.nestedAt? path = some s) :
    s.fullName = (t.stepNames path).foldl (fun outer name => outer ++ "/" ++ name) t.fullName := by
  induction path generalizing t with
  | nil =>
    cases hs
    rfl
  | cons i path ih =>
    obtain ⟨t', hi, hs'⟩ := Option.bind_eq_some_iff.1 hs
    obtain ⟨hown, hnested⟩ := namesFollow_iff.1 h
    have ht' : t' ∈ t.nestedTypes := List.mem_of_getElem? hi
    rw [ih (hnested t' ht') hs', hown t' ht', stepNames, hi, List.foldl_cons]

/-! ### Types without their full names -/

mutual

/-- The type, and all that is nested in it, without full names. -/
def nameless : TypeDecl → TypeDecl
  | ⟨name, _, baseType, interfaces, isGenerated, attributes, fields, properties, methods, nested⟩ =>
    ⟨name, "", baseType, interfaces, isGenerated, attributes, fields, properties, methods,
      namelessAll nested⟩

def namelessAll : List TypeDecl → List TypeDecl
  | [] => []
  | t :: ts => nameless t :: namelessAll ts

end

lemma nameless_eq (t : TypeDecl) :
    t.nameless = { t with fullName := "", nestedTypes := namelessAll t.nestedTypes } := by
  cases t
  rw [nameless]

lemma withFullName_eq (fullName : String) (t : TypeDecl) :
    t.withFullName fullName =
      { t with fullName := fullName, nestedTypes := withOuterName fullName t.nestedTypes } := by
  cases t
  rw [withFullName]

lemma namelessAll_eq_map (ts : List TypeDecl) : namelessAll ts = ts.map nameless := by
  induction ts with
  | nil => rfl
  | cons t ts ih => rw [namelessAll, ih, List.map_cons]

@[simp] lemma name_nameless (t : TypeDecl) : t.nameless.name = t.name := by rw [nameless_eq]

@[simp] lemma name_withFullName (fullName : String) (t : TypeDecl) :
    (t.withFullName fullName).name = t.name := by rw [withFullName_eq]

@[simp] lemma fullName_withFullName (fullName : String) (t : TypeDecl) :
    (t.withFullName fullName).fullName = fullName := by rw [withFullName_eq]

lemma nestedTypes_nameless (t : TypeDecl) : t.nameless.nestedTypes = t.nestedTypes.map nameless := by
  rw [nameless_eq, namelessAll_eq_map]

lemma namelessAll_withOuterName (ts : List TypeDecl) :
    ∀ outer, namelessAll (withOuterName outer ts) = namelessAll ts := by
  induction ts using forest_induction with
  | nil => exact fun _ => rfl
  | cons t ts ihn iht =>
    intro outer
    rw [withOuterName, namelessAll, namelessAll, iht, withFullName_eq, nameless_eq, nameless_eq t, ihn]

/-- Renaming changes full names only. -/
lemma nameless_withFullName (fullName : String) (t : TypeDecl) :
    (t.withFullName fullName).nameless = t.nameless := by
  rw [withFullName_eq, nameless_eq, nameless_eq t, namelessAll_withOuterName]

lemma withOuterName_namelessAll (ts : List TypeDecl) :
    ∀ outer, withOuterName outer (namelessAll ts) = withOuterName outer ts := by
  induction ts using forest_induction with
  | nil => exact fun _ => rfl
  | cons t ts ihn iht =>
    intro outer
    rw [namelessAll, withOuterName, withOuterName, iht, name_nameless, withFullName_eq,
      withFullName_eq _ t, nameless_eq, ihn]

/-- Renaming does not look at the old full names. -/
lemma withFullName_congr (h : t.nameless = s.nameless) (fullName : String) :
    t.withFullName fullName = s.withFullName fullName := by
  have hself (t : TypeDecl) : t.nameless.withFullName fullName = t.withFullName fullName := by
    rw [withFullName_eq, withFullName_eq _ t, nameless_eq, withOuterName_namelessAll]
  rw [← hself, h, hself]

lemma namesFollow_withOuterName (ts : List TypeDecl) : ∀ outer, ∀ s ∈ withOuterName outer ts,
    s.fullName = outer ++ "/" ++ s.name ∧ s.NamesFollow := by
  induction ts using forest_induction with
  | nil => exact fun _ _ hs => nomatch hs
  | cons t ts ihn iht =>
    intro outer s hs
    rw [withOuterName] at hs
    rcases List.mem_cons.1 hs with rfl | hs
    · refine ⟨by rw [fullName_withFullName, name_withFullName], namesFollow_iff.2 ?_⟩
      rw [NamesOwn, fullName_withFullName, withFullName_eq]
      exact ⟨fun s' hs' => (ihn _ s' hs').1, fun s' hs' => (ihn _ s' hs').2⟩
    · exact iht outer s hs

lemma namesFollow_withFullName (fullName : String) (t : TypeDecl) :
    (t.withFullName fullName).NamesFollow := by
  have h := namesFollow_withOuterName t.nestedTypes fullName
  rw [namesFollow_iff, NamesOwn, fullName_withFullName, withFullName_eq]
  exact ⟨fun s hs => (h s hs).1, fun s hs => (h s hs).2⟩

lemma withOuterName_self (ts : List TypeDecl) : ∀ outer,
    (∀ s ∈ ts, s.fullName = outer ++ "/" ++ s.name ∧ s.NamesFollow) → withOuterName outer ts = ts := by
  induction ts using forest_induction with
  | nil => exact fun _ _ => rfl
  | cons t ts ihn iht =>
    intro outer h
    obtain ⟨⟨hname, hfollow⟩, hts⟩ := List.forall_mem_cons.1 h
    obtain ⟨hown, hnested⟩ := namesFollow_iff.1 hfollow
    rw [withOuterName, iht outer hts, ← hname, withFullName_eq,
      ihn t.fullName fun s hs => ⟨hown s hs, hnested s hs⟩]
    exact congrArg (· :: ts) t.withNested_self

/-- A type whose names follow is determined by its full name and what it is without full names. -/
lemma withFullName_self (h : t.NamesFollow) : t.withFullName t.fullName = t := by
  obtain ⟨hown, hnested⟩ := namesFollow_iff.1 h
  rw [withFullName_eq, withOuterName_self t.nestedTypes t.fullName
    fun s hs => ⟨hown s hs, hnested s hs⟩]
  exact t.withNested_self

/-! ### Renaming from a stack -/

/-- The type with the types that it declares named after it. -/
def nameNested (t : TypeDecl) : TypeDecl :=
  t.withNested (t.nestedTypes.map fun s => { s with fullName := t.fullName ++ "/" ++ s.name })

lemma namelessAll_map_fullName (f : TypeDecl → String) (ts : List TypeDecl) :
    namelessAll (ts.map fun s => { s with fullName := f s }) = namelessAll ts := by
  rw [namelessAll_eq_map, namelessAll_eq_map, List.map_map]
  refine List.map_congr_left fun s _ => ?_
  rw [Function.comp_apply, nameless_eq, nameless_eq s]

lemma nameless_nameNested (t : TypeDecl) : t.nameNested.nameless = t.nameless := by
  rw [nameless_eq, nameless_eq t, nameNested, nestedTypes_withNested, namelessAll_map_fullName]
  rfl

lemma nameless_modifyNested {f : TypeDecl → TypeDecl} (hf : ∀ t, (f t).nameless = t.nameless)
    (path : List Nat) : ∀ t : TypeDecl, (modifyNested f t path).nameless = t.nameless := by
  induction path with
  | nil => exact hf
  | cons i path ih =>
    intro t
    have hnested : (t.nestedTypes.modify i (modifyNested f · path)).map nameless =
        t.nestedTypes.map nameless := by
      refine List.ext_getElem? fun j => ?_
      rw [List.getElem?_map, List.getElem?_map, List.getElem?_modify]
      rcases t.nestedTypes[j]? with _ | s
      · rfl
      · by_cases hij : i = j
        · simp [hij, ih s]
        · simp [hij]
    rw [modifyNested_cons, nameless_eq, nameless_eq t, nestedTypes_withNested, namelessAll_eq_map,
      hnested, ← namelessAll_eq_map]
    rfl

lemma count_nameless (t : TypeDecl) : t.nameless.count = t.count := by
  suffices h : ∀ ts, countAll (namelessAll ts) = countAll ts by
    rw [count_eq, count_eq t, nameless_eq, h]
  intro ts
  induction ts using forest_induction with
  | nil => rfl
  | cons t ts ihn iht =>
    rw [namelessAll, countAll, countAll, iht, count_eq, count_eq t, nameless_eq, ihn]

lemma nestedAt?_nameless (path : List Nat) : ∀ t : TypeDecl,
    t.nameless.nestedAt? path = (t.nestedAt? path).map nameless := by
  induction path with
  | nil => exact fun _ => rfl
  | cons i path ih =>
    intro t
    rw [nestedAt?, nestedAt?, nestedTypes_nameless, List.getElem?_map]
    rcases t.nestedTypes[i]? with _ | s
    · rfl
    · exact ih s

/-- What is left to do is counted without looking at full names. -/
lemma countAt_congr (h : t.nameless = s.nameless) (path : List Nat) :
    t.countAt path = s.countAt path := by
  have hself (t : TypeDecl) : t.nameless.countAt path = t.countAt path := by
    rw [countAt, countAt, nestedAt?_nameless]
    rcases t.nestedAt? path with _ | s
    · rfl
    · exact count_nameless s
  rw [← hself, h, hself]

/-- The index paths of the types that the one at a path declares, the last one first. -/
def pushedPaths (path : List Nat) (t : TypeDecl) : List (List Nat) :=
  (CompiledUnit.nestedPaths path t).reverse

/-- The types at and below the paths of a stack, counted as in a unit that declares the type. -/
def stackSize (t : TypeDecl) (stack : List (List Nat)) : Nat :=
  CompiledUnit.workSize ⟨"", [], [], [t]⟩ (stack.map (0 :: ·))

lemma stackSize_cons (t : TypeDecl) (path : List Nat) (rest : List (List Nat)) :
    t.stackSize (path :: rest) = t.countAt path + t.stackSize rest := rfl

lemma stackSize_append (t : TypeDecl) (ps qs : List (List Nat)) :
    t.stackSize (ps ++ qs) = t.stackSize ps + t.stackSize qs := by
  rw [stackSize, List.map_append, CompiledUnit.workSize_append]
  rfl

lemma stackSize_reverse (t : TypeDecl) (ps : List (List Nat)) :
    t.stackSize ps.reverse = t.stackSize ps := by
  induction ps with
  | nil => rfl
  | cons p ps ih =>
    rw [List.reverse_cons, stackSize_append, ih, stackSize_cons, stackSize_cons, Nat.add_comm]
    rfl

lemma stackSize_congr (h : t.nameless = s.nameless) (stack : List (List Nat)) :
    t.stackSize stack = s.stackSize stack := by
  induction stack with
  | nil => rfl
  | cons p rest ih => rw [stackSize_cons, stackSize_cons, countAt_congr h, ih]

lemma stackSize_pushedPaths (hs : t.nestedAt? path = some s) :
    t.stackSize (pushedPaths path s) = countAll s.nestedTypes := by
  have hunit : (CompiledUnit.mk "" [] [] [t]).typeAt? (0 :: path) = some s := hs
  rw [pushedPaths, stackSize_reverse, ← CompiledUnit.workSize_nestedPaths hunit, stackSize,
    CompiledUnit.nestedPaths, CompiledUnit.nestedPaths, List.map_map]
  rfl

/-- Takes the types at the index paths of a stack, and names the types that each declares. -/
def nameFrom (t : TypeDecl) (stack : List (List Nat)) : TypeDecl :=
  match stack with
  | [] => t
  | path :: rest =>
    match _hs : t.nestedAt? path with
    | none => nameFrom t rest
    | some s => nameFrom (modifyNested nameNested t path) (pushedPaths path s ++ rest)
termination_by (t.stackSize stack, stack.length)
decreasing_by
  · exact Prod.Lex.right' _ (by simp [stackSize_cons]) (by simp)
  · have hkept : (modifyNested nameNested t path).nameless = t.nameless :=
      nameless_modifyNested nameless_nameNested path t
    have hhere : t.countAt path = countAll s.nestedTypes + 1 := by
      rw [countAt, _hs]
      exact count_eq s
    apply Prod.Lex.left
    rw [stackSize_congr hkept, stackSize_append, stackSize_pushedPaths _hs, stackSize_cons, hhere]
    omega

/-- Every type that does not lie at or below a path of the stack names its own. -/
def NamedBut (stack : List (List Nat)) (t : TypeDecl) : Prop :=
  ∀ path s, t.nestedAt? path = some s → (∀ p ∈ stack, ¬p <+: path) → s.NamesOwn

/-- The names that `NamesOwn` compares. -/
def heading (t : TypeDecl) : String × List (String × String) :=
  (t.fullName, t.nestedTypes.map fun s => (s.name, s.fullName))

lemma namesOwn_congr (h : t.heading = s.heading) : t.NamesOwn ↔ s.NamesOwn := by
  have hself (t : TypeDecl) :
      t.NamesOwn ↔ ∀ x ∈ t.heading.2, x.2 = t.heading.1 ++ "/" ++ x.1 := by
    simp [NamesOwn, heading]
  rw [hself, h, ← hself]

lemma namesOwn_nameNested (t : TypeDecl) : t.nameNested.NamesOwn := by
  intro s hs
  obtain ⟨s', -, rfl⟩ := List.mem_map.1 hs
  rfl

lemma name_modifyNested_nameNested (t : TypeDecl) (path : List Nat) :
    (modifyNested nameNested t path).name = t.name := by
  cases path <;> rfl

lemma fullName_modifyNested_nameNested (t : TypeDecl) (path : List Nat) :
    (modifyNested nameNested t path).fullName = t.fullName := by
  cases path <;> rfl

/-- Naming what is declared at a path is not seen from places that are not there or below. -/
lemma heading_modifyNested {p q : List Nat} (hpq : ¬p <+: q) (t : TypeDecl) :
    ((modifyNested nameNested t p).nestedAt? q).map heading = (t.nestedAt? q).map heading := by
  induction p generalizing q t with
  | nil => exact absurd (List.nil_prefix (l := q)) hpq
  | cons i p ih =>
    rw [modifyNested_cons]
    rcases q with _ | ⟨j, q⟩
    · rw [nestedAt?, nestedAt?, Option.map_some, Option.map_some, heading, heading,
        nestedTypes_withNested]
      refine congrArg (fun x => some (t.fullName, x)) (List.ext_getElem? fun j => ?_)
      rw [List.getElem?_map, List.getElem?_map, List.getElem?_modify]
      rcases t.nestedTypes[j]? with _ | s
      · rfl
      · by_cases hij : i = j
        · simp [hij, name_modifyNested_nameNested, fullName_modifyNested_nameNested]
        · simp [hij]
    · rw [nestedAt?, nestedAt?, nestedTypes_withNested, List.getElem?_modify]
      rcases t.nestedTypes[j]? with _ | s
      · rfl
      · by_cases hij : i = j
        · have hrest : ¬p <+: q := fun h => hpq (hij ▸ List.cons_prefix_cons.2 ⟨rfl, h⟩)
          simpa [hij] using ih hrest s
        · simp [hij]

/-- One step: the types declared at the path are named, and take its place on the stack. -/
lemma NamedBut.step {stack : List (List Nat)} (h : t.NamedBut (path :: stack))
    (hs : t.nestedAt? path = some s) :
    (modifyNested nameNested t path).NamedBut (pushedPaths path s ++ stack) := by
  intro q s' hs' hq
  by_cases hpq : path <+: q
  · obtain ⟨rest, rfl⟩ := hpq
    rcases rest with _ | ⟨i, rest⟩
    · rw [List.append_nil, nestedAt?_modifyNested, hs] at hs'
      cases hs'
      exact s.namesOwn_nameNested
    · -- a type that lies below is one of those that were pushed, or below one
      have hi : i < s.nestedTypes.length := by
        rw [nestedAt?_append, nestedAt?_modifyNested, hs, Option.map_some, Option.bind_some,
          nestedAt?] at hs'
        obtain ⟨s'', hs'', -⟩ := Option.bind_eq_some_iff.1 hs'
        have hlt := (List.getElem?_eq_some_iff.1 hs'').1
        rwa [nameNested, nestedTypes_withNested, List.length_map] at hlt
      have hpushed : path ++ [i] ∈ pushedPaths path s ++ stack := by
        simp [pushedPaths, CompiledUnit.nestedPaths, hi]
      refine absurd ?_ (hq _ hpushed)
      rw [List.prefix_append_right_inj]
      exact List.cons_prefix_cons.2 ⟨rfl, List.nil_prefix⟩
  · have hheading := heading_modifyNested hpq t
    rw [hs'] at hheading
    obtain ⟨s₀, hs₀, hsame⟩ := Option.map_eq_some_iff.1 hheading.symm
    refine (namesOwn_congr hsame).1 (h q s₀ hs₀ fun p hp => ?_)
    rcases List.mem_cons.1 hp with rfl | hp
    · exact hpq
    · exact hq p (List.mem_append_right _ hp)

/-- A path at which there is no type leaves nothing to do. -/
lemma NamedBut.skip {stack : List (List Nat)} (h : t.NamedBut (path :: stack))
    (hs : t.nestedAt? path = none) : t.NamedBut stack := by
  intro q s hq hstack
  refine h q s hq (List.forall_mem_cons.2 ⟨?_, hstack⟩)
  rintro ⟨rest, rfl⟩
  rw [nestedAt?_append, hs] at hq
  cases hq

/-- The whole run: in the end all names follow, and nothing else has changed. -/
lemma nameFrom_spec {stack : List (List Nat)} (h : t.NamedBut stack) :
    (t.nameFrom stack).NamesFollow ∧ (t.nameFrom stack).nameless = t.nameless ∧
      (t.nameFrom stack).fullName = t.fullName := by
  induction t, stack using nameFrom.induct with
  | case1 t =>
    rw [nameFrom]
    exact ⟨fun path s hs => h path s hs (by simp), rfl, rfl⟩
  | case2 t path rest hs ih =>
    rw [nameFrom, hs]
    exact ih (h.skip hs)
  | case3 t path rest s hs ih =>
    rw [nameFrom, hs]
    obtain ⟨hfollow, hnameless, hfull⟩ := ih (h.step hs)
    exact ⟨hfollow, hnameless.trans (nameless_modifyNested nameless_nameNested path t),
      hfull.trans (fullName_modifyNested_nameNested t path)⟩

/-- Renaming from the stack that holds the outermost type is renaming by recursion. -/
lemma nameFrom_eq_withFullName (t : TypeDecl) : t.nameFrom [[]] = t.withFullName t.fullName := by
  have hall : t.NamedBut [[]] := fun path s _ h => absurd List.nil_prefix (h [] (by simp))
  obtain ⟨hfollow, hnameless, hfull⟩ := nameFrom_spec hall
  rw [← withFullName_self hfollow, hfull, withFullName_congr hnameless]

/-! ### Trees that are built -/

/-- Trees that were built from empty types, each by adding a whole tree to a type in another one. -/
inductive Built : List TypeDecl → Prop
  | none : Built []
  | new {ts : List TypeDecl} (space name : String) (built : Built ts) :
      Built (.ofName space name :: ts)
  /-- The tree `moved` is taken out, and added to the type at a path in another tree. -/
  | add {ts : List TypeDecl} {moved target : TypeDecl} (i j : Nat) (path : List Nat)
      (built : Built ts) (taken : ts[i]? = some moved)
      (found : ((ts.eraseIdx i)[j]?).bind (nestedAt? · path) = some target) :
      Built ((ts.eraseIdx i).modify j (modifyNested (addNested · moved) · path))

lemma namesFollow_ofName (space name : String) : (ofName space name).NamesFollow :=
  namesFollow_iff.2 ⟨nofun, nofun⟩

lemma namesFollow_addNested (h : t.NamesFollow) (nested : TypeDecl) :
    (t.addNested nested).NamesFollow := by
  obtain ⟨hown, hnested⟩ := namesFollow_iff.1 h
  refine namesFollow_iff.2 ⟨fun s hs => ?_, fun s hs => ?_⟩ <;>
    rcases List.mem_append.1 hs with hs | hs
  · exact hown s hs
  · rw [List.mem_singleton.1 hs, fullName_withFullName, name_withFullName]
    rfl
  · exact hnested s hs
  · rw [List.mem_singleton.1 hs]
    exact namesFollow_withFullName _ nested

lemma namesFollow_modifyNested (nested : TypeDecl) (path : List Nat) : ∀ {t : TypeDecl},
    t.NamesFollow → (modifyNested (addNested · nested) t path).NamesFollow := by
  induction path with
  | nil => exact fun h => namesFollow_addNested h nested
  | cons i path ih =>
    intro t h
    obtain ⟨hown, hnested⟩ := namesFollow_iff.1 h
    have hkept (s : TypeDecl) : (modifyNested (addNested · nested) s path).name = s.name ∧
        (modifyNested (addNested · nested) s path).fullName = s.fullName := by
      cases path <;> exact ⟨rfl, rfl⟩
    rw [modifyNested_cons]
    refine namesFollow_iff.2 ⟨fun s hs => ?_, fun s hs => ?_⟩ <;>
      rw [nestedTypes_withNested] at hs <;>
      obtain ⟨j, hj⟩ := List.mem_iff_getElem?.1 hs <;>
      rw [List.getElem?_modify] at hj <;>
      obtain ⟨s', hs', rfl⟩ := Option.map_eq_some_iff.1 hj <;>
      have hmem := List.mem_of_getElem? hs'
    · split
      · rw [(hkept s').1, (hkept s').2]
        exact hown s' hmem
      · exact hown s' hmem
    · split
      · exact ih (hnested s' hmem)
      · exact hnested s' hmem

lemma Built.namesFollow (h : Built ts) : ∀ t ∈ ts, t.NamesFollow := by
  induction h with
  | none => exact fun _ ht => nomatch ht
  | new space name _ ih => exact List.forall_mem_cons.2 ⟨namesFollow_ofName space name, ih⟩
  | @add ts moved _ i j path _ _ _ ih =>
    intro t ht
    obtain ⟨k, hk⟩ := List.mem_iff_getElem?.1 ht
    rw [List.getElem?_modify] at hk
    obtain ⟨t', ht', rfl⟩ := Option.map_eq_some_iff.1 hk
    have hfollow : t'.NamesFollow := ih t' (List.mem_of_mem_eraseIdx (List.mem_of_getElem? ht'))
    split
    · exact namesFollow_modifyNested moved path hfollow
    · exact hfollow

/-- **Names follow the tree**: in trees that are built by adding, in any order, every nested type is
named after the one that declares it, so that in a unit of such trees the full name at an index path
is that of the outermost type with a name for each step. Adding puts the tree behind the nested types,
and changes no more of it than full names, as renaming from a stack does. -/
theorem fullName_byIndexPath :
    (∀ ts, Built ts → ∀ t ∈ ts, t.NamesFollow) ∧
    (∀ u : CompiledUnit, (∀ t ∈ u.types, ∃ ts, Built ts ∧ t ∈ ts) →
      ∀ path s, u.typeAt? path = some s → ∃ i rest t, path = i :: rest ∧ u.types[i]? = some t ∧
        s.fullName =
          (t.stepNames rest).foldl (fun outer name => outer ++ "/" ++ name) t.fullName) ∧
    ∀ t nested : TypeDecl, ∃ nested' : TypeDecl,
      t.addNested nested = t.withNested (t.nestedTypes ++ [nested']) ∧
      nested'.nameless = nested.nameless ∧
      nested' =
        { nested with fullName := t.fullName ++ "/" ++ nested.name : TypeDecl }.nameFrom [[]] := by
  refine ⟨fun ts => Built.namesFollow, fun u hu path s hs => ?_, fun t nested =>
    ⟨_, rfl, nameless_withFullName _ nested, ?_⟩⟩
  · rcases path with _ | ⟨i, rest⟩
    · cases hs
    · obtain ⟨t, ht, hs⟩ := Option.bind_eq_some_iff.1 hs
      obtain ⟨ts, hbuilt, hmem⟩ := hu t (List.mem_of_getElem? ht)
      exact ⟨i, rest, t, rfl, ht, fullName_of_namesFollow (hbuilt.namesFollow t hmem) hs⟩
  · rw [nameFrom_eq_withFullName]
    refine withFullName_congr ?_ _
    rw [nameless_eq nested, nameless_eq]

/-- A tree that was built from the inside out, and then from the outside in. -/
def downloader : TypeDecl :=
  ((ofName "Net" "Root").addNested
    ((ofName "" "Middle").addNested ((ofName "" "Leaf").addNested (ofName "" "Tip")))).modifyNested
      (addNested · (ofName "Net" "Pool")) [0]

lemma built_downloader : Built [downloader] := by
  have hleaf : Built [(ofName "" "Leaf").addNested (ofName "" "Tip")] :=
    .add 1 0 [] (.new "" "Leaf" (.new "" "Tip" .none)) rfl rfl
  have hmiddle := Built.add 1 0 [] (.new "" "Middle" hleaf) rfl rfl
  have hroot := Built.add 1 0 [] (.new "Net" "Root" hmiddle) rfl rfl
  exact .add 0 0 [0] (.new "Net" "Pool" hroot) rfl rfl

/-- The full names two and three steps into `downloader`. -/
theorem fullName_byIndexPath_downloader :
    ∃ pool tip, (CompiledUnit.mk "Game" [] [] [downloader]).typeAt? [0, 0, 1] = some pool ∧
      pool.fullName = "Net.Root/Middle/Pool" ∧
      (CompiledUnit.mk "Game" [] [] [downloader]).typeAt? [0, 0, 0, 0] = some tip ∧
      tip.fullName = "Net.Root/Middle/Leaf/Tip" := by
  obtain ⟨-, hunit, -⟩ := fullName_byIndexPath
  have hbuilt : ∀ t ∈ (CompiledUnit.mk "Game" [] [] [downloader]).types, ∃ ts, Built ts ∧ t ∈ ts :=
    fun t ht => ⟨[downloader], built_downloader, ht⟩
  refine ⟨_, _, rfl, ?_, rfl, ?_⟩
  · obtain ⟨i, rest, t, hpath, ht, hname⟩ := hunit _ hbuilt [0, 0, 1] _ rfl
    cases hpath
    cases ht
    exact hname
  · obtain ⟨i, rest, t, hpath, ht, hname⟩ := hunit _ hbuilt [0, 0, 0, 0] _ rfl
    cases hpath
    cases ht
    exact hname

end Interpose.TypeDecl
