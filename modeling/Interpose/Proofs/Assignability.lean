import Interpose.Hierarchy
import Interpose.Proofs.Entries
import Interpose.Proofs.Search

/-!
Which types can hold a value of a type.

A hierarchy keeps the last declaration of every name, and the search for a target goes up from a
type to what it declares as its base and interfaces. Main statement: a value can be stored in a slot
of the target type exactly if a path of such steps leads there. So the order of interfaces, and of
declarations of different types, makes no difference.
-/

namespace Interpose

/-- A name with the relations that are declared for it. -/
abbrev Declaration := String × TypeRelations

def TypeDecl.declaration (t : TypeDecl) : Declaration := (t.fullName, ⟨t.baseType, t.interfaces⟩)

namespace Hierarchy

variable {h h' : Hierarchy} {name target candidate declared : String} {ds ds' : List Declaration}

/-! ### What is declared for a name -/

/-- The relations that are declared for a name, in order. -/
def declarationsOf (name : String) (ds : List Declaration) : List TypeRelations :=
  (ds.filter (·.1 == name)).map (·.2)

lemma declarationsOf_append (name : String) (ds ds' : List Declaration) :
    declarationsOf name (ds ++ ds') = declarationsOf name ds ++ declarationsOf name ds' := by
  simp [declarationsOf]

lemma declarationsOf_cons (name : String) (d : Declaration) (ds : List Declaration) :
    declarationsOf name (d :: ds) =
      if d.1 = name then d.2 :: declarationsOf name ds else declarationsOf name ds := by
  by_cases hd : d.1 = name <;> simp [declarationsOf, hd]

lemma mem_declarationsOf {r : TypeRelations} : r ∈ declarationsOf name ds ↔ (name, r) ∈ ds := by
  simp [declarationsOf]

/-- Where each name is declared once, the first declaration of a name is its last. -/
lemma getLast?_declarationsOf (hn : (ds.map (·.1)).Nodup) :
    (declarationsOf name ds).getLast? = (ds.find? (·.1 == name)).map (·.2) := by
  induction ds with
  | nil => rfl
  | cons d ds ih =>
    rw [List.map_cons, List.nodup_cons] at hn
    rw [declarationsOf_cons, List.find?_cons]
    by_cases hd : d.1 = name
    · have hrest : declarationsOf name ds = [] := by
        refine List.eq_nil_iff_forall_not_mem.2 fun r hr => hn.1 ?_
        rw [hd]
        exact List.mem_map.2 ⟨(name, r), mem_declarationsOf.1 hr, rfl⟩
      simp [hd, hrest]
    · have hd' : (d.1 == name) = false := by simpa using hd
      rw [if_neg hd, hd', ih hn.2]

lemma entries_insert (h : Hierarchy) (name : String) (r : TypeRelations) :
    (h.insert name r).entries =
      if h.entries.any (·.1 == name) then
        h.entries.map fun e => if e.1 == name then (name, r) else e
      else h.entries ++ [(name, r)] := by
  rw [insert]
  split <;> rfl

lemma find?_insert (h : Hierarchy) (name : String) (r : TypeRelations) (name' : String) :
    (h.insert name r).find? name' = if name' = name then some r else h.find? name' := by
  rw [find?, entries_insert, find?_setEntry, find?]
  by_cases hn : name' = name <;> simp [hn]

/-- Of several declarations of a name the last counts. -/
lemma find?_foldl_insert (h : Hierarchy) (ds : List Declaration) (name : String) :
    (ds.foldl (fun h d => h.insert d.1 d.2) h).find? name =
      (declarationsOf name ds).getLast?.or (h.find? name) := by
  induction ds generalizing h with
  | nil => rfl
  | cons d ds ih =>
    rw [List.foldl_cons, ih, find?_insert, declarationsOf_cons]
    by_cases hd : d.1 = name
    · rw [if_pos hd.symm, if_pos hd, List.getLast?_cons]
      rcases (declarationsOf name ds).getLast? with _ | r <;> rfl
    · rw [if_neg (Ne.symm hd), if_neg hd]

lemma addTypes_eq (h : Hierarchy) (ts : List TypeDecl) :
    h.addTypes ts = (ts.map TypeDecl.declaration).foldl (fun h d => h.insert d.1 d.2) h := by
  rw [List.foldl_map]
  rfl

/-! ### Hierarchies that are built -/

/-- The hierarchy is built by these declarations: some are made one by one, some are those of the
types of a unit, and some are taken over from another hierarchy that is built. -/
inductive BuiltBy : List Declaration → Hierarchy → Prop
  | empty : BuiltBy [] .empty
  | declare {ds : List Declaration} {h : Hierarchy} (before : BuiltBy ds h) (name : String)
      (base : Option String) (interfaces : List String) :
      BuiltBy (ds ++ [(name, ⟨base, interfaces⟩)]) (h.declare name base interfaces)
  | addUnit {ds : List Declaration} {h : Hierarchy} (before : BuiltBy ds h) (u : CompiledUnit) :
      BuiltBy (ds ++ u.allTypes.map TypeDecl.declaration) (h.addUnit u)
  | merge {ds ds' : List Declaration} {h other : Hierarchy} (before : BuiltBy ds h)
      (from_ : BuiltBy ds' other) : BuiltBy (ds ++ ds') (h.merge other)

lemma nodup_insert (hn : (h.entries.map (·.1)).Nodup) (name : String) (r : TypeRelations) :
    ((h.insert name r).entries.map (·.1)).Nodup := by
  rw [entries_insert]
  exact nodup_setEntry h.entries name r hn

lemma nodup_foldl_insert (hn : (h.entries.map (·.1)).Nodup) (ds : List Declaration) :
    ((ds.foldl (fun h d => h.insert d.1 d.2) h).entries.map (·.1)).Nodup := by
  induction ds generalizing h with
  | nil => exact hn
  | cons d ds ih => exact ih (nodup_insert hn d.1 d.2)

/-- A hierarchy that is built has one entry for each name. -/
lemma BuiltBy.nodup (hb : BuiltBy ds h) : (h.entries.map (·.1)).Nodup := by
  induction hb with
  | empty => exact List.nodup_nil
  | declare _ name base interfaces ih => exact nodup_insert ih name _
  | addUnit _ u ih =>
    rw [Hierarchy.addUnit, addTypes_eq]
    exact nodup_foldl_insert ih _
  | @merge _ _ _ other _ _ ih _ => exact nodup_foldl_insert ih other.entries

/-- **The last one counts**: what is found under a name is its last declaration. -/
theorem BuiltBy.find?_eq (hb : BuiltBy ds h) (name : String) :
    h.find? name = (declarationsOf name ds).getLast? := by
  induction hb with
  | empty => rfl
  | @declare ds h _ name' base interfaces ih =>
    rw [Hierarchy.declare, find?_insert, ih, declarationsOf_append, declarationsOf_cons,
      List.getLast?_append]
    by_cases hn : name = name'
    · simp [hn, declarationsOf]
    · simp [hn, Ne.symm hn, declarationsOf]
  | addUnit _ u ih =>
    rw [Hierarchy.addUnit, addTypes_eq, find?_foldl_insert, ih, declarationsOf_append,
      List.getLast?_append]
  | @merge ds ds' h other _ from_ ih ih' =>
    have hkept : (declarationsOf name other.entries).getLast? =
        (declarationsOf name ds').getLast? := by
      rw [getLast?_declarationsOf from_.nodup, ← ih', find?]
    rw [Hierarchy.merge, find?_foldl_insert, hkept, ih, declarationsOf_append, List.getLast?_append]

/-! ### Paths upwards -/

/-- What is declared for a name has `parent` as its base or among its interfaces. -/
def StepsUp (h : Hierarchy) (name parent : String) : Prop :=
  ∃ r, h.find? name = some r ∧ (r.base = some parent ∨ parent ∈ r.interfaces)

lemma stepsUp_iff {parent : String} : h.StepsUp name parent ↔ parent ∈ h.parents name := by
  unfold StepsUp parents
  rcases h.find? name with _ | r <;> simp [TypeRelations.parents]

/-- **Reachability**: a value can be stored where a path upwards leads. -/
theorem isAssignable_iff_path :
    h.isAssignable target candidate = true ↔ Relation.ReflTransGen h.StepsUp candidate target := by
  have hstep : h.graph.Step [] = h.StepsUp := by
    funext name parent
    rw [stepsUp_iff, NameGraph.Step]
    simp [graph]
  rw [isAssignable, List.contains_iff_mem, NameGraph.mem_reach_iff, hstep]
  simp

lemma isAssignable_self (h : Hierarchy) (name : String) : h.isAssignable name name = true :=
  isAssignable_iff_path.2 .refl

lemma isAssignable_trans {a b c : String} (hab : h.isAssignable a b = true)
    (hbc : h.isAssignable b c = true) : h.isAssignable a c = true :=
  isAssignable_iff_path.2 ((isAssignable_iff_path.1 hbc).trans (isAssignable_iff_path.1 hab))

lemma isAssignable_of_mem_parents (hp : declared ∈ h.parents target) :
    h.isAssignable declared target = true :=
  isAssignable_iff_path.2 (.single (stepsUp_iff.2 hp))

/-- Without parents a type can be held by itself only. -/
lemma isAssignable_of_no_parents (hp : h.parents target = []) :
    h.isAssignable declared target = [target].contains declared := by
  have hnext : h.graph.next target = [] := hp
  rw [isAssignable, NameGraph.reach_singleton List.not_mem_nil hnext]

lemma isStrictSupertype_of_ne (hne : declared ≠ target) :
    h.isStrictSupertype declared target = h.isAssignable declared target := by
  rw [isStrictSupertype, bne_iff_ne.2 hne, Bool.true_and]

/-- Only what the parents of each name are counts, not their order. -/
lemma isAssignable_congr
    (hp : ∀ name parent, parent ∈ h.parents name ↔ parent ∈ h'.parents name)
    (target candidate : String) :
    h.isAssignable target candidate = h'.isAssignable target candidate := by
  have hstep : h.StepsUp = h'.StepsUp := by
    funext name parent
    rw [stepsUp_iff, stepsUp_iff, hp]
  rw [Bool.eq_iff_iff, isAssignable_iff_path, isAssignable_iff_path, hstep]

/-! ### Declarations in another order -/

/-- The same declarations, but for the order of interfaces and of declarations of different
types. -/
inductive Reordered : List Declaration → List Declaration → Prop
  | refl (ds : List Declaration) : Reordered ds ds
  | types (front back : List Declaration) {d d' : Declaration} (different : d.1 ≠ d'.1) :
      Reordered (front ++ d :: d' :: back) (front ++ d' :: d :: back)
  | interfaces (front back : List Declaration) (name : String) (base : Option String)
      {is is' : List String} (order : is.Perm is') :
      Reordered (front ++ (name, ⟨base, is⟩) :: back) (front ++ (name, ⟨base, is'⟩) :: back)
  | trans {ds ds' ds'' : List Declaration} (first : Reordered ds ds') (next : Reordered ds' ds'') :
      Reordered ds ds''

/-- The parents of a name in its last declaration. -/
def parentsIn (name : String) (ds : List Declaration) : List String :=
  (declarationsOf name ds).getLast?.elim [] TypeRelations.parents

lemma BuiltBy.parents_eq (hb : BuiltBy ds h) (name : String) :
    h.parents name = parentsIn name ds := by
  rw [parents, hb.find?_eq, parentsIn]
  rcases (declarationsOf name ds).getLast? with _ | r <;> rfl

lemma Reordered.mem_parentsIn_iff (hr : Reordered ds ds') (name parent : String) :
    parent ∈ parentsIn name ds ↔ parent ∈ parentsIn name ds' := by
  induction hr with
  | refl => rfl
  | @types front back d d' different =>
    have hsame : declarationsOf name (front ++ d :: d' :: back) =
        declarationsOf name (front ++ d' :: d :: back) := by
      simp only [declarationsOf_append, declarationsOf_cons]
      by_cases hd : d.1 = name
      · have hd' : d'.1 ≠ name := fun hd' => different (hd.trans hd'.symm)
        simp [hd, hd']
      · simp [hd]
    rw [parentsIn, hsame, parentsIn]
  | @interfaces front back name' base is is' order =>
    simp only [parentsIn, declarationsOf_append, declarationsOf_cons]
    by_cases hn : name' = name
    · rw [if_pos hn, if_pos hn, List.getLast?_append, List.getLast?_append, List.getLast?_cons,
        List.getLast?_cons]
      -- a later declaration of the name takes the place of this one
      rcases (declarationsOf name back).getLast? with _ | r
      · simp [TypeRelations.parents, order.mem_iff]
      · rfl
    · rw [if_neg hn, if_neg hn]
  | trans _ _ ih ih' => exact ih.trans ih'

/-- **Storing is going up**: a value of a type can be stored in a slot of the target type exactly if
a path leads from the type to the target in which each step goes from a declared type to its base or
to one of its interfaces. So a type can hold its own values, what can be stored over a type between
can be stored at once, and hierarchies that are built by the same declarations agree, whatever the
order of interfaces and of declarations of different types. -/
theorem isAssignable_byPaths :
    (∀ (h : Hierarchy) (target candidate : String), h.isAssignable target candidate = true ↔
      Relation.ReflTransGen h.StepsUp candidate target) ∧
    (∀ (h : Hierarchy) (name : String), h.isAssignable name name = true) ∧
    (∀ (h : Hierarchy) (a b c : String), h.isAssignable a b = true → h.isAssignable b c = true →
      h.isAssignable a c = true) ∧
    ∀ (ds ds' : List Declaration) (h h' : Hierarchy), BuiltBy ds h → BuiltBy ds' h' →
      Reordered ds ds' → ∀ target candidate,
        h.isAssignable target candidate = h'.isAssignable target candidate := by
  refine ⟨fun h target candidate => isAssignable_iff_path, isAssignable_self,
    fun h a b c => isAssignable_trans, ?_⟩
  intro ds ds' h h' hb hb' hr
  refine isAssignable_congr fun name parent => ?_
  rw [hb.parents_eq, hb'.parents_eq, hr.mem_parentsIn_iff]

/-- Two types, each the base of the other, of which one has two interfaces. -/
def ring : Hierarchy :=
  (empty.declare "Ring" (some "Loop") ["Closed", "Round"]).declare "Loop" (some "Ring") []

/-- The same types the other way round, the second taken over from another hierarchy. -/
def ringTurned : Hierarchy :=
  (empty.declare "Loop" (some "Ring") []).merge
    (empty.declare "Ring" (some "Loop") ["Round", "Closed"])

/-- Up the cycle an interface is reached in both, but nothing leads from the interface into it. -/
theorem isAssignable_byPaths_ring :
    ring.isAssignable "Closed" "Ring" = true ∧ ring.isAssignable "Ring" "Loop" = true ∧
    ring.isAssignable "Closed" "Loop" = true ∧ ringTurned.isAssignable "Closed" "Loop" = true ∧
    ring.isAssignable "Ring" "Closed" = false := by
  obtain ⟨hpath, -, htrans, horder⟩ := isAssignable_byPaths
  have hring : BuiltBy [("Ring", ⟨some "Loop", ["Closed", "Round"]⟩), ("Loop", ⟨some "Ring", []⟩)]
      ring := (BuiltBy.empty.declare _ _ _).declare _ _ _
  have hturned : BuiltBy [("Loop", ⟨some "Ring", []⟩), ("Ring", ⟨some "Loop", ["Round", "Closed"]⟩)]
      ringTurned := (BuiltBy.empty.declare _ _ _).merge (BuiltBy.empty.declare _ _ _)
  have hreordered : Reordered
      [("Ring", ⟨some "Loop", ["Closed", "Round"]⟩), ("Loop", ⟨some "Ring", []⟩)]
      [("Loop", ⟨some "Ring", []⟩), ("Ring", ⟨some "Loop", ["Round", "Closed"]⟩)] :=
    .trans (.types [] [] (by decide))
      (.interfaces [("Loop", ⟨some "Ring", []⟩)] [] _ _ (.swap _ _ _))
  have hclosed : ring.isAssignable "Closed" "Ring" = true :=
    (hpath ring "Closed" "Ring").2 (.single ⟨_, rfl, .inr (by decide)⟩)
  have hloop : ring.isAssignable "Ring" "Loop" = true :=
    (hpath ring "Ring" "Loop").2 (.single ⟨_, rfl, .inl rfl⟩)
  have hup : ring.isAssignable "Closed" "Loop" = true :=
    htrans ring "Closed" "Ring" "Loop" hclosed hloop
  have hdown : ring.isAssignable "Ring" "Closed" = false := by
    rw [isAssignable_of_no_parents (by decide +kernel)]
    decide
  exact ⟨hclosed, hloop, hup, horder _ _ _ _ hring hturned hreordered _ _ ▸ hup, hdown⟩

end Hierarchy

end Interpose
