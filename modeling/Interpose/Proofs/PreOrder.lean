import Interpose.Proofs.Assignability
import Interpose.Proofs.TypeTree

/-!
The types of a unit in order.

The walk over a unit takes a type from the top of a stack and puts what is nested in it on top of the
rest. Main statement: it comes to the types in pre-order, which is the order of their index paths, and to
each path once. So where a unit declares a name several times, the declaration at the last path counts.
-/

namespace Interpose

namespace TypeDecl

variable {t : TypeDecl} {ts : List TypeDecl} {k : Nat} {path : List Nat}

/-! ### Pre-order -/

mutual

/-- The type, and then what is nested in it. -/
def preOrder : TypeDecl → List TypeDecl
  | t@⟨_, _, _, _, _, _, _, _, _, nested⟩ => t :: preOrderAll nested

def preOrderAll : List TypeDecl → List TypeDecl
  | [] => []
  | t :: ts => preOrder t ++ preOrderAll ts

end

lemma preOrder_eq (t : TypeDecl) : t.preOrder = t :: preOrderAll t.nestedTypes := by
  cases t
  rw [preOrder]

lemma preOrderAll_append (ts us : List TypeDecl) :
    preOrderAll (ts ++ us) = preOrderAll ts ++ preOrderAll us := by
  induction ts with
  | nil => rfl
  | cons t ts ih => rw [List.cons_append, preOrderAll, ih, preOrderAll, List.append_assoc]

/-- **The stack is pre-order**: what the walk has still to come to is the stack in pre-order, from its
top on. -/
theorem visit_eq_preOrderAll (found work : List TypeDecl) :
    visit found work = found.reverse ++ preOrderAll work := by
  induction found, work using visit.induct with
  | case1 found => rw [visit, preOrderAll, List.append_nil]
  | case2 found t rest ih =>
    calc visit found (t :: rest)
        = (t :: found).reverse ++ preOrderAll (t.nestedTypes ++ rest) := by rw [visit, ih]
      _ = found.reverse ++ (t :: preOrderAll t.nestedTypes ++ preOrderAll rest) := by
        rw [preOrderAll_append, List.reverse_cons, List.append_assoc, List.singleton_append,
          List.cons_append]
      _ = found.reverse ++ preOrderAll (t :: rest) := by rw [preOrderAll, preOrder_eq]

/-! ### Types with their index paths -/

mutual

/-- The type, and then what is nested in it, with index paths from the type on. -/
def located : TypeDecl → List (List Nat × TypeDecl)
  | t@⟨_, _, _, _, _, _, _, _, _, nested⟩ => ([], t) :: locatedFrom 0 nested

/-- The types of a forest whose trees are numbered from `k` on, with index paths into the forest. -/
def locatedFrom (k : Nat) : List TypeDecl → List (List Nat × TypeDecl)
  | [] => []
  | t :: ts => (located t).map (fun p => (k :: p.1, p.2)) ++ locatedFrom (k + 1) ts

end

lemma located_eq (t : TypeDecl) : t.located = ([], t) :: locatedFrom 0 t.nestedTypes := by
  cases t
  rw [located]

lemma map_snd_locatedFrom (ts : List TypeDecl) : ∀ k, (locatedFrom k ts).map (·.2) = preOrderAll ts := by
  induction ts using forest_induction with
  | nil => exact fun _ => rfl
  | cons t ts ihn iht =>
    intro k
    rw [locatedFrom, preOrderAll, List.map_append, List.map_map, iht, located_eq, preOrder_eq]
    exact congrArg (t :: · ++ preOrderAll ts) (ihn 0)

/-- The types of a forest are located where index paths lead to them. -/
lemma mem_locatedFrom_iff (ts : List TypeDecl) : ∀ {k path t}, (path, t) ∈ locatedFrom k ts ↔
    ∃ i rest, path = (k + i) :: rest ∧ (ts[i]?).bind (·.nestedAt? rest) = some t := by
  induction ts using forest_induction with
  | nil => simp [locatedFrom]
  | cons s ts ihn iht =>
    intro k path t
    -- the paths into the first tree
    have hs {rest : List Nat} : (rest, t) ∈ s.located ↔ s.nestedAt? rest = some t := by
      rw [located_eq, List.mem_cons, ihn]
      rcases rest with _ | ⟨i, rest⟩
      · simp [nestedAt?, eq_comm]
      · simp [nestedAt?, and_assoc]
    rw [locatedFrom, List.mem_append, iht, List.mem_map]
    constructor
    · rintro (⟨⟨rest, t'⟩, hmem, heq⟩ | ⟨i, rest, rfl, hi⟩)
      · cases heq
        exact ⟨0, rest, rfl, hs.1 hmem⟩
      · exact ⟨i + 1, rest, by rw [Nat.succ_add_eq_add_succ], hi⟩
    · rintro ⟨_ | i, rest, rfl, hi⟩
      · exact .inl ⟨(rest, t), hs.2 hi, rfl⟩
      · exact .inr ⟨i, rest, by rw [Nat.succ_add_eq_add_succ], hi⟩

/-- Pre-order is the lexicographic order of index paths. -/
lemma pairwise_locatedFrom (ts : List TypeDecl) :
    ∀ k, (locatedFrom k ts).Pairwise fun p q => p.1 < q.1 := by
  induction ts using forest_induction with
  | nil => exact fun _ => .nil
  | cons t ts ihn iht =>
    intro k
    have ht : t.located.Pairwise fun p q => p.1 < q.1 := by
      rw [located_eq]
      refine List.pairwise_cons.2 ⟨fun ⟨path, s⟩ hmem => ?_, ihn 0⟩
      obtain ⟨i, rest, rfl, -⟩ := (mem_locatedFrom_iff _).1 hmem
      exact List.nil_lt_cons _ _
    rw [locatedFrom]
    refine List.pairwise_append.2 ⟨?_, iht (k + 1), ?_⟩
    · exact List.pairwise_map.2 (ht.imp fun h => List.cons_lt_cons_iff.2 (.inr ⟨rfl, h⟩))
    · rintro p hp ⟨path, s⟩ hmem
      obtain ⟨p, -, rfl⟩ := List.mem_map.1 hp
      obtain ⟨i, rest, rfl, -⟩ := (mem_locatedFrom_iff _).1 hmem
      exact List.cons_lt_cons_iff.2 (.inl (by omega))

end TypeDecl

namespace CompiledUnit

variable {u : CompiledUnit} {path : List Nat} {t : TypeDecl}

/-- The types of a unit in pre-order, with their index paths. -/
def locatedTypes (u : CompiledUnit) : List (List Nat × TypeDecl) := TypeDecl.locatedFrom 0 u.types

lemma allTypes_eq_preOrderAll (u : CompiledUnit) : u.allTypes = TypeDecl.preOrderAll u.types :=
  TypeDecl.visit_eq_preOrderAll [] u.types

lemma map_snd_locatedTypes (u : CompiledUnit) : u.locatedTypes.map (·.2) = u.allTypes := by
  rw [allTypes_eq_preOrderAll, locatedTypes, TypeDecl.map_snd_locatedFrom]

lemma mem_locatedTypes_iff : (path, t) ∈ u.locatedTypes ↔ u.typeAt? path = some t := by
  rw [locatedTypes, TypeDecl.mem_locatedFrom_iff]
  rcases path with _ | ⟨i, path⟩
  · simp [typeAt?]
  · simp [typeAt?, and_assoc]

/-! ### What is declared for a name -/

/-- The type at the index path declares the name. -/
def DeclaresAt (u : CompiledUnit) (name : String) (path : List Nat) (t : TypeDecl) : Prop :=
  u.typeAt? path = some t ∧ t.fullName = name

/-- Of the declarations of the name in a unit, this is the one at the last path. -/
structure DeclaresLastAt (u : CompiledUnit) (name : String) (path : List Nat) (t : TypeDecl) : Prop where
  declares : u.DeclaresAt name path t
  last : ∀ path' t', u.DeclaresAt name path' t' → path' ≠ path → path' < path

/-- The declarations of the name, with their index paths, in order. -/
def locatedDeclarations (u : CompiledUnit) (name : String) : List (List Nat × TypeDecl) :=
  u.locatedTypes.filter (·.2.fullName == name)

lemma mem_locatedDeclarations_iff {name : String} :
    (path, t) ∈ u.locatedDeclarations name ↔ u.DeclaresAt name path t := by
  rw [locatedDeclarations, List.mem_filter, mem_locatedTypes_iff, beq_iff_eq]
  rfl

lemma declarationsOf_allTypes (u : CompiledUnit) (name : String) :
    Hierarchy.declarationsOf name (u.allTypes.map TypeDecl.declaration) =
      (u.locatedDeclarations name).map fun p => p.2.declaration.2 := by
  rw [← map_snd_locatedTypes, Hierarchy.declarationsOf, List.map_map, List.filter_map, List.map_map]
  rfl

/-- The last declaration in the order of the walk is the one at the last path. -/
lemma declaresLastAt_of_getLast? {name : String}
    (h : (u.locatedDeclarations name).getLast? = some (path, t)) : u.DeclaresLastAt name path t := by
  obtain ⟨front, hfront⟩ := List.getLast?_eq_some_iff.1 h
  refine ⟨mem_locatedDeclarations_iff.1 (List.mem_of_getLast? h), fun path' t' hat hne => ?_⟩
  have hsorted : (u.locatedDeclarations name).Pairwise fun p q => p.1 < q.1 :=
    (TypeDecl.pairwise_locatedFrom u.types 0).filter _
  have hmem := mem_locatedDeclarations_iff.2 hat
  rw [hfront] at hsorted hmem
  rcases List.mem_append.1 hmem with hlt | heq
  · exact (List.pairwise_append.1 hsorted).2.2 _ hlt _ (List.mem_singleton_self _)
  · exact absurd (congrArg Prod.fst (List.mem_singleton.1 heq)) hne

lemma find?_addUnit (h : Hierarchy) (u : CompiledUnit) (name : String) :
    (h.addUnit u).find? name =
      ((u.locatedDeclarations name).getLast?.map fun p => p.2.declaration.2).or (h.find? name) := by
  rw [Hierarchy.addUnit, Hierarchy.addTypes_eq, Hierarchy.find?_foldl_insert, declarationsOf_allTypes,
    List.getLast?_map]

/-- **Pre-order**: the types of a unit are listed by the recursion over its trees, and in the
lexicographic order of the index paths that lead to a type, each path once. A hierarchy to which the
unit is added knows of a name what the unit declares at the last path, and of a name that the unit does
not declare what it knew. -/
theorem allTypes_inOrder (u : CompiledUnit) :
    u.allTypes = TypeDecl.preOrderAll u.types ∧
    (∃ paths : List (List Nat), paths.Pairwise (· < ·) ∧
      (∀ path, path ∈ paths ↔ (u.typeAt? path).isSome) ∧
      paths.map u.typeAt? = u.allTypes.map some) ∧
    ∀ (h : Hierarchy) (name : String),
      (∃ path t, u.DeclaresLastAt name path t ∧
        (h.addUnit u).find? name = some ⟨t.baseType, t.interfaces⟩) ∨
      (∀ path t, ¬u.DeclaresAt name path t) ∧ (h.addUnit u).find? name = h.find? name := by
  refine ⟨allTypes_eq_preOrderAll u, ⟨u.locatedTypes.map (·.1), ?_, fun path => ?_, ?_⟩, fun h name => ?_⟩
  · exact List.pairwise_map.2 (TypeDecl.pairwise_locatedFrom u.types 0)
  · rw [Option.isSome_iff_exists, List.mem_map]
    constructor
    · rintro ⟨⟨path, t⟩, hmem, rfl⟩
      exact ⟨t, mem_locatedTypes_iff.1 hmem⟩
    · rintro ⟨t, ht⟩
      exact ⟨(path, t), mem_locatedTypes_iff.2 ht, rfl⟩
  · rw [← map_snd_locatedTypes, List.map_map, List.map_map]
    exact List.map_congr_left fun p hp => mem_locatedTypes_iff.1 hp
  · rw [find?_addUnit]
    rcases hlast : (u.locatedDeclarations name).getLast? with _ | ⟨path, t⟩
    · refine .inr ⟨fun path t hat => ?_, rfl⟩
      have hmem := mem_locatedDeclarations_iff.2 hat
      rw [List.getLast?_eq_none_iff.1 hlast] at hmem
      cases hmem
    · exact .inl ⟨path, t, declaresLastAt_of_getLast? hlast, rfl⟩

end CompiledUnit

end Interpose
