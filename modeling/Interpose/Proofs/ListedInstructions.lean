import Interpose.Proofs.Address
import Interpose.Unit.Listing
import Mathlib.Data.List.Nodup

/-!
Where a listing shows an instruction.

Here the listing of a unit is written once more, item by item, with the address of the instruction that
an item shows. A text inside an item may hold line breaks, so an item takes one line of the listing or
several. Main statement: the items are those of the listing, and every instruction of the unit is shown
by one of them.
-/

namespace Interpose

deriving instance DecidableEq for Address

/-- The address below the tree at an index. -/
def Address.below (k : Nat) (a : Address) : Address := { a with path := k :: a.path }

lemma Address.below_injective (k : Nat) : Function.Injective (below k) := by
  rintro ⟨path, j, i⟩ ⟨path', j', i'⟩ h
  simpa [below] using h

namespace Listing

/-- A piece of a listing, and the address of the instruction that it shows, if it shows one. -/
structure Item where
  text : String
  shown : Option Address

namespace Item

/-- The item in the listing of the tree at an index of a forest. -/
def below (k : Nat) (x : Item) : Item := { x with shown := x.shown.map (Address.below k) }

/-- Items that show no instruction. -/
def plain (ss : List String) : List Item := ss.map fun s => ⟨s, none⟩

/-- The addresses that items show. -/
def addresses (xs : List Item) : List Address := xs.filterMap Item.shown

variable {s : String} {a : Address} {xs ys : List Item} {ss : List String} {k : Nat}

@[simp] lemma map_text_plain (ss : List String) : (plain ss).map text = ss := by
  simp [plain, Function.comp_def]

@[simp] lemma map_text_below (k : Nat) (xs : List Item) :
    (xs.map (below k)).map text = xs.map text := by
  simp [below, Function.comp_def]

@[simp] lemma not_mem_plain : ⟨s, some a⟩ ∉ plain ss := by simp [plain]

@[simp] lemma addresses_plain (ss : List String) : addresses (plain ss) = [] := by
  simp [addresses, plain]

@[simp] lemma addresses_append (xs ys : List Item) :
    addresses (xs ++ ys) = addresses xs ++ addresses ys := List.filterMap_append

@[simp] lemma addresses_below (k : Nat) (xs : List Item) :
    addresses (xs.map (below k)) = (addresses xs).map (Address.below k) := by
  rw [addresses, List.filterMap_map, addresses, List.map_filterMap]
  rfl

lemma mem_addresses_iff : a ∈ addresses xs ↔ ∃ s, ⟨s, some a⟩ ∈ xs := by
  rw [addresses, List.mem_filterMap]
  constructor
  · rintro ⟨⟨s, shown⟩, hmem, rfl⟩
    exact ⟨s, hmem⟩
  · rintro ⟨s, hmem⟩
    exact ⟨_, hmem, rfl⟩

lemma mem_map_below_iff : ⟨s, some a⟩ ∈ xs.map (below k) ↔ ∃ a', a = a'.below k ∧ ⟨s, some a'⟩ ∈ xs := by
  rw [List.mem_map]
  constructor
  · rintro ⟨⟨s', _ | a'⟩, hmem, heq⟩
    · cases heq
    · cases heq
      exact ⟨a', rfl, hmem⟩
  · rintro ⟨a', rfl, hmem⟩
    exact ⟨_, hmem, rfl⟩

end Item

open Item

/-! ### Instructions and methods -/

/-- Instructions of the method at an index, numbered from `n` on. -/
def instructionItems (level j n : Nat) : List Instruction → List Item
  | [] => []
  | i :: is => ⟨instructionLine level n i, some ⟨[], j, n⟩⟩ :: instructionItems level j (n + 1) is

/-- What stands before the instructions of a method. -/
def methodFront (level : Nat) (m : MethodDecl) : List String :=
  attributeLines level m.attributes ++
    if m.body.isSome then line level (signature m ++ " \x7b") :: localLines (level + 1) 0 m.locals
    else [line level (signature m ++ ";")]

/-- What stands behind the instructions of a method. -/
def methodBack (level : Nat) (m : MethodDecl) : List String :=
  if m.body.isSome then [line level "\x7d"] else []

/-- Methods of a type, numbered from `j` on. -/
def methodItems (level j : Nat) : List MethodDecl → List Item
  | [] => []
  | m :: ms => plain (methodFront level m) ++ instructionItems (level + 1) j 0 m.instructions ++
      plain (methodBack level m) ++ methodItems level (j + 1) ms

lemma map_text_instructionItems (level j : Nat) (is : List Instruction) :
    ∀ n, (instructionItems level j n is).map Item.text = instructionLines level n is := by
  induction is with
  | nil => exact fun _ => rfl
  | cons i is ih => exact fun n => congrArg (instructionLine level n i :: ·) (ih (n + 1))

lemma map_text_methodItems (level : Nat) (ms : List MethodDecl) :
    ∀ j, (methodItems level j ms).map Item.text = ms.flatMap (methodLines level) := by
  induction ms with
  | nil => exact fun _ => rfl
  | cons m ms ih =>
    intro j
    have hm : methodFront level m ++ instructionLines (level + 1) 0 m.instructions ++
        methodBack level m = methodLines level m := by
      rw [methodFront, methodBack, methodLines, MethodDecl.instructions]
      rcases m.body with _ | body
      · simp [instructionLines]
      · simp
    rw [methodItems, List.map_append, ih, List.map_append, List.map_append, map_text_plain,
      map_text_plain, map_text_instructionItems, hm, List.flatMap_cons]

lemma mem_instructionItems_iff {level j : Nat} {s : String} {a : Address} (is : List Instruction) :
    ∀ {n}, ⟨s, some a⟩ ∈ instructionItems level j n is ↔
      ∃ l i, a = ⟨[], j, n + l⟩ ∧ is[l]? = some i ∧ s = instructionLine level (n + l) i := by
  induction is with
  | nil => simp [instructionItems]
  | cons i is ih =>
    intro n
    rw [instructionItems, List.mem_cons, ih]
    constructor
    · rintro (h | ⟨l, i', ha, hi, hs⟩)
      · cases h
        exact ⟨0, i, rfl, rfl, rfl⟩
      · rw [Nat.succ_add_eq_add_succ] at ha hs
        exact ⟨l + 1, i', ha, hi, hs⟩
    · rintro ⟨_ | l, i', ha, hi, hs⟩
      · cases hi
        cases ha
        cases hs
        exact .inl rfl
      · rw [← Nat.succ_add_eq_add_succ] at ha hs
        exact .inr ⟨l, i', ha, hi, hs⟩

lemma mem_methodItems_iff {level : Nat} {s : String} {a : Address} (ms : List MethodDecl) :
    ∀ {j}, ⟨s, some a⟩ ∈ methodItems level j ms ↔
      ∃ l n i, a = ⟨[], j + l, n⟩ ∧ TypeDecl.methodInstruction? ms l n = some i ∧
        s = instructionLine (level + 1) n i := by
  induction ms with
  | nil => simp [methodItems, TypeDecl.methodInstruction?]
  | cons m ms ih =>
    intro j
    rw [methodItems, List.mem_append, List.mem_append, List.mem_append, ih, mem_instructionItems_iff]
    simp only [not_mem_plain, false_or, or_false, Nat.zero_add]
    constructor
    · rintro (⟨n, i, rfl, hi, rfl⟩ | ⟨l, n, i, rfl, hi, rfl⟩)
      · exact ⟨0, n, i, rfl, hi, rfl⟩
      · exact ⟨l + 1, n, i, by rw [Nat.succ_add_eq_add_succ], hi, rfl⟩
    · rintro ⟨_ | l, n, i, rfl, hi, rfl⟩
      · exact .inl ⟨n, i, rfl, hi, rfl⟩
      · exact .inr ⟨l, n, i, by rw [Nat.succ_add_eq_add_succ], hi, rfl⟩

lemma nodup_instructionItems (level j : Nat) (is : List Instruction) :
    ∀ n, (addresses (instructionItems level j n is)).Nodup := by
  induction is with
  | nil => exact fun _ => List.nodup_nil
  | cons i is ih =>
    intro n
    refine List.nodup_cons.2 ⟨fun hmem => ?_, ih (n + 1)⟩
    obtain ⟨s, hs⟩ := mem_addresses_iff.1 hmem
    obtain ⟨l, i', ha, -⟩ := (mem_instructionItems_iff is).1 hs
    have hn : n = n + 1 + l := congrArg Address.position ha
    omega

lemma nodup_methodItems (level : Nat) (ms : List MethodDecl) :
    ∀ j, (addresses (methodItems level j ms)).Nodup := by
  induction ms with
  | nil => exact fun _ => List.nodup_nil
  | cons m ms ih =>
    intro j
    rw [methodItems]
    simp only [addresses_append, addresses_plain, List.nil_append, List.append_nil]
    refine List.nodup_append.2 ⟨nodup_instructionItems _ _ _ 0, ih (j + 1), fun a ha b hb hab => ?_⟩
    obtain ⟨s, hs⟩ := mem_addresses_iff.1 ha
    obtain ⟨s', hs'⟩ := mem_addresses_iff.1 hb
    obtain ⟨_, _, rfl, -⟩ := (mem_instructionItems_iff _).1 hs
    obtain ⟨l, _, _, rfl, -⟩ := (mem_methodItems_iff ms).1 hs'
    have hj : j = j + 1 + l := congrArg Address.method hab
    omega

/-! ### Types -/

/-- What stands before the methods of a type. -/
def typeFront (level : Nat) (t : TypeDecl) : List String :=
  attributeLines level t.attributes ++
    line level (typeHead t.fullName t.isGenerated (t.baseType.toList ++ t.interfaces)) ::
      t.fields.map (fieldLine (level + 1))

mutual

def typeItems (level : Nat) : TypeDecl → List Item
  | t@⟨_, _, _, _, _, _, _, _, methods, nested⟩ =>
    plain (typeFront level t) ++ methodItems (level + 1) 0 methods ++
      forestItems [] (level + 1) 0 nested ++ plain [line level "\x7d"]

/-- Trees of a forest, numbered from `k` on, with more lines behind each. -/
def forestItems (gap : List String) (level k : Nat) : List TypeDecl → List Item
  | [] => []
  | t :: ts => (typeItems level t).map (below k) ++ plain gap ++ forestItems gap level (k + 1) ts

end

lemma typeItems_eq (level : Nat) (t : TypeDecl) :
    typeItems level t = plain (typeFront level t) ++ methodItems (level + 1) 0 t.methods ++
      forestItems [] (level + 1) 0 t.nestedTypes ++ plain [line level "\x7d"] := by
  cases t
  rw [typeItems]

lemma typeLines_eq (level : Nat) (t : TypeDecl) :
    typeLines level t = typeFront level t ++ t.methods.flatMap (methodLines (level + 1)) ++
      nestedLines (level + 1) t.nestedTypes ++ [line level "\x7d"] := by
  cases t
  simp [typeLines, typeFront]

lemma nestedLines_eq (level : Nat) (ts : List TypeDecl) :
    nestedLines level ts = ts.flatMap (typeLines level) := by
  induction ts with
  | nil => rfl
  | cons t ts ih => rw [nestedLines, ih, List.flatMap_cons]

lemma map_text_forestItems (ts : List TypeDecl) : ∀ gap level k,
    (forestItems gap level k ts).map Item.text = ts.flatMap fun t => typeLines level t ++ gap := by
  induction ts using TypeDecl.forest_induction with
  | nil => exact fun _ _ _ => rfl
  | cons t ts ihn iht =>
    intro gap level k
    have ht : (typeItems level t).map Item.text = typeLines level t := by
      have hnested : (forestItems [] (level + 1) 0 t.nestedTypes).map Item.text =
          nestedLines (level + 1) t.nestedTypes := by
        rw [ihn, nestedLines_eq]
        simp
      rw [typeItems_eq, typeLines_eq]
      simp only [List.map_append, map_text_plain, map_text_methodItems, hnested]
    rw [forestItems, List.map_append, List.map_append, map_text_below, ht, map_text_plain, iht,
      List.flatMap_cons]

/-- The items of a forest that show instructions show those of its trees. -/
lemma mem_forestItems_iff {s : String} (ts : List TypeDecl) : ∀ {gap level k a},
    ⟨s, some a⟩ ∈ forestItems gap level k ts ↔ ∃ l path j n i, a = ⟨(k + l) :: path, j, n⟩ ∧
      TypeDecl.forestInstruction? ts l path j n = some i ∧
      s = instructionLine (level + path.length + 2) n i := by
  induction ts using TypeDecl.forest_induction with
  | nil => simp [forestItems, TypeDecl.forestInstruction?]
  | cons t ts ihn iht =>
    intro gap level k a
    have hlevel (l : Nat) (path : List Nat) :
        level + 1 + path.length + 2 = level + (l :: path).length + 2 := by
      rw [List.length_cons]
      omega
    -- the tree in front, by its own addresses
    have ht {a : Address} : ⟨s, some a⟩ ∈ typeItems level t ↔
        ∃ i, t.instructionAt? a.path a.method a.position = some i ∧
          s = instructionLine (level + a.path.length + 2) a.position i := by
      rw [typeItems_eq, List.mem_append, List.mem_append, List.mem_append, ihn, mem_methodItems_iff]
      simp only [not_mem_plain, false_or, or_false, Nat.zero_add]
      constructor
      · rintro (⟨j, n, i, rfl, hi, rfl⟩ | ⟨l, path, j, n, i, rfl, hi, rfl⟩)
        · exact ⟨i, hi, rfl⟩
        · exact ⟨i, by rwa [TypeDecl.instructionAt?_cons], by rw [hlevel l]⟩
      · obtain ⟨_ | ⟨l, path⟩, j, n⟩ := a
        · rintro ⟨i, hi, rfl⟩
          exact .inl ⟨j, n, i, rfl, hi, rfl⟩
        · rintro ⟨i, hi, rfl⟩
          rw [TypeDecl.instructionAt?_cons] at hi
          exact .inr ⟨l, path, j, n, i, rfl, hi, by rw [hlevel l]⟩
    rw [forestItems, List.mem_append, List.mem_append, iht, mem_map_below_iff]
    simp only [not_mem_plain, or_false]
    constructor
    · rintro (⟨⟨path, j, n⟩, rfl, hmem⟩ | ⟨l, path, j, n, i, rfl, hi, rfl⟩)
      · obtain ⟨i, hi, rfl⟩ := ht.1 hmem
        exact ⟨0, path, j, n, i, rfl, hi, rfl⟩
      · exact ⟨l + 1, path, j, n, i, by rw [Nat.succ_add_eq_add_succ], hi, rfl⟩
    · rintro ⟨_ | l, path, j, n, i, rfl, hi, rfl⟩
      · exact .inl ⟨⟨path, j, n⟩, rfl, ht.2 ⟨i, hi, rfl⟩⟩
      · exact .inr ⟨l, path, j, n, i, by rw [Nat.succ_add_eq_add_succ], hi, rfl⟩

lemma nodup_forestItems (ts : List TypeDecl) :
    ∀ gap level k, (addresses (forestItems gap level k ts)).Nodup := by
  induction ts using TypeDecl.forest_induction with
  | nil => exact fun _ _ _ => List.nodup_nil
  | cons t ts ihn iht =>
    intro gap level k
    have ht : (addresses (typeItems level t)).Nodup := by
      rw [typeItems_eq]
      simp only [addresses_append, addresses_plain, List.nil_append, List.append_nil]
      refine List.nodup_append.2
        ⟨nodup_methodItems _ _ 0, ihn [] (level + 1) 0, fun a ha b hb hab => ?_⟩
      obtain ⟨s, hs⟩ := mem_addresses_iff.1 ha
      obtain ⟨s', hs'⟩ := mem_addresses_iff.1 hb
      obtain ⟨_, _, _, rfl, -⟩ := (mem_methodItems_iff _).1 hs
      obtain ⟨l, path, _, _, _, rfl, -⟩ := (mem_forestItems_iff _).1 hs'
      cases congrArg Address.path hab
    rw [forestItems]
    simp only [addresses_append, addresses_plain, addresses_below, List.append_nil]
    refine List.nodup_append.2
      ⟨ht.map (Address.below_injective k), iht gap level (k + 1), fun a ha b hb hab => ?_⟩
    obtain ⟨a', -, rfl⟩ := List.mem_map.1 ha
    obtain ⟨s', hs'⟩ := mem_addresses_iff.1 hb
    obtain ⟨l, path, _, _, _, rfl, -⟩ := (mem_forestItems_iff ts).1 hs'
    have hk : k = k + 1 + l := (List.cons.inj (congrArg Address.path hab)).1
    omega

/-! ### Units -/

def unitItems (u : CompiledUnit) : List Item :=
  plain (headLines u ++ [""]) ++ forestItems [""] 0 0 u.types

/-- The items with their addresses are the items of the listing. -/
lemma map_text_unitItems (u : CompiledUnit) : (unitItems u).map Item.text = unitLines u := by
  rw [unitItems, List.map_append, map_text_plain, map_text_forestItems, unitLines, List.append_assoc,
    List.singleton_append]

/-- **Every instruction is shown**: an item shows an instruction of the unit, as it is listed at its
level, and every instruction of the unit is shown by an item. -/
theorem mem_unitItems_iff {u : CompiledUnit} {s : String} {a : Address} :
    ⟨s, some a⟩ ∈ unitItems u ↔
      ∃ i, u.instructionAt? a = some i ∧ s = instructionLine (a.path.length + 1) a.position i := by
  rw [unitItems, List.mem_append, mem_forestItems_iff]
  simp only [not_mem_plain, false_or, Nat.zero_add]
  constructor
  · rintro ⟨l, path, j, n, i, rfl, hi, rfl⟩
    exact ⟨i, by rwa [CompiledUnit.instructionAt?_cons], rfl⟩
  · obtain ⟨_ | ⟨l, path⟩, j, n⟩ := a
    · rintro ⟨i, hi, -⟩
      cases hi
    · rintro ⟨i, hi, rfl⟩
      rw [CompiledUnit.instructionAt?_cons] at hi
      exact ⟨l, path, j, n, i, rfl, hi, rfl⟩

/-- No instruction is shown by two items. -/
lemma nodup_unitItems (u : CompiledUnit) : (addresses (unitItems u)).Nodup := by
  rw [unitItems, addresses_append, addresses_plain, List.nil_append]
  exact nodup_forestItems u.types [""] 0 0

end Listing

end Interpose
