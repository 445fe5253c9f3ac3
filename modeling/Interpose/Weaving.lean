import Interpose.Rule
import Interpose.Scope

/-!
Weaving rules into the calls of a method and of a whole unit.

The calls of a body are decided from left to right, each on the body as woven so far, and the
first rule that applies sends a call to its wrapper. The types of a unit are taken from a work
list of index paths into the unit as woven so far; an excluded type is left out with all that
is nested in it. When a rule fails, the weaving stops and what was woven before stays.
-/

namespace Interpose

/-- Something woven, with what happened on the way; the outcome tells whether it changed. -/
structure Woven (α : Type) where
  value : α
  run : Traced Bool

namespace Woven

def unchanged {α : Type} (a : α) : Woven α := ⟨a, pure false⟩

/-- What was woven after a step that logged and may have changed something. -/
def after {α : Type} (log : Log) (changed : Bool) (r : Woven α) : Woven α :=
  ⟨r.value, log ++ r.run.log, match r.run.outcome with
    | .error e => .error e
    | .ok changedLater => .ok (changed || changedLater)⟩

def map {α β : Type} (f : α → β) (r : Woven α) : Woven β := ⟨f r.value, r.run⟩

end Woven

/-! ### Methods -/

namespace MethodDecl

/-- The method with the instruction at an index sent to the wrapper of a rule. -/
def redirectAt (m : MethodDecl) (index : Nat) (r : Rule) : MethodDecl :=
  { m with body := m.body.map (·.modify index r.redirect) }

/-- The entry for a call that is replaced. -/
def replacedEntry (c : WeaveContext) (declaringType : String) (m : MethodDecl) (index : Nat)
    (r : Rule) : LogEntry :=
  ⟨c.traceLevel, .callReplaced
    (match (m.instructions[index]?).bind Instruction.callee? with
      | some callee => callee.fullName
      | none => "")
    r.replacement.fullName (m.displayName declaringType)⟩

/-- Decides the calls among the next `count` instructions from `index` on. -/
def weaveFrom (rules : List Rule) (c : WeaveContext) (declaringType : String) :
    (count index : Nat) → MethodDecl → Woven MethodDecl
  | 0, _, m => .unchanged m
  | count + 1, index, m =>
    if ((m.instructions[index]?).any Instruction.isCall) then
      let chosen := Rule.first? rules ⟨m, declaringType, index, c⟩
      match chosen.outcome with
      | .error e => ⟨m, chosen.log, .error e⟩
      | .ok none => (weaveFrom rules c declaringType count (index + 1) m).after chosen.log false
      | .ok (some r) =>
        (weaveFrom rules c declaringType count (index + 1) (m.redirectAt index r)).after
          (chosen.log ++ [replacedEntry c declaringType m index r]) true
    else weaveFrom rules c declaringType count (index + 1) m

/-- Sends every call that a rule applies to to the wrapper of the first such rule. -/
def weave (rules : List Rule) (c : WeaveContext) (declaringType : String) (m : MethodDecl) :
    Woven MethodDecl :=
  weaveFrom rules c declaringType m.instructions.length 0 m

end MethodDecl

/-! ### Types -/

namespace TypeDecl

/-- The entries for the methods of a type that are left out. -/
def skippedEntries (c : WeaveContext) (t : TypeDecl) : Log :=
  (t.methods.filter fun m => !Scope.weavesMethod t m).map fun m =>
    ⟨c.traceLevel, .methodSkipped t.name m.name⟩

/-- Weaves those of some methods of `owner` that are in scope, in order. -/
def weaveMethods (rules : List Rule) (c : WeaveContext) (owner : TypeDecl) :
    List MethodDecl → Woven (List MethodDecl)
  | [] => .unchanged []
  | m :: ms =>
    if Scope.weavesMethod owner m then
      let head := m.weave rules c owner.fullName
      match head.run.outcome with
      | .error e => ⟨head.value :: ms, head.run.log, .error e⟩
      | .ok changed =>
        ((weaveMethods rules c owner ms).after head.run.log changed).map (head.value :: ·)
    else (weaveMethods rules c owner ms).map (m :: ·)

/-- The type with other methods. -/
def withMethods (ms : List MethodDecl) (t : TypeDecl) : TypeDecl := { t with methods := ms }

/-! #### Changing methods keeps the tree of types -/

theorem count_withMethods (ms : List MethodDecl) (t : TypeDecl) :
    (t.withMethods ms).count = t.count := by
  rw [count_eq, count_eq]; rfl

theorem countAll_modify {f : TypeDecl → TypeDecl} (hf : ∀ t, (f t).count = t.count)
    (ts : List TypeDecl) (i : Nat) : countAll (ts.modify i f) = countAll ts := by
  induction ts generalizing i with
  | nil => simp
  | cons t ts ih =>
    cases i with
    | zero => simp [countAll, hf]
    | succ i => simp [countAll, ih]

theorem count_modifyNested {f : TypeDecl → TypeDecl} (hf : ∀ t, (f t).count = t.count)
    (path : List Nat) : ∀ t : TypeDecl, (modifyNested f t path).count = t.count := by
  induction path with
  | nil => exact hf
  | cons i path ih =>
    intro t
    rw [count_eq t, count_eq]
    simp only [modifyNested]
    rw [countAll_modify ih]

/-- The number of types in the tree at an index path, zero if there is none. -/
def countAt (t : TypeDecl) (path : List Nat) : Nat :=
  match t.nestedAt? path with
  | some s => s.count
  | none => 0

theorem countAt_modifyNested (ms : List MethodDecl) (path : List Nat) :
    ∀ (t : TypeDecl) (q : List Nat), (modifyNested (withMethods ms) t path).countAt q = t.countAt q := by
  induction path with
  | nil =>
    intro t q
    cases q with
    | nil => simp [modifyNested, countAt, nestedAt?, count_withMethods]
    | cons i q => rfl
  | cons i path ih =>
    intro t q
    cases q with
    | nil =>
      simp only [countAt, nestedAt?]
      exact count_modifyNested (count_withMethods ms) _ t
    | cons j q =>
      simp only [countAt, nestedAt?, modifyNested, List.getElem?_modify]
      cases ht : t.nestedTypes[j]? with
      | none => simp
      | some s =>
        by_cases hij : i = j
        · have := ih s q
          simpa [countAt, hij] using this
        · simp [hij]

end TypeDecl

/-! ### Units -/

namespace CompiledUnit

/-- The number of types in the tree at an index path, zero if there is none. -/
def countAt (u : CompiledUnit) (path : List Nat) : Nat :=
  match u.typeAt? path with
  | some t => t.count
  | none => 0

theorem countAt_modifyTypeAt (ms : List MethodDecl) (path : List Nat) (u : CompiledUnit)
    (q : List Nat) : (u.modifyTypeAt (TypeDecl.withMethods ms) path).countAt q = u.countAt q := by
  cases path with
  | nil => rfl
  | cons i path =>
    cases q with
    | nil => rfl
    | cons j q =>
      simp only [countAt, typeAt?, modifyTypeAt, List.getElem?_modify]
      cases ht : u.types[j]? with
      | none => simp
      | some s =>
        by_cases hij : i = j
        · have := TypeDecl.countAt_modifyNested ms path s q
          simpa [TypeDecl.countAt, hij] using this
        · simp [hij]

/-- The types below the paths of a work list, counted. -/
def workSize (u : CompiledUnit) : (work : List (List Nat)) → Nat
  | [] => 0
  | path :: rest => u.countAt path + workSize u rest

theorem workSize_modifyTypeAt (ms : List MethodDecl) (path : List Nat) (u : CompiledUnit)
    (work : List (List Nat)) :
    (u.modifyTypeAt (TypeDecl.withMethods ms) path).workSize work = u.workSize work := by
  induction work with
  | nil => rfl
  | cons q rest ih => rw [workSize, workSize, ih, countAt_modifyTypeAt]

/-- The index paths of the types nested in the one at a path. -/
def nestedPaths (path : List Nat) (t : TypeDecl) : List (List Nat) :=
  (List.range t.nestedTypes.length).map fun i => path ++ [i]

theorem typeAt?_append {u : CompiledUnit} {path : List Nat} {t : TypeDecl}
    (h : u.typeAt? path = some t) (i : Nat) : u.typeAt? (path ++ [i]) = t.nestedTypes[i]? := by
  cases path with
  | nil => simp [typeAt?] at h
  | cons j path =>
    simp only [typeAt?, List.cons_append] at h ⊢
    cases hj : u.types[j]? with
    | none => simp [hj] at h
    | some s =>
      simp only [hj, Option.bind_some] at h ⊢
      rw [TypeDecl.nestedAt?_append, h, Option.bind_some, TypeDecl.nestedAt?_singleton]

/-- The paths of some types that lie side by side count these types. -/
theorem workSize_range' {u : CompiledUnit} {path : List Nat} (ts : List TypeDecl) (k : Nat)
    (h : ∀ i, u.typeAt? (path ++ [k + i]) = ts[i]?) :
    u.workSize ((List.range' k ts.length).map fun i => path ++ [i]) = TypeDecl.countAll ts := by
  induction ts generalizing k with
  | nil => rfl
  | cons t ts ih =>
    have hhead : u.typeAt? (path ++ [k]) = some t := h 0
    have htail (i : Nat) : u.typeAt? (path ++ [k + 1 + i]) = ts[i]? := by
      rw [Nat.add_right_comm]
      exact h (i + 1)
    rw [List.length_cons, List.range'_succ, List.map_cons, workSize, TypeDecl.countAll,
      ih (k + 1) htail, countAt, hhead]

theorem workSize_nestedPaths {u : CompiledUnit} {path : List Nat} {t : TypeDecl}
    (h : u.typeAt? path = some t) :
    u.workSize (nestedPaths path t) = TypeDecl.countAll t.nestedTypes := by
  rw [nestedPaths, List.range_eq_range']
  exact workSize_range' t.nestedTypes 0 fun i => by rw [Nat.zero_add, typeAt?_append h]

theorem workSize_append (u : CompiledUnit) (ps qs : List (List Nat)) :
    u.workSize (ps ++ qs) = u.workSize ps + u.workSize qs := by
  induction ps with
  | nil => simp [workSize]
  | cons p ps ih =>
    rw [List.cons_append, workSize, workSize, ih]
    omega

theorem workSize_cons_of_typeAt? {u : CompiledUnit} {path : List Nat} {t : TypeDecl}
    (h : u.typeAt? path = some t) (rest : List (List Nat)) :
    u.workSize (path :: rest) = TypeDecl.countAll t.nestedTypes + 1 + u.workSize rest := by
  simp [workSize, countAt, h, TypeDecl.count_eq]

/-- Weaves the types at the index paths of a work list and those nested in them. -/
def weaveFrom (rules : List Rule) (c : WeaveContext) (u : CompiledUnit) (work : List (List Nat)) :
    Woven CompiledUnit :=
  match work with
  | [] => .unchanged u
  | path :: rest =>
    match _ht : u.typeAt? path with
    | none => weaveFrom rules c u rest
    | some t =>
      if Scope.weavesType (u.typeAt? path.dropLast) t then
        let methods := TypeDecl.weaveMethods rules c t t.methods
        let log := t.skippedEntries c ++ methods.run.log
        let woven := u.modifyTypeAt (TypeDecl.withMethods methods.value) path
        match methods.run.outcome with
        | .error e => ⟨woven, log, .error e⟩
        | .ok changed => (weaveFrom rules c woven (nestedPaths path t ++ rest)).after log changed
      else (weaveFrom rules c u rest).after [⟨c.traceLevel, .typeSkipped t.fullName⟩] false
termination_by (u.workSize work, work.length)
decreasing_by
  · exact Prod.Lex.right' _ (by simp [workSize]) (by simp)
  · apply Prod.Lex.left
    rw [workSize_modifyTypeAt, workSize_append, workSize_nestedPaths _ht,
      workSize_cons_of_typeAt? _ht]
    omega
  · apply Prod.Lex.left
    rw [workSize_cons_of_typeAt? _ht]
    omega

/-- Weaves every type of a unit. -/
def weave (rules : List Rule) (c : WeaveContext) (u : CompiledUnit) : Woven CompiledUnit :=
  weaveFrom rules c u ((List.range u.types.length).map fun i => [i])

end CompiledUnit

end Interpose
