import Interpose.Proofs.IndexPath
import Mathlib.Tactic.Set

/-!
The work list weaves by recursion.

A work list that starts with the paths of the types of a forest first weaves that forest, each type
with all that is nested in it, and then goes on with the rest. Main statement: weaving a unit is
weaving the forest of its types by recursion.
-/

namespace Interpose

variable {rules : List Rule} {c : WeaveContext}

namespace TypeDecl

lemma weaveMethods_bodiless (owner : TypeDecl) (ms : List MethodDecl) :
    (weaveMethods rules c owner ms).value.map MethodDecl.bodiless =
      ms.map MethodDecl.bodiless := by
  induction ms with
  | nil => rfl
  | cons m ms ih =>
    rw [weaveMethods_cons]
    split
    · have hm : (m.weave rules c owner.fullName).value.bodiless = m.bodiless :=
        MethodDecl.bodiless_weave m
      rcases h : (m.weave rules c owner.fullName).run.outcome with e | changed
      · simp [Woven.followed, h, hm]
      · simp [Woven.followed, h, hm, ih]
    · simp [ih]

end TypeDecl

namespace CompiledUnit

variable {u : CompiledUnit}

/-- The index paths of the types of a forest from an index on. -/
def forestPaths (path : List Nat) (k : Nat) (ts : List TypeDecl) : List (List Nat) :=
  (List.range' k ts.length).map fun i => path ++ [i]

lemma forestPaths_cons (path : List Nat) (k : Nat) (t : TypeDecl) (ts : List TypeDecl) :
    forestPaths path k (t :: ts) = (path ++ [k]) :: forestPaths path (k + 1) ts := by
  rw [forestPaths, List.length_cons, List.range'_succ]
  rfl

lemma nestedPaths_eq (path : List Nat) (t : TypeDecl) :
    nestedPaths path t = forestPaths path 0 t.nestedTypes := by
  rw [nestedPaths, List.range_eq_range', forestPaths]

lemma modify_append_cons (done : List TypeDecl) (t : TypeDecl) (ts : List TypeDecl)
    (f : TypeDecl → TypeDecl) :
    (done ++ t :: ts).modify done.length f = done ++ f t :: ts := by
  induction done with
  | nil => rfl
  | cons d done ih => simp [ih]

/-- One step of the work list. -/
lemma weaveFrom_cons {path : List Nat} {t : TypeDecl} (ht : u.typeAt? path = some t)
    (rest : List (List Nat)) :
    weaveFrom rules c u (path :: rest) =
      if Scope.weavesType (u.typeAt? path.dropLast) t then
        ((TypeDecl.weaveMethods rules c t t.methods).after (t.skippedEntries c) false).followed
          (fun ms => u.modifyTypeAt (TypeDecl.withMethods ms) path)
          (fun ms => weaveFrom rules c (u.modifyTypeAt (TypeDecl.withMethods ms) path)
            (forestPaths path 0 t.nestedTypes ++ rest))
      else (weaveFrom rules c u rest).after [⟨c.traceLevel, .typeSkipped t.fullName⟩] false := by
  rw [weaveFrom.eq_def, ← nestedPaths_eq]
  split
  · next h => cases h
  · next path' rest' h =>
    cases h
    split
    · next h => rw [ht] at h; cases h
    · next t' h =>
      rw [ht] at h
      cases h
      split
      · rcases ho : (TypeDecl.weaveMethods rules c t t.methods).run.outcome with e | b <;>
          simp [Woven.followed, Woven.after, ho]
      · rfl

/-- **The forest in front**: the work list weaves the rest of a forest in place and goes on. -/
theorem weaveFrom_forest (ts : List TypeDecl) :
    ∀ (u : CompiledUnit) (path : List Nat) (done : List TypeDecl) (parent : Option TypeDecl)
      (rest : List (List Nat)), u.forestAt? path = some (done ++ ts) →
      (∀ s, Scope.weavesType (u.typeAt? path) s = Scope.weavesType parent s) →
      weaveFrom rules c u (forestPaths path done.length ts ++ rest) =
        (TypeDecl.weaveForest rules c parent ts).followed
          (fun ts' => u.withForest path (done ++ ts'))
          fun ts' => weaveFrom rules c (u.withForest path (done ++ ts')) rest := by
  induction ts using TypeDecl.forest_induction with
  | nil =>
    intro u path done parent rest hf hp
    rw [TypeDecl.weaveForest, Woven.unchanged_followed, withForest_self hf]
    rfl
  | cons t ts ihn iht =>
    intro u path done parent rest hf hp
    have hget : (done ++ t :: ts)[done.length]? = some t := by simp
    have hat : u.typeAt? (path ++ [done.length]) = some t := by rw [typeAt?_snoc hf, hget]
    -- the later trees, whatever stands for this one
    have hlater (t' : TypeDecl) := iht (u.withForest path (done ++ t' :: ts)) path (done ++ [t'])
      parent rest (by rw [forestAt?_withForest hf, List.append_assoc]; rfl)
      fun s => by rw [weavesType_withForest, hp]
    simp only [List.length_append, List.length_singleton, withForest_withForest,
      List.append_assoc, List.singleton_append] at hlater
    rw [forestPaths_cons, List.cons_append, weaveFrom_cons hat, List.dropLast_concat, hp,
      TypeDecl.weaveForest, Woven.followed_followed, TypeDecl.weaveTree_eq]
    split
    · next hscope =>
      rw [Woven.followed_followed]
      have hmod (ms : List MethodDecl) : u.modifyTypeAt (TypeDecl.withMethods ms)
          (path ++ [done.length]) = u.withForest path (done ++ t.withMethods ms :: ts) := by
        rw [modifyTypeAt_snoc hf, modify_append_cons]
      refine Woven.followed_congr (hmod _) ?_
      -- the type with its methods woven, and what is nested in it
      set ms := (TypeDecl.weaveMethods rules c t t.methods).value with hms
      have hf1 := forestAt?_withForest hf (done ++ t.withMethods ms :: ts)
      have hget1 : (done ++ t.withMethods ms :: ts)[done.length]? = some (t.withMethods ms) := by
        simp
      have hput (ns : List TypeDecl) :
          (u.withForest path (done ++ t.withMethods ms :: ts)).withForest (path ++ [done.length])
              ns = u.withForest path (done ++ (t.withMethods ms).withNested ns :: ts) := by
        rw [withForest_snoc hf1, modify_append_cons, withForest_withForest]
      have hnested := ihn (u.withForest path (done ++ t.withMethods ms :: ts))
        (path ++ [done.length]) [] (some t) (forestPaths path (done.length + 1) ts ++ rest)
        (forestAt?_snoc (t := t.withMethods ms) hf1 hget1) fun s => by
          rw [typeAt?_snoc hf1, hget1]
          exact Scope.weavesType_congr (TypeDecl.weaveMethods_bodiless t t.methods) s
      simp only [List.length_nil, List.nil_append, hput, hlater] at hnested
      rw [Woven.value_after, ← hms, hmod, hnested, Woven.map_followed]
      rfl
    · next hscope =>
      have hself := hlater t
      rw [withForest_self hf] at hself
      rw [Woven.after_followed, Woven.unchanged_followed, hself]
      rfl

/-- **The work list is the recursion**: a unit is woven by weaving the forest of its types, with
exclusion decided on the types as they were. -/
theorem weave_eq_weaveForest (u : CompiledUnit) :
    u.weave rules c =
      (TypeDecl.weaveForest rules c none u.types).map fun ts => { u with types := ts } := by
  have h : weaveFrom rules c u (forestPaths [] 0 u.types ++ []) =
      (TypeDecl.weaveForest rules c none u.types).followed (fun ts' => u.withForest [] ([] ++ ts'))
        fun ts' => weaveFrom rules c (u.withForest [] ([] ++ ts')) [] :=
    weaveFrom_forest u.types u [] [] none [] rfl fun _ => rfl
  have hpaths : (List.range u.types.length).map (fun i => [i]) =
      forestPaths [] 0 u.types ++ [] := by
    rw [List.append_nil, forestPaths, List.range_eq_range']
    rfl
  have hdone (ts : List TypeDecl) : weaveFrom rules c (u.withForest [] ([] ++ ts)) [] =
      .unchanged { u with types := ts } := by
    rw [weaveFrom.eq_def]
    rfl
  rw [weave, hpaths, h]
  simp only [hdone]
  exact Woven.followed_unchanged _ _

end CompiledUnit

end Interpose
