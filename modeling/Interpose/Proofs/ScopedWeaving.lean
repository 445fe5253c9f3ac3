import Interpose.Proofs.WorkList

/-!
What weaving does to the methods of a unit, by their scope.

Whether a method is in scope is told on the unit as it was: each type on the way to it is woven, given
the one that declares it, and so is the method. Main statement: weaving a unit is the recursion over
its types as they were; a method out of scope is kept and makes no weaving fail; and every method in
scope is woven once, unless the weaving has failed before it.
-/

namespace Interpose

variable {rules : List Rule} {c : WeaveContext}

/-- A method where it stands in a unit: whether it is in scope, and the full name of its type. -/
structure MethodSite where
  inScope : Bool
  owner : String
  method : MethodDecl

namespace MethodSite

def woven (rules : List Rule) (c : WeaveContext) (s : MethodSite) : Woven MethodDecl :=
  s.method.weave rules c s.owner

/-- What a method can become in the course of a weaving with the given outcome. -/
inductive Becomes (rules : List Rule) (c : WeaveContext) (outcome : Except Fault Bool)
    (s : MethodSite) : MethodDecl → Prop
  | kept (outside : s.inScope = false) : Becomes rules c outcome s s.method
  | woven {changed : Bool} (inside : s.inScope = true)
      (goes : (s.woven rules c).run.outcome = .ok changed) :
      Becomes rules c outcome s (s.woven rules c).value
  /-- The weaving fails at this method. -/
  | failed {e : Fault} (inside : s.inScope = true)
      (fails : (s.woven rules c).run.outcome = .error e) (stops : outcome = .error e) :
      Becomes rules c outcome s (s.woven rules c).value
  /-- The weaving has failed before it comes to this method. -/
  | left {e : Fault} (inside : s.inScope = true) (stops : outcome = .error e) :
      Becomes rules c outcome s s.method

variable {outcome outcome' : Except Fault Bool} {s : MethodSite}

lemma becomes_self (h : s.inScope = true → ∃ e, outcome = .error e) :
    Becomes rules c outcome s s.method := by
  rcases hs : s.inScope with _ | _
  · exact .kept hs
  · obtain ⟨e, he⟩ := h hs
    exact .left hs he

lemma Becomes.mono {m : MethodDecl} (h : ∀ e, outcome = .error e → outcome' = .error e)
    (hm : Becomes rules c outcome s m) : Becomes rules c outcome' s m := by
  cases hm with
  | kept outside => exact .kept outside
  | woven inside goes => exact .woven inside goes
  | failed inside fails stops => exact .failed inside fails (h _ stops)
  | left inside stops => exact .left inside (h _ stops)

lemma Becomes.eq_of_outside {m : MethodDecl} (hm : Becomes rules c outcome s m)
    (h : s.inScope = false) : m = s.method := by
  cases hm with
  | kept | left => rfl
  | woven inside | failed inside => rw [h] at inside; cases inside

/-- The same at every place where there is a method. -/
lemma rel_mono {s? : Option MethodSite} {m? : Option MethodDecl}
    (h : ∀ e, outcome = .error e → outcome' = .error e)
    (hm : Option.Rel (Becomes rules c outcome) s? m?) :
    Option.Rel (Becomes rules c outcome') s? m? := by
  cases hm with
  | none => exact .none
  | some hm => exact .some (hm.mono h)

lemma rel_self {s? : Option MethodSite}
    (h : ∀ s, s? = some s → s.inScope = true → ∃ e, outcome = .error e) :
    Option.Rel (Becomes rules c outcome) s? (s?.map (·.method)) := by
  cases s? with
  | none => exact .none
  | some s => exact .some (becomes_self (h s rfl))

end MethodSite

open MethodSite (Becomes rel_mono rel_self)

namespace Woven

variable {α β : Type}

lemma failure_after {w : Woven α} {log : Log} {changed : Bool} {e : Fault} :
    (w.after log changed).run.outcome = .error e ↔ w.run.outcome = .error e := by
  rcases h : w.run.outcome with e' | b <;> simp [after, h]

/-- A failure is that of the part or of what follows it. -/
lemma outcome_followed (w : Woven α) (put : α → β) (next : α → Woven β) :
    (∃ e, w.run.outcome = .error e ∧ (w.followed put next).value = put w.value ∧
      (w.followed put next).run.outcome = .error e) ∨
    ∃ changed, w.run.outcome = .ok changed ∧
      (w.followed put next).value = (next w.value).value ∧
      ∀ e, (w.followed put next).run.outcome = .error e ↔ (next w.value).run.outcome = .error e := by
  rcases h : w.run.outcome with e | changed
  · exact .inl ⟨e, rfl, by simp [followed, h], by simp [followed, h]⟩
  · refine .inr ⟨changed, rfl, by simp [followed, h], fun e => ?_⟩
    rw [followed, h]
    exact failure_after

end Woven

namespace TypeDecl

/-! ### The methods of one type -/

def methodSite? (scope : Bool) (owner : TypeDecl) (ms : List MethodDecl) (j : Nat) :
    Option MethodSite :=
  (ms[j]?).map fun m => ⟨scope && Scope.weavesMethod owner m, owner.fullName, m⟩

lemma methodSite?_method (scope : Bool) (owner : TypeDecl) (ms : List MethodDecl) (j : Nat) :
    (methodSite? scope owner ms j).map (·.method) = ms[j]? := by
  rw [methodSite?, Option.map_map]
  exact Option.map_id'

lemma weaveMethods_becomes (owner : TypeDecl) (ms : List MethodDecl) (j : Nat) :
    Option.Rel (Becomes rules c (weaveMethods rules c owner ms).run.outcome)
      (methodSite? true owner ms j) ((weaveMethods rules c owner ms).value[j]?) := by
  induction ms generalizing j with
  | nil => exact .none
  | cons m ms ih =>
    rw [weaveMethods_cons]
    split
    · next hscope =>
      have hsite : (⟨true && Scope.weavesMethod owner m, owner.fullName, m⟩ : MethodSite).inScope =
          true := hscope
      rcases Woven.outcome_followed (m.weave rules c owner.fullName) (· :: ms)
          (fun m' => (weaveMethods rules c owner ms).map (m' :: ·)) with
        ⟨e, hm, hvalue, hout⟩ | ⟨changed, hm, hvalue, hout⟩
      · rw [hvalue]
        rcases j with _ | j
        · exact .some (.failed hsite hm hout)
        · have hrest : Option.Rel (Becomes rules c _) (methodSite? true owner ms j) _ :=
            rel_self fun _ _ _ => ⟨e, hout⟩
          rw [methodSite?_method] at hrest
          exact hrest
      · rw [hvalue]
        rcases j with _ | j
        · exact .some (.woven hsite hm)
        · exact rel_mono (fun e he => (hout e).2 he) (ih j)
    · next hscope =>
      rcases j with _ | j
      · exact .some (.kept (by simpa using hscope))
      · exact ih j

/-! ### The methods of a tree -/

/-- The method in a type or in one that is nested in it, where `scope` tells whether all types around
are woven. -/
def siteAt? (scope : Bool) (parent : Option TypeDecl) (t : TypeDecl) :
    (path : List Nat) → Nat → Option MethodSite
  | [], j => methodSite? (scope && Scope.weavesType parent t) t t.methods j
  | k :: path, j => (t.nestedTypes[k]?).bind fun s =>
    siteAt? (scope && Scope.weavesType parent t) (some t) s path j

/-- The method in a tree of a forest. -/
def forestSite? (scope : Bool) (parent : Option TypeDecl) (ts : List TypeDecl) (k : Nat)
    (path : List Nat) (j : Nat) : Option MethodSite :=
  (ts[k]?).bind fun t => t.siteAt? scope parent path j

def methodAt? (t : TypeDecl) (path : List Nat) (j : Nat) : Option MethodDecl :=
  (t.nestedAt? path).bind (·.methods[j]?)

def forestMethod? (ts : List TypeDecl) (k : Nat) (path : List Nat) (j : Nat) : Option MethodDecl :=
  (ts[k]?).bind fun t => t.methodAt? path j

lemma methodAt?_cons (t : TypeDecl) (k : Nat) (path : List Nat) (j : Nat) :
    t.methodAt? (k :: path) j = forestMethod? t.nestedTypes k path j := by
  rw [methodAt?, nestedAt?, Option.bind_assoc]
  rfl

lemma siteAt?_method (scope : Bool) (parent : Option TypeDecl) (t : TypeDecl) (path : List Nat)
    (j : Nat) : (t.siteAt? scope parent path j).map (·.method) = t.methodAt? path j := by
  induction path generalizing scope parent t with
  | nil => exact methodSite?_method _ t t.methods j
  | cons k path ih =>
    rw [siteAt?, methodAt?_cons, Option.map_bind]
    exact Option.bind_congr fun s _ => ih _ _ s

lemma forestSite?_method (scope : Bool) (parent : Option TypeDecl) (ts : List TypeDecl) (k : Nat)
    (path : List Nat) (j : Nat) :
    (forestSite? scope parent ts k path j).map (·.method) = forestMethod? ts k path j := by
  rw [forestSite?, Option.map_bind]
  exact Option.bind_congr fun t _ => siteAt?_method scope parent t path j

/-- After a failure the rest of a forest is left. -/
lemma forest_left {outcome : Except Fault Bool} {e : Fault} (parent : Option TypeDecl)
    (ts : List TypeDecl) (k : Nat) (path : List Nat) (j : Nat) (h : outcome = .error e) :
    Option.Rel (Becomes rules c outcome) (forestSite? true parent ts k path j)
      (forestMethod? ts k path j) := by
  rw [← forestSite?_method true parent]
  exact rel_self fun _ _ _ => ⟨e, h⟩

/-- Below an excluded type nothing is in scope. -/
lemma inScope_siteAt? {parent : Option TypeDecl} {t : TypeDecl} {path : List Nat} {j : Nat}
    {s : MethodSite} (h : t.siteAt? false parent path j = some s) : s.inScope = false := by
  induction path generalizing parent t with
  | nil =>
    obtain ⟨m, -, rfl⟩ := Option.map_eq_some_iff.1 h
    rfl
  | cons k path ih =>
    obtain ⟨t', -, ht'⟩ := Option.bind_eq_some_iff.1 h
    exact ih ht'

/-- A tree, when it is known what becomes of the methods nested in it. -/
lemma weaveTree_becomes {t : TypeDecl}
    (hn : ∀ parent k path j, Option.Rel
      (Becomes rules c (weaveForest rules c parent t.nestedTypes).run.outcome)
      (forestSite? true parent t.nestedTypes k path j)
      (forestMethod? (weaveForest rules c parent t.nestedTypes).value k path j))
    (parent : Option TypeDecl) (path : List Nat) (j : Nat) :
    Option.Rel (Becomes rules c (weaveTree rules c parent t).run.outcome)
      (t.siteAt? true parent path j) ((weaveTree rules c parent t).value.methodAt? path j) := by
  rw [weaveTree_eq]
  split
  · next hscope =>
    rw [Woven.after_followed, Woven.value_after]
    refine rel_mono (fun e he => Woven.failure_after.2 he) ?_
    rcases Woven.outcome_followed (weaveMethods rules c t t.methods) (withMethods · t)
        (fun ms => (weaveForest rules c (some t) t.nestedTypes).map
          (withNested · (t.withMethods ms))) with
      ⟨e, hm, hvalue, hout⟩ | ⟨changed, hm, hvalue, hout⟩ <;>
      rw [hvalue] <;> rcases path with _ | ⟨k, path⟩ <;>
      rw [siteAt?, hscope, Bool.and_true]
    · exact rel_mono (fun e' he' => by rw [hout, ← hm, he']) (weaveMethods_becomes t t.methods j)
    · rw [methodAt?_cons]
      exact forest_left (some t) t.nestedTypes k path j hout
    · exact rel_mono (fun e' he' => by rw [hm] at he'; cases he') (weaveMethods_becomes t t.methods j)
    · rw [methodAt?_cons]
      exact rel_mono (fun e he => (hout e).2 he) (hn (some t) k path j)
  · next hscope =>
    have hsite : t.siteAt? true parent path j = t.siteAt? false parent path j := by
      cases path <;> simp [siteAt?, hscope]
    have hself : Option.Rel (Becomes rules c (.ok false)) (t.siteAt? true parent path j) _ :=
      rel_self fun s hs hin => by
        rw [inScope_siteAt? (hsite ▸ hs)] at hin
        cases hin
    rw [siteAt?_method] at hself
    exact hself

lemma weaveForest_becomes (ts : List TypeDecl) : ∀ parent k path j, Option.Rel
    (Becomes rules c (weaveForest rules c parent ts).run.outcome)
    (forestSite? true parent ts k path j)
    (forestMethod? (weaveForest rules c parent ts).value k path j) := by
  induction ts using forest_induction with
  | nil => exact fun _ _ _ _ => .none
  | cons t ts ihn iht =>
    intro parent k path j
    have ht := weaveTree_becomes ihn parent path j
    rw [weaveForest]
    rcases Woven.outcome_followed (weaveTree rules c parent t) (· :: ts)
        (fun t' => (weaveForest rules c parent ts).map (t' :: ·)) with
      ⟨e, hm, hvalue, hout⟩ | ⟨changed, hm, hvalue, hout⟩
    · rw [hvalue]
      rcases k with _ | k
      · exact rel_mono (fun e' he' => by rw [hout, ← hm, he']) ht
      · exact forest_left parent ts k path j hout
    · rw [hvalue]
      rcases k with _ | k
      · exact rel_mono (fun e' he' => by rw [hm] at he'; cases he') ht
      · exact rel_mono (fun e he => (hout e).2 he) (iht parent k path j)

/-! ### Failures -/

variable {e : Fault}

lemma weaveMethods_failure {owner : TypeDecl} {ms : List MethodDecl}
    (h : (weaveMethods rules c owner ms).run.outcome = .error e) :
    ∃ j s, methodSite? true owner ms j = some s ∧ s.inScope = true ∧
      (s.woven rules c).run.outcome = .error e := by
  induction ms with
  | nil => cases h
  | cons m ms ih =>
    rw [weaveMethods_cons] at h
    have hlater (hms : (weaveMethods rules c owner ms).run.outcome = .error e) :
        ∃ j s, methodSite? true owner (m :: ms) j = some s ∧ s.inScope = true ∧
          (s.woven rules c).run.outcome = .error e := by
      obtain ⟨j, s, hs, hrest⟩ := ih hms
      exact ⟨j + 1, s, hs, hrest⟩
    split at h
    · next hscope =>
      rcases Woven.outcome_followed (m.weave rules c owner.fullName) (· :: ms)
          (fun m' => (weaveMethods rules c owner ms).map (m' :: ·)) with
        ⟨e', hm, -, hout⟩ | ⟨changed, -, -, hout⟩
      · rw [hout] at h
        cases h
        exact ⟨0, _, rfl, hscope, hm⟩
      · exact hlater ((hout e).1 h)
    · exact hlater h

lemma weaveTree_failure {t : TypeDecl} {parent : Option TypeDecl}
    (hn : ∀ parent, (weaveForest rules c parent t.nestedTypes).run.outcome = .error e →
      ∃ k path j s, forestSite? true parent t.nestedTypes k path j = some s ∧ s.inScope = true ∧
        (s.woven rules c).run.outcome = .error e)
    (h : (weaveTree rules c parent t).run.outcome = .error e) :
    ∃ path j s, t.siteAt? true parent path j = some s ∧ s.inScope = true ∧
      (s.woven rules c).run.outcome = .error e := by
  rw [weaveTree_eq] at h
  split at h
  · next hscope =>
    have hhere (j : Nat) : t.siteAt? true parent [] j = methodSite? true t t.methods j := by
      rw [siteAt?, hscope]
      rfl
    have hbelow (k : Nat) (path : List Nat) (j : Nat) : t.siteAt? true parent (k :: path) j =
        forestSite? true (some t) t.nestedTypes k path j := by
      rw [siteAt?, hscope]
      rfl
    rw [Woven.after_followed, Woven.failure_after] at h
    rcases Woven.outcome_followed (weaveMethods rules c t t.methods) (withMethods · t)
        (fun ms => (weaveForest rules c (some t) t.nestedTypes).map
          (withNested · (t.withMethods ms))) with
      ⟨e', hm, -, hout⟩ | ⟨changed, -, -, hout⟩
    · rw [hout] at h
      cases h
      obtain ⟨j, s, hs, hrest⟩ := weaveMethods_failure hm
      exact ⟨[], j, s, (hhere j).trans hs, hrest⟩
    · obtain ⟨k, path, j, s, hs, hrest⟩ := hn (some t) ((hout e).1 h)
      exact ⟨k :: path, j, s, (hbelow k path j).trans hs, hrest⟩
  · cases h

/-- A failure is that of a method in scope. -/
lemma weaveForest_failure (ts : List TypeDecl) : ∀ parent,
    (weaveForest rules c parent ts).run.outcome = .error e →
      ∃ k path j s, forestSite? true parent ts k path j = some s ∧ s.inScope = true ∧
        (s.woven rules c).run.outcome = .error e := by
  induction ts using forest_induction with
  | nil => exact fun _ h => (by cases h)
  | cons t ts ihn iht =>
    intro parent h
    rw [weaveForest] at h
    rcases Woven.outcome_followed (weaveTree rules c parent t) (· :: ts)
        (fun t' => (weaveForest rules c parent ts).map (t' :: ·)) with
      ⟨e', ht, -, hout⟩ | ⟨changed, -, -, hout⟩
    · rw [hout] at h
      cases h
      obtain ⟨path, j, s, hs, hrest⟩ := weaveTree_failure ihn ht
      exact ⟨0, path, j, s, hs, hrest⟩
    · obtain ⟨k, path, j, s, hs, hrest⟩ := iht parent ((hout e).1 h)
      exact ⟨k + 1, path, j, s, hs, hrest⟩

end TypeDecl

/-! ### Units -/

namespace CompiledUnit

/-- The method at an index of the type at an index path, with its scope in the unit as it is. -/
def siteAt? (u : CompiledUnit) : (path : List Nat) → Nat → Option MethodSite
  | [], _ => none
  | k :: path, j => TypeDecl.forestSite? true none u.types k path j

def methodAt? (u : CompiledUnit) (path : List Nat) (j : Nat) : Option MethodDecl :=
  (u.typeAt? path).bind (·.methods[j]?)

lemma methodAt?_cons (u : CompiledUnit) (k : Nat) (path : List Nat) (j : Nat) :
    u.methodAt? (k :: path) j = TypeDecl.forestMethod? u.types k path j := by
  rw [methodAt?, typeAt?, Option.bind_assoc]
  rfl

/-- **Weaving by scope.** A unit is woven by recursion over its types as they were, in order, where
an excluded type is left out with all that is nested in it. Each method then stands where it was: out
of scope it is kept, and in scope it is woven once, in its original form, unless the weaving has
failed before it. A failure is that of a method in scope. -/
theorem weave_byScope (rules : List Rule) (c : WeaveContext) (u : CompiledUnit) :
    u.weave rules c =
      (TypeDecl.weaveForest rules c none u.types).map (fun ts => { u with types := ts }) ∧
    (∀ path j, Option.Rel (Becomes rules c (u.weave rules c).run.outcome) (u.siteAt? path j)
      ((u.weave rules c).value.methodAt? path j)) ∧
    ∀ e, (u.weave rules c).run.outcome = .error e → ∃ path j s, u.siteAt? path j = some s ∧
      s.inScope = true ∧ (s.woven rules c).run.outcome = .error e := by
  refine ⟨weave_eq_weaveForest u, fun path j => ?_, fun e he => ?_⟩
  · rcases path with _ | ⟨k, path⟩
    · exact .none
    · rw [weave_eq_weaveForest, methodAt?_cons]
      exact TypeDecl.weaveForest_becomes u.types none k path j
  · rw [weave_eq_weaveForest] at he
    obtain ⟨k, path, j, s, hs, hrest⟩ := TypeDecl.weaveForest_failure u.types none he
    exact ⟨k :: path, j, s, hs, hrest⟩

/-- Sends a call to `Net.Log` where it stands first in its method, and fails at any other. -/
def firstCallOnly : Rule where
  name := "first"
  replacement := .static "Net.Log" "Ring" [] voidType
  callKind := none
  applies s := (Condition.any [.at 0, .fail "not the first"]).holds s

/-- A method that rings twice. -/
def ringTwice (attributes : List String) : MethodDecl :=
  { MethodDecl.ofName "Ring" voidType with
    attributes := attributes
    body := some [.call (.static "Game.Bell" "Ring" [] voidType) .direct,
      .call (.static "Game.Bell" "Ring" [] voidType) .direct, .other "ret"] }

/-- A type with an excluded method and one in scope, and an excluded type in it. -/
def belfry : CompiledUnit :=
  { CompiledUnit.ofName "Game" with
    types := [{ TypeDecl.ofName "Game" "Belfry" with
      methods := [ringTwice [exclusionMarker], ringTwice []]
      nestedTypes := [{ TypeDecl.ofName "" "Bell" with
        fullName := "Game.Belfry/Bell"
        attributes := [exclusionMarker]
        methods := [ringTwice []] }] }] }

/-- Weaving fails at the method in scope, whose first call is sent to the wrapper, and the excluded
ones stay as they are. -/
theorem weave_byScope_belfry :
    ∃ e, (belfry.weave [firstCallOnly] ⟨.empty, false⟩).run.outcome = .error e ∧
      (∃ path j s, belfry.siteAt? path j = some s ∧ s.inScope = true ∧
        (s.woven [firstCallOnly] ⟨.empty, false⟩).run.outcome = .error e) ∧
      (belfry.weave [firstCallOnly] ⟨.empty, false⟩).value.methodAt? [0] 0 =
        belfry.methodAt? [0] 0 ∧
      (belfry.weave [firstCallOnly] ⟨.empty, false⟩).value.methodAt? [0] 1 ≠
        belfry.methodAt? [0] 1 ∧
      (belfry.weave [firstCallOnly] ⟨.empty, false⟩).value.methodAt? [0, 0] 0 =
        belfry.methodAt? [0, 0] 0 := by
  obtain ⟨heq, hmethods, hfails⟩ :=
    weave_byScope [firstCallOnly] ⟨.empty, false⟩ belfry
  have hout : ∃ e, (belfry.weave [firstCallOnly] ⟨.empty, false⟩).run.outcome = .error e := by
    rw [heq]
    exact ⟨_, rfl⟩
  obtain ⟨e, he⟩ := hout
  have hkept {path : List Nat} {j : Nat} {s : MethodSite} (hs : belfry.siteAt? path j = some s)
      (hout : s.inScope = false) :
      (belfry.weave [firstCallOnly] ⟨.empty, false⟩).value.methodAt? path j = some s.method := by
    have hrel := hmethods path j
    rw [hs] at hrel
    cases hrel' : (belfry.weave [firstCallOnly] ⟨.empty, false⟩).value.methodAt? path j with
    | none => rw [hrel'] at hrel; cases hrel
    | some m =>
      rw [hrel'] at hrel
      cases hrel with
      | some hm => rw [hm.eq_of_outside hout]
  have hmarked : belfry.siteAt? [0] 0 =
      some ⟨false, "Game.Belfry", ringTwice [exclusionMarker]⟩ := rfl
  have hnested : belfry.siteAt? [0, 0] 0 = some ⟨false, "Game.Belfry/Bell", ringTwice []⟩ := rfl
  refine ⟨e, he, hfails e he, hkept hmarked rfl, ?_, hkept hnested rfl⟩
  rw [heq]
  decide

end CompiledUnit

end Interpose
