import Interpose.NetworkCapture
import Interpose.Proofs.Exclusion
import Interpose.Proofs.ScopedWeaving

/-!
Accessors of marked properties.

Properties may share an accessor, and the first one that names it tells whether it is woven. Main
statement: a method is kept by every weaving exactly if the first property that names it as an
accessor is marked, or it is out of scope for another marker, or it has no calls.
-/

namespace Interpose

/-! ### Properties that name an accessor -/

namespace TypeDecl

/-- Some property with the marker names the method as its accessor. -/
def MarksAccessor (t : TypeDecl) (method : String) : Prop :=
  ∃ q ∈ t.properties, q.isAccessedBy method = true ∧ q.hasAttribute exclusionMarker = true

variable {t : TypeDecl} {method : String}

lemma marksAccessor_perm_iff {ps : List PropertyDecl} (h : ps.Perm t.properties) :
    ({ t with properties := ps } : TypeDecl).MarksAccessor method ↔ t.MarksAccessor method :=
  exists_congr fun _ => and_congr_left' h.mem_iff

lemma MarksFirst.marksAccessor (h : t.MarksFirst method) : t.MarksAccessor method := by
  obtain ⟨q, hq, hmark⟩ := h
  have hnames := List.find?_some hq
  exact ⟨q, List.mem_of_find?_eq_some hq, hnames, hmark⟩

/-- With a property that names the accessor, the first one has the marker exactly if what is found
has it. -/
lemma marksFirst_iff (h : t.MarksAccessor method) : t.MarksFirst method ↔
    ∀ q, t.properties.find? (·.isAccessedBy method) = some q →
      q.hasAttribute exclusionMarker = true := by
  obtain ⟨q, hq, hnames, -⟩ := h
  have hsome : (t.properties.find? (·.isAccessedBy method)).isSome :=
    List.find?_isSome.2 ⟨q, hq, hnames⟩
  obtain ⟨first, hfirst⟩ := Option.isSome_iff_exists.1 hsome
  rw [MarksFirst, propertyAccessedBy?, hfirst]
  simp

end TypeDecl

namespace Scope

variable {t : TypeDecl} {m : MethodDecl}

/-- A method without the marker is left out for some marked property exactly if the first one that
names it is marked, if any is. In every order of the properties it is exactly if all that name it
are. -/
lemma weavesMethod_marksAccessor_iff (hm : m.hasAttribute exclusionMarker = false) :
    ((weavesMethod t m = false ↔ t.MarksAccessor m.name) ↔
      (t.MarksAccessor m.name → t.MarksFirst m.name)) ∧
    ((∀ ps : List PropertyDecl, ps.Perm t.properties →
        (weavesMethod { t with properties := ps } m = false ↔ t.MarksAccessor m.name)) ↔
      (t.MarksAccessor m.name → ∀ q ∈ t.properties, q.isAccessedBy m.name = true →
        q.hasAttribute exclusionMarker = true)) := by
  have hfirst (t' : TypeDecl) : weavesMethod t' m = false ↔ t'.MarksFirst m.name := by
    rw [weavesMethod_eq_false_iff, hm]
    simp
  refine ⟨?_, ?_⟩
  · rw [hfirst]
    exact ⟨fun h => h.2, fun h => ⟨TypeDecl.MarksFirst.marksAccessor, h⟩⟩
  · by_cases hmarks : t.MarksAccessor m.name
    · rw [forall_prop_of_true hmarks, ← forall_perm_find?_iff]
      refine forall₂_congr fun ps hps => ?_
      rw [hfirst, TypeDecl.marksFirst_iff ((TypeDecl.marksAccessor_perm_iff hps).2 hmarks),
        iff_true_right hmarks]
    · refine iff_of_true (fun ps hps => ?_) fun h => absurd h hmarks
      rw [hfirst]
      exact iff_of_false
        (fun h => hmarks ((TypeDecl.marksAccessor_perm_iff hps).1 h.marksAccessor)) hmarks

end Scope

/-! ### The types on the way to a method -/

namespace TypeDecl

lemma inScope_siteAt?_iff {scope : Bool} {parent : Option TypeDecl} {t : TypeDecl}
    {path : List Nat} {j : Nat} {s : MethodSite} (h : t.siteAt? scope parent path j = some s) :
    s.inScope = true ↔ scope = true ∧ Scope.weavesType parent t = true ∧
      (∀ i < path.length, ∀ a, t.nestedAt? (path.take (i + 1)) = some a →
        Scope.weavesType (t.nestedAt? (path.take i)) a = true) ∧
      ∀ a, t.nestedAt? path = some a → Scope.weavesMethod a s.method = true := by
  induction path generalizing scope parent t with
  | nil =>
    obtain ⟨m, -, rfl⟩ := Option.map_eq_some_iff.1 h
    simp [nestedAt?, and_assoc]
  | cons k path ih =>
    obtain ⟨t', ht', hs⟩ := Option.bind_eq_some_iff.1 h
    have hnested (front : List Nat) : t.nestedAt? (k :: front) = t'.nestedAt? front := by
      rw [nestedAt?, ht']
      rfl
    rw [ih hs, List.length_cons, Nat.forall_lt_succ_left]
    simp only [List.take_succ_cons, List.take_zero, hnested]
    simp [nestedAt?, and_assoc]

end TypeDecl

namespace CompiledUnit

/-- Every type on the way to an index path is woven, given the one that declares it. -/
def WovenTo (u : CompiledUnit) (path : List Nat) : Prop :=
  ∀ i < path.length, ∀ t, u.typeAt? (path.take (i + 1)) = some t →
    Scope.weavesType (u.typeAt? (path.take i)) t = true

variable {u : CompiledUnit} {path : List Nat} {j : Nat} {t : TypeDecl} {m : MethodDecl}

/-- Where there is a method, it is in scope exactly if the types on the way to it and the method
itself are woven. -/
lemma exists_siteAt? (ht : u.typeAt? path = some t) (hm : t.methods[j]? = some m) :
    ∃ s, u.siteAt? path j = some s ∧ s.method = m ∧
      (s.inScope = true ↔ u.WovenTo path ∧ Scope.weavesMethod t m = true) := by
  rcases path with _ | ⟨k, path⟩
  · cases ht
  · obtain ⟨t', hk, hpath⟩ := Option.bind_eq_some_iff.1 ht
    have hsite : u.siteAt? (k :: path) j = t'.siteAt? true none path j := by
      rw [siteAt?, TypeDecl.forestSite?, hk]
      rfl
    have hmethod : (t'.siteAt? true none path j).map (·.method) = some m := by
      rw [TypeDecl.siteAt?_method, TypeDecl.methodAt?, hpath]
      exact hm
    obtain ⟨s, hs, rfl⟩ := Option.map_eq_some_iff.1 hmethod
    refine ⟨s, hsite.trans hs, rfl, ?_⟩
    have htype (front : List Nat) : u.typeAt? (k :: front) = t'.nestedAt? front := by
      rw [typeAt?, hk]
      rfl
    rw [TypeDecl.inScope_siteAt?_iff hs, hpath, WovenTo, List.length_cons,
      Nat.forall_lt_succ_left]
    simp only [List.take_succ_cons, List.take_zero, htype]
    simp [typeAt?, TypeDecl.nestedAt?, and_assoc]

end CompiledUnit

/-! ### Weaving every call -/

/-- Sends every call to the wrapper. -/
def Rule.everyCall (wrapper : MethodRef) : Rule := ⟨"every-call", wrapper, none, fun _ => pure true⟩

namespace MethodDecl

variable {rules : List Rule} {c : WeaveContext} {T : String} {m : MethodDecl} {w : MethodRef}

/-- A body without calls is kept by all rules. -/
lemma weave_of_no_calls (h : ∀ a ∈ m.instructions, a.isCall = false) :
    (m.weave rules c T).value = m := by
  have hchoice (i : Nat) : m.choice rules c T i = .ok none := by
    rw [choice, if_neg]
    rcases hi : m.instructions[i]? with _ | a
    · simp
    · simp [h a (List.mem_of_getElem? hi)]
  have hfrom (n i : Nat) : (weaveFrom rules c T n i m).value = m := by
    induction n generalizing i with
    | zero => rfl
    | succ n ih => rw [(weaveFrom_succ_of_ok (hchoice i)).1, decideAt_none, ih]
  exact hfrom _ 0

lemma exists_choice_everyCall (m : MethodDecl) (i : Nat) :
    ∃ o, m.choice [.everyCall w] c T i = .ok o ∧
      ∀ callee kind, m.instructions[i]? = some (.call callee kind) →
        o = some (.everyCall w) := by
  rw [choice]
  split
  · exact ⟨some (.everyCall w), rfl, fun _ _ _ => rfl⟩
  · next hcall =>
    refine ⟨none, rfl, fun callee kind hi => absurd ?_ hcall⟩
    rw [hi]
    rfl

/-- The walk goes through, and sends every call that it comes to. -/
lemma weaveFrom_everyCall (m : MethodDecl) (n i : Nat) :
    (∃ changed, (weaveFrom [.everyCall w] c T n i m).run.outcome = .ok changed) ∧
    ∀ j callee kind, i ≤ j → j < i + n → m.instructions[j]? = some (.call callee kind) →
      (weaveFrom [.everyCall w] c T n i m).value.instructions[j]? = some (.call w kind) := by
  induction n generalizing i m with
  | zero => exact ⟨⟨false, rfl⟩, fun j _ _ h1 h2 => (by omega)⟩
  | succ n ih =>
    obtain ⟨o, ho, hcall⟩ := exists_choice_everyCall (w := w) (c := c) (T := T) m i
    obtain ⟨hvalue, hout⟩ := weaveFrom_succ_of_ok (n := n) ho
    obtain ⟨⟨changed, hchanged⟩, hsent⟩ := ih (m.decideAt i o) (i + 1)
    rw [hvalue, hout, hchanged]
    refine ⟨⟨_, rfl⟩, fun j callee kind h1 h2 hj => ?_⟩
    by_cases hij : i = j
    · subst hij
      rw [getElem?_weaveFrom_of_lt _ (by omega), instructions_decideAt, List.getElem?_modify_eq, hj,
        hcall callee kind hj]
      rfl
    · refine hsent j callee kind (by omega) (by omega) ?_
      rw [instructions_decideAt, List.getElem?_modify_ne _ _ hij, hj]

/-- Every call is sent, and nothing fails. -/
lemma weave_everyCall (m : MethodDecl) :
    (∃ changed, (m.weave [.everyCall w] c T).run.outcome = .ok changed) ∧
    ∀ (j : Nat) (callee : MethodRef) (kind : CallKind),
      m.instructions[j]? = some (.call callee kind) →
        (m.weave [.everyCall w] c T).value.instructions[j]? = some (.call w kind) := by
  obtain ⟨hout, hsent⟩ := weaveFrom_everyCall (w := w) (c := c) (T := T) m m.instructions.length 0
  refine ⟨hout, fun j callee kind hj => hsent j callee kind (Nat.zero_le j) ?_ hj⟩
  rw [Nat.zero_add]
  exact (List.getElem?_eq_some_iff.1 hj).1

end MethodDecl

namespace CompiledUnit

variable {u : CompiledUnit} {path : List Nat} {j : Nat}

/-! ### What becomes of one method -/

variable {c : WeaveContext} {s : MethodSite}

lemma exists_becomes (rules : List Rule) (c : WeaveContext) (hs : u.siteAt? path j = some s) :
    ∃ m, (u.weave rules c).value.methodAt? path j = some m ∧
      MethodSite.Becomes rules c (u.weave rules c).run.outcome s m := by
  rcases path with _ | ⟨k, path⟩
  · cases hs
  · rw [weave_eq_weaveForest, methodAt?_cons]
    have h : Option.Rel (MethodSite.Becomes rules c _) _ _ :=
      TypeDecl.weaveForest_becomes u.types none k path j
    have hforest : TypeDecl.forestSite? true none u.types k path j = some s := hs
    rw [hforest] at h
    rcases hm : TypeDecl.forestMethod? (TypeDecl.weaveForest rules c none u.types).value k path j
      with _ | m
    · rw [hm] at h
      cases h
    · rw [hm] at h
      cases h with
      | some h => exact ⟨m, hm, h⟩

/-- A method in scope is woven by the rule for every call. -/
lemma methodAt?_everyCall {w : MethodRef} (hs : u.siteAt? path j = some s)
    (hin : s.inScope = true) :
    (u.weave [.everyCall w] c).value.methodAt? path j =
      some (s.woven [.everyCall w] c).value := by
  have hgoes (s : MethodSite) (e : Fault) : (s.woven [.everyCall w] c).run.outcome ≠ .error e := by
    obtain ⟨⟨changed, h⟩, -⟩ := MethodDecl.weave_everyCall (w := w) (c := c) (T := s.owner) s.method
    rw [MethodSite.woven, h]
    exact fun hfails => by cases hfails
  obtain ⟨m, hm, hbecomes⟩ := exists_becomes [.everyCall w] c hs
  rw [hm]
  cases hbecomes with
  | kept outside => rw [hin] at outside; cases outside
  | woven => rfl
  | failed _ fails => exact absurd fails (hgoes s _)
  | left _ stops =>
    rw [weave_eq_weaveForest] at stops
    obtain ⟨_, _, _, s', -, -, fails⟩ := TypeDecl.weaveForest_failure u.types none stops
    exact absurd fails (hgoes s' _)

/-- **Kept by every weaving**: a method that is out of scope or has no calls, and no other. -/
theorem methodAt?_weave_iff (hs : u.siteAt? path j = some s) :
    (∀ (rules : List Rule) (c : WeaveContext),
      (u.weave rules c).value.methodAt? path j = some s.method) ↔
      s.inScope = false ∨ ∀ a ∈ s.method.instructions, a.isCall = false := by
  constructor
  · intro hkept
    by_contra hnot
    obtain ⟨hin, hcall⟩ := not_or.1 hnot
    obtain ⟨a, ha, hcall⟩ : ∃ a ∈ s.method.instructions, a.isCall = true := by simpa using hcall
    obtain ⟨i, hi⟩ := List.mem_iff_getElem?.1 ha
    obtain ⟨callee, kind, rfl⟩ : ∃ callee kind, a = .call callee kind := by
      cases a with
      | call callee kind => exact ⟨callee, kind, rfl⟩
      | load | store | other => cases hcall
    -- a wrapper that is not the callee itself
    have hsent := (MethodDecl.weave_everyCall (w := { callee with hasThis := !callee.hasThis })
      (c := ⟨.empty, false⟩) (T := s.owner) s.method).2 i callee kind hi
    have hwoven := methodAt?_everyCall (w := { callee with hasThis := !callee.hasThis })
      (c := ⟨.empty, false⟩) hs (by simpa using hin)
    rw [hkept, Option.some.injEq] at hwoven
    change (s.woven _ _).value.instructions[i]? = _ at hsent
    rw [← hwoven, hi, Option.some.injEq, Instruction.call.injEq] at hsent
    exact absurd (congrArg MethodRef.hasThis hsent.1) (by simp)
  · intro h rules c
    obtain ⟨m, hm, hbecomes⟩ := exists_becomes rules c hs
    rw [hm]
    rcases h with hout | hcalls
    · rw [hbecomes.eq_of_outside hout]
    · have hself : (s.woven rules c).value = s.method := MethodDecl.weave_of_no_calls hcalls
      cases hbecomes with
      | kept | left => rfl
      | woven | failed => rw [hself]

/-- **Accessors of marked properties.** A method is kept by every weaving exactly if a type on the
way to it is left out, or it is marked itself, or the first property that names it as an accessor is
marked, or it has no calls. So without a marker of its own it is left out for some marked property
exactly if the first property that names it is marked, if any is; and in every order of the
properties exactly if all that name it are marked, if any is. -/
theorem weave_accessor_iff (t : TypeDecl) (m : MethodDecl) :
    (∀ (u : CompiledUnit) (path : List Nat) (j : Nat),
      u.typeAt? path = some t → t.methods[j]? = some m →
      ((∀ (rules : List Rule) (c : WeaveContext),
          (u.weave rules c).value.methodAt? path j = some m) ↔
        ¬u.WovenTo path ∨ m.hasAttribute exclusionMarker = true ∨ t.MarksFirst m.name ∨
          ∀ a ∈ m.instructions, a.isCall = false)) ∧
    (m.hasAttribute exclusionMarker = false →
      ((Scope.weavesMethod t m = false ↔ t.MarksAccessor m.name) ↔
        (t.MarksAccessor m.name → t.MarksFirst m.name)) ∧
      ((∀ ps : List PropertyDecl, ps.Perm t.properties →
          (Scope.weavesMethod { t with properties := ps } m = false ↔
            t.MarksAccessor m.name)) ↔
        (t.MarksAccessor m.name → ∀ q ∈ t.properties, q.isAccessedBy m.name = true →
          q.hasAttribute exclusionMarker = true))) := by
  refine ⟨fun u path j ht hm => ?_, Scope.weavesMethod_marksAccessor_iff⟩
  obtain ⟨s, hs, rfl, hscope⟩ := exists_siteAt? ht hm
  rw [methodAt?_weave_iff hs, ← Bool.not_eq_true, hscope, not_and_or, Bool.not_eq_true,
    Scope.weavesMethod_eq_false_iff, or_assoc, or_assoc]

/-- A property of an indexer. -/
def indexer (attributes : List String) : PropertyDecl := ⟨"Item", some "get_Item", none, attributes⟩

/-- The accessor of indexers, which sends a request. -/
def sendItem : MethodDecl :=
  { MethodDecl.ofName "get_Item" "System.Object" with
    hasThis := true
    params := [⟨"request", NetworkCapture.webRequest⟩]
    body := some [.load (.parameter 0), .call NetworkCapture.sendMethod .virtual, .other "ret"] }

/-- A type with indexers that share the accessor. -/
def table (indexers : List PropertyDecl) : TypeDecl :=
  { TypeDecl.ofName "Game" "Table" with
    properties := indexers
    methods := [sendItem] }

def tableUnit (indexers : List PropertyDecl) : CompiledUnit :=
  { CompiledUnit.ofName "Game" with types := [table indexers] }

/-- With the marked indexer first, the accessor is left out and kept. -/
theorem weave_accessor_markedFirst :
    Scope.weavesMethod (table [indexer [exclusionMarker], indexer []]) sendItem = false ∧
    ((tableUnit [indexer [exclusionMarker], indexer []]).weave (NetworkCapture.rules .default)
      ⟨.empty, false⟩).value.methodAt? [0] 0 = some sendItem := by
  obtain ⟨hkept, hscope⟩ :=
    weave_accessor_iff (table [indexer [exclusionMarker], indexer []]) sendItem
  have hfirst : (table [indexer [exclusionMarker], indexer []]).MarksFirst sendItem.name :=
    ⟨indexer [exclusionMarker], by decide +kernel, rfl⟩
  exact ⟨((hscope rfl).1.2 fun _ => hfirst).2 hfirst.marksAccessor,
    (hkept _ [0] 0 rfl rfl).2 (.inr (.inr (.inl hfirst))) _ _⟩

/-- With the marked indexer second, the accessor is woven. -/
theorem weave_accessor_markedSecond :
    ¬∀ (rules : List Rule) (c : WeaveContext) (u : CompiledUnit) (path : List Nat) (j : Nat)
      (t : TypeDecl) (m : MethodDecl), u.typeAt? path = some t → t.methods[j]? = some m →
        t.MarksAccessor m.name → (u.weave rules c).value.methodAt? path j = some m := by
  intro h
  have hkept := h (NetworkCapture.rules .default) ⟨.empty, false⟩
    (tableUnit [indexer [], indexer [exclusionMarker]]) [0] 0 _ _ rfl rfl
    ⟨indexer [exclusionMarker], by decide +kernel, rfl, rfl⟩
  rw [weave_eq_weaveForest] at hkept
  revert hkept
  decide +kernel

end CompiledUnit

end Interpose
