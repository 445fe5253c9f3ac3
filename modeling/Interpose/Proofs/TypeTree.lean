import Interpose.Proofs.Redirection

/-!
The types of a unit as a tree.

The weaver takes types from a work list of index paths into the unit that it is changing, and asks
an already woven type whether what is nested in it is excluded. Here the same is said by recursion
over the tree of types as it was, where each type is woven once and then what is nested in it.
-/

namespace Interpose

/-! ### Weaving one thing after another -/

namespace Woven

variable {α β γ : Type}

/-- A part is woven, then what follows it, unless the part failed: then it is put in as it is. -/
def followed (w : Woven α) (put : α → β) (next : α → Woven β) : Woven β :=
  match w.run.outcome with
  | .error e => ⟨put w.value, w.run.log, .error e⟩
  | .ok changed => (next w.value).after w.run.log changed

lemma after_after (log log' : Log) (b b' : Bool) (w : Woven α) :
    (w.after log' b').after log b = w.after (log ++ log') (b || b') := by
  obtain ⟨v, l, e | o⟩ := w <;> simp [after, Bool.or_assoc]

lemma after_nil (w : Woven α) : w.after [] false = w := by
  obtain ⟨v, l, e | o⟩ := w <;> simp [after]

@[simp] lemma unchanged_followed (a : α) (put : α → β) (next : α → Woven β) :
    (unchanged a).followed put next = next a := after_nil (next a)

lemma after_followed (log : Log) (b : Bool) (w : Woven α) (put : α → β) (next : α → Woven β) :
    (w.after log b).followed put next = (w.followed put next).after log b := by
  obtain ⟨v, l, e | o⟩ := w
  · rfl
  · exact (after_after log l b o (next v)).symm

lemma map_followed (f : α → β) (w : Woven α) (put : β → γ) (next : β → Woven γ) :
    (w.map f).followed put next = w.followed (put ∘ f) (next ∘ f) := rfl

lemma followed_followed (w : Woven α) (put : α → β) (next : α → Woven β) (put' : β → γ)
    (next' : β → Woven γ) :
    (w.followed put next).followed put' next' =
      w.followed (put' ∘ put) fun a => (next a).followed put' next' := by
  obtain ⟨v, l, e | o⟩ := w
  · rfl
  · exact after_followed l o (next v) put' next'

lemma followed_unchanged (w : Woven α) (put : α → β) :
    w.followed put (fun a => unchanged (put a)) = w.map put := by
  obtain ⟨v, l, e | o⟩ := w <;> simp [followed, after, unchanged, map]

lemma followed_congr {w : Woven α} {put put' : α → β} {next next' : α → Woven β}
    (hp : put w.value = put' w.value) (hn : next w.value = next' w.value) :
    w.followed put next = w.followed put' next' := by
  rw [followed, followed, hp, hn]

end Woven

/-! ### Exclusion does not look at bodies -/

namespace Scope

lemma weavesMethod_congr {t t' : TypeDecl} {m m' : MethodDecl}
    (ht : t.properties = t'.properties) (hm : m.bodiless = m'.bodiless) :
    weavesMethod t m = weavesMethod t' m' := by
  have h : weavesMethod t' m = weavesMethod t' m' :=
    show weavesMethod t' m.bodiless = _ by rw [hm]; rfl
  rw [← h, weavesMethod, weavesMethod, TypeDecl.propertyAccessedBy?, ht]
  rfl

lemma origin?_bodiless (p t : TypeDecl) (name : String) :
    (origin? p t name).map MethodDecl.bodiless =
      ((p.methods.map MethodDecl.bodiless).filter (·.name == name)).find? (Container.isFor t) := by
  rw [List.filter_map, List.find?_map]
  rfl

lemma weavesType_congr {p p' : TypeDecl}
    (h : p.methods.map MethodDecl.bodiless = p'.methods.map MethodDecl.bodiless) (t : TypeDecl) :
    weavesType (some p) t = weavesType (some p') t := by
  have ho (name : String) : (origin? p t name).map (·.attributes) =
      (origin? p' t name).map (·.attributes) := by
    have hb := congrArg (Option.map fun m : MethodDecl => m.attributes)
      ((origin?_bodiless p t name).trans (h ▸ (origin?_bodiless p' t name).symm))
    rwa [Option.map_map, Option.map_map] at hb
  unfold weavesType
  rcases Container.originName? t.name with _ | name
  · rfl
  · have hn := ho name
    rcases h1 : origin? p t name with _ | m <;> rcases h2 : origin? p' t name with _ | m' <;>
      simp_all [MethodDecl.hasAttribute]

end Scope

/-! ### Trees of types -/

namespace TypeDecl

/-- Induction over a forest: over what is nested in its first tree, and over its other trees. -/
@[elab_as_elim]
theorem forest_induction {motive : List TypeDecl → Prop} (nil : motive [])
    (cons : ∀ t ts, motive t.nestedTypes → motive ts → motive (t :: ts)) (ts : List TypeDecl) :
    motive ts := by
  suffices h : ∀ n ts, countAll ts ≤ n → motive ts from h _ ts (Nat.le_refl _)
  intro n
  induction n with
  | zero =>
    intro ts hn
    rcases ts with _ | ⟨t, ts⟩
    · exact nil
    · have := count_pos t
      rw [countAll] at hn
      omega
  | succ n ih =>
    intro ts hn
    rcases ts with _ | ⟨t, ts⟩
    · exact nil
    · have := count_eq t
      rw [countAll] at hn
      exact cons t ts (ih _ (by omega)) (ih _ (by omega))

/-- The type with other nested types. -/
def withNested (ts : List TypeDecl) (t : TypeDecl) : TypeDecl := { t with nestedTypes := ts }

@[simp] lemma methods_withMethods (ms : List MethodDecl) (t : TypeDecl) :
    (t.withMethods ms).methods = ms := rfl
@[simp] lemma nestedTypes_withMethods (ms : List MethodDecl) (t : TypeDecl) :
    (t.withMethods ms).nestedTypes = t.nestedTypes := rfl
@[simp] lemma methods_withNested (ts : List TypeDecl) (t : TypeDecl) :
    (t.withNested ts).methods = t.methods := rfl
@[simp] lemma nestedTypes_withNested (ts : List TypeDecl) (t : TypeDecl) :
    (t.withNested ts).nestedTypes = ts := rfl

mutual

/-- Weaves a type and then what is nested in it, unless it is excluded. -/
def weaveTree (rules : List Rule) (c : WeaveContext) (parent : Option TypeDecl) :
    TypeDecl → Woven TypeDecl
  | ⟨name, fullName, baseType, interfaces, isGenerated, attributes, fields, properties, methods,
      nested⟩ =>
    let t : TypeDecl := ⟨name, fullName, baseType, interfaces, isGenerated, attributes, fields,
      properties, methods, nested⟩
    if Scope.weavesType parent t then
      ((weaveMethods rules c t methods).after (t.skippedEntries c) false).followed
        (withMethods · t)
        fun ms => (weaveForest rules c (some t) nested).map (withNested · (t.withMethods ms))
    else (Woven.unchanged t).after [⟨c.traceLevel, .typeSkipped t.fullName⟩] false

/-- Weaves trees in order. -/
def weaveForest (rules : List Rule) (c : WeaveContext) (parent : Option TypeDecl) :
    List TypeDecl → Woven (List TypeDecl)
  | [] => .unchanged []
  | t :: ts =>
    (weaveTree rules c parent t).followed (· :: ts)
      fun t' => (weaveForest rules c parent ts).map (t' :: ·)

end

variable {rules : List Rule} {c : WeaveContext}

lemma weaveTree_eq (parent : Option TypeDecl) (t : TypeDecl) :
    weaveTree rules c parent t =
      if Scope.weavesType parent t then
        ((weaveMethods rules c t t.methods).after (t.skippedEntries c) false).followed
          (withMethods · t)
          fun ms => (weaveForest rules c (some t) t.nestedTypes).map
            (withNested · (t.withMethods ms))
      else (Woven.unchanged t).after [⟨c.traceLevel, .typeSkipped t.fullName⟩] false := by
  obtain ⟨_, _, _, _, _, _, _, _, _, _⟩ := t
  rw [weaveTree]

lemma weaveMethods_cons (owner : TypeDecl) (m : MethodDecl) (ms : List MethodDecl) :
    weaveMethods rules c owner (m :: ms) =
      if Scope.weavesMethod owner m then
        (m.weave rules c owner.fullName).followed (· :: ms)
          fun m' => (weaveMethods rules c owner ms).map (m' :: ·)
      else (weaveMethods rules c owner ms).map (m :: ·) := rfl

end TypeDecl

end Interpose
