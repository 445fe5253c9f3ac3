import Interpose.Proofs.Outline

/-!
What weaving leaves alone.

A unit is woven by sending calls, and all else stays: the tree of types with what each type declares,
the bodies with their lengths, and every instruction that is no call. So it is for any rules, whether
the weaving goes through or fails. A weaving that reports no change has made none, and where rules are
settled, as those of the network are, one that reports a change has made one.
-/

namespace Interpose

lemma forall₂_of_rel_getElem? {α : Type} {R : α → α → Prop} {as bs : List α}
    (h : ∀ i : Nat, Option.Rel R as[i]? bs[i]?) : List.Forall₂ R as bs := by
  induction as generalizing bs with
  | nil =>
    rcases bs with _ | ⟨b, bs⟩
    · exact .nil
    · cases h 0
  | cons a as ih =>
    rcases bs with _ | ⟨b, bs⟩
    · cases h 0
    · have hhead : Option.Rel R (some a) (some b) := h 0
      cases hhead with
      | some hab => exact .cons hab (ih fun i => h (i + 1))

variable {rules : List Rule} {c : WeaveContext} {e : Fault}

/-! ### The same but for calls that were sent -/

/-- The second method is the first one with calls sent by rules. -/
def MethodDecl.CallsSent (rules : List Rule) (m m' : MethodDecl) : Prop :=
  ∃ body, m' = { m with body := body } ∧
    Option.Rel (List.Forall₂ (Rule.Sends rules)) m.body body

/-- The second type is the first one with calls sent by rules, in its methods and in those of the
types nested in it. -/
inductive TypeDecl.CallsSent (rules : List Rule) : TypeDecl → TypeDecl → Prop
  | intro {t : TypeDecl} {ms : List MethodDecl} {ts : List TypeDecl}
      (methods : List.Forall₂ (MethodDecl.CallsSent rules) t.methods ms)
      (nested : List.Forall₂ (CallsSent rules) t.nestedTypes ts) :
      CallsSent rules t ((t.withMethods ms).withNested ts)

/-- The second unit is the first one with calls sent by rules. -/
def CompiledUnit.CallsSent (rules : List Rule) (u u' : CompiledUnit) : Prop :=
  ∃ ts, u' = { u with types := ts } ∧ List.Forall₂ (TypeDecl.CallsSent rules) u.types ts

namespace MethodDecl

lemma callsSent_refl (m : MethodDecl) : m.CallsSent rules m := by
  refine ⟨m.body, rfl, ?_⟩
  rcases m.body with _ | b
  · exact .none
  · exact .some (List.forall₂_same.2 fun a _ => .kept a)

lemma isSome_body_weaveFrom (T : String) (m : MethodDecl) (n i : Nat) :
    (weaveFrom rules c T n i m).value.body.isSome = m.body.isSome := by
  induction n generalizing i m with
  | zero => rfl
  | succ n ih =>
    rcases h : m.choice rules c T i with e | o
    · rw [(weaveFrom_succ_of_error h).1]
    · rw [(weaveFrom_succ_of_ok h).1, ih, decideAt, Option.isSome_map]

lemma callsSent_weave (T : String) (m : MethodDecl) :
    m.CallsSent rules (m.weave rules c T).value := by
  have hall : List.Forall₂ (Rule.Sends rules) m.instructions
      (m.weave rules c T).value.instructions := forall₂_of_rel_getElem? fun i => weave_sends m i
  have hsome : (m.weave rules c T).value.body.isSome = m.body.isSome :=
    isSome_body_weaveFrom T m _ 0
  have hself : ({ (m.weave rules c T).value.bodiless with body := (m.weave rules c T).value.body } :
      MethodDecl) = (m.weave rules c T).value := rfl
  refine ⟨(m.weave rules c T).value.body, ?_, ?_⟩
  · rw [← hself, bodiless_weave]
    rfl
  · unfold instructions at hall
    rcases hb : m.body with _ | b <;> rcases hb' : (m.weave rules c T).value.body with _ | b' <;>
      rw [hb, hb'] at hsome hall
    · exact .none
    · cases hsome
    · cases hsome
    · exact .some hall

end MethodDecl

namespace TypeDecl

lemma forall₂_callsSent_refl (ts : List TypeDecl) : List.Forall₂ (CallsSent rules) ts ts := by
  induction ts using forest_induction with
  | nil => exact .nil
  | cons t ts ihn iht =>
    have hself : (t.withMethods t.methods).withNested t.nestedTypes = t := t.withNested_self
    have ht : t.CallsSent rules ((t.withMethods t.methods).withNested t.nestedTypes) :=
      .intro (List.forall₂_same.2 fun m _ => m.callsSent_refl) ihn
    rw [hself] at ht
    exact .cons ht iht

lemma forall₂_callsSent_weaveMethods (owner : TypeDecl) (ms : List MethodDecl) :
    List.Forall₂ (MethodDecl.CallsSent rules) ms (weaveMethods rules c owner ms).value := by
  induction ms with
  | nil => exact .nil
  | cons m ms ih =>
    rw [weaveMethods_cons]
    split
    · have hm : m.CallsSent rules (m.weave rules c owner.fullName).value :=
        m.callsSent_weave owner.fullName
      rcases h : (m.weave rules c owner.fullName).run.outcome with e | changed
      · rw [Woven.followed, h]
        exact .cons hm (List.forall₂_same.2 fun m _ => m.callsSent_refl)
      · rw [Woven.followed, h]
        exact .cons hm ih
    · exact .cons m.callsSent_refl ih

/-- A tree, when it is known what becomes of the types nested in it. -/
lemma callsSent_weaveTree {t : TypeDecl}
    (hn : ∀ parent, List.Forall₂ (CallsSent rules) t.nestedTypes
      (weaveForest rules c parent t.nestedTypes).value) (parent : Option TypeDecl) :
    t.CallsSent rules (weaveTree rules c parent t).value := by
  have hm : List.Forall₂ (MethodDecl.CallsSent rules) t.methods
      (weaveMethods rules c t t.methods).value := forall₂_callsSent_weaveMethods t t.methods
  rw [weaveTree_eq]
  split
  · rw [Woven.after_followed, Woven.value_after]
    rcases h : (weaveMethods rules c t t.methods).run.outcome with e | changed
    · rw [Woven.followed, h]
      have hkept := CallsSent.intro hm (forall₂_callsSent_refl t.nestedTypes)
      exact hkept
    · rw [Woven.followed, h]
      exact .intro hm (hn (some t))
  · exact (List.forall₂_cons.1 (forall₂_callsSent_refl [t])).1

lemma forall₂_callsSent_weaveForest (ts : List TypeDecl) :
    ∀ parent, List.Forall₂ (CallsSent rules) ts (weaveForest rules c parent ts).value := by
  induction ts using forest_induction with
  | nil => exact fun _ => .nil
  | cons t ts ihn iht =>
    intro parent
    have ht := callsSent_weaveTree ihn parent
    rw [weaveForest]
    rcases h : (weaveTree rules c parent t).run.outcome with e | changed
    · rw [Woven.followed, h]
      exact .cons ht (forall₂_callsSent_refl ts)
    · rw [Woven.followed, h]
      exact .cons ht (iht parent)

end TypeDecl

/-- Weaving sends calls and leaves all else, whether it goes through or fails. -/
lemma CompiledUnit.callsSent_weave (u : CompiledUnit) :
    u.CallsSent rules (u.weave rules c).value := by
  rw [weave_eq_weaveForest]
  exact ⟨_, rfl, TypeDecl.forall₂_callsSent_weaveForest u.types none⟩

/-! ### What is reported as a change -/

namespace Woven

variable {α β γ : Type} {w : Woven α} {a : α} {P : Prop}

/-- Where no change is reported there is none, and under `P` there is one where a change is. -/
def Reports (w : Woven α) (a : α) (P : Prop) : Prop :=
  (w.run.outcome = .ok false → w.value = a) ∧ (P → w.run.outcome = .ok true → w.value ≠ a)

lemma reports_unchanged (a : α) : (unchanged a).Reports a P := ⟨fun _ => rfl, nofun⟩

lemma reports_of_error {e : Fault} (h : w.run.outcome = .error e) : w.Reports a P := by
  rw [Reports, h]
  exact ⟨nofun, nofun⟩

lemma Reports.after (h : w.Reports a P) (log : Log) : (w.after log false).Reports a P := by
  have hout : (w.after log false).run.outcome = w.run.outcome := by
    rcases ho : w.run.outcome with e | b <;> simp [Woven.after, ho]
  rw [Reports, hout]
  exact h

/-- Two parts that are told apart in the whole, one woven after the other. -/
lemma Reports.followed {v : Woven γ} {b : γ} {f : α → γ → β}
    (hf : ∀ x y, f x y = f a b → x = a ∧ y = b) (hw : w.Reports a P) (hv : v.Reports b P)
    (put : α → β) : (w.followed put fun x => v.map (f x)).Reports (f a b) P := by
  obtain ⟨x, log, e | bx⟩ := w
  · exact reports_of_error rfl
  · obtain ⟨y, log', e | bY⟩ := v
    · exact reports_of_error rfl
    · refine ⟨fun h => ?_, fun hP h heq => ?_⟩
      · cases bx <;> cases bY <;> cases h
        rw [← hw.1 rfl, ← hv.1 rfl]
        rfl
      · obtain ⟨hx, hy⟩ := hf x y heq
        cases bx <;> cases bY <;> cases h
        · exact hv.2 hP rfl hy
        · exact hw.2 hP rfl hx
        · exact hw.2 hP rfl hx

end Woven

namespace MethodDecl

/-- A call that is sent becomes another one where rules are settled. -/
lemma redirect_ne (hs : Rule.Settled rules) {T : String} {m : MethodDecl} {i : Nat} {r : Rule}
    (h : m.choice rules c T i = .ok (some r)) :
    (m.instructions[i]?).map r.redirect ≠ m.instructions[i]? := by
  obtain ⟨callee, kind, hi, hr, happlies⟩ := of_choice_eq_some h
  rw [hi]
  intro heq
  have hcallee : r.replacement = callee := (Instruction.call.inj (Option.some.inj heq)).1
  have hsite : (⟨m, T, i, c⟩ : CallSite).callee? = some r.replacement := by
    rw [CallSite.callee?, hi, hcallee]
    rfl
  rw [hs _ ⟨r, hr, hsite⟩ r hr] at happlies
  cases happlies

lemma reports_weaveFrom (T : String) (m : MethodDecl) (n i : Nat) :
    (weaveFrom rules c T n i m).Reports m (Rule.Settled rules) := by
  induction n generalizing i m with
  | zero => exact Woven.reports_unchanged m
  | succ n ih =>
    rcases h : m.choice rules c T i with e | _ | r
    · exact Woven.reports_of_error (weaveFrom_succ_of_error h).2
    · obtain ⟨hvalue, hout⟩ := weaveFrom_succ_of_ok (n := n) h
      have hsame : (weaveFrom rules c T n (i + 1) m).run.outcome.map (false || ·) =
          (weaveFrom rules c T n (i + 1) m).run.outcome := by
        rcases (weaveFrom rules c T n (i + 1) m).run.outcome with e | b <;> rfl
      rw [decideAt_none] at hvalue hout
      rw [Woven.Reports, hvalue, hout, Option.isSome_none, hsame]
      exact ih m (i + 1)
    · obtain ⟨hvalue, hout⟩ := weaveFrom_succ_of_ok (n := n) h
      refine ⟨fun hfalse => ?_, fun hs _ heq => ?_⟩
      · rw [hout] at hfalse
        rcases hb : (weaveFrom rules c T n (i + 1) (m.decideAt i (some r))).run.outcome with e | b <;>
          rw [hb] at hfalse <;> cases hfalse
      · -- later steps leave the call alone that this step has sent
        refine redirect_ne hs h ?_
        have hi : (weaveFrom rules c T n (i + 1) (m.decideAt i (some r))).value.instructions[i]? =
            (m.decideAt i (some r)).instructions[i]? :=
          getElem?_weaveFrom_of_lt _ (Nat.lt_succ_self i)
        rw [← hvalue, heq, instructions_decideAt, List.getElem?_modify_eq] at hi
        exact hi.symm

end MethodDecl

namespace TypeDecl

lemma reports_weaveMethods (owner : TypeDecl) (ms : List MethodDecl) :
    (weaveMethods rules c owner ms).Reports ms (Rule.Settled rules) := by
  induction ms with
  | nil => exact Woven.reports_unchanged []
  | cons m ms ih =>
    rw [weaveMethods_cons]
    split
    · exact .followed (fun _ _ => List.cons.inj) (m.reports_weaveFrom owner.fullName _ 0) ih _
    · obtain ⟨hkept, hchanged⟩ := ih
      exact ⟨fun h => congrArg (m :: ·) (hkept h),
        fun hs h heq => hchanged hs h (List.cons.inj heq).2⟩

lemma reports_weaveTree {t : TypeDecl}
    (hn : ∀ parent,
      (weaveForest rules c parent t.nestedTypes).Reports t.nestedTypes (Rule.Settled rules))
    (parent : Option TypeDecl) :
    (weaveTree rules c parent t).Reports t (Rule.Settled rules) := by
  rw [weaveTree_eq]
  split
  · rw [Woven.after_followed]
    have hparts (ms : List MethodDecl) (ts : List TypeDecl)
        (h : (t.withMethods ms).withNested ts =
          (t.withMethods t.methods).withNested t.nestedTypes) :
        ms = t.methods ∧ ts = t.nestedTypes :=
      ⟨congrArg TypeDecl.methods h, congrArg TypeDecl.nestedTypes h⟩
    have hwhole := Woven.Reports.followed hparts (reports_weaveMethods (c := c) t t.methods) (hn (some t))
      (withMethods · t)
    have hself : (t.withMethods t.methods).withNested t.nestedTypes = t := t.withNested_self
    rw [hself] at hwhole
    exact hwhole.after _
  · exact (Woven.reports_unchanged t).after _

lemma reports_weaveForest (ts : List TypeDecl) : ∀ parent,
    (weaveForest rules c parent ts).Reports ts (Rule.Settled rules) := by
  induction ts using forest_induction with
  | nil => exact fun _ => Woven.reports_unchanged []
  | cons t ts ihn iht =>
    intro parent
    rw [weaveForest]
    exact .followed (fun _ _ => List.cons.inj) (reports_weaveTree ihn parent) (iht parent) _

end TypeDecl

lemma CompiledUnit.reports_weave (u : CompiledUnit) :
    (u.weave rules c).Reports u (Rule.Settled rules) := by
  have hforest : (TypeDecl.weaveForest rules c none u.types).Reports u.types (Rule.Settled rules) :=
    TypeDecl.reports_weaveForest u.types none
  obtain ⟨hkept, hchanged⟩ := hforest
  rw [weave_eq_weaveForest]
  exact ⟨fun h => congrArg (fun ts => { u with types := ts }) (hkept h),
    fun hs h heq => hchanged hs h (congrArg CompiledUnit.types heq)⟩

end Interpose
