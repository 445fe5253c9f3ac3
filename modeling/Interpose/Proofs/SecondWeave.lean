import Interpose.Proofs.NetworkRules
import Interpose.Proofs.WorkList
import Interpose.Weaver
import Mathlib.Tactic.Set

/-!
Weaving a unit a second time.

Rules that ask conditions and are settled find nothing in a method that they have gone through, and
exclusion does not look at bodies. So a second weaving meets the same types and methods and keeps
each of them. Main statement: weaving is idempotent for such rules, and those of the network are
such rules.
-/

namespace Interpose

/-! ### Weaving that keeps what it is given -/

namespace Woven

variable {α β : Type}

/-- Nothing was changed. -/
def Keeps (w : Woven α) (a : α) : Prop := w.value = a ∧ w.run.outcome = .ok false

lemma Keeps.map {w : Woven α} {a : α} (h : w.Keeps a) (f : α → β) : (w.map f).Keeps (f a) :=
  ⟨congrArg f h.1, h.2⟩

lemma Keeps.after {w : Woven α} {a : α} (h : w.Keeps a) (log : Log) :
    (w.after log false).Keeps a := by
  refine ⟨h.1, ?_⟩
  rw [outcome_after, h.2]
  rfl

lemma Keeps.followed {w : Woven α} {a : α} (h : w.Keeps a) {next : α → Woven β} {b : β}
    (hb : (next a).Keeps b) (put : α → β) : (w.followed put next).Keeps b := by
  obtain ⟨rfl, ho⟩ := h
  rw [Woven.followed, ho]
  exact hb.after _

/-- What goes through to its end has gone through its parts. -/
lemma of_followed_ok {w : Woven α} {put : α → β} {next : α → Woven β} {changed : Bool}
    (h : (w.followed put next).run.outcome = .ok changed) :
    (∃ b, w.run.outcome = .ok b) ∧ (∃ b, (next w.value).run.outcome = .ok b) ∧
      (w.followed put next).value = (next w.value).value := by
  rcases hw : w.run.outcome with e | b
  · rw [Woven.followed, hw] at h
    cases h
  · rw [Woven.followed, hw] at h ⊢
    rcases hn : (next w.value).run.outcome with e | b'
    · rw [outcome_after, hn] at h
      cases h
    · exact ⟨⟨b, rfl⟩, ⟨b', rfl⟩, rfl⟩

lemma of_after_ok {w : Woven α} {log : Log} {b changed : Bool}
    (h : (w.after log b).run.outcome = .ok changed) : ∃ b, w.run.outcome = .ok b := by
  rcases hw : w.run.outcome with e | b'
  · rw [outcome_after, hw] at h
    cases h
  · exact ⟨b', rfl⟩

end Woven

/-! ### A second walk over a body -/

namespace MethodDecl

variable {rules : List Rule} {c : WeaveContext} {T : String}

/-- No rule applies to any call of the method. -/
def IsWoven (rules : List Rule) (c : WeaveContext) (T : String) (m : MethodDecl) : Prop :=
  ∀ i, m.choice rules c T i = .ok none

lemma weaveFrom_of_isWoven {m : MethodDecl} (h : IsWoven rules c T m) (n i : Nat) :
    (weaveFrom rules c T n i m).Keeps m := by
  induction n generalizing i with
  | zero => exact ⟨rfl, rfl⟩
  | succ n ih =>
    obtain ⟨hval, hout⟩ := weaveFrom_succ_of_ok (n := n) (h i)
    obtain ⟨ihval, ihout⟩ := ih (i + 1)
    rw [decideAt_none] at hval hout
    rw [ihval] at hval
    rw [ihout] at hout
    exact ⟨hval, hout⟩

lemma choice_decideAt_self (hs : Rule.Settled rules) {m : MethodDecl} {i : Nat} {o : Option Rule}
    (h : m.choice rules c T i = .ok o) : (m.decideAt i o).choice rules c T i = .ok none := by
  rcases o with _ | r
  · rw [decideAt_none, h]
  · -- the call at this place is now one of a replacement
    obtain ⟨callee, kind, hi, hr, -⟩ := of_choice_eq_some h
    have hcall : (m.decideAt i (some r)).instructions[i]? =
        some (.call r.replacement (r.callKind.getD kind)) := by
      rw [instructions_decideAt, List.getElem?_modify_eq, hi]
      rfl
    have hnone : (Rule.first? rules ⟨m.decideAt i (some r), T, i, c⟩).outcome = .ok none :=
      Rule.first?_eq_none_iff.2
        (hs _ ⟨r, hr, by simp [CallSite.callee?, hcall, Instruction.callee?]⟩)
    simp [choice, hcall, Instruction.isCall, hnone]

lemma choice_decideAt_of_lt (hc : ∀ r ∈ rules, r.AsksCondition) (m : MethodDecl) {i j : Nat}
    (o : Option Rule) (hj : j < i) :
    (m.decideAt i o).choice rules c T j = m.choice rules c T j := by
  have hget (k : Nat) (hk : k < i) : (m.decideAt i o).instructions[k]? = m.instructions[k]? := by
    rw [instructions_decideAt, List.getElem?_modify_ne _ _ (by omega)]
  exact choice_congr hc rfl (hget j hj) fun k hk => by
    rw [TypeFlow.readingAt, hget k (by omega), TypeFlow.readingAt]

lemma isWoven_weaveFrom (hc : ∀ r ∈ rules, r.AsksCondition) (hs : Rule.Settled rules)
    {m : MethodDecl} {n i : Nat} {changed : Bool} (hlen : m.instructions.length ≤ i + n)
    (hbehind : ∀ j < i, m.choice rules c T j = .ok none)
    (hout : (weaveFrom rules c T n i m).run.outcome = .ok changed) :
    IsWoven rules c T (weaveFrom rules c T n i m).value := by
  induction n generalizing i m changed with
  | zero =>
    intro j
    rcases Nat.lt_or_ge j i with hj | hj
    · exact hbehind j hj
    · exact choice_of_length_le (Nat.le_trans hlen hj)
  | succ n ih =>
    rcases h : m.choice rules c T i with e | o
    · rw [(weaveFrom_succ_of_error h).2] at hout
      cases hout
    · obtain ⟨hval, hrest⟩ := weaveFrom_succ_of_ok (n := n) h
      rw [hval]
      rw [hrest] at hout
      rcases hb : (weaveFrom rules c T n (i + 1) (m.decideAt i o)).run.outcome with e | b
      · rw [hb] at hout
        cases hout
      · refine ih ?_ (fun j hj => ?_) hb
        · rw [instructions_decideAt, List.length_modify]
          omega
        · rcases Nat.lt_succ_iff_lt_or_eq.1 hj with hlt | rfl
          · rw [choice_decideAt_of_lt hc m o hlt, hbehind j hlt]
          · exact choice_decideAt_self hs h

/-- A second walk over a woven body finds nothing to send. -/
lemma weave_weave (hc : ∀ r ∈ rules, r.AsksCondition) (hs : Rule.Settled rules)
    {m : MethodDecl} {changed : Bool} (h : (m.weave rules c T).run.outcome = .ok changed) :
    ((m.weave rules c T).value.weave rules c T).Keeps (m.weave rules c T).value :=
  weaveFrom_of_isWoven
    (isWoven_weaveFrom hc hs (Nat.le_of_eq (Nat.zero_add _).symm)
      (fun _ hj => absurd hj (Nat.not_lt_zero _)) h) _ 0

end MethodDecl

variable {rules : List Rule} {c : WeaveContext}

/-! ### Methods, types and units -/

namespace TypeDecl

lemma weaveMethods_weaveMethods (hc : ∀ r ∈ rules, r.AsksCondition) (hs : Rule.Settled rules)
    {owner owner' : TypeDecl} (hname : owner'.fullName = owner.fullName)
    (hprops : owner'.properties = owner.properties) {ms : List MethodDecl} {changed : Bool}
    (h : (weaveMethods rules c owner ms).run.outcome = .ok changed) :
    (weaveMethods rules c owner' (weaveMethods rules c owner ms).value).Keeps
      (weaveMethods rules c owner ms).value := by
  induction ms generalizing changed with
  | nil => exact ⟨rfl, rfl⟩
  | cons m ms ih =>
    rw [weaveMethods_cons] at h ⊢
    split at h
    · next hscope =>
      obtain ⟨⟨b, hm⟩, ⟨b', hms⟩, hvalue⟩ := Woven.of_followed_ok h
      rw [if_pos hscope, hvalue]
      have hscope' : Scope.weavesMethod owner' (m.weave rules c owner.fullName).value = true := by
        rw [← hscope]
        exact Scope.weavesMethod_congr hprops (MethodDecl.bodiless_weave m)
      rw [Woven.value_map, weaveMethods_cons, if_pos hscope', hname]
      exact Woven.Keeps.followed (MethodDecl.weave_weave hc hs hm) ((ih hms).map _) _
    · next hscope =>
      rw [if_neg hscope]
      have hscope' : ¬Scope.weavesMethod owner' m = true := by
        rwa [Scope.weavesMethod_congr hprops rfl]
      rw [Woven.value_map, weaveMethods_cons, if_neg hscope']
      exact (ih h).map _

/-- A tree, when what is nested in it is known to be kept under every parent that excludes alike. -/
lemma weaveTree_weaveTree (hc : ∀ r ∈ rules, r.AsksCondition) (hs : Rule.Settled rules)
    {t : TypeDecl} (hn : ∀ (parent parent' : Option TypeDecl) (changed : Bool),
      (∀ s, Scope.weavesType parent' s = Scope.weavesType parent s) →
      (weaveForest rules c parent t.nestedTypes).run.outcome = .ok changed →
      (weaveForest rules c parent' (weaveForest rules c parent t.nestedTypes).value).Keeps
        (weaveForest rules c parent t.nestedTypes).value)
    {parent parent' : Option TypeDecl} {changed : Bool}
    (hp : ∀ s, Scope.weavesType parent' s = Scope.weavesType parent s)
    (h : (weaveTree rules c parent t).run.outcome = .ok changed) :
    (weaveTree rules c parent' (weaveTree rules c parent t).value).Keeps
      (weaveTree rules c parent t).value := by
  rw [weaveTree_eq parent t] at h ⊢
  split at h
  · next hscope =>
    rw [if_pos hscope]
    obtain ⟨⟨bm, hm⟩, ⟨bn, hnested⟩, hvalue⟩ := Woven.of_followed_ok h
    obtain ⟨b, hmethods⟩ := Woven.of_after_ok hm
    rw [hvalue, Woven.value_map, Woven.value_after]
    set ms := (weaveMethods rules c t t.methods).value with hms
    set ns := (weaveForest rules c (some t) t.nestedTypes).value with hns
    -- the woven type is excluded where `t` is, and excludes what `t` excludes
    have hscope' : Scope.weavesType parent' ((t.withMethods ms).withNested ns) = true := by
      rw [hp]
      exact hscope
    have hparent (s : TypeDecl) :
        Scope.weavesType (some ((t.withMethods ms).withNested ns)) s =
          Scope.weavesType (some t) s :=
      Scope.weavesType_congr (weaveMethods_bodiless t t.methods) s
    have hname : ((t.withMethods ms).withNested ns).fullName = t.fullName := rfl
    have hprops : ((t.withMethods ms).withNested ns).properties = t.properties := rfl
    have hmkeeps : (weaveMethods rules c ((t.withMethods ms).withNested ns) ms).Keeps ms :=
      weaveMethods_weaveMethods hc hs hname hprops hmethods
    have hnkeeps := hn (some t) (some ((t.withMethods ms).withNested ns)) bn hparent hnested
    rw [weaveTree_eq, if_pos hscope']
    refine Woven.Keeps.followed (hmkeeps.after _) ?_ _
    have hself : withNested ns (withMethods ms ((t.withMethods ms).withNested ns)) =
        (t.withMethods ms).withNested ns := rfl
    rw [← hself]
    exact hnkeeps.map _
  · next hscope =>
    rw [if_neg hscope, Woven.value_after, Woven.value_unchanged, weaveTree_eq, hp, if_neg hscope]
    exact Woven.Keeps.after ⟨rfl, rfl⟩ _

/-- A forest is kept by a second weaving under a parent that excludes alike. -/
lemma weaveForest_weaveForest (hc : ∀ r ∈ rules, r.AsksCondition) (hs : Rule.Settled rules)
    (ts : List TypeDecl) : ∀ (parent parent' : Option TypeDecl) (changed : Bool),
      (∀ t, Scope.weavesType parent' t = Scope.weavesType parent t) →
      (weaveForest rules c parent ts).run.outcome = .ok changed →
      (weaveForest rules c parent' (weaveForest rules c parent ts).value).Keeps
        (weaveForest rules c parent ts).value := by
  induction ts using forest_induction with
  | nil => exact fun _ _ _ _ _ => ⟨rfl, rfl⟩
  | cons t ts ihn iht =>
    intro parent parent' changed hp h
    rw [weaveForest] at h ⊢
    obtain ⟨⟨b, ht⟩, ⟨b', hts⟩, hvalue⟩ := Woven.of_followed_ok h
    rw [hvalue, Woven.value_map, weaveForest]
    refine Woven.Keeps.followed (weaveTree_weaveTree hc hs ihn hp ht) ?_ _
    exact (iht parent parent' b' hp hts).map _

end TypeDecl

lemma CompiledUnit.weave_weave (hc : ∀ r ∈ rules, r.AsksCondition) (hs : Rule.Settled rules)
    {u : CompiledUnit} {changed : Bool} (h : (u.weave rules c).run.outcome = .ok changed) :
    ((u.weave rules c).value.weave rules c).Keeps (u.weave rules c).value := by
  rw [weave_eq_weaveForest] at h ⊢
  rw [weave_eq_weaveForest]
  exact (TypeDecl.weaveForest_weaveForest hc hs u.types none none changed (fun _ => rfl) h).map _

/-- **Idempotence**: where rules that ask conditions and are settled have gone through a unit, they
find nothing in it a second time. The network rules are such rules, so the network weaver is
idempotent on every unit and under every hierarchy. -/
theorem weave_idempotent :
    (∀ (rules : List Rule) (c : WeaveContext) (u : CompiledUnit) (changed : Bool),
      (∀ r ∈ rules, r.AsksCondition) → Rule.Settled rules →
      (u.weave rules c).run.outcome = .ok changed →
      ((u.weave rules c).value.weave rules c).value = (u.weave rules c).value ∧
        ((u.weave rules c).value.weave rules c).run.outcome = .ok false) ∧
    ∀ o : CaptureOptions,
      ((∀ r ∈ NetworkCapture.rules o, r.AsksCondition) ∧ Rule.Settled (NetworkCapture.rules o)) ∧
      ∀ (c : WeaveContext) (u : CompiledUnit) (changed : Bool),
        ((Weaver.networkCapture o).weave c u).run.outcome = .ok changed →
        ((Weaver.networkCapture o).weave c ((Weaver.networkCapture o).weave c u).value).value =
            ((Weaver.networkCapture o).weave c u).value ∧
          ((Weaver.networkCapture o).weave c
            ((Weaver.networkCapture o).weave c u).value).run.outcome = .ok false := by
  refine ⟨fun rules c u changed hc hs h => CompiledUnit.weave_weave hc hs h, fun o => ?_⟩
  have hc : ∀ r ∈ NetworkCapture.rules o, r.AsksCondition :=
    fun r hr => NetworkCapture.asksCondition_of_mem hr
  have hs : Rule.Settled (NetworkCapture.rules o) := NetworkCapture.settled_rules o
  exact ⟨⟨hc, hs⟩, fun c u changed h => CompiledUnit.weave_weave hc hs h⟩

/-- A unit with one method, which makes a client. -/
def clientMaker : CompiledUnit :=
  { CompiledUnit.ofName "Game" with
    types := [{ TypeDecl.ofName "Game" "Net" with
      methods := [{ MethodDecl.ofName "Connect" NetworkCapture.httpClient with
        body := some [.call (NetworkCapture.clientConstructor []) .construct, .other "ret"] }] }] }

/-- Weaving changes the unit and weaving it again does not. -/
theorem weave_idempotent_clientMaker :
    (clientMaker.weave (NetworkCapture.rules .default) ⟨.empty, false⟩).run.outcome = .ok true ∧
    ((clientMaker.weave (NetworkCapture.rules .default) ⟨.empty, false⟩).value.weave
      (NetworkCapture.rules .default) ⟨.empty, false⟩).run.outcome = .ok false := by
  have h : (clientMaker.weave (NetworkCapture.rules .default) ⟨.empty, false⟩).run.outcome =
      .ok true := by
    rw [CompiledUnit.weave_eq_weaveForest]
    rfl
  obtain ⟨hc, hs⟩ := (weave_idempotent.2 .default).1
  exact ⟨h, (weave_idempotent.1 _ _ clientMaker true hc hs h).2⟩

end Interpose
