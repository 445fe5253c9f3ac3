import Interpose.Proofs.Outline

/-!
Weaving with more to be seen.

A verbose run shows the decisions that other runs log for debugging only. Nothing that weaving decides
depends on it: from the conditions of rules up to a list of weavers, a verbose run does the same, fails
alike, and logs the same events in the same order.
-/

namespace Interpose

/-! ### Louder logs -/

/-- The event is a decision, logged at the level of traces. -/
def Event.isTrace : Event → Bool
  | .receiverAssumed .. | .callReplaced .. | .typeSkipped _ | .methodSkipped .. => true
  | .rebuildForWeaver | .weavingAllUnits => true
  | .unitSkipped .. | .unitUnchanged _ | .unitWriting _ => true
  | _ => false

/-- The second entry tells the same as the first; the trace of a decision may have become
information. -/
structure LogEntry.Louder (a b : LogEntry) : Prop where
  event : b.event = a.event
  level : b.level = a.level ∨ a.event.isTrace = true ∧ a.level = .debug ∧ b.level = .info

/-- The same happens, and the log is as loud or louder. -/
structure Traced.Louder {α : Type} (x y : Traced α) : Prop where
  outcome : y.outcome = x.outcome
  log : List.Forall₂ LogEntry.Louder x.log y.log

/-- The same is woven, and the log is as loud or louder. -/
structure Woven.Louder {α : Type} (w v : Woven α) : Prop where
  value : v.value = w.value
  run : w.run.Louder v.run

/-- The second context differs in that its runs may be verbose. -/
structure WeaveContext.Louder (c c' : WeaveContext) : Prop where
  hierarchy : c'.hierarchy = c.hierarchy
  verbose : c.verbose = true → c'.verbose = true

namespace LogEntry

lemma louder_refl (log : Log) : List.Forall₂ Louder log log :=
  List.forall₂_same.2 fun _ _ => ⟨rfl, .inl rfl⟩

lemma louder_trace {v v' : Bool} (hv : v = true → v' = true) {event : Event}
    (h : event.isTrace = true) : Louder ⟨.trace v, event⟩ ⟨.trace v', event⟩ := by
  refine ⟨rfl, ?_⟩
  rcases v with _ | _ <;> rcases v' with _ | _
  · exact .inl rfl
  · exact .inr ⟨h, rfl, rfl⟩
  · exact absurd (hv rfl) (by decide)
  · exact .inl rfl

end LogEntry

namespace Traced

variable {α β : Type} {x y : Traced α}

lemma louder_refl (x : Traced α) : x.Louder x := ⟨rfl, LogEntry.louder_refl x.log⟩

lemma Louder.bind {f g : α → Traced β} (h : x.Louder y) (hf : ∀ a, (f a).Louder (g a)) :
    (x >>= f).Louder (y >>= g) := by
  rw [bind_eq, bind_eq, h.outcome]
  rcases x.outcome with e | a
  · exact ⟨rfl, h.log⟩
  · exact ⟨(hf a).outcome, List.rel_append h.log (hf a).log⟩

lemma Louder.mapFault (h : x.Louder y) (f : Fault → Fault) : (x.mapFault f).Louder (y.mapFault f) :=
  ⟨by rw [Traced.mapFault, Traced.mapFault, h.outcome], h.log⟩

end Traced

namespace Woven

variable {α β : Type} {w v : Woven α} {log log' : Log}

lemma louder_refl (w : Woven α) : w.Louder w := ⟨rfl, w.run.louder_refl⟩

lemma Louder.after (h : w.Louder v) (hlog : List.Forall₂ LogEntry.Louder log log') (b : Bool) :
    (w.after log b).Louder (v.after log' b) :=
  ⟨h.value, by rw [outcome_after, outcome_after, h.run.outcome], List.rel_append hlog h.run.log⟩

lemma Louder.map (h : w.Louder v) (f : α → β) : (w.map f).Louder (v.map f) :=
  ⟨by rw [value_map, value_map, h.value], h.run⟩

lemma Louder.followed (h : w.Louder v) {next next' : α → Woven β} (put : α → β)
    (hnext : ∀ a, (next a).Louder (next' a)) :
    (w.followed put next).Louder (v.followed put next') := by
  rw [Woven.followed, Woven.followed, h.run.outcome, h.value]
  rcases w.run.outcome with e | changed
  · exact ⟨rfl, rfl, h.run.log⟩
  · exact (hnext w.value).after h.run.log changed

end Woven

/-! ### Rules -/

variable {c c' : WeaveContext} {rules : List Rule}

lemma CallSite.receiverIs_louder (hc : c.Louder c') (m : MethodDecl) (T : String) (i : Nat)
    (target : String) :
    (receiverIs ⟨m, T, i, c⟩ target).Louder (receiverIs ⟨m, T, i, c'⟩ target) := by
  obtain ⟨h, v⟩ := c
  obtain ⟨h', v'⟩ := c'
  obtain ⟨rfl, hv⟩ := hc
  rcases i with _ | i
  · exact Traced.louder_refl _
  · rw [receiverIs, receiverIs]
    dsimp only
    rcases m.infer h' T target i with e | inference
    · exact Traced.louder_refl _
    · cases inference with
      | assumed => exact ⟨rfl, .cons (LogEntry.louder_trace hv rfl) .nil⟩
      | exact | refined | mismatch => exact Traced.louder_refl _

namespace Condition

mutual

theorem holds_louder (hc : c.Louder c') (m : MethodDecl) (T : String) (i : Nat) :
    ∀ k : Condition, (holds ⟨m, T, i, c⟩ k).Louder (holds ⟨m, T, i, c'⟩ k)
  | .always _ => Traced.louder_refl _
  | .callee _ => Traced.louder_refl _
  | .receiver target => by
    rw [holds, holds]
    exact CallSite.receiverIs_louder hc m T i target
  | .at _ => Traced.louder_refl _
  | .all ks => by
    rw [holds, holds]
    exact allHold_louder hc m T i ks
  | .any ks => by
    rw [holds, holds]
    exact anyHolds_louder hc m T i ks
  | .fail _ => Traced.louder_refl _

theorem allHold_louder (hc : c.Louder c') (m : MethodDecl) (T : String) (i : Nat) :
    ∀ ks : List Condition, (allHold ⟨m, T, i, c⟩ ks).Louder (allHold ⟨m, T, i, c'⟩ ks)
  | [] => Traced.louder_refl _
  | k :: ks => by
    rw [allHold, allHold]
    refine (holds_louder hc m T i k).bind fun answer => ?_
    rcases answer with _ | _
    · exact Traced.louder_refl _
    · exact allHold_louder hc m T i ks

theorem anyHolds_louder (hc : c.Louder c') (m : MethodDecl) (T : String) (i : Nat) :
    ∀ ks : List Condition, (anyHolds ⟨m, T, i, c⟩ ks).Louder (anyHolds ⟨m, T, i, c'⟩ ks)
  | [] => Traced.louder_refl _
  | k :: ks => by
    rw [anyHolds, anyHolds]
    refine (holds_louder hc m T i k).bind fun answer => ?_
    rcases answer with _ | _
    · exact anyHolds_louder hc m T i ks
    · exact Traced.louder_refl _

end

end Condition

namespace Rule

/-- The rule answers alike in a verbose run, and its log is as loud or louder. -/
def OnlyTraces (r : Rule) : Prop :=
  ∀ {c c' : WeaveContext}, c.Louder c' → ∀ m T i,
    (r.applies ⟨m, T, i, c⟩).Louder (r.applies ⟨m, T, i, c'⟩)

lemma AsksCondition.onlyTraces {r : Rule} (h : r.AsksCondition) : r.OnlyTraces := by
  obtain ⟨k, hk⟩ := h
  intro c c' hc m T i
  rw [hk, hk]
  exact k.holds_louder hc m T i

lemma first?_louder (hr : ∀ r ∈ rules, r.OnlyTraces) (hc : c.Louder c') (m : MethodDecl) (T : String)
    (i : Nat) : (first? rules ⟨m, T, i, c⟩).Louder (first? rules ⟨m, T, i, c'⟩) := by
  induction rules with
  | nil => exact Traced.louder_refl _
  | cons r rest ih =>
    obtain ⟨hhead, hrest⟩ := List.forall_mem_cons.1 hr
    rw [first?, first?]
    refine ((hhead hc m T i).mapFault _).bind fun applies => ?_
    rcases applies with _ | _
    · exact ih hrest
    · exact Traced.louder_refl _

end Rule

/-! ### Weaving -/

lemma MethodDecl.weaveFrom_louder (hr : ∀ r ∈ rules, r.OnlyTraces) (hc : c.Louder c') (T : String)
    (n i : Nat) (m : MethodDecl) :
    (weaveFrom rules c T n i m).Louder (weaveFrom rules c' T n i m) := by
  induction n generalizing i m with
  | zero => exact Woven.louder_refl _
  | succ n ih =>
    have hfirst := Rule.first?_louder hr hc m T i
    rw [weaveFrom, weaveFrom]
    split
    · dsimp only
      rw [hfirst.outcome]
      rcases (Rule.first? rules ⟨m, T, i, c⟩).outcome with e | _ | r
      · exact ⟨rfl, rfl, hfirst.log⟩
      · exact (ih (i + 1) m).after hfirst.log false
      · have hentry : LogEntry.Louder (replacedEntry c T m i r) (replacedEntry c' T m i r) :=
          LogEntry.louder_trace hc.verbose rfl
        exact (ih (i + 1) _).after (List.rel_append hfirst.log (.cons hentry .nil)) true
    · exact ih (i + 1) m

namespace TypeDecl

lemma skippedEntries_louder (hc : c.Louder c') (t : TypeDecl) :
    List.Forall₂ LogEntry.Louder (t.skippedEntries c) (t.skippedEntries c') := by
  rw [skippedEntries, skippedEntries, List.forall₂_map_left_iff, List.forall₂_map_right_iff]
  exact List.forall₂_same.2 fun m _ => LogEntry.louder_trace hc.verbose rfl

lemma weaveMethods_louder (hr : ∀ r ∈ rules, r.OnlyTraces) (hc : c.Louder c') (owner : TypeDecl)
    (ms : List MethodDecl) :
    (weaveMethods rules c owner ms).Louder (weaveMethods rules c' owner ms) := by
  induction ms with
  | nil => exact Woven.louder_refl _
  | cons m ms ih =>
    rw [weaveMethods_cons, weaveMethods_cons]
    split
    · exact (m.weaveFrom_louder hr hc owner.fullName _ 0).followed _ fun m' => ih.map _
    · exact ih.map _

lemma weaveTree_louder (hc : c.Louder c') (hr : ∀ r ∈ rules, r.OnlyTraces) {t : TypeDecl}
    (hn : ∀ parent, (weaveForest rules c parent t.nestedTypes).Louder
      (weaveForest rules c' parent t.nestedTypes)) (parent : Option TypeDecl) :
    (weaveTree rules c parent t).Louder (weaveTree rules c' parent t) := by
  rw [weaveTree_eq, weaveTree_eq]
  split
  · have hmethods := weaveMethods_louder hr hc t t.methods
    exact (hmethods.after (skippedEntries_louder hc t) false).followed _
      fun ms => (hn (some t)).map _
  · have hentry : LogEntry.Louder ⟨c.traceLevel, .typeSkipped t.fullName⟩
        ⟨c'.traceLevel, .typeSkipped t.fullName⟩ := LogEntry.louder_trace hc.verbose rfl
    exact (Woven.louder_refl _).after (.cons hentry .nil) false

lemma weaveForest_louder (hc : c.Louder c') (hr : ∀ r ∈ rules, r.OnlyTraces) (ts : List TypeDecl) :
    ∀ parent, (weaveForest rules c parent ts).Louder (weaveForest rules c' parent ts) := by
  induction ts using forest_induction with
  | nil => exact fun _ => Woven.louder_refl _
  | cons t ts ihn iht =>
    intro parent
    rw [weaveForest, weaveForest]
    exact (weaveTree_louder hc hr ihn parent).followed _ fun t' => (iht parent).map _

end TypeDecl

lemma CompiledUnit.weave_louder (hr : ∀ r ∈ rules, r.OnlyTraces) (hc : c.Louder c')
    (u : CompiledUnit) : (u.weave rules c).Louder (u.weave rules c') := by
  rw [weave_eq_weaveForest, weave_eq_weaveForest]
  exact (TypeDecl.weaveForest_louder hc hr u.types none).map _

/-! ### Weavers -/

/-- The weaver does the same in a verbose run, and its log is as loud or louder. -/
def Weaver.OnlyTraces (w : Weaver) : Prop :=
  ∀ {c c' : WeaveContext}, c.Louder c' → ∀ u, (w.weave c u).Louder (w.weave c' u)

lemma Weaver.onlyTraces_ofRules (name : String) (seed : Hierarchy → Hierarchy)
    (hr : ∀ r ∈ rules, r.AsksCondition) : (ofRules name seed rules).OnlyTraces := fun hc u =>
  u.weave_louder (fun r hmem => (hr r hmem).onlyTraces) hc

namespace WeaverList

def OnlyTraces (l : WeaverList) : Prop := ∀ w ∈ l.weavers, w.OnlyTraces

lemma onlyTraces_ofOptions (o : CaptureOptions) : (ofOptions o).OnlyTraces := by
  intro w hw
  cases List.mem_singleton.1 hw
  exact Weaver.onlyTraces_ofRules _ _ fun r hr => NetworkCapture.asksCondition_of_mem hr

lemma weaveAll_louder {ws : List Weaver} (hw : ∀ w ∈ ws, w.OnlyTraces) (hc : c.Louder c')
    (u : CompiledUnit) : (weaveAll c ws u).Louder (weaveAll c' ws u) := by
  induction ws generalizing u with
  | nil => exact Woven.louder_refl _
  | cons w ws ih =>
    obtain ⟨hhead, hrest⟩ := List.forall_mem_cons.1 hw
    have hwoven := hhead hc u
    rw [weaveAll, weaveAll, hwoven.run.outcome, hwoven.value]
    rcases (w.weave c u).run.outcome with e | changed
    · exact ⟨rfl, rfl, hwoven.run.log⟩
    · exact (ih hrest _).after hwoven.run.log changed

/-- A verbose weaving does the same, and logs the same events. -/
lemma OnlyTraces.weave_louder {l : WeaverList} (hl : l.OnlyTraces) (hc : c.Louder c')
    (u : CompiledUnit) : (l.weave c u).Louder (l.weave c' u) :=
  weaveAll_louder hl hc u

end WeaverList

end Interpose
