import Interpose.NetworkCapture
import Interpose.Proofs.FullName
import Interpose.Proofs.Redirection
import Mathlib.Data.List.Nodup

/-!
Which calls the network rules are about.

The captured methods have legible full names of their own, and no wrapper has the full name of one
of them. Main statements: a network rule that applies to a call replaces a captured method of the
callee's full name by its wrapper; and which rule is the first to apply is told by the callee's full
name and, for a disposal through the interface, by the type of the receiver.
-/

namespace Interpose.NetworkCapture

/-! ### The captured methods -/

/-- The methods that the rules are about, with their wrappers. -/
def captured : List (MethodRef × MethodRef) :=
  [(sendMethod, sendWrapper), (disposeMethod, disposeWrapper),
    (interfaceDisposeMethod, disposeWrapper)] ++
  clientOverloads.map fun p => (clientConstructor p.2, clientWrapper p.2)

/-- What the full names of the captured methods and of the wrappers are made of. -/
def words : List String :=
  [voidType, constructorName, webRequest, webRequestOperation, disposable, httpClient, httpHandler,
    booleanType, captureType, "SendWebRequest", "Dispose", "DisposeWebRequest",
    "GetHttpClientWithLoggingHandler"]

lemma words_of_mem_captured :
    ∀ p ∈ captured, (∀ w ∈ p.1.words, w ∈ words) ∧ ∀ w ∈ p.2.words, w ∈ words := by decide +kernel

/-- In these words there are no separators and no line breaks. -/
lemma plain_of_mem_words :
    ∀ w ∈ words, ∀ c ∈ w.toList, MethodRef.isSeparator c = false ∧ c ≠ '\n' := by
  have hplain {w : String} {cs : List Char} (hw : w = String.ofList cs)
      (hcs : cs.all (fun c => !MethodRef.isSeparator c && c != '\n') = true) :
      ∀ c ∈ w.toList, MethodRef.isSeparator c = false ∧ c ≠ '\n' := by
    rw [hw, String.toList_ofList]
    simpa using hcs
  simp only [words, List.forall_mem_cons]
  refine ⟨?_, ?_, ?_, ?_, ?_, ?_, ?_, ?_, ?_, ?_, ?_, ?_, ?_, List.forall_mem_nil _⟩ <;>
    exact hplain rfl (by decide)

lemma legible_of_mem_captured (p : MethodRef × MethodRef) (hp : p ∈ captured) : p.1.Legible :=
  MethodRef.legible_of_words fun w hw c hc =>
    (plain_of_mem_words w ((words_of_mem_captured p hp).1 w hw) c hc).1

/-- No wrapper is captured in turn: the type that declares the wrappers declares no captured method. -/
lemma wrapper_ne_of_mem_captured :
    ∀ p ∈ captured, ∀ q ∈ captured, p.2.fullName ≠ q.1.fullName := by
  have hdeclaring : ∀ p ∈ captured,
      p.2.declaringType = captureType ∧ p.1.declaringType ≠ captureType := by decide +kernel
  intro p hp q hq h
  obtain ⟨-, heq, -⟩ := MethodRef.eq_of_fullName_eq h (legible_of_mem_captured q hq)
  exact (hdeclaring q hq).2 (heq.symm.trans (hdeclaring p hp).1)

/-- The full name of a captured method tells which one it is. -/
lemma captured_inj {p q : MethodRef × MethodRef} (hp : p ∈ captured) (hq : q ∈ captured)
    (h : p.1.fullName = q.1.fullName) : p = q := by
  have hnodup : (captured.map fun p => p.1.fullName).Nodup := by decide +kernel
  exact List.inj_on_of_nodup_map hnodup hp hq h

/-! ### The rules -/

def sendRule : Rule := directRule "send-web-request" sendWrapper sendCondition

def disposeRule : Rule := directRule "dispose-web-request" disposeWrapper disposeCondition

/-- The rule for a constructor of the client, by its name and parameters. -/
def clientRule (p : String × List String) : Rule :=
  directRule p.1 (clientWrapper p.2) (.callee (clientConstructor p.2).fullName)

lemma rules_eq (o : CaptureOptions) :
    rules o = (if o.capturesWebRequests then [sendRule, disposeRule] else []) ++
      clientOverloads.map clientRule := rfl

lemma mem_rules {o : CaptureOptions} {r : Rule} :
    r ∈ rules o ↔ (o.capturesWebRequests = true ∧ (r = sendRule ∨ r = disposeRule)) ∨
      ∃ p ∈ clientOverloads, clientRule p = r := by
  rw [rules_eq, List.mem_append, List.mem_map]
  by_cases h : o.capturesWebRequests <;> simp only [h, if_true] <;> simp

/-! ### When a rule applies -/

variable {o : CaptureOptions} {s : CallSite} {callee : MethodRef}

lemma calleeIs_eq (hs : s.callee? = some callee) (fullName : String) :
    s.calleeIs fullName = (callee.fullName == fullName) := by
  rw [CallSite.calleeIs, hs]

lemma applies_sendRule (hs : s.callee? = some callee) :
    (sendRule.applies s).outcome = .ok (callee.fullName == sendMethod.fullName) := by
  rw [← calleeIs_eq hs]
  rfl

lemma applies_clientRule (hs : s.callee? = some callee) (p : String × List String) :
    ((clientRule p).applies s).outcome =
      .ok (callee.fullName == (clientConstructor p.2).fullName) := by
  rw [← calleeIs_eq hs]
  rfl

lemma outcome_allHold_cons (s : CallSite) (k : Condition) (ks : List Condition) :
    (Condition.allHold s (k :: ks)).outcome = match (k.holds s).outcome with
      | .error e => .error e
      | .ok true => (Condition.allHold s ks).outcome
      | .ok false => .ok false := by
  rw [Condition.allHold, Traced.bind_eq]
  rcases h : (k.holds s).outcome with e | _ | _ <;> rfl

lemma outcome_anyHolds_cons (s : CallSite) (k : Condition) (ks : List Condition) :
    (Condition.anyHolds s (k :: ks)).outcome = match (k.holds s).outcome with
      | .error e => .error e
      | .ok true => .ok true
      | .ok false => (Condition.anyHolds s ks).outcome := by
  rw [Condition.anyHolds, Traced.bind_eq]
  rcases h : (k.holds s).outcome with e | _ | _ <;> rfl

lemma applies_disposeRule (hs : s.callee? = some callee) :
    (disposeRule.applies s).outcome =
      if callee.fullName = disposeMethod.fullName then .ok true
      else if callee.fullName = interfaceDisposeMethod.fullName then
        (s.receiverIs webRequest).outcome
      else .ok false := by
  have hname (fullName : String) : ((Condition.callee fullName).holds s).outcome =
      .ok (callee.fullName == fullName) := by
    rw [Condition.holds, calleeIs_eq hs]
    rfl
  have hall : ((Condition.all [.callee interfaceDisposeMethod.fullName,
      .receiver webRequest]).holds s).outcome =
        if callee.fullName = interfaceDisposeMethod.fullName then
          (s.receiverIs webRequest).outcome
        else .ok false := by
    rw [Condition.holds, outcome_allHold_cons, hname, outcome_allHold_cons]
    by_cases h : callee.fullName = interfaceDisposeMethod.fullName
    · rw [beq_iff_eq.2 h, if_pos h, Condition.holds]
      rcases hr : (s.receiverIs webRequest).outcome with e | _ | _ <;> rfl
    · rw [beq_eq_false_iff_ne.2 h, if_neg h]
  change (disposeCondition.holds s).outcome = _
  rw [disposeCondition, Condition.holds, outcome_anyHolds_cons, hname, outcome_anyHolds_cons, hall]
  by_cases hd : callee.fullName = disposeMethod.fullName
  · rw [beq_iff_eq.2 hd, if_pos hd]
  · rw [beq_eq_false_iff_ne.2 hd, if_neg hd]
    by_cases hf : callee.fullName = interfaceDisposeMethod.fullName
    · rw [if_pos hf]
      rcases hr : (s.receiverIs webRequest).outcome with e | _ | _ <;> rfl
    · rw [if_neg hf]
      rfl

/-- A rule of the network that applies replaces a captured method of the same full name. -/
lemma exists_captured_of_applies {r : Rule} (hr : r ∈ rules o) (hs : s.callee? = some callee)
    (ha : (r.applies s).outcome = .ok true) :
    ∃ p ∈ captured, callee.fullName = p.1.fullName ∧ r.replacement = p.2 := by
  rcases mem_rules.1 hr with ⟨-, rfl | rfl⟩ | ⟨p, hp, rfl⟩
  · rw [applies_sendRule hs] at ha
    exact ⟨(sendMethod, sendWrapper), by simp [captured], by simpa using ha, rfl⟩
  · rw [applies_disposeRule hs] at ha
    split at ha
    · next h => exact ⟨(disposeMethod, disposeWrapper), by simp [captured], h, rfl⟩
    · split at ha
      · next h => exact ⟨(interfaceDisposeMethod, disposeWrapper), by simp [captured], h, rfl⟩
      · cases ha
  · rw [applies_clientRule hs] at ha
    refine ⟨(clientConstructor p.2, clientWrapper p.2), ?_, by simpa using ha, rfl⟩
    exact List.mem_append_right _ (List.mem_map_of_mem hp)

lemma callKind_of_mem {r : Rule} (hr : r ∈ rules o) : r.callKind = some .direct := by
  rcases mem_rules.1 hr with ⟨-, rfl | rfl⟩ | ⟨p, -, rfl⟩ <;> rfl

/-- No rule of the network applies to a call of a method that is not captured. -/
lemma applies_of_not_captured {r : Rule} (hr : r ∈ rules o) (hs : s.callee? = some callee)
    (hn : ∀ p ∈ captured, callee.fullName ≠ p.1.fullName) :
    (r.applies s).outcome = .ok false := by
  rcases mem_rules.1 hr with ⟨-, rfl | rfl⟩ | ⟨p, hp, rfl⟩
  · rw [applies_sendRule hs, beq_eq_false_iff_ne.2 (hn (sendMethod, sendWrapper) ?_)]
    simp [captured]
  · rw [applies_disposeRule hs, if_neg (hn (disposeMethod, disposeWrapper) ?_),
      if_neg (hn (interfaceDisposeMethod, disposeWrapper) ?_)] <;> simp [captured]
  · rw [applies_clientRule hs,
      beq_eq_false_iff_ne.2 (hn (clientConstructor p.2, clientWrapper p.2) ?_)]
    exact List.mem_append_right _ (List.mem_map_of_mem hp)

/-! ### What the rules are like -/

lemma asksCondition_of_mem {r : Rule} (hr : r ∈ rules o) : r.AsksCondition := by
  rcases mem_rules.1 hr with ⟨-, rfl | rfl⟩ | ⟨p, -, rfl⟩
  · exact ⟨sendCondition, fun _ => rfl⟩
  · exact ⟨disposeCondition, fun _ => rfl⟩
  · exact ⟨.callee (clientConstructor p.2).fullName, fun _ => rfl⟩

lemma exists_captured_of_mem {r : Rule} (hr : r ∈ rules o) :
    ∃ p ∈ captured, r.replacement = p.2 := by
  rcases mem_rules.1 hr with ⟨-, rfl | rfl⟩ | ⟨p, hp, rfl⟩
  · exact ⟨(sendMethod, sendWrapper), by simp [captured], rfl⟩
  · exact ⟨(disposeMethod, disposeWrapper), by simp [captured], rfl⟩
  · exact ⟨(clientConstructor p.2, clientWrapper p.2),
      List.mem_append_right _ (List.mem_map_of_mem hp), rfl⟩

/-- No rule of the network applies to a call of a wrapper. -/
lemma settled_rules (o : CaptureOptions) : Rule.Settled (rules o) := by
  rintro s ⟨r, hr, hs⟩ r' hr'
  obtain ⟨p, hp, hrp⟩ := exists_captured_of_mem hr
  refine applies_of_not_captured hr' hs fun q hq => ?_
  rw [hrp]
  exact wrapper_ne_of_mem_captured p hp q hq

end Interpose.NetworkCapture
