import Interpose.Proofs.NetworkRules
import Interpose.Proofs.OriginalBody

/-!
What the network rules make of a method.

A wrapper returns what the method that it captures leaves on the stack, so the type flow reads a
woven body as it reads the original one, as long as constructors and no other methods are called to
make objects. Main statement: weaving replaces exactly the calls that are captured in the original
body, and fails exactly if the type flow fails on the original body behind a disposal through the
interface.
-/

namespace Interpose

/-- Objects are made by calls of constructors, and constructors are called for nothing else. -/
def MethodDecl.MakesByConstructors (m : MethodDecl) : Prop :=
  ∀ callee kind, Instruction.call callee kind ∈ m.instructions →
    (kind = .construct ↔ callee.isConstructor = true)

/-- The instruction at an index calls a method of this full name. -/
def MethodDecl.CallsAt (m : MethodDecl) (i : Nat) (fullName : String) : Prop :=
  ∃ callee kind, m.instructions[i]? = some (.call callee kind) ∧ callee.fullName = fullName

namespace NetworkCapture

/-- The call at an index goes to a wrapper, judged by the body as it is. -/
inductive CapturedBy (o : CaptureOptions) (c : WeaveContext) (T : String) (m : MethodDecl)
    (i : Nat) : MethodRef → Prop
  | send (on : o.capturesWebRequests = true) (calls : m.CallsAt i sendMethod.fullName) :
      CapturedBy o c T m i sendWrapper
  | dispose (on : o.capturesWebRequests = true) (calls : m.CallsAt i disposeMethod.fullName) :
      CapturedBy o c T m i disposeWrapper
  | disposeInterface (on : o.capturesWebRequests = true)
      (calls : m.CallsAt i interfaceDisposeMethod.fullName) {k : Nat} (behind : i = k + 1)
      {v : Inference} (flow : m.infer c.hierarchy T webRequest k = .ok v) (may : v ≠ .mismatch) :
      CapturedBy o c T m i disposeWrapper
  | client {p : String × List String} (mem : p ∈ clientOverloads)
      (calls : m.CallsAt i (clientConstructor p.2).fullName) :
      CapturedBy o c T m i (clientWrapper p.2)

/-- The call at an index asks for the receiver of a disposal where the type flow fails. -/
def FailsAt (o : CaptureOptions) (c : WeaveContext) (T : String) (m : MethodDecl) (i : Nat)
    (cause : Fault) : Prop :=
  o.capturesWebRequests = true ∧ m.CallsAt i interfaceDisposeMethod.fullName ∧
    ∃ k, i = k + 1 ∧ m.infer c.hierarchy T webRequest k = .error cause

variable {o : CaptureOptions} {c : WeaveContext} {T : String} {m : MethodDecl} {i : Nat}

/-! ### What is captured -/

lemma CapturedBy.exists_captured {wrapper : MethodRef} (h : CapturedBy o c T m i wrapper) :
    ∃ p ∈ captured, m.CallsAt i p.1.fullName ∧ wrapper = p.2 := by
  cases h with
  | send _ calls => exact ⟨(sendMethod, sendWrapper), by simp [captured], calls, rfl⟩
  | dispose _ calls => exact ⟨(disposeMethod, disposeWrapper), by simp [captured], calls, rfl⟩
  | disposeInterface _ calls =>
    exact ⟨(interfaceDisposeMethod, disposeWrapper), by simp [captured], calls, rfl⟩
  | @client p mem calls =>
    exact ⟨(clientConstructor p.2, clientWrapper p.2),
      List.mem_append_right _ (List.mem_map_of_mem mem), calls, rfl⟩

/-- A call goes to one wrapper at most. -/
lemma CapturedBy.unique {w w' : MethodRef} (h : CapturedBy o c T m i w)
    (h' : CapturedBy o c T m i w') : w = w' := by
  obtain ⟨p, hp, ⟨callee, kind, hi, hn⟩, rfl⟩ := h.exists_captured
  obtain ⟨q, hq, ⟨callee', kind', hi', hn'⟩, rfl⟩ := h'.exists_captured
  rw [hi] at hi'
  cases hi'
  rw [captured_inj hp hq (hn.symm.trans hn')]

/-! ### The decision on a call -/

lemma outcome_receiverIs (k : Nat) (target : String) :
    ((⟨m, T, k + 1, c⟩ : CallSite).receiverIs target).outcome =
      (m.infer c.hierarchy T target k).map Inference.isMatch := by
  rw [CallSite.receiverIs]
  rcases h : m.infer c.hierarchy T target k with e | _ | _ | _ | _ <;> simp only [h] <;> rfl

lemma exists_of_receiverIs_true {target : String}
    (h : ((⟨m, T, i, c⟩ : CallSite).receiverIs target).outcome = .ok true) :
    ∃ k v, i = k + 1 ∧ m.infer c.hierarchy T target k = .ok v ∧ v ≠ .mismatch := by
  rcases i with _ | k
  · cases h
  · rw [outcome_receiverIs] at h
    rcases hv : m.infer c.hierarchy T target k with e | v
    · rw [hv] at h
      cases h
    · refine ⟨k, v, rfl, hv, ?_⟩
      rintro rfl
      rw [hv] at h
      cases h

lemma exists_of_receiverIs_error {target : String} {cause : Fault}
    (h : ((⟨m, T, i, c⟩ : CallSite).receiverIs target).outcome = .error cause) :
    ∃ k, i = k + 1 ∧ m.infer c.hierarchy T target k = .error cause := by
  rcases i with _ | k
  · cases h
  · rw [outcome_receiverIs] at h
    rcases hv : m.infer c.hierarchy T target k with e | v
    · rw [hv] at h
      cases h
      exact ⟨k, rfl, hv⟩
    · rw [hv] at h
      cases h

/-- Through the interface the dispose rule asks for the receiver. -/
lemma applies_disposeRule_of_interface {s : CallSite} {callee : MethodRef}
    (hs : s.callee? = some callee) (hn : callee.fullName = interfaceDisposeMethod.fullName) :
    (disposeRule.applies s).outcome = (s.receiverIs webRequest).outcome := by
  have hne : interfaceDisposeMethod.fullName ≠ disposeMethod.fullName := by decide
  rw [applies_disposeRule hs, hn, if_neg hne, if_pos rfl]

lemma callee?_of_getElem? {callee : MethodRef} {kind : CallKind}
    (hi : m.instructions[i]? = some (.call callee kind)) :
    (⟨m, T, i, c⟩ : CallSite).callee? = some callee := by
  simp [CallSite.callee?, hi, Instruction.callee?]

lemma choice_of_call {callee : MethodRef} {kind : CallKind} (rules : List Rule)
    (hi : m.instructions[i]? = some (.call callee kind)) :
    m.choice rules c T i = (Rule.first? rules ⟨m, T, i, c⟩).outcome := by
  rw [MethodDecl.choice, hi]
  rfl

lemma capturedBy_of_choice {r : Rule} (h : m.choice (rules o) c T i = .ok (some r)) :
    CapturedBy o c T m i r.replacement := by
  obtain ⟨callee, kind, hi, hr, ha⟩ := MethodDecl.of_choice_eq_some h
  have hs := callee?_of_getElem? (c := c) (T := T) hi
  rcases mem_rules.1 hr with ⟨on, rfl | rfl⟩ | ⟨p, hp, rfl⟩
  · rw [applies_sendRule hs, Except.ok.injEq, beq_iff_eq] at ha
    exact .send on ⟨callee, kind, hi, ha⟩
  · by_cases hd : callee.fullName = disposeMethod.fullName
    · exact .dispose on ⟨callee, kind, hi, hd⟩
    · rw [applies_disposeRule hs, if_neg hd] at ha
      split at ha
      · next hf =>
        obtain ⟨k, v, hk, hv, hne⟩ := exists_of_receiverIs_true ha
        exact .disposeInterface on ⟨callee, kind, hi, hf⟩ hk hv hne
      · cases ha
  · rw [applies_clientRule hs, Except.ok.injEq, beq_iff_eq] at ha
    exact .client hp ⟨callee, kind, hi, ha⟩

lemma CapturedBy.exists_applies {w : MethodRef} (h : CapturedBy o c T m i w) :
    ∃ r ∈ rules o, (r.applies ⟨m, T, i, c⟩).outcome = .ok true := by
  cases h with
  | send on calls =>
    obtain ⟨callee, kind, hi, hn⟩ := calls
    refine ⟨sendRule, mem_rules.2 (.inl ⟨on, .inl rfl⟩), ?_⟩
    rw [applies_sendRule (callee?_of_getElem? hi), beq_iff_eq.2 hn]
  | dispose on calls =>
    obtain ⟨callee, kind, hi, hn⟩ := calls
    refine ⟨disposeRule, mem_rules.2 (.inl ⟨on, .inr rfl⟩), ?_⟩
    rw [applies_disposeRule (callee?_of_getElem? hi), if_pos hn]
  | @disposeInterface on calls k behind v flow may =>
    obtain ⟨callee, kind, hi, hn⟩ := calls
    subst behind
    refine ⟨disposeRule, mem_rules.2 (.inl ⟨on, .inr rfl⟩), ?_⟩
    rw [applies_disposeRule_of_interface (callee?_of_getElem? hi) hn, outcome_receiverIs, flow,
      Except.map, Inference.isMatch, bne_iff_ne.2 may]
  | @client p mem calls =>
    obtain ⟨callee, kind, hi, hn⟩ := calls
    refine ⟨clientRule p, mem_rules.2 (.inr ⟨p, mem, rfl⟩), ?_⟩
    rw [applies_clientRule (callee?_of_getElem? hi), beq_iff_eq.2 hn]

lemma not_capturedBy_of_choice (h : m.choice (rules o) c T i = .ok none) (w : MethodRef) :
    ¬CapturedBy o c T m i w := by
  intro hw
  obtain ⟨p, -, ⟨callee, kind, hi, -⟩, -⟩ := hw.exists_captured
  obtain ⟨r, hr, ha⟩ := hw.exists_applies
  rw [choice_of_call _ hi, Rule.first?_eq_none_iff] at h
  have hfalse := (h r hr).symm.trans ha
  cases hfalse

/-- The fault of the dispose rule when the type flow fails. -/
def disposeFault (m : MethodDecl) (T : String) (cause : Fault) : Fault :=
  .rule disposeRule.name (m.displayName T) cause.message

/-- Where web requests are captured, a disposal through the interface is decided by its receiver. -/
lemma choice_of_disposal (on : o.capturesWebRequests = true)
    (hcalls : m.CallsAt i interfaceDisposeMethod.fullName) :
    m.choice (rules o) c T i =
      match ((⟨m, T, i, c⟩ : CallSite).receiverIs webRequest).outcome with
      | .error cause => .error (disposeFault m T cause)
      | .ok true => .ok (some disposeRule)
      | .ok false => .ok none := by
  obtain ⟨callee, kind, hi, hn⟩ := hcalls
  have hs := callee?_of_getElem? (c := c) (T := T) hi
  have hsend : (callee.fullName == sendMethod.fullName) = false := by
    rw [hn]
    decide
  have hclients : (Rule.first? (clientOverloads.map clientRule) ⟨m, T, i, c⟩).outcome =
      .ok none := by
    have hother : ∀ p ∈ clientOverloads,
        interfaceDisposeMethod.fullName ≠ (clientConstructor p.2).fullName := by decide +kernel
    rw [Rule.first?_eq_none_iff]
    intro r hr
    obtain ⟨p, hp, rfl⟩ := List.mem_map.1 hr
    rw [applies_clientRule hs, hn, beq_eq_false_iff_ne.2 (hother p hp)]
  rw [choice_of_call _ hi, rules_eq, if_pos on, List.cons_append, Rule.first?_cons_outcome,
    applies_sendRule hs, hsend, List.cons_append, Rule.first?_cons_outcome,
    applies_disposeRule_of_interface hs hn, List.nil_append, hclients]
  rfl

lemma choice_of_failsAt {cause : Fault} (h : FailsAt o c T m i cause) :
    m.choice (rules o) c T i = .error (disposeFault m T cause) := by
  obtain ⟨on, hcalls, k, rfl, flow⟩ := h
  rw [choice_of_disposal on hcalls, outcome_receiverIs, flow]
  rfl

lemma failsAt_of_choice {e : Fault} (h : m.choice (rules o) c T i = .error e) :
    ∃ cause, FailsAt o c T m i cause ∧ e = disposeFault m T cause := by
  unfold MethodDecl.choice at h
  split at h
  · next hcall =>
    obtain ⟨callee, kind, hi⟩ := Instruction.exists_of_any_isCall hcall
    have hs := callee?_of_getElem? (c := c) (T := T) hi
    obtain ⟨r, hr, cause, ha, rfl⟩ := Rule.of_first?_eq_error h
    -- of the rules only the one for disposals can fail
    rcases mem_rules.1 hr with ⟨on, rfl | rfl⟩ | ⟨p, -, rfl⟩
    · rw [applies_sendRule hs] at ha
      cases ha
    · rw [applies_disposeRule hs] at ha
      split at ha
      · cases ha
      · split at ha
        · next hf =>
          exact ⟨cause, ⟨on, ⟨callee, kind, hi, hf⟩, exists_of_receiverIs_error ha⟩, rfl⟩
        · cases ha
    · rw [applies_clientRule hs] at ha
      cases ha
  · cases h

/-! ### Wrappers read as what they capture -/

lemma returnType_wrapper : ∀ p ∈ captured,
    p.2.returnType = if p.1.isConstructor then p.1.declaringType else p.1.returnType := by
  decide +kernel

lemma replacesAlike_rules (hm : m.MakesByConstructors) :
    MethodDecl.ReplacesAlike (rules o) c T m := by
  intro i r a hchoice ha
  obtain ⟨callee, kind, hi, hr, happlies⟩ := MethodDecl.of_choice_eq_some hchoice
  obtain ⟨p, hp, hn, hrp⟩ := exists_captured_of_applies hr (callee?_of_getElem? hi) happlies
  obtain ⟨hret, hdecl, hname⟩ := MethodRef.eq_of_fullName_eq hn (legible_of_mem_captured p hp)
  have hkind := hm callee kind (List.mem_of_getElem? hi)
  have hctor : callee.isConstructor = p.1.isConstructor := by
    rw [MethodRef.isConstructor, hname]
    rfl
  rw [hi] at ha
  cases ha
  rw [Rule.redirect, callKind_of_mem hr, hrp]
  refine congrArg TypeFlow.Reading.call ?_
  change p.2.returnType = TypeFlow.pushedType callee kind
  rw [returnType_wrapper p hp, ← hctor, ← hdecl, ← hret]
  by_cases hc : callee.isConstructor = true
  · rw [if_pos hc, hkind.2 hc]
    rfl
  · rw [if_neg hc]
    cases kind with
    | direct => rfl
    | virtual => rfl
    | construct => exact absurd (hkind.1 rfl) hc

/-! ### Weaving -/

/-- Weaving has put a direct call of a wrapper in the place of another instruction. -/
def PutAt (m woven : MethodDecl) (i : Nat) (wrapper : MethodRef) : Prop :=
  woven.instructions[i]? = some (.call wrapper .direct) ∧
    woven.instructions[i]? ≠ m.instructions[i]?

lemma putAt_iff_of_choice {woven : MethodDecl} {d : Option Rule}
    (hd : m.choice (rules o) c T i = .ok d)
    (hw : woven.instructions[i]? = (m.instructions[i]?).map (Instruction.sentBy d))
    (wrapper : MethodRef) : PutAt m woven i wrapper ↔ CapturedBy o c T m i wrapper := by
  rcases d with _ | r
  · rw [Instruction.sentBy_none, Option.map_id_fun, id] at hw
    exact ⟨fun h => absurd hw h.2, fun h => absurd h (not_capturedBy_of_choice hd wrapper)⟩
  · have hcap := capturedBy_of_choice hd
    obtain ⟨callee, kind, hi, hr, -⟩ := MethodDecl.of_choice_eq_some hd
    rw [hi, Option.map_some, Instruction.sentBy, Rule.redirect, callKind_of_mem hr] at hw
    constructor
    · rintro ⟨hput, -⟩
      rw [hw] at hput
      cases hput
      exact hcap
    · intro h
      rw [← hcap.unique h]
      refine ⟨hw, ?_⟩
      -- a captured call has another callee than the one in its place
      obtain ⟨p, hp, ⟨callee', kind', hi', hn⟩, hrp⟩ := hcap.exists_captured
      rw [hw, hi']
      intro heq
      cases heq
      exact wrapper_ne_of_mem_captured p hp p hp (hrp ▸ hn)

/-- **Decided on the original body**: if weaving goes through, it puts wrappers in the place of
exactly the calls that are captured in the original body, and keeps every other instruction. It
fails exactly if the type flow fails on the original body where a captured disposal asks for it,
and then with the fault of the first such place. -/
theorem weave_capturedBy (o : CaptureOptions) (c : WeaveContext) (T : String) {m : MethodDecl}
    (hm : m.MakesByConstructors) :
    (∀ changed, (m.weave (rules o) c T).run.outcome = .ok changed →
      (m.weave (rules o) c T).value.instructions.length = m.instructions.length ∧
      ∀ i, (∀ wrapper, PutAt m (m.weave (rules o) c T).value i wrapper ↔
          CapturedBy o c T m i wrapper) ∧
        ((∀ wrapper, ¬CapturedBy o c T m i wrapper) →
          (m.weave (rules o) c T).value.instructions[i]? = m.instructions[i]?)) ∧
    ((∃ e, (m.weave (rules o) c T).run.outcome = .error e) ↔
      ∃ i cause, FailsAt o c T m i cause) ∧
    ∀ e, (m.weave (rules o) c T).run.outcome = .error e →
      ∃ i cause, FailsAt o c T m i cause ∧ (∀ k < i, ∀ cause', ¬FailsAt o c T m k cause') ∧
        e = disposeFault m T cause := by
  obtain ⟨herror, hok⟩ :=
    MethodDecl.weave_decisions (fun r hr => asksCondition_of_mem hr) (replacesAlike_rules hm)
  have hfirst (e : Fault) (h : (m.weave (rules o) c T).run.outcome = .error e) :
      ∃ i cause, FailsAt o c T m i cause ∧ (∀ k < i, ∀ cause', ¬FailsAt o c T m k cause') ∧
        e = disposeFault m T cause := by
    obtain ⟨i, hi, hbefore⟩ := herror e h
    obtain ⟨cause, hfails, he⟩ := failsAt_of_choice hi
    refine ⟨i, cause, hfails, fun k hk cause' hk' => ?_, he⟩
    obtain ⟨d, hd⟩ := hbefore k hk
    rw [choice_of_failsAt hk'] at hd
    cases hd
  refine ⟨fun changed h => ⟨MethodDecl.length_weave m, fun i => ?_⟩, ⟨?_, ?_⟩, hfirst⟩
  · obtain ⟨d, hd, hw⟩ := hok changed h i
    refine ⟨putAt_iff_of_choice hd hw, fun hnone => ?_⟩
    rcases d with _ | r
    · rw [hw, Instruction.sentBy_none, Option.map_id_fun, id]
    · exact absurd (capturedBy_of_choice hd) (hnone r.replacement)
  · rintro ⟨e, he⟩
    obtain ⟨i, cause, hfails, -⟩ := hfirst e he
    exact ⟨i, cause, hfails⟩
  · rintro ⟨i, cause, hfails⟩
    rcases h : (m.weave (rules o) c T).run.outcome with e | changed
    · exact ⟨e, rfl⟩
    · obtain ⟨d, hd, -⟩ := hok changed h i
      rw [choice_of_failsAt hfails] at hd
      cases hd

/-- Takes a request from a factory into a local, sends it and disposes of it at the end of a using
block. -/
def fetch : MethodDecl :=
  { MethodDecl.ofName "Fetch" voidType with
    locals := [⟨none, webRequest⟩]
    body := some
      [.call (.static "Game.Factory" "Create" [] webRequest) .direct, .store (.local 0),
        .load (.local 0), .call sendMethod .virtual, .other "pop",
        .load (.local 0), .call interfaceDisposeMethod .virtual, .other "ret"] }

/-- The sending and the disposal of `fetch` are captured, and nothing fails. -/
theorem weave_capturedBy_fetch :
    fetch.MakesByConstructors ∧
    (∃ changed, (fetch.weave (rules .default) ⟨.empty, false⟩ "Game.Client").run.outcome =
      .ok changed) ∧
    PutAt fetch (fetch.weave (rules .default) ⟨.empty, false⟩ "Game.Client").value 3 sendWrapper ∧
    PutAt fetch (fetch.weave (rules .default) ⟨.empty, false⟩ "Game.Client").value 6
      disposeWrapper := by
  have hm : fetch.MakesByConstructors := by
    intro callee kind h
    have hcall : Instruction.call callee kind = .call (.static "Game.Factory" "Create" []
        webRequest) .direct ∨ Instruction.call callee kind = .call sendMethod .virtual ∨
        Instruction.call callee kind = .call interfaceDisposeMethod .virtual := by
      simpa [fetch, MethodDecl.instructions] using h
    rcases hcall with h | h | h <;> cases h <;> decide
  have hflow : fetch.infer Hierarchy.empty "Game.Client" webRequest 5 = .ok .exact := by
    rw [MethodDecl.infer, TypeFlow.infer_eq]
    rfl
  obtain ⟨hok, herror, -⟩ := weave_capturedBy .default ⟨.empty, false⟩ "Game.Client" hm
  have hsend : CapturedBy .default ⟨.empty, false⟩ "Game.Client" fetch 3 sendWrapper :=
    .send rfl ⟨sendMethod, .virtual, rfl, rfl⟩
  have hdispose : CapturedBy .default ⟨.empty, false⟩ "Game.Client" fetch 6 disposeWrapper :=
    .disposeInterface rfl ⟨interfaceDisposeMethod, .virtual, rfl, rfl⟩ rfl hflow (by decide)
  have hdone : ∃ changed, (fetch.weave (rules .default) ⟨.empty, false⟩
      "Game.Client").run.outcome = .ok changed := by
    rcases h : (fetch.weave (rules .default) ⟨.empty, false⟩ "Game.Client").run.outcome
      with e | changed
    · obtain ⟨i, cause, -, ⟨callee, kind, hi, hn⟩, k, rfl, hfail⟩ := herror.1 ⟨e, h⟩
      have hk : k = 5 := by
        rcases k with _ | _ | _ | _ | _ | _ | _ | k
        · cases hi
        · cases hi
        · cases hi
          exact absurd hn (by decide)
        · cases hi
        · cases hi
        · rfl
        · cases hi
        · cases hi
      rw [hk, hflow] at hfail
      cases hfail
    · exact ⟨changed, rfl⟩
  obtain ⟨changed, h⟩ := hdone
  exact ⟨hm, ⟨changed, h⟩, ((hok changed h).2 3).1 _ |>.2 hsend,
    ((hok changed h).2 6).1 _ |>.2 hdispose⟩

end NetworkCapture

end Interpose
