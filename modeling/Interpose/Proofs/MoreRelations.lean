import Interpose.Proofs.FlowVerdict

/-!
What is inferred when more relations of types are known.

If every relation that one hierarchy tells is told by another, the two walks along the loads of a
body stay together as long as the first has not ruled the value out. Main statement: an answer of
the type flow stays as it is, unless it rules the value out; so with more relations known no
disposal is left alone that was captured with fewer.
-/

namespace Interpose

variable {h h' : Hierarchy} {T target D : String}

namespace Hierarchy

/-- Every type that can hold a value of another by `h` can do so by `h'`. -/
def KnownIn (h h' : Hierarchy) : Prop :=
  ∀ target candidate, h.isAssignable target candidate = true →
    h'.isAssignable target candidate = true

lemma KnownIn.isStrictSupertype (hk : h.KnownIn h')
    (habove : h.isStrictSupertype D target = true) : h'.isStrictSupertype D target = true := by
  rw [Hierarchy.isStrictSupertype, Bool.and_eq_true] at habove ⊢
  exact ⟨habove.1, hk D target habove.2⟩

/-- What is told by declarations stays told when another type is declared. -/
lemma knownIn_insert {name : String} (hn : h.find? name = none) (r : TypeRelations) :
    h.KnownIn (h.insert name r) := by
  intro target candidate hpath
  rw [isAssignable_iff_path] at hpath ⊢
  refine Relation.ReflTransGen.mono ?_ _ _ hpath
  rintro a b ⟨ra, ha, hup⟩
  have hne : a ≠ name := by
    rintro rfl
    rw [hn] at ha
    cases ha
  exact ⟨ra, by rw [find?_insert, if_neg hne, ha], hup⟩

end Hierarchy

namespace TypeFlow

variable {m : MethodDecl} {i j : Nat}

lemma Follows.of_knownIn (hk : h.KnownIn h') (hf : Follows h m T target i j) :
    Follows h' m T target i j := by
  cases hf with
  | stored load declared above before store latest =>
    exact .stored load declared (hk.isStrictSupertype above) before store latest

lemma RemainsOpen.of_knownIn (hk : h.KnownIn h') (hopen : RemainsOpen h m T target i) :
    RemainsOpen h' m T target i := by
  cases hopen with
  | call pushes above => exact .call pushes (hk.isStrictSupertype above)
  | neverStored load declared above never =>
    exact .neverStored load declared (hk.isStrictSupertype above) never
  | storedAtStart load declared above before store latest =>
    exact .storedAtStart load declared (hk.isStrictSupertype above) before store latest

/-- **The walks stay together**: with more relations known the same loads are followed, so an answer
stays as it is unless it rules the value out. -/
theorem infer_of_knownIn (hk : h.KnownIn h') (refined : Bool)
    (hne : infer h m T target refined i ≠ .ok .mismatch) :
    infer h' m T target refined i = infer h m T target refined i := by
  obtain ⟨stop, hend⟩ : ∃ stop, EndsAt h m T target i stop := exists_endsAt i
  induction hend generalizing refined with
  | here last =>
    rcases end_cases last refined with same | hopen | hout | ⟨e, hlacks⟩ | hruled
    · rw [infer_of_declaresAt same, infer_of_declaresAt same]
    · rw [infer_of_remainsOpen hopen, infer_of_remainsOpen (hopen.of_knownIn hk)]
    · rw [infer_of_length_le hout, infer_of_length_le hout]
    · rw [infer_of_lacksSlot hlacks, infer_of_lacksSlot hlacks]
    · exact absurd hruled hne
  | step follows _ ih =>
    rw [follows.infer_eq] at hne ⊢
    rw [(follows.of_knownIn hk).infer_eq, ih true hne]

end TypeFlow

/-! ### Calls that are captured -/

lemma MethodDecl.infer_of_knownIn {m : MethodDecl} {k : Nat} {v : Inference} (hk : h.KnownIn h')
    (hv : m.infer h T target k = .ok v) (hne : v ≠ .mismatch) :
    m.infer h' T target k = .ok v := by
  have hanswer : m.infer h T target k ≠ .ok .mismatch := by
    rw [hv]
    exact fun heq => hne (Except.ok.inj heq)
  rw [← hv]
  exact TypeFlow.infer_of_knownIn hk false hanswer

namespace NetworkCapture

variable {o : CaptureOptions} {m : MethodDecl} {i : Nat} {verbose : Bool}

/-- A receiver that may be of the target type still may be when more relations are known. -/
lemma receiverIs_of_knownIn (hk : h.KnownIn h')
    (hr : (CallSite.receiverIs ⟨m, T, i, ⟨h, verbose⟩⟩ target).outcome = .ok true) :
    (CallSite.receiverIs ⟨m, T, i, ⟨h', verbose⟩⟩ target).outcome = .ok true := by
  obtain ⟨k, v, rfl, hv, hne⟩ := exists_of_receiverIs_true hr
  rw [outcome_receiverIs] at hr ⊢
  rw [← hr, hv, MethodDecl.infer_of_knownIn hk hv hne]

/-- The decision to capture a disposal through the interface stays. -/
lemma choice_disposal_of_knownIn (hk : h.KnownIn h')
    (hcalls : m.CallsAt i interfaceDisposeMethod.fullName) {r : Rule}
    (hc : m.choice (rules o) ⟨h, verbose⟩ T i = .ok (some r)) :
    m.choice (rules o) ⟨h', verbose⟩ T i = .ok (some r) := by
  obtain ⟨on, -⟩ := (capturedBy_of_choice hc).of_disposal hcalls
  rw [choice_of_disposal on hcalls] at hc ⊢
  rcases hr : (CallSite.receiverIs ⟨m, T, i, ⟨h, verbose⟩⟩ webRequest).outcome with e | _ | _
  · simp [hr] at hc
  · simp [hr] at hc
  · rw [hr] at hc
    rw [receiverIs_of_knownIn hk hr]
    exact hc

lemma CapturedBy.of_knownIn (hk : h.KnownIn h') {w : MethodRef}
    (hw : CapturedBy o ⟨h, verbose⟩ T m i w) : CapturedBy o ⟨h', verbose⟩ T m i w := by
  cases hw with
  | send on calls => exact .send on calls
  | dispose on calls => exact .dispose on calls
  | disposeInterface on calls behind flow may =>
    exact .disposeInterface on calls behind (MethodDecl.infer_of_knownIn hk flow may) may
  | client mem calls => exact .client mem calls

/-- What weaving has put into a body that makes objects by constructors only is put there with more
relations known, too, as long as nothing fails. -/
lemma putAt_of_knownIn (hk : h.KnownIn h') (hm : m.MakesByConstructors) {b b' : Bool}
    (hout : (m.weave (rules o) ⟨h, verbose⟩ T).run.outcome = .ok b)
    (hout' : (m.weave (rules o) ⟨h', verbose⟩ T).run.outcome = .ok b') {w : MethodRef}
    (hput : PutAt m (m.weave (rules o) ⟨h, verbose⟩ T).value i w) :
    PutAt m (m.weave (rules o) ⟨h', verbose⟩ T).value i w := by
  obtain ⟨d, hd, hw⟩ := (MethodDecl.weave_decisions (fun r hr => asksCondition_of_mem hr)
    (replacesAlike_rules hm)).2 b hout i
  obtain ⟨d', hd', hw'⟩ := (MethodDecl.weave_decisions (fun r hr => asksCondition_of_mem hr)
    (replacesAlike_rules hm)).2 b' hout' i
  rw [putAt_iff_of_choice hd hw] at hput
  rw [putAt_iff_of_choice hd' hw']
  exact hput.of_knownIn hk

/-- **More relations rule out less**: if every type that can hold a value of another by `h` can do
so by `h'`, an answer of the type flow under `h` that does not rule the value out is the answer
under `h'`, and only where `h` rules the value out can `h'` say something else. So a receiver that
may be of a type still may be, and a disposal through the interface that is captured under `h` is
captured under `h'` in the same body. Where objects are made by constructors only, that holds of the
two bodies, too, that are the outcome of weaving. -/
theorem infer_knowingMore (hk : h.KnownIn h') :
    (∀ (m : MethodDecl) (T target : String) (i : Nat) (v : Inference),
      m.infer h T target i = .ok v → v ≠ .mismatch → m.infer h' T target i = .ok v) ∧
    (∀ (m : MethodDecl) (T target : String) (i : Nat),
      m.infer h' T target i ≠ m.infer h T target i → m.infer h T target i = .ok .mismatch) ∧
    (∀ (m : MethodDecl) (T target : String) (i : Nat) (verbose : Bool),
      (CallSite.receiverIs ⟨m, T, i, ⟨h, verbose⟩⟩ target).outcome = .ok true →
      (CallSite.receiverIs ⟨m, T, i, ⟨h', verbose⟩⟩ target).outcome = .ok true) ∧
    (∀ (o : CaptureOptions) (verbose : Bool) (m : MethodDecl) (T : String) (i : Nat) (r : Rule),
      m.CallsAt i interfaceDisposeMethod.fullName →
      m.choice (rules o) ⟨h, verbose⟩ T i = .ok (some r) →
      m.choice (rules o) ⟨h', verbose⟩ T i = .ok (some r)) ∧
    ∀ (o : CaptureOptions) (verbose : Bool) (m : MethodDecl) (T : String) (b b' : Bool),
      m.MakesByConstructors → (m.weave (rules o) ⟨h, verbose⟩ T).run.outcome = .ok b →
      (m.weave (rules o) ⟨h', verbose⟩ T).run.outcome = .ok b' → ∀ i w,
        PutAt m (m.weave (rules o) ⟨h, verbose⟩ T).value i w →
        PutAt m (m.weave (rules o) ⟨h', verbose⟩ T).value i w := by
  refine ⟨fun m T target i v => MethodDecl.infer_of_knownIn hk, fun m T target i hne => ?_,
    fun m T target i verbose => receiverIs_of_knownIn hk,
    fun o verbose m T i r hcalls hc => choice_disposal_of_knownIn hk hcalls hc,
    fun o verbose m T b b' hm hout hout' i w => putAt_of_knownIn hk hm hout hout'⟩
  by_contra hother
  exact hne (TypeFlow.infer_of_knownIn hk false hother)

/-- The relations of the seed, and those of the interface for disposals. -/
def seedAndDisposable : Hierarchy := (seed .empty).declare disposable (some objectType) []

lemma seed_knownIn : (seed .empty).KnownIn seedAndDisposable :=
  Hierarchy.knownIn_insert (by decide +kernel) _

lemma makesByConstructors_relay : relay.MakesByConstructors := by
  intro callee kind h
  have hcall : Instruction.call callee kind = .call (.static "Game.Factory" "Create" []
      webRequest) .direct ∨
      Instruction.call callee kind = .call interfaceDisposeMethod .virtual := by
    simpa [relay, MethodDecl.instructions] using h
  rcases hcall with h | h <;> cases h <;> decide

/-- The one disposal is behind the last load. -/
lemma eq_of_callsAt_relay {k : Nat} (h : relay.CallsAt (k + 1) interfaceDisposeMethod.fullName) :
    k = 4 := by
  obtain ⟨callee, kind, hi, -⟩ := h
  rcases k with _ | _ | _ | _ | _ | _ | k
  · cases hi
  · cases hi
  · cases hi
  · cases hi
  · rfl
  · cases hi
  · cases hi

/-- The disposal that is captured by the seed alone stays captured. -/
theorem infer_knowingMore_relay :
    (seed .empty).KnownIn seedAndDisposable ∧
    relay.infer seedAndDisposable "Game.Client" webRequest 4 = .ok .refined ∧
    relay.choice (rules .default) ⟨seedAndDisposable, false⟩ "Game.Client" 5 =
      .ok (some disposeRule) ∧
    PutAt relay (relay.weave (rules .default) ⟨seedAndDisposable, false⟩ "Game.Client").value 5
      disposeWrapper := by
  obtain ⟨hinfer, -, -, hchoice, hput⟩ := infer_knowingMore seed_knownIn
  have hm := makesByConstructors_relay
  have hcalls : relay.CallsAt 5 interfaceDisposeMethod.fullName := ⟨_, _, rfl, rfl⟩
  have hv : relay.infer (seed .empty) "Game.Client" webRequest 4 = .ok .refined :=
    chain_relay.infer_eq_of_answer (.refined (by decide) (.call rfl rfl))
  have hv' := hinfer relay "Game.Client" webRequest 4 .refined hv (by decide)
  have hd : relay.choice (rules .default) ⟨seed .empty, false⟩ "Game.Client" 5 =
      .ok (some disposeRule) := by
    rw [choice_of_disposal rfl hcalls, outcome_receiverIs, hv]
    rfl
  obtain ⟨b, hout⟩ := exists_ok_of_infers (o := .default) (c := ⟨seed .empty, false⟩)
    (T := "Game.Client") hm fun k hk => ⟨.refined, eq_of_callsAt_relay hk ▸ hv⟩
  obtain ⟨b', hout'⟩ := exists_ok_of_infers (o := .default) (c := ⟨seedAndDisposable, false⟩)
    (T := "Game.Client") hm fun k hk => ⟨.refined, eq_of_callsAt_relay hk ▸ hv'⟩
  obtain ⟨d, hd', hw⟩ := (MethodDecl.weave_decisions (fun r hr => asksCondition_of_mem hr)
    (replacesAlike_rules hm)).2 b hout 5
  have hsent : PutAt relay (relay.weave (rules .default) ⟨seed .empty, false⟩ "Game.Client").value 5
      disposeWrapper := (putAt_iff_of_choice hd' hw _).2 (capturedBy_of_choice hd)
  exact ⟨seed_knownIn, hv', hchoice .default false relay _ 5 _ hcalls hd,
    hput .default false relay _ b b' hm hout hout' 5 _ hsent⟩

end NetworkCapture

end Interpose
