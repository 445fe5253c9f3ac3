import Interpose.Proofs.Assignability
import Interpose.Proofs.NetworkDecisions

/-!
What the type flow finds at the end of a chain of loads.

A load from a slot that is declared as a strict supertype of the target is followed to the latest
store into the slot, and from there to the instruction that pushed what was stored. Main
statements: every chain ends at one instruction, and if that declares a type for what it pushes, the
value counts as one of the target type exactly if that type can hold a value of the target type. So
a value of a type that is derived from the target is ruled out.
-/

namespace Interpose

namespace TypeFlow

variable {h : Hierarchy} {m : MethodDecl} {T target : String} {i j : Nat} {D : String}

/-! ### Following a load -/

lemma latestStore?_eq_some_iff {body : List Instruction} {slot : Slot} {before n : Nat} :
    latestStore? body slot before = some n ↔ n < before ∧ body[n]? = some (.store slot) ∧
      ∀ k, n < k → k < before → body[k]? ≠ some (.store slot) := by
  induction before with
  | zero => simp [latestStore?]
  | succ b ih =>
    rw [latestStore?]
    split
    · next hb =>
      rw [Option.some.injEq]
      constructor
      · rintro rfl
        exact ⟨Nat.lt_succ_self b, hb, fun k h1 h2 => by omega⟩
      · rintro ⟨hlt, -, hlatest⟩
        by_contra hne
        exact hlatest b (by omega) (Nat.lt_succ_self b) hb
    · next hb =>
      rw [ih]
      constructor
      · rintro ⟨hlt, hn, hlatest⟩
        refine ⟨by omega, hn, fun k h1 h2 => ?_⟩
        by_cases hk : k = b
        · rwa [hk]
        · exact hlatest k h1 (by omega)
      · rintro ⟨hlt, hn, hlatest⟩
        have hne : n ≠ b := fun hnb => hb (hnb ▸ hn)
        exact ⟨by omega, hn, fun k h1 h2 => hlatest k h1 (by omega)⟩

/-- The load at a position is followed to what pushed the value of the latest store into its slot.
A store at the start of the body is not followed. -/
inductive Follows (h : Hierarchy) (m : MethodDecl) (T target : String) (i : Nat) : Nat → Prop
  | stored {slot : Slot} {D : String} {j : Nat}
      (load : m.instructions[i]? = some (.load slot))
      (declared : m.slotType T slot = .ok D)
      (above : h.isStrictSupertype D target = true)
      (before : j + 1 < i)
      (store : m.instructions[j + 1]? = some (.store slot))
      (latest : ∀ k, j + 1 < k → k < i → m.instructions[k]? ≠ some (.store slot)) :
      Follows h m T target i j

lemma follows_iff : Follows h m T target i j ↔ ∃ slot D, m.instructions[i]? = some (.load slot) ∧
    m.slotType T slot = .ok D ∧ h.isStrictSupertype D target = true ∧
      latestStore? m.instructions slot i = some (j + 1) := by
  constructor
  · rintro ⟨load, declared, above, before, store, latest⟩
    exact ⟨_, _, load, declared, above, latestStore?_eq_some_iff.2 ⟨before, store, latest⟩⟩
  · rintro ⟨slot, D, load, declared, above, hstore⟩
    obtain ⟨before, store, latest⟩ := latestStore?_eq_some_iff.1 hstore
    exact .stored load declared above before store latest

lemma Follows.lt (hf : Follows h m T target i j) : j < i := by
  cases hf with
  | stored _ _ _ before => omega

lemma Follows.unique {k : Nat} (hj : Follows h m T target i j) (hk : Follows h m T target i k) :
    j = k := by
  obtain ⟨slot, _, hload, -, -, hstore⟩ := follows_iff.1 hj
  obtain ⟨slot', _, hload', -, -, hstore'⟩ := follows_iff.1 hk
  rw [hload, Option.some.injEq, Instruction.load.injEq] at hload'
  rw [← hload', hstore] at hstore'
  simpa using hstore'

/-- The chain from a position ends where nothing is to be followed. -/
inductive EndsAt (h : Hierarchy) (m : MethodDecl) (T target : String) : Nat → Nat → Prop
  | here {i : Nat} (last : ∀ j, ¬Follows h m T target i j) : EndsAt h m T target i i
  | step {i j stop : Nat} (follows : Follows h m T target i j)
      (rest : EndsAt h m T target j stop) : EndsAt h m T target i stop

lemma exists_endsAt (i : Nat) : ∃ stop, EndsAt h m T target i stop := by
  induction i using Nat.strongRecOn with
  | ind i ih =>
    by_cases hf : ∃ j, Follows h m T target i j
    · obtain ⟨j, hj⟩ := hf
      obtain ⟨stop, hstop⟩ := ih j hj.lt
      exact ⟨stop, .step hj hstop⟩
    · exact ⟨i, .here fun j hj => hf ⟨j, hj⟩⟩

lemma EndsAt.unique {a b : Nat} (ha : EndsAt h m T target i a) (hb : EndsAt h m T target i b) :
    a = b := by
  induction ha with
  | here last =>
    cases hb with
    | here => rfl
    | step follows => exact absurd follows (last _)
  | step follows _ ih =>
    cases hb with
    | here last => exact absurd follows (last _)
    | step follows' rest' => exact ih (follows.unique follows' ▸ rest')

/-- Every chain ends, at one position. -/
theorem existsUnique_endsAt (i : Nat) : ∃! stop, EndsAt h m T target i stop := by
  obtain ⟨stop, hstop⟩ := exists_endsAt (h := h) (m := m) (T := T) i
  exact ⟨stop, hstop, fun other hother => hother.unique hstop⟩

/-- The instruction at a position declares the type of what it pushes: a load that of its slot, a
call the type that it leaves on the stack. -/
inductive DeclaresAt (m : MethodDecl) (T : String) (i : Nat) : String → Prop
  | load {slot : Slot} {D : String} (pushes : m.instructions[i]? = some (.load slot))
      (declared : m.slotType T slot = .ok D) : DeclaresAt m T i D
  | call {callee : MethodRef} {kind : CallKind} {D : String}
      (pushes : m.instructions[i]? = some (.call callee kind))
      (declared : pushedType callee kind = D) : DeclaresAt m T i D

/-! ### What is inferred -/

lemma infer_of_load {slot : Slot} (hi : m.instructions[i]? = some (.load slot))
    (hD : m.slotType T slot = .ok D) (refined : Bool) :
    infer h m T target refined i =
      if D = target then .ok (.found refined)
      else if !h.isStrictSupertype D target then .ok .mismatch
      else match latestStore? m.instructions slot i with
        | none | some 0 => .ok .assumed
        | some (n + 1) => infer h m T target true n := by
  have hread : readingAt m.instructions i = some (.load slot) := congrArg (Option.map reading) hi
  rw [infer_eq, hread]
  dsimp only
  generalize m.slotType T slot = declared at hD
  subst hD
  rfl

/-- Following a load changes nothing in what is inferred. -/
lemma Follows.infer_eq (hf : Follows h m T target i j) (refined : Bool) :
    infer h m T target refined i = infer h m T target true j := by
  obtain ⟨slot, D, hload, hD, habove, hstore⟩ := follows_iff.1 hf
  have hne : D ≠ target := by
    rintro rfl
    simp [Hierarchy.isStrictSupertype] at habove
  rw [infer_of_load hload hD, if_neg hne, habove, hstore]
  rfl

lemma isMatch_classify (refined : Bool) :
    (classify h target refined D).isMatch = h.isAssignable D target := by
  rw [classify]
  split
  · next heq =>
    rw [heq, h.isAssignable_self]
    cases refined <;> rfl
  · next hne =>
    rw [h.isStrictSupertype_of_ne hne]
    rcases h.isAssignable D target with _ | _ <;> rfl

/-- Where nothing is to be followed, the declared type decides. -/
lemma infer_of_last (hlast : ∀ j, ¬Follows h m T target i j) (hD : DeclaresAt m T i D)
    (refined : Bool) :
    (infer h m T target refined i).map Inference.isMatch = .ok (h.isAssignable D target) := by
  rw [← isMatch_classify refined, classify]
  cases hD with
  | call pushes declared =>
    rw [infer_eq, readingAt, pushes, ← declared]
    rfl
  | @load slot _ pushes declared =>
    rw [infer_of_load pushes declared]
    split
    · rfl
    · next hne =>
      rcases habove : h.isStrictSupertype D target with _ | _
      · rfl
      · rcases hstore : latestStore? m.instructions slot i with _ | _ | n
        · rfl
        · rfl
        · exact absurd (follows_iff.2 ⟨slot, D, pushes, declared, habove, hstore⟩) (hlast n)

/-- **The end of the chain decides**: a value counts as one of the target type exactly if the type
that is declared for it at the end of its chain can hold a value of the target type. -/
theorem infer_of_endsAt {stop : Nat} (hend : EndsAt h m T target i stop)
    (hD : DeclaresAt m T stop D) (refined : Bool) :
    (infer h m T target refined i).map Inference.isMatch = .ok (h.isAssignable D target) := by
  induction hend generalizing refined with
  | here last => exact infer_of_last last hD refined
  | step follows _ ih => rw [follows.infer_eq, ih hD]

end TypeFlow

/-! ### Disposals through the interface -/

lemma MethodDecl.CallsAt.unique {m : MethodDecl} {i : Nat} {name name' : String}
    (h : m.CallsAt i name) (h' : m.CallsAt i name') : name = name' := by
  obtain ⟨callee, kind, hi, rfl⟩ := h
  obtain ⟨callee', kind', hi', rfl⟩ := h'
  rw [hi] at hi'
  cases hi'
  rfl

namespace NetworkCapture

open TypeFlow (EndsAt DeclaresAt)

variable {o : CaptureOptions} {c : WeaveContext} {T : String} {m : MethodDecl} {k : Nat}

/-- Nothing but its receiver has a disposal through the interface captured. -/
lemma CapturedBy.of_disposal {i : Nat} {w : MethodRef} (hw : CapturedBy o c T m i w)
    (hcalls : m.CallsAt i interfaceDisposeMethod.fullName) : o.capturesWebRequests = true ∧
      ∃ k v, i = k + 1 ∧ m.infer c.hierarchy T webRequest k = .ok v ∧ v ≠ .mismatch := by
  have hothers : ∀ p ∈ captured, p.1 ≠ interfaceDisposeMethod →
      p.1.fullName ≠ interfaceDisposeMethod.fullName := by decide +kernel
  have hclients : ∀ p ∈ clientOverloads, clientConstructor p.2 ≠ interfaceDisposeMethod := by
    decide +kernel
  cases hw with
  | send _ calls =>
    exact absurd (calls.unique hcalls)
      (hothers (sendMethod, sendWrapper) (by simp [captured]) (by decide))
  | dispose _ calls =>
    exact absurd (calls.unique hcalls)
      (hothers (disposeMethod, disposeWrapper) (by simp [captured]) (by decide))
  | @disposeInterface on _ k behind v flow may => exact ⟨on, k, v, behind, flow, may⟩
  | @client p mem calls =>
    exact absurd (calls.unique hcalls)
      (hothers (clientConstructor p.2, clientWrapper p.2)
        (List.mem_append_right _ (List.mem_map_of_mem mem)) (hclients p mem))

lemma putAt_disposeWrapper_iff {woven : MethodDecl} {i : Nat}
    (hcalls : m.CallsAt i interfaceDisposeMethod.fullName) :
    PutAt m woven i disposeWrapper ↔
      woven.instructions[i]? = some (.call disposeWrapper .direct) := by
  refine ⟨fun h => h.1, fun h => ⟨h, fun heq => ?_⟩⟩
  obtain ⟨callee, kind, hi, hn⟩ := hcalls
  rw [h, hi] at heq
  cases heq
  exact absurd hn (by decide)

/-- A disposal through the interface goes to the wrapper exactly if its receiver counts as a web
request in the woven body. -/
lemma disposal_iff (on : o.capturesWebRequests = true)
    (hcalls : m.CallsAt (k + 1) interfaceDisposeMethod.fullName) {changed : Bool}
    (hout : (m.weave (rules o) c T).run.outcome = .ok changed) :
    (m.weave (rules o) c T).value.instructions[k + 1]? = some (.call disposeWrapper .direct) ↔
      ((m.weave (rules o) c T).value.infer c.hierarchy T webRequest k).map Inference.isMatch =
        .ok true := by
  have hlt : k + 1 < m.instructions.length := by
    obtain ⟨_, _, hi, -⟩ := hcalls
    exact (List.getElem?_eq_some_iff.1 hi).1
  obtain ⟨b, d, hdeclared, hbefore, hj, hd, hwoven⟩ :=
    MethodDecl.exists_choice_of_weaveFrom hout (Nat.zero_le (k + 1)) (by omega)
  have hb : b.CallsAt (k + 1) interfaceDisposeMethod.fullName := by
    rwa [MethodDecl.CallsAt, hj]
  have hinfer : (m.weave (rules o) c T).value.infer c.hierarchy T webRequest k =
      b.infer c.hierarchy T webRequest k :=
    TypeFlow.infer_congr ((MethodDecl.bodiless_weave m).trans hdeclared.symm)
      (fun i hi => congrArg (Option.map TypeFlow.reading) (hbefore i (by omega)).symm) false
  rw [← hj] at hwoven
  have hput : PutAt b (m.weave (rules o) c T).value (k + 1) disposeWrapper ↔
      CapturedBy o c T b (k + 1) disposeWrapper := putAt_iff_of_choice hd hwoven _
  rw [hinfer, ← putAt_disposeWrapper_iff hb, hput]
  refine ⟨fun hcaptured => ?_, fun hmatch => ?_⟩
  · obtain ⟨-, k', v, hk, hv, hne⟩ := hcaptured.of_disposal hb
    cases hk
    rw [hv, Except.map, Inference.isMatch, bne_iff_ne.2 hne]
  · rcases hv : b.infer c.hierarchy T webRequest k with e | v
    · rw [hv] at hmatch
      cases hmatch
    · rw [hv, Except.map, Except.ok.injEq] at hmatch
      exact .disposeInterface on hb rfl hv (bne_iff_ne.1 hmatch)

/-- Weaving goes through if the type flow fails nowhere. -/
lemma exists_ok_of_not_failsAt (hm : m.MakesByConstructors)
    (h : ∀ i cause, ¬FailsAt o c T m i cause) :
    ∃ changed, (m.weave (rules o) c T).run.outcome = .ok changed := by
  obtain ⟨herror, -⟩ :=
    MethodDecl.weave_decisions (fun r hr => asksCondition_of_mem hr) (replacesAlike_rules hm)
  rcases hout : (m.weave (rules o) c T).run.outcome with e | changed
  · obtain ⟨i, hi, -⟩ := herror e hout
    obtain ⟨cause, hfails, -⟩ := failsAt_of_choice hi
    exact absurd hfails (h i cause)
  · exact ⟨changed, rfl⟩

/-- Weaving goes through if the type flow answers for the receiver of every disposal. -/
lemma exists_ok_of_infers (hm : m.MakesByConstructors)
    (h : ∀ k, m.CallsAt (k + 1) interfaceDisposeMethod.fullName →
      ∃ v, m.infer c.hierarchy T webRequest k = .ok v) :
    ∃ changed, (m.weave (rules o) c T).run.outcome = .ok changed := by
  refine exists_ok_of_not_failsAt hm ?_
  rintro i cause ⟨-, hcalls, k, rfl, hfail⟩
  obtain ⟨v, hv⟩ := h k hcalls
  rw [hv] at hfail
  cases hfail

/-- **The end of a chain decides.** Every chain ends at one instruction. If that declares a type for
what it pushes, the value counts as one of the target type exactly if the type can hold a value of
the target type. So where web requests are captured, a disposal through the interface goes to the
wrapper exactly if the type at the end of its receiver's chain can hold a web request. The chain is
that in the woven body, and that in the original one if objects are made by constructors only. A
type that is derived from the web request can hold one only in a cycle of declarations. -/
theorem disposal_byChainEnd (m : MethodDecl) (T : String) (index : Nat) :
    (∀ (h : Hierarchy) (target : String),
      (∃! stop, EndsAt h m T target index stop) ∧
      ∀ stop D, EndsAt h m T target index stop → DeclaresAt m T stop D →
        (m.infer h T target index).map Inference.isMatch = .ok (h.isAssignable D target)) ∧
    ∀ (o : CaptureOptions) (c : WeaveContext) (b : MethodDecl) (stop : Nat) (D : String),
      o.capturesWebRequests = true → m.CallsAt (index + 1) interfaceDisposeMethod.fullName →
      b = (m.weave (rules o) c T).value ∨ b = m ∧ m.MakesByConstructors →
      EndsAt c.hierarchy b T webRequest index stop → DeclaresAt b T stop D →
      ∀ changed, (m.weave (rules o) c T).run.outcome = .ok changed →
        ((m.weave (rules o) c T).value.instructions[index + 1]? =
            some (.call disposeWrapper .direct) ↔
          c.hierarchy.isAssignable D webRequest = true) := by
  refine ⟨fun h target => ⟨TypeFlow.existsUnique_endsAt index, fun stop D hend hD =>
    TypeFlow.infer_of_endsAt hend hD false⟩, ?_⟩
  intro o c b stop D on hcalls hbody hend hD changed hout
  have hmatch : (b.infer c.hierarchy T webRequest index).map Inference.isMatch =
      .ok (c.hierarchy.isAssignable D webRequest) := TypeFlow.infer_of_endsAt hend hD false
  have hinfer : (m.weave (rules o) c T).value.infer c.hierarchy T webRequest index =
      b.infer c.hierarchy T webRequest index := by
    rcases hbody with rfl | ⟨rfl, hmakes⟩
    · rfl
    · exact MethodDecl.infer_weave_of_replacesAlike (fun r hr => asksCondition_of_mem hr)
        (replacesAlike_rules hmakes) hout _ _ _
  rw [disposal_iff on hcalls hout, hinfer, hmatch, Except.ok.injEq]

/-- Takes a request from a factory into a local of the interface, and disposes of it. -/
def release : MethodDecl :=
  { MethodDecl.ofName "Release" voidType with
    locals := [⟨none, disposable⟩]
    body := some
      [.call (.static "Game.Factory" "Create" [] webRequest) .direct, .store (.local 0),
        .load (.local 0), .call interfaceDisposeMethod .virtual, .other "ret"] }

lemma makesByConstructors_release : release.MakesByConstructors := by
  intro callee kind h
  have hcall : Instruction.call callee kind = .call (.static "Game.Factory" "Create" []
      webRequest) .direct ∨
      Instruction.call callee kind = .call interfaceDisposeMethod .virtual := by
    simpa [release, MethodDecl.instructions] using h
  rcases hcall with h | h <;> cases h <;> decide

lemma endsAt_release : EndsAt (seed .empty) release "Game.Client" webRequest 2 0 := by
  have habove : (seed .empty).isStrictSupertype disposable webRequest = true := by
    rw [Hierarchy.isStrictSupertype_of_ne (by decide)]
    exact Hierarchy.isAssignable_of_mem_parents (by decide +kernel)
  have hfollows : TypeFlow.Follows (seed .empty) release "Game.Client" webRequest 2 0 :=
    .stored rfl rfl habove (by decide) rfl fun k h1 h2 => by omega
  exact .step hfollows (.here fun j hj => by cases hj with | stored load => cases load)

/-- Only the receiver is asked for, so nothing fails if its type is inferred. -/
lemma not_failsAt_release {b : Bool}
    (hinfer : (release.infer (seed .empty) "Game.Client" webRequest 2).map Inference.isMatch =
      .ok b) (i : Nat) (cause : Fault) :
    ¬FailsAt .default ⟨seed .empty, false⟩ "Game.Client" release i cause := by
  rintro ⟨-, ⟨callee, kind, hi, -⟩, k, rfl, hfail⟩
  have hk : k = 2 := by
    rcases k with _ | _ | _ | _ | k
    · cases hi
    · cases hi
    · rfl
    · cases hi
    · cases hi
  rw [hk] at hfail
  rw [hfail] at hinfer
  cases hinfer

/-- The chain of the receiver ends at the factory, so its disposal goes to the wrapper. -/
theorem disposal_byChainEnd_release :
    EndsAt (seed .empty) release "Game.Client" webRequest 2 0 ∧
    DeclaresAt release "Game.Client" 0 webRequest ∧
    (release.infer (seed .empty) "Game.Client" webRequest 2).map Inference.isMatch = .ok true ∧
    (release.weave (rules .default) ⟨seed .empty, false⟩ "Game.Client").value.instructions[3]? =
      some (.call disposeWrapper .direct) := by
  obtain ⟨hchain, hdisposal⟩ := disposal_byChainEnd release "Game.Client" 2
  have hdeclares : DeclaresAt release "Game.Client" 0 webRequest := .call rfl rfl
  have hinfer := (hchain (seed .empty) webRequest).2 0 _ endsAt_release hdeclares
  rw [Hierarchy.isAssignable_self] at hinfer
  obtain ⟨changed, hout⟩ := exists_ok_of_not_failsAt makesByConstructors_release
    (not_failsAt_release hinfer)
  have hsent := (hdisposal .default ⟨seed .empty, false⟩ release 0 webRequest rfl ⟨_, _, rfl, rfl⟩
    (.inr ⟨rfl, makesByConstructors_release⟩) endsAt_release hdeclares changed hout).2
      (Hierarchy.isAssignable_self _ _)
  exact ⟨endsAt_release, hdeclares, hinfer, hsent⟩

/-- A type that is derived from the web request. -/
def upload : Hierarchy := Hierarchy.empty.declare "Game.Upload" (some webRequest) []

/-- Disposes of a local of the derived type. -/
def finishUpload : MethodDecl :=
  { MethodDecl.ofName "Finish" voidType with
    locals := [⟨none, "Game.Upload"⟩]
    body := some [.load (.local 0), .call interfaceDisposeMethod .virtual, .other "ret"] }

/-- A value of the derived type is ruled out, though a slot of the target type can hold it. -/
theorem infer_derivedRequest :
    ¬∀ (h : Hierarchy) (m : MethodDecl) (T target : String) (index stop : Nat) (D : String),
      EndsAt h m T target index stop → DeclaresAt m T stop D → h.isAssignable target D = true →
        (m.infer h T target index).map Inference.isMatch = .ok true := by
  intro hkept
  have hend : EndsAt upload finishUpload "Game.Upload" webRequest 0 0 :=
    .here fun j hj => absurd hj.lt (Nat.not_lt_zero j)
  have hdeclares : DeclaresAt finishUpload "Game.Upload" 0 "Game.Upload" := .load rfl rfl
  have hholds : upload.isAssignable webRequest "Game.Upload" = true :=
    Hierarchy.isAssignable_of_mem_parents (by decide +kernel)
  have hruled : upload.isAssignable "Game.Upload" webRequest = false := by
    rw [Hierarchy.isAssignable_of_no_parents (by decide +kernel)]
    decide +kernel
  have hinfer : (finishUpload.infer upload "Game.Upload" webRequest 0).map Inference.isMatch = _ :=
    TypeFlow.infer_of_endsAt hend hdeclares false
  rw [hkept _ _ _ _ _ _ _ hend hdeclares hholds, hruled] at hinfer
  cases hinfer

end NetworkCapture

end Interpose
