import Interpose.Proofs.LoadChain

/-!
What the type flow says of a value, told by the chain of loads behind it.

The chain from a position is the list of the positions that loads are followed to. It goes down, so
it ends, and what stands at its end decides: a declared type, a slot that there is no store to
follow for, a slot that is not declared, or something else. Main statement: there is one chain from
every position, and each answer of the type flow is given exactly for one kind of end. So nothing
behind a position makes a difference to what is inferred there.
-/

namespace Interpose.TypeFlow

variable {h : Hierarchy} {m m' : MethodDecl} {T target D : String}
variable {i j stop : Nat} {c c' : List Nat}

/-! ### Chains -/

/-- The positions that the chain of loads from `i` is followed to, down to its end. -/
structure Chain (h : Hierarchy) (m : MethodDecl) (T target : String) (i : Nat) (c : List Nat) :
    Prop where
  follows : (i :: c).IsChain (Follows h m T target)
  ends : ∀ j, ¬Follows h m T target (c.getLastD i) j

lemma chain_nil_iff : Chain h m T target i [] ↔ ∀ j, ¬Follows h m T target i j :=
  ⟨fun hc => hc.ends, fun hlast => ⟨.singleton i, hlast⟩⟩

lemma chain_cons_iff :
    Chain h m T target i (j :: c) ↔ Follows h m T target i j ∧ Chain h m T target j c := by
  constructor
  · rintro ⟨hfollows, hends⟩
    rw [List.isChain_cons_cons] at hfollows
    rw [List.getLastD_cons] at hends
    exact ⟨hfollows.1, hfollows.2, hends⟩
  · rintro ⟨hij, hfollows, hends⟩
    refine ⟨List.isChain_cons_cons.2 ⟨hij, hfollows⟩, ?_⟩
    rwa [List.getLastD_cons]

lemma exists_chain (i : Nat) : ∃ c, Chain h m T target i c := by
  obtain ⟨stop, hstop⟩ : ∃ stop, EndsAt h m T target i stop := exists_endsAt i
  induction hstop with
  | here last => exact ⟨[], chain_nil_iff.2 last⟩
  | step follows _ ih =>
    obtain ⟨c, hc⟩ := ih
    exact ⟨_, chain_cons_iff.2 ⟨follows, hc⟩⟩

lemma Chain.unique (hc : Chain h m T target i c) (hc' : Chain h m T target i c') : c = c' := by
  induction c generalizing i c' with
  | nil =>
    rcases c' with _ | ⟨k, c'⟩
    · rfl
    · exact absurd (chain_cons_iff.1 hc').1 (hc.ends k)
  | cons j c ih =>
    obtain ⟨hij, hrest⟩ := chain_cons_iff.1 hc
    rcases c' with _ | ⟨k, c'⟩
    · exact absurd hij (hc'.ends j)
    · obtain ⟨hik, hrest'⟩ := chain_cons_iff.1 hc'
      obtain rfl := hij.unique hik
      rw [ih hrest hrest']

/-- A chain goes down. -/
lemma Chain.decreasing (hc : Chain h m T target i c) : (i :: c).Pairwise (· > ·) :=
  List.isChain_iff_pairwise.1 (hc.follows.imp fun _ _ hf => hf.lt)

lemma Follows.lt_length (hf : Follows h m T target i j) : i < m.instructions.length := by
  obtain ⟨_, _, hload, -⟩ := follows_iff.1 hf
  exact (List.getElem?_eq_some_iff.1 hload).1

/-- All positions behind the first lie in the body, as they come before a load. -/
lemma Chain.lt_length (hc : Chain h m T target i c) : ∀ j ∈ c, j < m.instructions.length := by
  intro j hj
  rcases c with _ | ⟨k, c⟩
  · cases hj
  · have hi := (chain_cons_iff.1 hc).1.lt_length
    have hji : j < i := List.rel_of_pairwise_cons hc.decreasing hj
    omega

/-- What is inferred at the start of a chain is inferred at its end, as refined if a load has been
followed. -/
lemma Chain.infer_eq (hc : Chain h m T target i c) (refined : Bool) :
    infer h m T target refined i = infer h m T target (refined || !c.isEmpty) (c.getLastD i) := by
  induction c generalizing i refined with
  | nil => simp
  | cons j c ih =>
    obtain ⟨hij, hrest⟩ := chain_cons_iff.1 hc
    rw [hij.infer_eq, ih hrest, List.getLastD_cons]
    simp

/-! ### Ends of chains -/

/-- The value is declared with a strict supertype of the target, and it comes from a call or from a
slot that nothing was stored into but at the start of the body. -/
inductive RemainsOpen (h : Hierarchy) (m : MethodDecl) (T target : String) (i : Nat) : Prop
  | call {callee : MethodRef} {kind : CallKind}
      (pushes : m.instructions[i]? = some (.call callee kind))
      (above : h.isStrictSupertype (pushedType callee kind) target = true) :
      RemainsOpen h m T target i
  | neverStored {slot : Slot} {D : String} (load : m.instructions[i]? = some (.load slot))
      (declared : m.slotType T slot = .ok D) (above : h.isStrictSupertype D target = true)
      (never : ∀ k < i, m.instructions[k]? ≠ some (.store slot)) : RemainsOpen h m T target i
  | storedAtStart {slot : Slot} {D : String} (load : m.instructions[i]? = some (.load slot))
      (declared : m.slotType T slot = .ok D) (above : h.isStrictSupertype D target = true)
      (before : 0 < i) (store : m.instructions[0]? = some (.store slot))
      (latest : ∀ k, 0 < k → k < i → m.instructions[k]? ≠ some (.store slot)) :
      RemainsOpen h m T target i

/-- The load at a position is of a slot that the method does not have. -/
inductive LacksSlot (m : MethodDecl) (T : String) (i : Nat) : Fault → Prop
  | noLocal {k : Nat} (load : m.instructions[i]? = some (.load (.local k)))
      (missing : m.locals.length ≤ k) : LacksSlot m T i (m.fault T (.localOutOfRange k))
  | noParameter {k : Nat} (load : m.instructions[i]? = some (.load (.parameter k)))
      (missing : m.params.length ≤ k) : LacksSlot m T i (m.fault T (.parameterOutOfRange k))
  | noReceiver (load : m.instructions[i]? = some (.load .this)) (static : m.hasThis = false) :
      LacksSlot m T i (m.fault T .receiverInStaticMethod)

lemma latestStore?_eq_none_iff {body : List Instruction} {slot : Slot} {before : Nat} :
    latestStore? body slot before = none ↔ ∀ k < before, body[k]? ≠ some (.store slot) := by
  induction before with
  | zero => simp [latestStore?]
  | succ n ih =>
    rw [latestStore?]
    split
    · next hn => exact iff_of_false (by simp) fun hnone => hnone n (Nat.lt_succ_self n) hn
    · next hn =>
      rw [ih]
      refine ⟨fun hnone k hk => ?_, fun hnone k hk => hnone k (by omega)⟩
      by_cases hkn : k = n
      · rwa [hkn]
      · exact hnone k (by omega)

/-- The load of a strict supertype whose store is not followed. -/
lemma remainsOpen_of_load {slot : Slot} (load : m.instructions[i]? = some (.load slot))
    (declared : m.slotType T slot = .ok D) (above : h.isStrictSupertype D target = true)
    (hlast : ∀ j, ¬Follows h m T target i j) : RemainsOpen h m T target i := by
  rcases hstore : latestStore? m.instructions slot i with _ | _ | n
  · exact .neverStored load declared above (latestStore?_eq_none_iff.1 hstore)
  · obtain ⟨before, store, latest⟩ := latestStore?_eq_some_iff.1 hstore
    exact .storedAtStart load declared above before store latest
  · exact absurd (follows_iff.2 ⟨slot, D, load, declared, above, hstore⟩) (hlast n)

lemma lacksSlot_of_error {slot : Slot} {e : Fault}
    (load : m.instructions[i]? = some (.load slot)) (he : m.slotType T slot = .error e) :
    LacksSlot m T i e := by
  cases slot with
  | field ref => cases he
  | «local» k =>
    rw [MethodDecl.slotType] at he
    split at he
    · cases he
    · next hk =>
      cases he
      exact .noLocal load (List.getElem?_eq_none_iff.1 hk)
  | parameter k =>
    rw [MethodDecl.slotType] at he
    split at he
    · cases he
    · next hk =>
      cases he
      exact .noParameter load (List.getElem?_eq_none_iff.1 hk)
  | this =>
    rw [MethodDecl.slotType] at he
    split at he
    · cases he
    · next hthis =>
      cases he
      exact .noReceiver load (by simpa using hthis)

/-! #### What is inferred at each -/

lemma infer_of_call {callee : MethodRef} {kind : CallKind}
    (hi : m.instructions[i]? = some (.call callee kind)) (refined : Bool) :
    infer h m T target refined i = .ok (classify h target refined (pushedType callee kind)) := by
  rw [infer_eq, readingAt, hi]
  rfl

lemma infer_of_declaresAt (hD : DeclaresAt m T i target) (refined : Bool) :
    infer h m T target refined i = .ok (.found refined) := by
  cases hD with
  | load pushes declared => rw [infer_of_load pushes declared, if_pos rfl]
  | call pushes declared => rw [infer_of_call pushes, declared, classify, if_pos rfl]

lemma ne_of_isStrictSupertype (above : h.isStrictSupertype D target = true) : D ≠ target := by
  rintro rfl
  simp [Hierarchy.isStrictSupertype] at above

lemma infer_of_remainsOpen (hopen : RemainsOpen h m T target i) (refined : Bool) :
    infer h m T target refined i = .ok .assumed := by
  cases hopen with
  | call pushes above =>
    rw [infer_of_call pushes, classify, if_neg (ne_of_isStrictSupertype above), if_pos above]
  | neverStored load declared above never =>
    rw [infer_of_load load declared, if_neg (ne_of_isStrictSupertype above), above,
      latestStore?_eq_none_iff.2 never]
    rfl
  | storedAtStart load declared above before store latest =>
    rw [infer_of_load load declared, if_neg (ne_of_isStrictSupertype above), above,
      latestStore?_eq_some_iff.2 ⟨before, store, latest⟩]
    rfl

lemma infer_of_slotType_error {slot : Slot} {e : Fault}
    (load : m.instructions[i]? = some (.load slot)) (he : m.slotType T slot = .error e)
    (refined : Bool) : infer h m T target refined i = .error e := by
  rw [infer_eq, readingAt, load]
  simp only [Option.map_some, reading, he]

lemma infer_of_lacksSlot {e : Fault} (hlacks : LacksSlot m T i e) (refined : Bool) :
    infer h m T target refined i = .error e := by
  cases hlacks with
  | noLocal load missing =>
    refine infer_of_slotType_error load ?_ refined
    rw [MethodDecl.slotType, List.getElem?_eq_none missing]
  | noParameter load missing =>
    refine infer_of_slotType_error load ?_ refined
    rw [MethodDecl.slotType, List.getElem?_eq_none missing]
  | noReceiver load static =>
    refine infer_of_slotType_error load ?_ refined
    simp [MethodDecl.slotType, static]

lemma infer_of_length_le (hi : m.instructions.length ≤ i) (refined : Bool) :
    infer h m T target refined i = .error (m.fault T (.instructionOutOfRange i)) := by
  rw [infer_eq, readingAt, List.getElem?_eq_none hi]
  rfl

/-- At the end of a chain the value is declared with the target type, or remains open, or there is
nothing to look at, or the value is ruled out. -/
lemma end_cases (hlast : ∀ j, ¬Follows h m T target i j) (refined : Bool) :
    DeclaresAt m T i target ∨ RemainsOpen h m T target i ∨ m.instructions.length ≤ i ∨
      (∃ e, LacksSlot m T i e) ∨ infer h m T target refined i = .ok .mismatch := by
  rcases hi : m.instructions[i]? with _ | slot | slot | ⟨callee, kind⟩ | opcode
  · exact .inr (.inr (.inl (List.getElem?_eq_none_iff.1 hi)))
  · rcases hD : m.slotType T slot with e | D
    · exact .inr (.inr (.inr (.inl ⟨e, lacksSlot_of_error hi hD⟩)))
    · by_cases heq : D = target
      · exact .inl (.load hi (heq ▸ hD))
      · rcases habove : h.isStrictSupertype D target with _ | _
        · refine .inr (.inr (.inr (.inr ?_)))
          rw [infer_of_load hi hD, if_neg heq, habove]
          rfl
        · exact .inr (.inl (remainsOpen_of_load hi hD habove hlast))
  · refine .inr (.inr (.inr (.inr ?_)))
    rw [infer_eq, readingAt, hi]
    rfl
  · by_cases heq : pushedType callee kind = target
    · exact .inl (.call hi heq)
    · rcases habove : h.isStrictSupertype (pushedType callee kind) target with _ | _
      · refine .inr (.inr (.inr (.inr ?_)))
        rw [infer_of_call hi, classify, if_neg heq, habove]
        rfl
      · exact .inr (.inl (.call hi habove))
  · refine .inr (.inr (.inr (.inr ?_)))
    rw [infer_eq, readingAt, hi]
    rfl

/-! ### Answers -/

/-- What the type flow answers at `i`, told by the chain `c` behind it. -/
inductive Answer (h : Hierarchy) (m : MethodDecl) (T target : String) (i : Nat) (c : List Nat) :
    Except Fault Inference → Prop
  | exact (direct : c = []) (same : DeclaresAt m T (c.getLastD i) target) :
      Answer h m T target i c (.ok .exact)
  | refined (followed : c ≠ []) (same : DeclaresAt m T (c.getLastD i) target) :
      Answer h m T target i c (.ok .refined)
  | assumed (remains : RemainsOpen h m T target (c.getLastD i)) :
      Answer h m T target i c (.ok .assumed)
  | outside (beyond : m.instructions.length ≤ i) :
      Answer h m T target i c (.error (m.fault T (.instructionOutOfRange i)))
  | lacksSlot {e : Fault} (lacks : LacksSlot m T (c.getLastD i) e) :
      Answer h m T target i c (.error e)
  | mismatch (inside : i < m.instructions.length)
      (different : ¬DeclaresAt m T (c.getLastD i) target)
      (settled : ¬RemainsOpen h m T target (c.getLastD i))
      (declared : ∀ e, ¬LacksSlot m T (c.getLastD i) e) : Answer h m T target i c (.ok .mismatch)

/-- Only a chain of one position ends outside of the body. -/
lemma Chain.length_le_iff (hc : Chain h m T target i c) :
    m.instructions.length ≤ c.getLastD i ↔ m.instructions.length ≤ i ∧ c.getLastD i = i := by
  rcases c with _ | ⟨j, c⟩
  · simp
  · have hlast : (j :: c).getLastD i ∈ j :: c := by
      rw [List.getLastD_cons]
      exact List.getLastD_mem_cons
    have hlt := hc.lt_length _ hlast
    have hi : (j :: c).getLastD i < i := List.rel_of_pairwise_cons hc.decreasing hlast
    omega

lemma Chain.answer (hc : Chain h m T target i c) :
    Answer h m T target i c (infer h m T target false i) := by
  rw [hc.infer_eq]
  rcases end_cases hc.ends (false || !c.isEmpty) with same | hopen | hout | ⟨e, hlacks⟩ | hruled
  · rw [infer_of_declaresAt same]
    rcases c with _ | ⟨j, c⟩
    · exact .exact rfl same
    · exact .refined (List.cons_ne_nil j c) same
  · rw [infer_of_remainsOpen hopen]
    exact .assumed hopen
  · rw [infer_of_length_le hout]
    obtain ⟨hi, hstop⟩ := hc.length_le_iff.1 hout
    rw [hstop]
    exact .outside hi
  · rw [infer_of_lacksSlot hlacks]
    exact .lacksSlot hlacks
  · -- each of the other ends is answered in another way
    rw [hruled]
    refine .mismatch (Nat.lt_of_not_le fun hi => ?_) (fun same => ?_) (fun hopen => ?_)
      fun e hlacks => ?_
    · rw [← hc.infer_eq, infer_of_length_le hi] at hruled
      cases hruled
    · rw [infer_of_declaresAt same] at hruled
      rcases c with _ | ⟨j, c⟩ <;> cases hruled
    · rw [infer_of_remainsOpen hopen] at hruled
      cases hruled
    · rw [infer_of_lacksSlot hlacks] at hruled
      cases hruled

/-- The answer of a chain is that of the type flow. -/
lemma Chain.infer_eq_of_answer (hc : Chain h m T target i c) {x : Except Fault Inference}
    (hx : Answer h m T target i c x) : infer h m T target false i = x := by
  rw [hc.infer_eq]
  cases hx with
  | exact direct same =>
    rw [infer_of_declaresAt same, direct]
    rfl
  | refined followed same =>
    rw [infer_of_declaresAt same, List.isEmpty_eq_false_iff.2 followed]
    rfl
  | assumed remains => rw [infer_of_remainsOpen remains]
  | outside beyond =>
    rw [← hc.infer_eq]
    exact infer_of_length_le beyond false
  | lacksSlot lacks => rw [infer_of_lacksSlot lacks]
  | mismatch inside different settled declared =>
    rcases end_cases hc.ends (false || !c.isEmpty) with same | hopen | hout | ⟨e, hlacks⟩ | hruled
    · exact absurd same different
    · exact absurd hopen settled
    · exact absurd (hc.length_le_iff.1 hout).1 (Nat.not_le_of_lt inside)
    · exact absurd hlacks (declared e)
    · exact hruled

/-- Only what stands up to a position is looked at. -/
lemma infer_of_take (hm : m'.bodiless = m.bodiless)
    (hfront : m'.instructions.take (i + 1) = m.instructions.take (i + 1)) :
    m'.infer h T target i = m.infer h T target i := by
  refine infer_congr hm (fun j hj => ?_) false
  have hj' : j < i + 1 := Nat.lt_succ_of_le hj
  rw [readingAt, readingAt, ← List.getElem?_take_of_lt hj', hfront, List.getElem?_take_of_lt hj']

/-- **What is inferred**: one chain of loads leads down from every position, and behind the first
all its positions lie in the body. The value counts as found if it is declared with the target type
at the end of the chain, exactly if that is the position itself and as refined otherwise; as assumed
if it remains open there; the inference fails where the body ends before the position or where the
end is a load of a slot that the method does not have; and in all other cases the value is ruled
out. Instructions behind the position may be replaced, added and removed. -/
theorem infer_byChain (h : Hierarchy) (m : MethodDecl) (T target : String) (i : Nat) :
    (∃! c, Chain h m T target i c) ∧
    (∀ c, Chain h m T target i c →
      (i :: c).Pairwise (· > ·) ∧ (∀ j ∈ c, j < m.instructions.length) ∧
      ∀ x, m.infer h T target i = x ↔ Answer h m T target i c x) ∧
    ∀ m' : MethodDecl, m'.bodiless = m.bodiless →
      m'.instructions.take (i + 1) = m.instructions.take (i + 1) →
      m'.infer h T target i = m.infer h T target i := by
  refine ⟨?_, fun c hc => ⟨hc.decreasing, hc.lt_length, fun x => ⟨?_, hc.infer_eq_of_answer⟩⟩,
    fun m' hm hfront => infer_of_take hm hfront⟩
  · obtain ⟨c, hc⟩ : ∃ c, Chain h m T target i c := exists_chain i
    exact ⟨c, hc, fun c' hc' => hc'.unique hc⟩
  · rintro rfl
    exact hc.answer

end Interpose.TypeFlow

namespace Interpose.NetworkCapture

open TypeFlow

/-- Takes a request from a factory through two locals of the interface, and disposes of it. -/
def relay : MethodDecl :=
  { MethodDecl.ofName "Relay" voidType with
    locals := [⟨none, disposable⟩, ⟨none, disposable⟩]
    body := some
      [.call (.static "Game.Factory" "Create" [] webRequest) .direct, .store (.local 0),
        .load (.local 0), .store (.local 1), .load (.local 1),
        .call interfaceDisposeMethod .virtual, .other "ret"] }

/-- The same up to the second load, behind which nothing but a return is left. -/
def relayCut : MethodDecl :=
  { relay with body := some (relay.instructions.take 5 ++ [.other "ret"]) }

lemma chain_relay : Chain (seed .empty) relay "Game.Client" webRequest 4 [2, 0] := by
  have habove : (seed .empty).isStrictSupertype disposable webRequest = true := by
    rw [Hierarchy.isStrictSupertype_of_ne (by decide)]
    exact Hierarchy.isAssignable_of_mem_parents (by decide +kernel)
  have hsecond : Follows (seed .empty) relay "Game.Client" webRequest 4 2 :=
    .stored rfl rfl habove (by decide) rfl fun k h1 h2 => by omega
  have hfirst : Follows (seed .empty) relay "Game.Client" webRequest 2 0 :=
    .stored rfl rfl habove (by decide) rfl fun k h1 h2 => by omega
  refine chain_cons_iff.2 ⟨hsecond, chain_cons_iff.2 ⟨hfirst, chain_nil_iff.2 fun j hj => ?_⟩⟩
  exact absurd hj.lt (Nat.not_lt_zero j)

/-- Two loads are followed to the factory, and what stands behind them does not matter. -/
theorem infer_byChain_relay :
    Chain (seed .empty) relay "Game.Client" webRequest 4 [2, 0] ∧
    relay.infer (seed .empty) "Game.Client" webRequest 4 = .ok .refined ∧
    relayCut.infer (seed .empty) "Game.Client" webRequest 4 = .ok .refined := by
  obtain ⟨-, hanswer, hbehind⟩ := infer_byChain (seed .empty) relay "Game.Client" webRequest 4
  have hrefined : relay.infer (seed .empty) "Game.Client" webRequest 4 = .ok .refined :=
    ((hanswer [2, 0] chain_relay).2.2 _).2 (.refined (by decide) (.call rfl rfl))
  exact ⟨chain_relay, hrefined, (hbehind relayCut rfl rfl).trans hrefined⟩

end Interpose.NetworkCapture
