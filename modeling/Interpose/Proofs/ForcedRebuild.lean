import Interpose.Proofs.Callbacks

/-!
A rebuild is asked for once.

The flag of the state says whether a rebuild is awaited: it was asked for, and no pass has gone
through since. Main statement: over every run a second request comes only behind a pass that went
through, and a pass in which the weaver itself was compiled goes through only behind a request.
-/

namespace Interpose.PassConfig

variable {config : PassConfig} {cs : List Callback} {i n : Nat}

/-- The finish at a place of a run asks for a rebuild. -/
def AsksAt (config : PassConfig) (cs : List Callback) (i : Nat) : Prop :=
  ∃ r, config.resultAt? cs i = some r ∧ r.Asks

/-- The finish at a place of a run goes through its pass, to a report or to an error. -/
def GoesThroughAt (config : PassConfig) (cs : List Callback) (i : Nat) : Prop :=
  ∃ r, config.resultAt? cs i = some r ∧ r.GoesThrough

/-- At some place before `n` a rebuild was asked for, and no pass has gone through since. -/
def Awaits (config : PassConfig) (cs : List Callback) (n : Nat) : Prop :=
  ∃ i < n, config.AsksAt cs i ∧ ∀ j, i < j → j < n → ¬config.GoesThroughAt cs j

lemma resultAt?_eq_some_iff {r : PassResult} : config.resultAt? cs i = some r ↔
    ∃ host fs, cs[i]? = some (.finished host fs) ∧
      config.finish host fs (config.stateAfter (cs.take i)) = r := by
  unfold resultAt?
  split
  · next host fs h =>
    constructor
    · exact fun hr => ⟨host, fs, h, Option.some.inj hr⟩
    · rintro ⟨host', fs', h', rfl⟩
      rw [h] at h'
      cases h'
      rfl
  · next hno =>
    refine iff_of_false (by simp) ?_
    rintro ⟨host, fs, h, -⟩
    exact hno host fs h

/-- What stands at a finish: how it ends, and the state behind it. -/
lemma ends_of_resultAt? {r : PassResult} (h : config.resultAt? cs i = some r) :
    (∃ host fs, Ends config host fs (config.stateAfter (cs.take i)) r) ∧
      config.stateAfter (cs.take (i + 1)) = r.state := by
  obtain ⟨host, fs, hi, rfl⟩ := resultAt?_eq_some_iff.1 h
  exact ⟨⟨host, fs, finish_ends config host fs _⟩, stateAfter_take_succ hi⟩

/-- Callbacks that are no finish keep the flag. -/
lemma forcedRebuild_succ_of_none (h : config.resultAt? cs n = none) :
    (config.stateAfter (cs.take (n + 1))).forcedRebuild =
      (config.stateAfter (cs.take n)).forcedRebuild := by
  rcases hc : cs[n]? with _ | c
  · rw [stateAfter_take_succ_of_none hc]
  · rw [stateAfter_take_succ hc]
    cases c with
    | started => rfl
    | compiled p => rfl
    | finished host fs =>
      rw [resultAt?, hc] at h
      cases h

/-! ### What the wait becomes with one more place -/

lemma awaits_zero : ¬config.Awaits cs 0 := by
  rintro ⟨i, hi, -⟩
  exact absurd hi (Nat.not_lt_zero i)

lemma awaits_succ_iff : config.Awaits cs (n + 1) ↔
    config.AsksAt cs n ∨ config.Awaits cs n ∧ ¬config.GoesThroughAt cs n := by
  constructor
  · rintro ⟨i, hi, hasks, hnone⟩
    rcases Nat.lt_succ_iff_lt_or_eq.1 hi with hlt | rfl
    · exact .inr ⟨⟨i, hlt, hasks, fun j hij hj => hnone j hij (Nat.lt_succ_of_lt hj)⟩,
        hnone n hlt (Nat.lt_succ_self n)⟩
    · exact .inl hasks
  · rintro (hasks | ⟨⟨i, hi, hasks, hnone⟩, hn⟩)
    · exact ⟨n, Nat.lt_succ_self n, hasks, fun j hij hj => by omega⟩
    · refine ⟨i, Nat.lt_succ_of_lt hi, hasks, fun j hij hj => ?_⟩
      rcases Nat.lt_succ_iff_lt_or_eq.1 hj with hlt | rfl
      · exact hnone j hij hlt
      · exact hn

/-- **The flag is the wait**: it is set exactly while a rebuild is awaited. -/
lemma forcedRebuild_iff_awaits (config : PassConfig) (cs : List Callback) (n : Nat) :
    (config.stateAfter (cs.take n)).forcedRebuild = true ↔ config.Awaits cs n := by
  induction n with
  | zero => exact iff_of_false Bool.false_ne_true awaits_zero
  | succ n ih =>
    rw [awaits_succ_iff, ← ih]
    rcases hr : config.resultAt? cs n with _ | r
    · have hasks : ¬config.AsksAt cs n := by
        rintro ⟨r, h, -⟩
        rw [hr] at h
        cases h
      have hthrough : ¬config.GoesThroughAt cs n := by
        rintro ⟨r, h, -⟩
        rw [hr] at h
        cases h
      rw [forcedRebuild_succ_of_none hr]
      simp [hasks, hthrough]
    · obtain ⟨⟨host, fs, hends⟩, hstate⟩ := ends_of_resultAt? hr
      have hasks : config.AsksAt cs n ↔ r.Asks := by simp [AsksAt, hr]
      have hthrough : config.GoesThroughAt cs n ↔ r.GoesThrough := by simp [GoesThroughAt, hr]
      rw [hstate, hasks, hthrough]
      exact hends.forcedRebuild_iff

/-- **One request at a time**, over every run from a new state and with any projects and files:
after a finish the state is idle, and the compiler was told to rebuild exactly if the outcome says
so; a rebuild is awaited exactly if one was asked for and no pass has gone through since; so between
two requests a pass has gone through; and a pass in which the weaver itself was compiled goes
through only while a rebuild is awaited. -/
theorem rebuild_asked_once (config : PassConfig) (cs : List Callback) :
    (∀ i r, config.resultAt? cs i = some r →
      (config.stateAfter (cs.take (i + 1))).phase = .idle ∧
        (r.rebuildRequested = true ↔ r.Asks)) ∧
    (∀ n, (config.stateAfter (cs.take n)).forcedRebuild = true ↔
      ∃ i < n, config.AsksAt cs i ∧ ∀ j, i < j → j < n → ¬config.GoesThroughAt cs j) ∧
    (∀ i j, i < j → config.AsksAt cs i → config.AsksAt cs j →
      ∃ k, i < k ∧ k < j ∧ config.GoesThroughAt cs k) ∧
    ∀ j, config.GoesThroughAt cs j →
      (∃ p ∈ (config.stateAfter (cs.take j)).dirty, p.stem? = some config.weaverUnit) →
      ∃ i < j, config.AsksAt cs i ∧ ∀ k, i < k → k < j → ¬config.GoesThroughAt cs k := by
  refine ⟨fun i r hr => ?_, forcedRebuild_iff_awaits config cs, fun i j hij hi hj => ?_,
    fun j hj hdirty => ?_⟩
  · obtain ⟨⟨host, fs, hends⟩, hstate⟩ := ends_of_resultAt? hr
    rw [hstate]
    exact ⟨hends.phase_eq, hends.rebuildRequested_iff⟩
  · obtain ⟨r, hr, hasks⟩ := hj
    obtain ⟨⟨host, fs, hends⟩, -⟩ := ends_of_resultAt? hr
    by_contra hnone
    have hawaits : config.Awaits cs j :=
      ⟨i, hij, hi, fun k hik hkj hk => hnone ⟨k, hik, hkj, hk⟩⟩
    rw [← forcedRebuild_iff_awaits, hends.not_forcedRebuild_of_asks hasks] at hawaits
    cases hawaits
  · obtain ⟨r, hr, hthrough⟩ := hj
    obtain ⟨⟨host, fs, hends⟩, -⟩ := ends_of_resultAt? hr
    have hcompiled :
        (config.stateAfter (cs.take j)).hasCompiled config.weaverUnit = true := by
      obtain ⟨p, hp, hstem⟩ := hdirty
      exact List.any_eq_true.2 ⟨p, hp, by simp [hstem]⟩
    exact (forcedRebuild_iff_awaits config cs j).1
      ((hends.weaves hthrough).allowed hcompiled)

/-! #### A run in which the weaver is compiled twice -/

def weaverPath : Path := ⟨defaultWeaverUnit ++ ".json"⟩

/-- The weaver is compiled, and once more in the rebuild that it leads to. -/
def rebuildRun : List Callback :=
  [.started, .compiled weaverPath, .finished gameHost gameFiles,
    .started, .compiled weaverPath, .finished gameHost gameFiles]

/-- The second finish goes through, as the first one has asked for a rebuild. -/
theorem rebuild_asked_once_weaver :
    gameConfig.GoesThroughAt rebuildRun 5 ∧
    (∃ p ∈ (gameConfig.stateAfter (rebuildRun.take 5)).dirty,
      p.stem? = some gameConfig.weaverUnit) ∧
    ∃ i < 5, gameConfig.AsksAt rebuildRun i ∧
      ∀ k, i < k → k < 5 → ¬gameConfig.GoesThroughAt rebuildRun k := by
  have hthrough : gameConfig.GoesThroughAt rebuildRun 5 := by
    have hdone : (match (gameConfig.finish gameHost gameFiles
          (gameConfig.stateAfter (rebuildRun.take 5))).run.outcome with
        | .ok (.completed _) => true
        | _ => false) = true := by decide +kernel
    refine ⟨_, rfl, .inl ?_⟩
    split at hdone
    · next report h => exact ⟨report, h⟩
    · cases hdone
  have hdirty : ∃ p ∈ (gameConfig.stateAfter (rebuildRun.take 5)).dirty,
      p.stem? = some gameConfig.weaverUnit :=
    ⟨weaverPath, List.mem_singleton_self _, by decide +kernel⟩
  exact ⟨hthrough, hdirty, (rebuild_asked_once gameConfig rebuildRun).2.2.2 5 hthrough hdirty⟩

end Interpose.PassConfig
