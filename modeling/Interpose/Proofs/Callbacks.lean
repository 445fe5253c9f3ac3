import Interpose.Proofs.PassOnDisk

/-!
Whole runs: what a compiler reports, one callback after the other.

A run starts with a new state. Each finished compilation brings its own host and files, so projects
may change from pass to pass. Main statement: a finish leaves the pass out, asks for a rebuild that
was not asked for before, or weaves, and what becomes of the state is told by which of them it is.
-/

namespace Interpose

/-- What a compiler reports. A finished compilation comes with the project and the files of its
time. -/
inductive Callback where
  | started
  | compiled (p : Path)
  | finished (host : Host) (fs : Files)

def Callback.isCompiled : Callback → Bool
  | .compiled _ => true
  | _ => false

namespace PassConfig

/-- The state after a callback. -/
def after (config : PassConfig) (s : PassState) : Callback → PassState
  | .started => s.start
  | .compiled p => s.addCompiled p
  | .finished host fs => (config.finish host fs s).state

/-- The state after a run. -/
def stateAfter (config : PassConfig) (cs : List Callback) : PassState :=
  cs.foldl config.after .initial

/-- The result of the finish that stands at a place of a run, if there is one. -/
def resultAt? (config : PassConfig) (cs : List Callback) (i : Nat) : Option PassResult :=
  match cs[i]? with
  | some (.finished host fs) => some (config.finish host fs (config.stateAfter (cs.take i)))
  | _ => none

variable {config : PassConfig} {host : Host} {fs : Files} {s : PassState} {cs : List Callback}

@[simp] lemma stateAfter_nil : config.stateAfter [] = .initial := rfl

@[simp] lemma stateAfter_concat (c : Callback) :
    config.stateAfter (cs ++ [c]) = config.after (config.stateAfter cs) c := by
  simp [stateAfter, List.foldl_append]

lemma stateAfter_append (config : PassConfig) (cs cs' : List Callback) :
    config.stateAfter (cs ++ cs') = cs'.foldl config.after (config.stateAfter cs) := by
  simp [stateAfter, List.foldl_append]

lemma stateAfter_take_succ {i : Nat} {c : Callback} (h : cs[i]? = some c) :
    config.stateAfter (cs.take (i + 1)) = config.after (config.stateAfter (cs.take i)) c := by
  rw [List.take_add_one, h, Option.toList_some, stateAfter_concat]

lemma stateAfter_take_succ_of_none {i : Nat} (h : cs[i]? = none) :
    config.stateAfter (cs.take (i + 1)) = config.stateAfter (cs.take i) := by
  rw [List.take_add_one, h, Option.toList_none, List.append_nil]

/-! ### One finish -/

/-- What it takes for a finished compilation to be woven. -/
structure Weaves (config : PassConfig) (host : Host) (s : PassState) : Prop where
  weavers : config.weavers.isEmpty = false
  enabled : host.defines Define.enabled = true
  allowed : s.hasCompiled config.weaverUnit = true → s.forcedRebuild = true
  units : host.units.isEmpty = false

/-- What a finished compilation can lead to. -/
inductive Ends (config : PassConfig) (host : Host) (fs : Files) (s : PassState) :
    PassResult → Prop
  | leftOut (reason : PassSkip) : Ends config host fs s (leaveOut fs s reason)
  | asked (entry : LogEntry) (reason : RebuildReason) (first : s.forcedRebuild = false) :
      Ends config host fs s (askRebuild fs s entry reason)
  | wove (weaves : Weaves config host s) : Ends config host fs s (config.weave host fs s)

lemma finish_ends (config : PassConfig) (host : Host) (fs : Files) (s : PassState) :
    Ends config host fs s (config.finish host fs s) := by
  unfold finish
  split
  · exact .leftOut _
  · next hweavers =>
    split
    · exact .leftOut _
    · next henabled =>
      split
      · next h =>
        have hfirst : s.forcedRebuild = false := by simpa using (Bool.and_eq_true_iff.1 h).2
        exact .asked _ _ hfirst
      · next h =>
        split
        · split
          · exact .leftOut _
          · next hfirst => exact .asked _ _ (by simpa using hfirst)
        · next hunits =>
          exact .wove ⟨by simpa using hweavers, by simpa using henabled,
            fun hc => by simpa [hc] using h, by simpa using hunits⟩

lemma Weaves.finish_eq (h : Weaves config host s) (fs : Files) :
    config.finish host fs s = config.weave host fs s := by
  have hask : (s.hasCompiled config.weaverUnit && !s.forcedRebuild) = false := by
    rcases hc : s.hasCompiled config.weaverUnit with _ | _
    · rfl
    · rw [h.allowed hc]
      rfl
  simp [finish, h.weavers, h.enabled, hask, h.units]

/-- A pass that weaves ends the wait for a rebuild and keeps its paths as the dirty ones. -/
lemma weave_state (config : PassConfig) (host : Host) (fs : Files) (s : PassState) :
    (config.weave host fs s).state = ⟨.idle, paths host s, false⟩ ∧
      (config.weave host fs s).rebuildRequested = false := by
  unfold weave paths
  dsimp only
  split <;> exact ⟨rfl, rfl⟩

end PassConfig

/-- The outcome is that of a pass that wove: completed or failed. -/
def PassResult.GoesThrough (r : PassResult) : Prop :=
  (∃ report, r.run.outcome = .ok (.completed report)) ∨ ∃ e, r.run.outcome = .error e

/-- The outcome is that a rebuild is asked for. -/
def PassResult.Asks (r : PassResult) : Prop :=
  ∃ reason, r.run.outcome = .ok (.rebuildRequested reason)

namespace PassConfig

variable {config : PassConfig} {host : Host} {fs : Files} {s : PassState} {r : PassResult}

lemma weave_goesThrough : (config.weave host fs s).GoesThrough := by
  have hout := (config.weave_files host fs s).2
  rcases hend : (config.atEnd host fs s).run.outcome with e | report
  · exact .inr ⟨e, by rw [hout, hend]; rfl⟩
  · exact .inl ⟨report, by rw [hout, hend]; rfl⟩

lemma not_asks_of_goesThrough (h : r.GoesThrough) : ¬r.Asks := by
  rintro ⟨reason, ho⟩
  rcases h with ⟨report, hr⟩ | ⟨e, he⟩
  · rw [hr] at ho
    cases ho
  · rw [he] at ho
    cases ho

lemma not_asks_leaveOut (reason : PassSkip) : ¬(leaveOut fs s reason).Asks := by
  rintro ⟨_, ho⟩
  cases ho

lemma not_goesThrough_leaveOut (reason : PassSkip) : ¬(leaveOut fs s reason).GoesThrough := by
  rintro (⟨_, ho⟩ | ⟨_, ho⟩) <;> cases ho

/-- The compilation has ended, whatever came of it. -/
lemma Ends.phase_eq (h : Ends config host fs s r) : r.state.phase = .idle := by
  cases h with
  | leftOut => rfl
  | asked => rfl
  | wove => rw [(config.weave_state host fs s).1]

/-- The compiler is told to rebuild exactly when the outcome says so. -/
lemma Ends.rebuildRequested_iff (h : Ends config host fs s r) :
    r.rebuildRequested = true ↔ r.Asks := by
  cases h with
  | leftOut reason => exact iff_of_false Bool.false_ne_true (not_asks_leaveOut reason)
  | asked entry reason _ => exact iff_of_true rfl ⟨reason, rfl⟩
  | wove =>
    rw [(config.weave_state host fs s).2]
    exact iff_of_false Bool.false_ne_true (not_asks_of_goesThrough weave_goesThrough)

/-- A rebuild is awaited after a finish that asks for it, and after one that leaves the pass out
when it was awaited before. -/
lemma Ends.forcedRebuild_iff (h : Ends config host fs s r) :
    r.state.forcedRebuild = true ↔ r.Asks ∨ s.forcedRebuild = true ∧ ¬r.GoesThrough := by
  cases h with
  | leftOut reason =>
    have hstate : (leaveOut fs s reason).state.forcedRebuild = s.forcedRebuild := rfl
    rw [hstate]
    have hask : ¬(leaveOut fs s reason).Asks := not_asks_leaveOut reason
    have hthrough : ¬(leaveOut fs s reason).GoesThrough := not_goesThrough_leaveOut reason
    simp [hask, hthrough]
  | asked entry reason _ => exact iff_of_true rfl (.inl ⟨reason, rfl⟩)
  | wove =>
    have hthrough : (config.weave host fs s).GoesThrough := weave_goesThrough
    have hask := not_asks_of_goesThrough hthrough
    simp [hask, hthrough, (config.weave_state host fs s).1]

/-- Who asks for a rebuild was not waiting for one. -/
lemma Ends.not_forcedRebuild_of_asks (h : Ends config host fs s r) (hr : r.Asks) :
    s.forcedRebuild = false := by
  cases h with
  | leftOut reason => exact absurd hr (not_asks_leaveOut reason)
  | asked entry reason first => exact first
  | wove => exact absurd hr (not_asks_of_goesThrough weave_goesThrough)

/-- Only what is woven goes through. -/
lemma Ends.weaves (h : Ends config host fs s r) (hr : r.GoesThrough) : Weaves config host s := by
  cases h with
  | leftOut reason => exact absurd hr (not_goesThrough_leaveOut reason)
  | asked entry reason _ => rcases hr with ⟨_, ho⟩ | ⟨_, ho⟩ <;> cases ho
  | wove weaves => exact weaves

end PassConfig

end Interpose
