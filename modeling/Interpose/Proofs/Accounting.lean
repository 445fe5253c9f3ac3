import Interpose.Proofs.DirtyPaths
import Interpose.Proofs.PassSight

/-!
Every dirty path is accounted for.

A pass comes to each of its paths once and puts it into one list of its report, so the lists together
are the dirty paths, each list in their order. A compiled path is added only if no equal one is there,
but a pass over all units takes their output paths as the project gives them. Main statement: a
completed report accounts for the dirty paths, and two of these are equal exactly if such a pass has
met two units with one output path and no compilation has started since.
-/

namespace Interpose

namespace Path

/-- No two of the paths are equal. -/
def AreDistinct (ps : List Path) : Prop := (ps.map components).Nodup

instance (ps : List Path) : Decidable (AreDistinct ps) :=
  inferInstanceAs (Decidable (List.Nodup _))

lemma areDistinct_perm {ps qs : List Path} (h : ps.Perm qs) : AreDistinct ps ↔ AreDistinct qs :=
  (h.map components).nodup_iff

/-- A path at the end of distinct ones is distinct from each of them. -/
lemma areDistinct_concat {ps : List Path} {p : Path} :
    AreDistinct (ps ++ [p]) ↔ AreDistinct ps ∧ ps.contains p = false := by
  have hnot : p.components ∉ ps.map components ↔ ps.contains p = false := by
    rw [← Bool.not_eq_true, List.contains_iff_exists_mem_beq, List.mem_map]
    simp only [beq_iff, @eq_comm _ _ p.components]
  rw [AreDistinct, List.map_append, List.map_singleton, List.nodup_append_comm,
    List.singleton_append, List.nodup_cons, hnot, and_comm, AreDistinct]

end Path

/-! ### One path after the other -/

namespace PassReport

variable {report report' : PassReport} {ps : List Path}

/-- The paths of a report, one list after the other. -/
def paths (report : PassReport) : List Path :=
  report.written ++ (report.unchanged ++ report.skipped.map (·.1))

/-- Each of the paths has its one place in the report, and each list is in their order. -/
structure Accounts (report : PassReport) (ps : List Path) : Prop where
  all : report.paths.Perm ps
  written : report.written.Sublist ps
  unchanged : report.unchanged.Sublist ps
  skipped : (report.skipped.map (·.1)).Sublist ps

lemma accounts_empty : empty.Accounts [] := ⟨.refl _, .refl _, .refl _, .refl _⟩

/-- One more path comes to the end of one list. -/
lemma Accounts.add (h : report.Accounts ps) (p : Path) (x : UnitResult) :
    (report.add p x).Accounts (ps ++ [p]) := by
  have hkept {qs : List Path} (hq : qs.Sublist ps) : qs.Sublist (ps ++ [p]) :=
    hq.trans (List.sublist_append_left ps [p])
  have hadded {qs : List Path} (hq : qs.Sublist ps) : (qs ++ [p]).Sublist (ps ++ [p]) :=
    hq.append (.refl [p])
  have hall : (report.paths ++ [p]).Perm (ps ++ [p]) := h.all.append_right [p]
  -- the path may as well come behind the other lists
  have hmoved (qs rs : List Path) : (qs ++ [p] ++ rs).Perm (qs ++ rs ++ [p]) := by
    rw [List.append_assoc, List.append_assoc]
    exact List.perm_append_comm.append_left qs
  cases x with
  | written =>
    refine ⟨.trans ?_ hall, hadded h.written, hkept h.unchanged, hkept h.skipped⟩
    exact hmoved report.written _
  | unchanged =>
    refine ⟨.trans ?_ hall, hkept h.written, hadded h.unchanged, hkept h.skipped⟩
    have hlater := (hmoved report.unchanged (report.skipped.map (·.1))).append_left report.written
    exact hlater.trans (.of_eq (List.append_assoc _ _ _).symm)
  | skipped reason =>
    refine ⟨.trans ?_ hall, hkept h.written, hkept h.unchanged, ?_⟩
    · simp [PassReport.add, paths]
    · simpa [PassReport.add] using hadded h.skipped

end PassReport

variable {plan : PassPlan} {fs : Files} {r : Resolver} {report report' : PassReport}

/-- Behind any paths the report accounts for these as well. -/
lemma PassPlan.accounts_weaveFiles {done ps : List Path} (h : report.Accounts done)
    (hout : (plan.weaveFiles fs r report ps).run.outcome = .ok report') :
    report'.Accounts (done ++ ps) := by
  induction ps generalizing fs r report done with
  | nil =>
    cases hout
    rwa [List.append_nil]
  | cons p ps ih =>
    rcases hp : (plan.weaveFile fs r p).run.outcome with e | x
    · rw [(weaveFiles_cons_of_error hp report ps).2] at hout
      cases hout
    · rw [(weaveFiles_cons_of_ok hp report ps).2.2] at hout
      have hrest := ih (h.add p x) hout
      rwa [List.append_assoc] at hrest

namespace PassConfig

variable {config : PassConfig} {host : Host} {s : PassState}

/-- A completed report accounts for the paths that are dirty then. -/
lemma accounts_of_completed
    (h : (config.finish host fs s).run.outcome = .ok (.completed report)) :
    report.Accounts (config.finish host fs s).state.dirty := by
  have hw : Weaves config host s := (finish_ends config host fs s).weaves (.inl ⟨report, h⟩)
  rw [completed_iff_weaveFiles hw] at h
  rw [hw.finish_eq, (config.weave_state host fs s).1]
  exact PassPlan.accounts_weaveFiles PassReport.accounts_empty h

/-! ### Equal paths -/

/-- The pass of a finish takes all units of the project, as none is dirty. -/
structure WeavesAll (config : PassConfig) (host : Host) (s : PassState) : Prop where
  weaves : Weaves config host s
  clean : s.dirty = []

/-- Every project whose units were all taken since the latest start of a run gives each unit an
output path of its own. -/
def TakesDistinct (config : PassConfig) (cs : List Callback) : Prop :=
  ∀ before host fs later, cs = before ++ .finished host fs :: later → .started ∉ later →
    config.WeavesAll host (config.stateAfter before) →
      Path.AreDistinct (host.units.map (·.outputPath))

lemma areDistinct_addCompiled (s : PassState) (p : Path) :
    Path.AreDistinct (s.addCompiled p).dirty ↔ Path.AreDistinct s.dirty := by
  unfold PassState.addCompiled
  split
  · rfl
  · next hp => exact Path.areDistinct_concat.trans (and_iff_left (by simpa using hp))

/-- A finish keeps the dirty paths, unless it takes those of all units. -/
lemma dirty_finish (config : PassConfig) (host : Host) (fs : Files) (s : PassState) :
    config.WeavesAll host s ∧
        (config.finish host fs s).state.dirty = host.units.map (·.outputPath) ∨
      ¬config.WeavesAll host s ∧ (config.finish host fs s).state.dirty = s.dirty := by
  by_cases hall : config.WeavesAll host s
  · refine .inl ⟨hall, ?_⟩
    rw [hall.weaves.finish_eq, (config.weave_state host fs s).1]
    exact if_pos (by rw [hall.clean]; rfl)
  · refine .inr ⟨hall, ?_⟩
    have hends := finish_ends config host fs s
    generalize config.finish host fs s = result at hends ⊢
    cases hends with
    | leftOut reason => rfl
    | asked entry reason first => rfl
    | wove weaves =>
      rw [(config.weave_state host fs s).1]
      exact if_neg fun hclean => hall ⟨weaves, List.isEmpty_iff.1 hclean⟩

lemma takesDistinct_concat {cs : List Callback} {c : Callback} :
    config.TakesDistinct (cs ++ [c]) ↔
      (∀ host fs, c = .finished host fs → config.WeavesAll host (config.stateAfter cs) →
        Path.AreDistinct (host.units.map (·.outputPath))) ∧
      (c = .started ∨ config.TakesDistinct cs) := by
  constructor
  · intro h
    refine ⟨fun host fs hc hall => h cs host fs [] (by rw [hc]) (by simp) hall, ?_⟩
    by_cases hc : c = .started
    · exact .inl hc
    · refine .inr fun before host fs later hcs hlater hall => ?_
      exact h before host fs (later ++ [c]) (by simp [hcs]) (by simp [hlater, Ne.symm hc]) hall
  · rintro ⟨hlast, hbefore⟩ before host fs later hcs hlater hall
    rcases List.eq_nil_or_concat later with rfl | ⟨later, c', rfl⟩
    · obtain ⟨rfl, hc⟩ := List.append_inj' hcs rfl
      exact hlast host fs (List.cons.inj hc).1 hall
    · rw [List.concat_eq_append] at hcs hlater
      rw [← List.cons_append, ← List.append_assoc] at hcs
      obtain ⟨rfl, hc⟩ := List.append_inj' hcs rfl
      obtain ⟨rfl, -⟩ := List.cons.inj hc
      rcases hbefore with rfl | hbefore
      · simp at hlater
      · exact hbefore before host fs later rfl (fun hmem => hlater (by simp [hmem])) hall

/-- Over every run: two dirty paths are equal only as the units of a project were taken so. -/
lemma areDistinct_stateAfter (config : PassConfig) (cs : List Callback) :
    Path.AreDistinct (config.stateAfter cs).dirty ↔ config.TakesDistinct cs := by
  induction cs using List.reverseRecOn with
  | nil => exact iff_of_true List.nodup_nil fun before host fs later h => by simp at h
  | append_singleton cs c ih =>
    rw [stateAfter_concat, takesDistinct_concat]
    cases c with
    | started => exact iff_of_true List.nodup_nil ⟨fun _ _ h => (by cases h), .inl rfl⟩
    | compiled p => simp [after, areDistinct_addCompiled, ih]
    | finished host fs =>
      rcases config.dirty_finish host fs (config.stateAfter cs) with ⟨hall, hdirty⟩ | ⟨hall, hdirty⟩
      · -- nothing was dirty before, so no project was taken since the latest start
        have hclean : config.TakesDistinct cs := ih.1 (by rw [hall.clean]; exact List.nodup_nil)
        simp [after, hdirty, hall, hclean]
      · simp [after, hdirty, hall, ih]

/-- **Every dirty path is accounted for**, over every run from a new state and at every finish: when
it completes, the lists of its report together are the dirty paths behind it, each of them once and in
their order. No two dirty paths are equal, and so no path is reported twice, exactly if every project
whose units were all taken since the latest start gives each unit an output path of its own. -/
theorem dirty_accounted (config : PassConfig) (cs : List Callback) :
    (Path.AreDistinct (config.stateAfter cs).dirty ↔ config.TakesDistinct cs) ∧
    ∀ host fs report,
      (config.finish host fs (config.stateAfter cs)).run.outcome = .ok (.completed report) →
      report.Accounts (config.finish host fs (config.stateAfter cs)).state.dirty ∧
        (Path.AreDistinct report.paths ↔ config.TakesDistinct (cs ++ [.finished host fs])) := by
  refine ⟨areDistinct_stateAfter config cs, fun host fs report h => ?_⟩
  have haccounts := accounts_of_completed h
  refine ⟨haccounts, ?_⟩
  rw [Path.areDistinct_perm haccounts.all, ← areDistinct_stateAfter, stateAfter_concat]
  rfl

/-- A project that lists one file as the output of two units. -/
def sharedHost : Host :=
  ⟨[⟨"Game", gamePath, .ofList [Define.enabled], [], [], false⟩,
    ⟨"Game.Copy", gamePath, .ofList [Define.enabled], [], [], false⟩], .empty, false⟩

/-- A compilation without a compiled unit, so its pass takes all units. -/
def sharedRun : List Callback := [.started, .finished sharedHost gameFiles]

lemma sharedRun_dirty : (gameConfig.stateAfter sharedRun).dirty = [gamePath, gamePath] := by
  have hall : gameConfig.WeavesAll sharedHost (gameConfig.stateAfter [.started]) :=
    ⟨⟨rfl, rfl, fun h => (by cases h), rfl⟩, rfl⟩
  have hrun : sharedRun = [.started] ++ [.finished sharedHost gameFiles] := rfl
  rw [hrun, stateAfter_concat, after]
  rcases gameConfig.dirty_finish sharedHost gameFiles (gameConfig.stateAfter [.started]) with
    ⟨-, hdirty⟩ | ⟨hnot, -⟩
  · exact hdirty
  · exact absurd hall hnot

lemma sharedRun_equal : ¬Path.AreDistinct (gameConfig.stateAfter sharedRun).dirty := by
  rw [sharedRun_dirty]
  decide

lemma sharedRun_completes : ∃ report,
    (gameConfig.finish sharedHost gameFiles (gameConfig.stateAfter [.started])).run.outcome =
      .ok (.completed report) ∧ report.written.map (·.text) = ["Game.unit", "Game.unit"] := by
  have hdone : (match (gameConfig.finish sharedHost gameFiles
        (gameConfig.stateAfter [.started])).run.outcome with
      | .ok (.completed report) => report.written.map (·.text) == ["Game.unit", "Game.unit"]
      | _ => false) = true := by decide +kernel
  split at hdone
  · next report h => exact ⟨report, h, beq_iff_eq.1 hdone⟩
  · cases hdone

/-- The report of its pass accounts for the dirty paths, which are not distinct. -/
theorem dirty_accounted_sharedRun : ∃ report,
    (gameConfig.finish sharedHost gameFiles (gameConfig.stateAfter [.started])).run.outcome =
      .ok (.completed report) ∧
    report.Accounts
      (gameConfig.finish sharedHost gameFiles (gameConfig.stateAfter [.started])).state.dirty ∧
    ¬gameConfig.TakesDistinct sharedRun := by
  obtain ⟨report, hdone, -⟩ := sharedRun_completes
  obtain ⟨-, haccounted⟩ := dirty_accounted gameConfig [.started]
  obtain ⟨hequal, -⟩ := dirty_accounted gameConfig sharedRun
  exact ⟨report, hdone, (haccounted sharedHost gameFiles report hdone).1,
    fun h => sharedRun_equal (hequal.2 h)⟩

/-- Two dirty paths are equal, and the report has written the one file twice. -/
theorem dirty_sharedRun :
    ¬Path.AreDistinct (gameConfig.stateAfter sharedRun).dirty ∧
    ∃ r, gameConfig.resultAt? sharedRun 1 = some r ∧
      ∃ report, r.run.outcome = .ok (.completed report) ∧
        report.written.map (·.text) = ["Game.unit", "Game.unit"] :=
  ⟨sharedRun_equal, _, rfl, sharedRun_completes⟩

end PassConfig

end Interpose
