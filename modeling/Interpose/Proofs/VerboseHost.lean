import Interpose.Proofs.PassOrder
import Interpose.Proofs.VerboseWeaving

/-!
Passes with more to be seen.

A host asks for a verbose pass by a define of the project or of any of its units. Main statement: when
the define is added, a pass leads to the same result, state, rebuild request and files, and it logs the
same events in the same order, where the trace of a decision may have become information.
-/

namespace Interpose

/-! ### Hosts to which the define is added -/

/-- The second unit is the first one, or has the define of verbose passes added. -/
def UnitDescriptor.AddsVerbose (d d' : UnitDescriptor) : Prop :=
  d' = d ∨ d' = { d with defines := d.defines.insert Define.verboseLogging }

/-- The second host is the first one with the define of verbose passes added to the project, to any
of its units, or to both. -/
structure Host.AddsVerbose (h h' : Host) : Prop where
  units : List.Forall₂ UnitDescriptor.AddsVerbose h.units h'.units
  project : h'.projectDefines = h.projectDefines ∨
    h'.projectDefines = h.projectDefines.insert Define.verboseLogging
  release : h'.releaseBuild = h.releaseBuild

namespace UnitDescriptor.AddsVerbose

variable {d d' : UnitDescriptor}

lemma contains (h : d.AddsVerbose d') {flag : String} (hf : flag ≠ Define.verboseLogging) :
    d'.defines.contains flag = d.defines.contains flag := by
  rcases h with rfl | rfl
  · rfl
  · simp [hf]

lemma contains_of_contains (h : d.AddsVerbose d') {flag : String}
    (hf : d.defines.contains flag = true) : d'.defines.contains flag = true := by
  rcases h with rfl | rfl
  · exact hf
  · simp [hf]

lemma name (h : d.AddsVerbose d') : d'.name = d.name := by rcases h with rfl | rfl <;> rfl

lemma outputPath (h : d.AddsVerbose d') : d'.outputPath = d.outputPath := by
  rcases h with rfl | rfl <;> rfl

lemma skipReason? (h : d.AddsVerbose d') (p : Policy) : p.skipReason? d' = p.skipReason? d := by
  have heditor : d'.editorOnly = d.editorOnly := by rcases h with rfl | rfl <;> rfl
  have henabled : Define.enabled ≠ Define.verboseLogging := by decide
  have hbuilds : Define.buildsOnly ≠ Define.verboseLogging := by decide
  have hinclude : Define.includeEditorUnit ≠ Define.verboseLogging := by decide
  rw [Policy.skipReason?, Policy.skipReason?, h.name, heditor, h.contains henabled,
    h.contains hbuilds, h.contains hinclude]

end UnitDescriptor.AddsVerbose

namespace UnitDescriptor

variable {us us' : List UnitDescriptor}

/-- What does not depend on defines is the same for all units. -/
lemma map_eq_of_addsVerbose {α : Type} {f : UnitDescriptor → α}
    (hf : ∀ d d', AddsVerbose d d' → f d' = f d) (h : List.Forall₂ AddsVerbose us us') :
    us'.map f = us.map f := by
  induction h with
  | nil => rfl
  | cons hd _ ih => rw [List.map_cons, List.map_cons, hf _ _ hd, ih]

lemma find?_of_addsVerbose {f : UnitDescriptor → Bool}
    (hf : ∀ d d', AddsVerbose d d' → f d' = f d) (h : List.Forall₂ AddsVerbose us us') :
    Option.Rel AddsVerbose (us.find? f) (us'.find? f) := by
  induction h with
  | nil => exact .none
  | @cons d d' us us' hd _ ih =>
    rw [List.find?_cons, List.find?_cons, hf d d' hd]
    rcases f d with _ | _
    · exact ih
    · exact .some hd

lemma any_of_addsVerbose {flag : String} (h : List.Forall₂ AddsVerbose us us')
    (hany : us.any (·.defines.contains flag) = true) :
    us'.any (·.defines.contains flag) = true := by
  obtain ⟨d, hd, hflag⟩ := List.any_eq_true.1 hany
  induction h with
  | nil => cases hd
  | cons hhead _ ih =>
    rcases List.mem_cons.1 hd with rfl | hd
    · exact List.any_eq_true.2 ⟨_, List.mem_cons_self, hhead.contains_of_contains hflag⟩
    · rw [List.any_cons, ih (List.any_eq_true.2 ⟨d, hd, hflag⟩) hd, Bool.or_true]

end UnitDescriptor

open UnitDescriptor (AddsVerbose)

namespace Host.AddsVerbose

variable {h h' : Host}

lemma defines (hv : h.AddsVerbose h') {flag : String} (hf : flag ≠ Define.verboseLogging) :
    h'.defines flag = h.defines flag := by
  have hproject : h'.projectDefines.contains flag = h.projectDefines.contains flag := by
    rcases hv.project with hp | hp <;> simp [hp, hf]
  have hunits := UnitDescriptor.map_eq_of_addsVerbose (f := (·.defines.contains flag))
    (fun _ _ hd => hd.contains hf) hv.units
  have hany (us : List UnitDescriptor) :
      us.any (·.defines.contains flag) = (us.map (·.defines.contains flag)).any id := by
    rw [List.any_map]
    rfl
  rw [Host.defines, Host.defines, hproject, hany, hunits, ← hany]

lemma verbose (hv : h.AddsVerbose h') (hf : h.defines Define.verboseLogging = true) :
    h'.defines Define.verboseLogging = true := by
  rw [Host.defines, Bool.or_eq_true] at hf ⊢
  rcases hf with hf | hf
  · rcases hv.project with hp | hp <;> simp [hp, hf]
  · exact .inr (UnitDescriptor.any_of_addsVerbose hv.units hf)

end Host.AddsVerbose

/-! ### What a pass makes of the units of a project -/

namespace Resolver

variable {us us' : List UnitDescriptor}

lemma referencedFiles_of_addsVerbose (h : List.Forall₂ AddsVerbose us us') {d d' : UnitDescriptor}
    (hd : d.AddsVerbose d') : referencedFiles us' d' = referencedFiles us d := by
  have hrefs : d'.unitReferences = d.unitReferences ∧
      d'.precompiledReferences = d.precompiledReferences := by
    rcases hd with rfl | rfl <;> exact ⟨rfl, rfl⟩
  rw [referencedFiles, referencedFiles, hrefs.1, hrefs.2]
  refine congrArg (· ++ _) (List.map_congr_left fun name _ => ?_)
  have hfind := UnitDescriptor.find?_of_addsVerbose (f := (·.name == name))
    (fun _ _ hd => by rw [hd.name]) h
  generalize us.find? (·.name == name) = found at hfind ⊢
  generalize us'.find? (·.name == name) = found' at hfind ⊢
  cases hfind with
  | none => rfl
  | some hv => exact congrArg Except.ok hv.outputPath

lemma ofUnits_of_addsVerbose (h : List.Forall₂ AddsVerbose us us') : ofUnits us' = ofUnits us := by
  suffices hadd : ∀ (r : Resolver) {vs vs' : List UnitDescriptor},
      List.Forall₂ AddsVerbose vs vs' → r.addUnits us' vs' = r.addUnits us vs from hadd empty h
  intro r vs vs' hvs
  induction hvs generalizing r with
  | nil => rfl
  | cons hd _ ih =>
    rw [addUnits, addUnits, hd.name, referencedFiles_of_addsVerbose h hd]
    dsimp only
    rw [ih]

end Resolver

lemma ExclusionSettings.load_of_addsVerbose {us us' : List UnitDescriptor}
    (h : List.Forall₂ AddsVerbose us us') (fs : Files) (p : Path) : load fs p us' = load fs p us := by
  have hnames : us'.map (·.name) = us.map (·.name) :=
    UnitDescriptor.map_eq_of_addsVerbose (fun _ _ hd => hd.name) h
  rw [load, load, defaultsFor, hnames]
  rfl

/-! ### Weaving files -/

/-- The same happens to the files, and the log is as loud or louder. -/
structure OnFiles.Louder {α : Type} (x y : OnFiles α) : Prop where
  files : y.files = x.files
  resolver : y.resolver = x.resolver
  run : x.run.Louder y.run

namespace PassPlan

/-- The second plan is for a pass that may be verbose where that of the first is not. -/
structure Louder (plan plan' : PassPlan) : Prop where
  weavers : plan'.weavers = plan.weavers
  units : List.Forall₂ AddsVerbose plan.units plan'.units
  policy : plan'.policy = plan.policy
  verbose : plan.verbose = true → plan'.verbose = true

variable {plan plan' : PassPlan}

/-- Both plans leave out a file for the same reason, or both weave it. -/
inductive SeeAlike : Except (SkipReason × Log) (UnitDescriptor × CompiledUnit) →
    Except (SkipReason × Log) (UnitDescriptor × CompiledUnit) → Prop
  | skipped (reason : SkipReason) {log log' : Log} (hlog : List.Forall₂ LogEntry.Louder log log') :
      SeeAlike (.error (reason, log)) (.error (reason, log'))
  | woven {d d' : UnitDescriptor} (name : d'.name = d.name) (u : CompiledUnit) :
      SeeAlike (.ok (d, u)) (.ok (d', u))

lemma Louder.unitAt (h : plan.Louder plan') (fs : Files) (p : Path) :
    SeeAlike (plan.unitAt fs p) (plan'.unitAt fs p) := by
  have hfind := UnitDescriptor.find?_of_addsVerbose (f := (·.outputPath == p))
    (fun _ _ hd => by rw [hd.outputPath]) h.units
  rw [PassPlan.unitAt, PassPlan.unitAt]
  split
  · exact .skipped _ (LogEntry.louder_refl _)
  · generalize plan.units.find? (·.outputPath == p) = found at hfind ⊢
    generalize plan'.units.find? (·.outputPath == p) = found' at hfind ⊢
    cases hfind with
    | none => exact .skipped _ (LogEntry.louder_refl _)
    | @some d d' hd =>
      have htrace (reason : SkipReason) : LogEntry.Louder
          ⟨plan.traceLevel, .unitSkipped d.name reason⟩
          ⟨plan'.traceLevel, .unitSkipped d'.name reason⟩ := by
        rw [hd.name]
        exact LogEntry.louder_trace h.verbose rfl
      dsimp only
      rw [h.policy, hd.skipReason?]
      rcases plan.policy.skipReason? d with _ | reason
      · dsimp only
        rcases fs.readUnit p with e | u
        · exact .skipped _ (LogEntry.louder_refl _)
        · dsimp only
          split
          · exact .woven hd.name u
          · exact .skipped _ (.cons (htrace _) .nil)
      · exact .skipped _ (.cons (htrace _) .nil)

lemma Louder.weaveFile (h : plan.Louder plan') (hw : plan.weavers.OnlyTraces) (fs : Files)
    (r : Resolver) (p : Path) : (plan.weaveFile fs r p).Louder (plan'.weaveFile fs r p) := by
  have hseen := h.unitAt fs p
  rw [PassPlan.weaveFile, PassPlan.weaveFile]
  generalize plan.unitAt fs p = seen at hseen ⊢
  generalize plan'.unitAt fs p = seen' at hseen ⊢
  cases hseen with
  | skipped reason hlog => exact ⟨rfl, rfl, rfl, hlog⟩
  | @woven d d' hname u =>
    have hc : WeaveContext.Louder ⟨plan.hierarchyFor (r.hierarchyFor fs u).hierarchy u, plan.verbose⟩
        ⟨plan'.hierarchyFor (r.hierarchyFor fs u).hierarchy u, plan'.verbose⟩ :=
      ⟨by rw [hierarchyFor, hierarchyFor, h.weavers], h.verbose⟩
    have hwoven := hw.weave_louder hc u
    have htrace {event : Event} (hevent : event.isTrace = true) :
        LogEntry.Louder ⟨plan.traceLevel, event⟩ ⟨plan'.traceLevel, event⟩ :=
      LogEntry.louder_trace h.verbose hevent
    have hlog := List.rel_append (LogEntry.louder_refl (r.hierarchyFor fs u).log) hwoven.run.log
    dsimp only
    rw [h.weavers, hwoven.run.outcome, hwoven.value, hname]
    rcases (plan.weavers.weave
      ⟨plan.hierarchyFor (r.hierarchyFor fs u).hierarchy u, plan.verbose⟩ u).run.outcome
      with e | _ | _
    · exact ⟨rfl, rfl, rfl, List.rel_append hlog (LogEntry.louder_refl _)⟩
    · exact ⟨rfl, rfl, rfl, List.rel_append hlog (.cons (htrace rfl) .nil)⟩
    · have hentry : LogEntry.Louder ⟨plan.traceLevel, .unitWriting p⟩
          ⟨plan'.traceLevel, .unitWriting p⟩ := htrace rfl
      have hwriting := List.rel_append hlog (.cons hentry .nil)
      dsimp only
      split
      · exact ⟨rfl, rfl, rfl, hwriting⟩
      · exact ⟨rfl, rfl, rfl, hwriting⟩

lemma Louder.weaveFiles (h : plan.Louder plan') (hw : plan.weavers.OnlyTraces) (fs : Files)
    (r : Resolver) (report : PassReport) (ps : List Path) :
    (plan.weaveFiles fs r report ps).Louder (plan'.weaveFiles fs r report ps) := by
  induction ps generalizing fs r report with
  | nil => exact ⟨rfl, rfl, Traced.louder_refl _⟩
  | cons p ps ih =>
    have hhere := h.weaveFile hw fs r p
    rw [PassPlan.weaveFiles, PassPlan.weaveFiles]
    dsimp only
    rw [hhere.run.outcome, hhere.files, hhere.resolver]
    rcases (plan.weaveFile fs r p).run.outcome with e | result
    · exact ⟨rfl, rfl, rfl, hhere.run.log⟩
    · have hlater := ih (plan.weaveFile fs r p).files (plan.weaveFile fs r p).resolver
        (report.add p result)
      exact ⟨hlater.files, hlater.resolver, hlater.run.outcome,
        List.rel_append hhere.run.log hlater.run.log⟩

end PassPlan

/-! ### Passes -/

/-- The same comes of a pass, and the log is as loud or louder. -/
structure PassResult.Louder (x y : PassResult) : Prop where
  state : y.state = x.state
  files : y.files = x.files
  rebuildRequested : y.rebuildRequested = x.rebuildRequested
  run : x.run.Louder y.run

namespace PassConfig

variable {config : PassConfig} {h h' : Host}

lemma weave_louder (hw : config.weavers.OnlyTraces) (hv : h.AddsVerbose h') (fs : Files)
    (s : PassState) : (config.weave h fs s).Louder (config.weave h' fs s) := by
  have hpaths : h'.units.map (·.outputPath) = h.units.map (·.outputPath) :=
    UnitDescriptor.map_eq_of_addsVerbose (fun _ _ hd => hd.outputPath) hv.units
  rw [weave, weave]
  dsimp only
  rw [ExclusionSettings.load_of_addsVerbose hv.units, Resolver.ofUnits_of_addsVerbose hv.units,
    hv.release, hpaths]
  generalize (if s.dirty.isEmpty then h.units.map (·.outputPath) else s.dirty) = dirty
  obtain ⟨settingsLog, settings⟩ := ExclusionSettings.load fs config.settingsPath h.units
  obtain ⟨resolver, resolverLog⟩ := Resolver.ofUnits h.units
  have hplan : PassPlan.Louder
      ⟨config.weavers, h.units, ⟨settings, h.releaseBuild⟩, h.defines Define.verboseLogging⟩
      ⟨config.weavers, h'.units, ⟨settings, h.releaseBuild⟩, h'.defines Define.verboseLogging⟩ :=
    ⟨rfl, hv.units, rfl, hv.verbose⟩
  have hwoven := hplan.weaveFiles hw fs resolver .empty dirty
  have hall : List.Forall₂ LogEntry.Louder
      (if s.dirty.isEmpty then
        [⟨.trace (h.defines Define.verboseLogging), .weavingAllUnits⟩] else [])
      (if s.dirty.isEmpty then
        [⟨.trace (h'.defines Define.verboseLogging), .weavingAllUnits⟩] else []) := by
    split
    · exact .cons (LogEntry.louder_trace hv.verbose rfl) .nil
    · exact .nil
  have hlog := List.rel_append (List.rel_append (List.rel_append hall
    (LogEntry.louder_refl settingsLog)) (LogEntry.louder_refl resolverLog)) hwoven.run.log
  dsimp only
  rw [hwoven.run.outcome, hwoven.files]
  split
  · exact ⟨rfl, rfl, rfl, rfl, hlog⟩
  · exact ⟨rfl, rfl, rfl, rfl, List.rel_append hlog (LogEntry.louder_refl _)⟩

/-- **Verbose logging is only logging**: when the define is added to the project or to any units, a
finished compilation has the same outcome, or the same fault, and leaves the same state, the same
request and the same files. It logs the same events in the same order, and levels differ where the
trace of a decision has become information. So it is for any weavers that only trace in a verbose run,
as those of the network do, and all weavers made of rules that ask conditions. -/
theorem finish_verbose :
    (∀ config : PassConfig, config.weavers.OnlyTraces → ∀ h h' : Host, h.AddsVerbose h' →
      ∀ (fs : Files) (s : PassState), (config.finish h fs s).Louder (config.finish h' fs s)) ∧
    (∀ o : CaptureOptions, (WeaverList.ofOptions o).OnlyTraces) ∧
    ∀ (name : String) (seed : Hierarchy → Hierarchy) (rules : List Rule),
      (∀ r ∈ rules, r.AsksCondition) → (Weaver.ofRules name seed rules).OnlyTraces := by
  refine ⟨fun config hw h h' hv fs s => ?_, WeaverList.onlyTraces_ofOptions,
    fun name seed rules => Weaver.onlyTraces_ofRules name seed⟩
  have hempty : h'.units.isEmpty = h.units.isEmpty := by
    rw [Bool.eq_iff_iff, List.isEmpty_iff_length_eq_zero, List.isEmpty_iff_length_eq_zero,
      hv.units.length_eq]
  have henabled : Define.enabled ≠ Define.verboseLogging := by decide
  rw [finish, finish, hv.defines henabled, hempty]
  split
  · exact ⟨rfl, rfl, rfl, Traced.louder_refl _⟩
  · split
    · exact ⟨rfl, rfl, rfl, Traced.louder_refl _⟩
    · split
      · exact ⟨rfl, rfl, rfl, rfl, .cons (LogEntry.louder_trace hv.verbose rfl) .nil⟩
      · split
        · split <;> exact ⟨rfl, rfl, rfl, Traced.louder_refl _⟩
        · exact weave_louder hw hv fs s

/-- One of the units is to be woven in a verbose pass. -/
def verboseHost : Host :=
  { poolHost with
    units := [{ poolOutput with defines := poolOutput.defines.insert Define.verboseLogging },
      engineOutput] }

/-- The verbose pass writes both units, as the other one does. -/
theorem finish_verbose_pool :
    poolHost.AddsVerbose verboseHost ∧
    (networkConfig.finish verboseHost poolFiles poolFirst).run.outcome =
      .ok (.completed ⟨[gamePath, enginePath], [], []⟩) ∧
    (networkConfig.finish verboseHost poolFiles poolFirst).files.node?
      ["home", "game", "Game.unit"] = some (.file (.text closedPool.render)) := by
  have hv : poolHost.AddsVerbose verboseHost :=
    ⟨.cons (.inr rfl) (.cons (.inl rfl) .nil), .inl rfl, rfl⟩
  obtain ⟨hfinish, hnetwork, -⟩ := finish_verbose
  have hlouder := hfinish networkConfig (hnetwork .default) poolHost verboseHost hv poolFiles
    poolFirst
  refine ⟨hv, hlouder.run.outcome.trans (completed_pool rfl), ?_⟩
  rw [hlouder.files, node?_pool rfl]

end PassConfig

end Interpose
