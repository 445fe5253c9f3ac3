import Interpose.Proofs.DirtyPaths
import Interpose.Proofs.PassOrder

/-!
A second pass over the same paths.

A path is settled when the weavers find nothing to change in the unit that it leads to. Every path
that a pass has gone through is settled and stays so: either nothing was found, or the unit was
overwritten with a woven one, in which nothing is found again. Main statement: when a completed pass
of the network weavers is repeated, the second one writes nothing and leaves out what the first one
has left out.
-/

namespace Interpose

open Files (SameOutlines SameTree)

namespace PassPlan

variable {plan : PassPlan} {fs fs' fs'' : Files} {r r' r'' : Resolver} {p q : Path}
  {ps qs : List Path} {report report' report'' : PassReport}

/-! ### Settled paths -/

/-- The weavers find nothing to change in the unit that the path leads to. -/
def Settled (plan : PassPlan) (fs : Files) (r : Resolver) (p : Path) : Prop :=
  ∀ d u, plan.Takes fs p d u → (plan.woven fs r u).run.outcome = .ok false

lemma Settled.congr (h : SeesSame fs r fs' r') (hl : fs.lookup? p = fs'.lookup? p)
    (hp : plan.Settled fs r p) : plan.Settled fs' r' p := by
  intro d u htakes
  rw [← woven_congr h]
  exact hp d u ((takes_congr h.outlines.sameTree hl).2 htakes)

/-- A path that leads to a file just written is settled. -/
lemma settled_of_written (hk : plan.weavers.KeepsOutline) (hs : plan.weavers.Settles)
    {u : CompiledUnit} {l : Location} {c : Content} (hn : fs.node? l = some (.file c))
    (hw : (plan.woven fs r u).run.outcome = .ok true)
    (hre : CompiledUnit.parse? (plan.woven fs r u).value.render = some (plan.woven fs r u).value)
    (hfiles : fs' = fs.insert l (.file (.text (plan.woven fs r u).value.render)))
    (hsees : SeesSame fs r fs' r') (hf : fs.follow q = .ok l) :
    plan.Settled fs' r' q := by
  intro d v htakes
  have hf' : fs'.follow q = .ok l := by
    rw [← Files.follow_congr hsees.outlines.sameTree, hf]
  have hn' : fs'.node? l = some (.file (.text (plan.woven fs r u).value.render)) := by
    rw [hfiles, Files.node?_insert_self (by simp [hn])]
  have hv : v = (plan.woven fs r u).value :=
    Except.ok.inj (htakes.readable.symm.trans (Files.readUnit_of_text hf' hn' hre))
  have hcontext : plan.contextOf fs' r' v = plan.contextOf fs r u :=
    contextOf_congr hsees.symm (by rw [hv]; exact hk _ u)
  rw [woven_eq, hcontext, hv]
  exact hs (plan.contextOf fs r u) u true hw

/-! ### What a pass leaves -/

def skippedEntries (plan : PassPlan) (fs : Files) (ps : List Path) : List (Path × SkipReason) :=
  ps.filterMap fun p => (plan.skipReason? fs p).map (p, ·)

/-- What a run over some paths leaves: all of them settled, and what is settled already; a report
that tells the files left out from the others; and files changed only where the path of a unit leads
to. -/
structure Leaves (plan : PassPlan) (fs : Files) (r : Resolver) (report : PassReport)
    (ps : List Path) (fs' : Files) (r' : Resolver) (report' : PassReport) : Prop where
  sees : SeesSame fs r fs' r'
  settled : ∀ p ∈ ps, plan.Settled fs' r' p
  kept : ∀ p, plan.Settled fs r p → plan.Settled fs' r' p
  skipped : report'.skipped = report.skipped ++ plan.skippedEntries fs ps
  taken : ∀ p, p ∈ report'.written ∨ p ∈ report'.unchanged →
    (p ∈ report.written ∨ p ∈ report.unchanged) ∨ p ∈ ps ∧ plan.skipReason? fs p = none
  changed : ∀ l, fs'.node? l ≠ fs.node? l → ∃ p ∈ ps, ∃ d u, plan.Takes fs p d u ∧
    fs.follow p = .ok l

lemma Leaves.refl (h : r.Agrees fs) (report : PassReport) :
    plan.Leaves fs r report [] fs r report :=
  ⟨.refl h, fun _ hp => absurd hp List.not_mem_nil, fun _ => id, (List.append_nil _).symm,
    fun _ => .inl, fun _ hl => absurd rfl hl⟩

lemma Leaves.trans (h : plan.Leaves fs r report ps fs' r' report')
    (h' : plan.Leaves fs' r' report' qs fs'' r'' report'') :
    plan.Leaves fs r report (ps ++ qs) fs'' r'' report'' := by
  have htree : SameTree fs fs' := h.sees.outlines.sameTree
  have hskip : plan.skippedEntries fs' qs = plan.skippedEntries fs qs := by
    unfold skippedEntries
    simp only [skipReason?_congr h.sees.symm.outlines]
  refine ⟨h.sees.trans h'.sees, fun p hp => ?_, fun p hp => h'.kept p (h.kept p hp), ?_,
    fun p hp => ?_, fun l hl => ?_⟩
  · rcases List.mem_append.1 hp with hp | hp
    · exact h'.kept p (h.settled p hp)
    · exact h'.settled p hp
  · rw [h'.skipped, h.skipped, hskip, List.append_assoc]
    simp [skippedEntries]
  · rcases h'.taken p hp with hp | ⟨hp, hnone⟩
    · rcases h.taken p hp with hp | ⟨hp, hnone⟩
      · exact .inl hp
      · exact .inr ⟨List.mem_append_left _ hp, hnone⟩
    · rw [skipReason?_congr h.sees.symm.outlines] at hnone
      exact .inr ⟨List.mem_append_right _ hp, hnone⟩
  · by_cases hl' : fs'.node? l = fs.node? l
    · -- the change came with the second part; its unit has an outline from the start
      rw [← hl'] at hl
      obtain ⟨p, hp, d, u, htakes, hf⟩ := h'.changed l hl
      have hnone := skipReason?_eq_none_iff.2 ⟨d, u, htakes⟩
      rw [skipReason?_congr h.sees.symm.outlines] at hnone
      obtain ⟨d', u', htakes'⟩ := skipReason?_eq_none_iff.1 hnone
      exact ⟨p, List.mem_append_right _ hp, d', u', htakes', by rw [Files.follow_congr htree, hf]⟩
    · obtain ⟨p, hp, hrest⟩ := h.changed l hl'
      exact ⟨p, List.mem_append_left _ hp, hrest⟩

lemma leaves_of_skip {reason : SkipReason} (h : r.Agrees fs)
    (hskip : plan.skipReason? fs p = some reason) (report : PassReport) :
    plan.Leaves fs r report [p] fs r (report.add p (.skipped reason)) := by
  refine ⟨.refl h, ?_, fun _ => id, ?_, fun q hq => .inl hq, fun l hl => absurd rfl hl⟩
  · rw [List.forall_mem_singleton]
    intro d u htakes
    rw [skipReason?_eq_none_iff.2 ⟨d, u, htakes⟩] at hskip
    cases hskip
  · simp [PassReport.add, skippedEntries, hskip]

/-- A path whose unit is taken adds itself to the report, and nothing to the files left out. -/
lemma report_of_takes {d : UnitDescriptor} {u : CompiledUnit} (h : plan.Takes fs p d u)
    {x : UnitResult} (hx : x = .written ∨ x = .unchanged) (report : PassReport) :
    (report.add p x).skipped = report.skipped ++ plan.skippedEntries fs [p] ∧
      ∀ q, q ∈ (report.add p x).written ∨ q ∈ (report.add p x).unchanged →
        (q ∈ report.written ∨ q ∈ report.unchanged) ∨
          q ∈ [p] ∧ plan.skipReason? fs q = none := by
  have hnone : plan.skipReason? fs p = none := skipReason?_eq_none_iff.2 ⟨d, u, h⟩
  have hentries : plan.skippedEntries fs [p] = [] := by simp [skippedEntries, hnone]
  rw [hentries, List.append_nil]
  rcases hx with rfl | rfl
  · refine ⟨rfl, fun q hq => ?_⟩
    simp only [PassReport.add, List.mem_append, List.mem_singleton] at hq
    rcases hq with (hq | rfl) | hq
    · exact .inl (.inl hq)
    · exact .inr ⟨List.mem_singleton_self _, hnone⟩
    · exact .inl (.inr hq)
  · refine ⟨rfl, fun q hq => ?_⟩
    simp only [PassReport.add, List.mem_append, List.mem_singleton] at hq
    rcases hq with hq | hq | rfl
    · exact .inl (.inl hq)
    · exact .inl (.inr hq)
    · exact .inr ⟨List.mem_singleton_self _, hnone⟩

lemma leaves_of_unchanged {d : UnitDescriptor} {u : CompiledUnit} (htakes : plan.Takes fs p d u)
    (hw : (plan.woven fs r u).run.outcome = .ok false) (hsees : SeesSame fs r fs r')
    (report : PassReport) : plan.Leaves fs r report [p] fs r' (report.add p .unchanged) := by
  obtain ⟨hskipped, htaken⟩ := report_of_takes htakes (.inr rfl) report
  have hkept (q : Path) (hq : plan.Settled fs r q) : plan.Settled fs r' q := hq.congr hsees rfl
  refine ⟨hsees, ?_, hkept, hskipped, htaken, fun l hl => absurd rfl hl⟩
  rw [List.forall_mem_singleton]
  refine hkept p fun d' u' htakes' => ?_
  rw [← (htakes.unique htakes').2, hw]

/-- A path whose file is overwritten is settled, and so is every other path that leads there. -/
lemma leaves_of_written (hk : plan.weavers.KeepsOutline) (hs : plan.weavers.Settles)
    {d : UnitDescriptor} {u : CompiledUnit} {l : Location} (htakes : plan.Takes fs p d u)
    (hw : (plan.woven fs r u).run.outcome = .ok true) (hf : fs.follow p = .ok l)
    (hre : CompiledUnit.parse? (plan.woven fs r u).value.render = some (plan.woven fs r u).value)
    (hfiles : fs' = fs.insert l (.file (.text (plan.woven fs r u).value.render)))
    (hsees : SeesSame fs r fs' r') (report : PassReport) :
    plan.Leaves fs r report [p] fs' r' (report.add p .written) := by
  obtain ⟨hskipped, htaken⟩ := report_of_takes htakes (.inl rfl) report
  obtain ⟨l', c, hf', hn⟩ := htakes.exists_file
  rw [hf] at hf'
  cases hf'
  have hwritten (q : Path) (hq : fs.follow q = .ok l) : plan.Settled fs' r' q :=
    settled_of_written hk hs hn hw hre hfiles hsees hq
  have hnode {l' : Location} (hl : l' ≠ l) : fs'.node? l' = fs.node? l' := by
    rw [hfiles, Files.node?_insert_of_ne hl]
  refine ⟨hsees, ?_, fun q hq => ?_, hskipped, htaken, fun l' hl => ?_⟩
  · rw [List.forall_mem_singleton]
    exact hwritten p hf
  · by_cases hql : fs.follow q = .ok l
    · exact hwritten q hql
    · refine hq.congr hsees (Files.lookup?_congr hsees.outlines.sameTree fun l' hl' => hnode ?_).symm
      rintro rfl
      exact hql hl'
  · have hll : l' = l := by
      by_contra hne
      exact hl (hnode hne)
    exact ⟨p, List.mem_singleton_self _, d, u, htakes, by rw [hll, hf]⟩

lemma leaves_weaveFile (hk : plan.weavers.KeepsOutline) (hs : plan.weavers.Settles)
    (h : r.Agrees fs) (hre : plan.RereadsAt fs r p) {x : UnitResult}
    (hout : (plan.weaveFile fs r p).run.outcome = .ok x) (report : PassReport) :
    plan.Leaves fs r report [p] (plan.weaveFile fs r p).files (plan.weaveFile fs r p).resolver
      (report.add p x) := by
  have hsees := seesSame_weaveFile hk h hre
  rcases hskip : plan.skipReason? fs p with _ | reason
  · obtain ⟨d, u, htakes⟩ := skipReason?_eq_none_iff.1 hskip
    rcases weaveFile_of_takes htakes r with ⟨e, -, -, hout'⟩ | ⟨hw, hfiles, hout'⟩ |
      ⟨l, hw, hf, hfiles, hout'⟩
    · rw [hout] at hout'
      cases hout'
    · rw [hout] at hout'
      cases hout'
      rw [hfiles] at hsees ⊢
      exact leaves_of_unchanged htakes hw hsees report
    · rw [hout] at hout'
      cases hout'
      exact leaves_of_written hk hs htakes hw hf (hre d u htakes hw) hfiles hsees report
  · obtain ⟨hfiles, hr, hout'⟩ := weaveFile_of_skip (r := r) hskip
    rw [hout] at hout'
    cases hout'
    rw [hfiles, hr]
    exact leaves_of_skip h hskip report

/-- **What a pass leaves**, when it goes through all of its paths. -/
theorem leaves_weaveFiles (hk : plan.weavers.KeepsOutline) (hs : plan.weavers.Settles)
    (h : r.Agrees fs) (hre : plan.Rereads fs r ps)
    (hout : (plan.weaveFiles fs r report ps).run.outcome = .ok report') :
    plan.Leaves fs r report ps (plan.weaveFiles fs r report ps).files
      (plan.weaveFiles fs r report ps).resolver report' := by
  induction ps generalizing fs r report with
  | nil =>
    cases hout
    exact .refl h _
  | cons p ps ih =>
    rcases hp : (plan.weaveFile fs r p).run.outcome with e | x
    · rw [(weaveFiles_cons_of_error hp report ps).2] at hout
      cases hout
    · obtain ⟨hfiles, hr, hrest⟩ := weaveFiles_cons_of_ok hp report ps
      rw [hrest] at hout
      have hstep := leaves_weaveFile hk hs h hre.1 hp report
      rw [hfiles, hr]
      exact hstep.trans (ih hstep.sees.agrees' (hre.2 ⟨x, hp⟩) hout)

/-! ### Settled paths again -/

/-- A settled path is left out or found unchanged, and no file changes. -/
lemma weaveFile_of_settled (hp : plan.Settled fs r p) :
    (plan.weaveFile fs r p).files = fs ∧ (plan.weaveFile fs r p).run.outcome =
      .ok (match plan.skipReason? fs p with
        | some reason => .skipped reason
        | none => .unchanged) := by
  rcases hskip : plan.skipReason? fs p with _ | reason
  · obtain ⟨d, u, htakes⟩ := skipReason?_eq_none_iff.1 hskip
    have hw := hp d u htakes
    rcases weaveFile_of_takes htakes r with ⟨e, hw', -, -⟩ | ⟨-, hfiles, hout⟩ | ⟨l, hw', -, -, -⟩
    · rw [hw] at hw'
      cases hw'
    · exact ⟨hfiles, hout⟩
    · rw [hw] at hw'
      cases hw'
  · obtain ⟨hfiles, -, hout⟩ := weaveFile_of_skip (r := r) hskip
    exact ⟨hfiles, hout⟩

/-- **Nothing is written**: a pass over settled paths goes through and changes no file. -/
theorem weaveFiles_of_settled (hk : plan.weavers.KeepsOutline) (h : r.Agrees fs)
    (hps : ∀ p ∈ ps, plan.Settled fs r p) (report : PassReport) :
    ∃ report', (plan.weaveFiles fs r report ps).run.outcome = .ok report' ∧
      (plan.weaveFiles fs r report ps).files = fs ∧ report'.written = report.written ∧
      report'.skipped = report.skipped ++ plan.skippedEntries fs ps ∧
      report'.unchanged = report.unchanged ++
        ps.filter fun p => (plan.skipReason? fs p).isNone := by
  induction ps generalizing r report with
  | nil => exact ⟨report, rfl, rfl, rfl, (List.append_nil _).symm, (List.append_nil _).symm⟩
  | cons p ps ih =>
    obtain ⟨hp, hps⟩ := List.forall_mem_cons.1 hps
    obtain ⟨hfiles, hout⟩ := weaveFile_of_settled hp
    have hre : plan.RereadsAt fs r p := fun d u htakes hw => by
      rw [hp d u htakes] at hw
      cases hw
    have hsees := seesSame_weaveFile hk h hre
    rw [hfiles] at hsees
    obtain ⟨hfiles', -, hout'⟩ := weaveFiles_cons_of_ok hout report ps
    obtain ⟨report', hgo, hsame, hwritten, hskipped, hunchanged⟩ :=
      ih hsees.agrees' (fun q hq => (hps q hq).congr hsees rfl) _
    rw [hfiles] at hfiles' hout'
    refine ⟨report', by rw [hout', hgo], by rw [hfiles', hsame], ?_, ?_, ?_⟩
    all_goals
      rcases hskip : plan.skipReason? fs p with _ | reason
      all_goals simp [hwritten, hskipped, hunchanged, hskip, PassReport.add, skippedEntries]

end PassPlan

/-! ### The same compilation twice -/

namespace PassState

/-- A compilation of some units: it starts, and the units are compiled in order. -/
def compiling (s : PassState) (ps : List Path) : PassState := ps.foldl addCompiled s.start

lemma mem_dirty_foldl_addCompiled {ps : List Path} {s : PassState} {p : Path}
    (hp : p ∈ (ps.foldl addCompiled s).dirty) : p ∈ s.dirty ∨ p ∈ ps := by
  induction ps generalizing s with
  | nil => exact .inl hp
  | cons q ps ih =>
    rcases ih hp with hmem | hmem
    · have hadd : p ∈ s.dirty ∨ p = q := by
        unfold addCompiled at hmem
        dsimp only at hmem
        split at hmem
        · exact .inl hmem
        · simpa using hmem
      rcases hadd with hs | rfl
      · exact .inl hs
      · exact .inr List.mem_cons_self
    · exact .inr (List.mem_cons_of_mem _ hmem)

/-- What is dirty does not depend on what was so before the start. -/
lemma dirty_compiling_eq (s s' : PassState) (ps : List Path) :
    (s.compiling ps).dirty = (s'.compiling ps).dirty := by
  rw [compiling, compiling, dirty_foldl_addCompiled, dirty_foldl_addCompiled]
  rfl

lemma hasCompiled_compiling {s : PassState} {ps : List Path} {unit : String}
    (h : ∀ p ∈ ps, p.stem? ≠ some unit) : (s.compiling ps).hasCompiled unit = false := by
  refine List.any_eq_false.2 fun p hp => ?_
  rcases mem_dirty_foldl_addCompiled hp with hs | hmem
  · exact absurd hs List.not_mem_nil
  · simpa using h p hmem

end PassState

namespace PassConfig

variable {config : PassConfig} {host : Host} {fs fs' : Files} {s : PassState}

/-- The plan of a pass reads the settings, and nothing else of the files. -/
lemma plan_congr (ht : SameTree fs fs')
    (hl : fs.lookup? config.settingsPath = fs'.lookup? config.settingsPath) :
    config.plan host fs = config.plan host fs' := by
  have hread := Files.read_congr (Files.follow_congr ht config.settingsPath) hl
  have hload : ExclusionSettings.load fs config.settingsPath host.units =
      ExclusionSettings.load fs' config.settingsPath host.units := by
    unfold ExclusionSettings.load Files.readDocument
    rw [Files.has_congr ht, hread]
  rw [plan, plan, hload]

/-- A pass that changes the files of units only leaves the plan as it is. -/
lemma plan_of_leaves {r r' : Resolver} {ps : List Path} {report report' : PassReport}
    (h : (config.plan host fs).Leaves fs r report ps fs' r' report')
    (hsettings : ∀ u ∈ host.units, ∀ p, (u.outputPath == p) = true →
      ¬fs.SameFile config.settingsPath p) : config.plan host fs' = config.plan host fs := by
  have htree : SameTree fs fs' := h.sees.outlines.sameTree
  refine plan_congr h.sees.symm.outlines.sameTree (Files.lookup?_congr htree fun l hl => ?_)
  by_contra hne
  obtain ⟨p, -, d, u, htakes, hf⟩ := h.changed l hne
  obtain ⟨l', c, hf', hn⟩ := htakes.exists_file
  rw [hf] at hf'
  cases hf'
  have hlisted : d ∈ host.units := List.mem_of_find?_eq_some htakes.listed
  have hpath : (d.outputPath == p) = true := by simpa using List.find?_some htakes.listed
  exact hsettings d hlisted p hpath ⟨l, c, hl, hf, hn⟩

/-- Whether a compilation without the weaver leads to weaving does not depend on what was before. -/
lemma Weaves.compiling {ps : List Path} (h : Weaves config host (s.compiling ps))
    (hps : ∀ p ∈ ps, p.stem? ≠ some config.weaverUnit) (s' : PassState) :
    Weaves config host (s'.compiling ps) := by
  refine ⟨h.weavers, h.enabled, fun hc => ?_, h.units⟩
  rw [PassState.hasCompiled_compiling hps] at hc
  cases hc

lemma paths_compiling (host : Host) (s s' : PassState) (ps : List Path) :
    paths host (s.compiling ps) = paths host (s'.compiling ps) := by
  rw [paths, paths, PassState.dirty_compiling_eq s s']

/-- **A pass is idempotent on disk**: some units are compiled, the weaver itself not among them,
and the pass of the network weavers completes. If the settings do not lie in the file of a unit, and
every unit that was written is read as it was written, the same compilation again leads to a pass
that completes and writes nothing: all files stay, the same files are left out, and those that were
written or unchanged are unchanged. -/
theorem finish_twice {o : CaptureOptions} {ps : List Path} {report : PassReport}
    (hweavers : config.weavers = .ofOptions o)
    (hsettings : ∀ u ∈ host.units, ∀ p, (u.outputPath == p) = true →
      ¬fs.SameFile config.settingsPath p)
    (hps : ∀ p ∈ ps, p.stem? ≠ some config.weaverUnit)
    (hre : config.RereadsWritten host fs (s.compiling ps))
    (h : (config.finish host fs (s.compiling ps)).run.outcome = .ok (.completed report)) :
    ∃ report',
      (config.finish host (config.finish host fs (s.compiling ps)).files
        ((config.finish host fs (s.compiling ps)).state.compiling ps)).run.outcome =
          .ok (.completed report') ∧
      report'.written = [] ∧
      (config.finish host (config.finish host fs (s.compiling ps)).files
        ((config.finish host fs (s.compiling ps)).state.compiling ps)).files =
          (config.finish host fs (s.compiling ps)).files ∧
      report'.skipped = report.skipped ∧
      ∀ p, p ∈ report.written ∨ p ∈ report.unchanged → p ∈ report'.unchanged := by
  have hk : config.weavers.KeepsOutline := by
    rw [hweavers]
    exact WeaverList.keepsOutline_ofOptions o
  have hs : config.weavers.Settles := by
    rw [hweavers]
    exact WeaverList.settles_ofOptions o
  -- the first pass, and what it leaves
  have hthrough : (config.finish host fs (s.compiling ps)).GoesThrough := .inl ⟨report, h⟩
  have hw : Weaves config host (s.compiling ps) :=
    (finish_ends config host fs (s.compiling ps)).weaves hthrough
  have hrereads := hre hthrough
  rw [completed_iff_weaveFiles hw] at h
  have hleaves := PassPlan.leaves_weaveFiles hk hs (agrees_resolver host fs) hrereads h
  have hfirst : (config.finish host fs (s.compiling ps)).files =
      ((config.plan host fs).weaveFiles fs (resolver host) .empty
        (paths host (s.compiling ps))).files := by
    rw [hw.finish_eq, (config.weave_eq_weaveFiles host fs (s.compiling ps)).1]
  rw [← hfirst] at hleaves
  generalize (config.finish host fs (s.compiling ps)).state = s₁
  generalize (config.finish host fs (s.compiling ps)).files = fs₁ at hleaves
  -- the second pass weaves the same paths by the same plan
  have hw₁ : Weaves config host (s₁.compiling ps) := hw.compiling hps s₁
  have hpaths : paths host (s₁.compiling ps) = paths host (s.compiling ps) :=
    paths_compiling host s₁ s ps
  have hplan : config.plan host fs₁ = config.plan host fs := plan_of_leaves hleaves hsettings
  have hsettled : ∀ p ∈ paths host (s.compiling ps),
      (config.plan host fs).Settled fs₁ (resolver host) p := by
    intro p hp
    have hsees : SeesSame fs₁ _ fs₁ (resolver host) :=
      ⟨.refl fs₁, hleaves.sees.paths.symm, hleaves.sees.agrees', agrees_resolver host fs₁⟩
    exact (hleaves.settled p hp).congr hsees rfl
  obtain ⟨report', hgo, hsame, hwritten, hskipped, hunchanged⟩ :=
    PassPlan.weaveFiles_of_settled hk (agrees_resolver host fs₁) hsettled .empty
  have hskip (p : Path) : (config.plan host fs).skipReason? fs₁ p =
      (config.plan host fs).skipReason? fs p :=
    PassPlan.skipReason?_congr hleaves.sees.symm.outlines p
  refine ⟨report', ?_, hwritten, ?_, ?_, fun p hp => ?_⟩
  · rw [completed_iff_weaveFiles hw₁, hplan, hpaths, hgo]
  · rw [hw₁.finish_eq, (config.weave_eq_weaveFiles host fs₁ _).1, hplan, hpaths, hsame]
  · rw [hskipped, hleaves.skipped, PassPlan.skippedEntries, PassPlan.skippedEntries]
    simp only [hskip]
  · rw [hunchanged]
    refine List.mem_append_right _ (List.mem_filter.2 ?_)
    rcases hleaves.taken p hp with hp | ⟨hp, hnone⟩
    · simp [PassReport.empty] at hp
    · exact ⟨hp, by rw [hskip, hnone]; rfl⟩

/-! #### A unit that disposes of what another one declares, twice -/

def poolPass : PassResult :=
  networkConfig.finish poolHost poolFiles (PassState.initial.compiling [gamePath, enginePath])

/-- The first pass writes both units, and the second one finds them unchanged: the disposal is sent
by then, in a file that is read by what the other file declares. -/
theorem finish_twice_pool :
    poolPass.run.outcome = .ok (.completed ⟨[gamePath, enginePath], [], []⟩) ∧
    poolPass.files.node? ["home", "game", "Game.unit"] =
      some (.file (.text closedPool.render)) ∧
    ∃ report,
      (networkConfig.finish poolHost poolPass.files
        (poolPass.state.compiling [gamePath, enginePath])).run.outcome = .ok (.completed report) ∧
      report.written = [] ∧ gamePath ∈ report.unchanged ∧ enginePath ∈ report.unchanged ∧
      (networkConfig.finish poolHost poolPass.files
        (poolPass.state.compiling [gamePath, enginePath])).files = poolPass.files := by
  have hdirty : (PassState.initial.compiling [gamePath, enginePath]).dirty =
      [gamePath, enginePath] := rfl
  have hsettings : ∀ u ∈ poolHost.units, ∀ p, (u.outputPath == p) = true →
      ¬poolFiles.SameFile networkConfig.settingsPath p := by
    rintro u - p - ⟨l, c, hf, -, hn⟩
    have hfollow : poolFiles.follow networkConfig.settingsPath =
        .ok ["home", "game", ExclusionSettings.fileName] := rfl
    rw [hfollow] at hf
    cases hf
    cases hn
  have hps : ∀ p ∈ [gamePath, enginePath], p.stem? ≠ some networkConfig.weaverUnit := by
    decide +kernel
  have hfirst := completed_pool hdirty
  obtain ⟨report, hsecond, hwritten, hfiles, -, hunchanged⟩ := finish_twice (o := .default) (by rfl)
    hsettings hps (rereadsWritten_pool (hdirty ▸ .refl _)) hfirst
  exact ⟨hfirst, node?_pool hdirty, report, hsecond, hwritten,
    hunchanged gamePath (.inl (by simp)), hunchanged enginePath (.inl (by simp)), hfiles⟩

end PassConfig

end Interpose
