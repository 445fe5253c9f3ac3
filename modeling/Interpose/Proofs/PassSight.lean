import Interpose.Proofs.Callbacks
import Interpose.Proofs.References

/-!
What a pass sees while it goes on.

A pass overwrites files with woven units and keeps units that it has read, so later units resolve
their references against files and units that earlier ones have left. Main statement: if weaving
keeps declarations, and a written unit is read as it was written, every unit of a pass sees what it
would have seen at the start.
-/

namespace Interpose

open Files (SameOutlines SameTree)

/-- Two moments at which every name leads to the same declarations. -/
structure SeesSame (fs : Files) (r : Resolver) (fs' : Files) (r' : Resolver) : Prop where
  outlines : SameOutlines fs fs'
  paths : r.searchPaths = r'.searchPaths
  agrees : r.Agrees fs
  agrees' : r'.Agrees fs'

namespace SeesSame

variable {fs fs' fs'' : Files} {r r' r'' : Resolver}

lemma refl (h : r.Agrees fs) : SeesSame fs r fs r := ⟨.refl fs, rfl, h, h⟩

lemma symm (h : SeesSame fs r fs' r') : SeesSame fs' r' fs r :=
  ⟨h.outlines.symm, h.paths.symm, h.agrees', h.agrees⟩

lemma trans (h : SeesSame fs r fs' r') (h' : SeesSame fs' r' fs'' r'') :
    SeesSame fs r fs'' r'' :=
  ⟨h.outlines.trans h'.outlines, h.paths.trans h'.paths, h.agrees, h'.agrees'⟩

lemma outline_eq (h : SeesSame fs r fs' r') : r.outline fs = r'.outline fs' := by
  funext name
  rw [h.agrees.outline_eq, h.agrees'.outline_eq,
    Resolver.outline_forgetAll_congr h.outlines h.paths]

end SeesSame

namespace PassPlan

variable {plan : PassPlan} {fs fs' : Files} {r r' : Resolver} {p : Path} {d : UnitDescriptor}
  {u v : CompiledUnit}

/-! ### Which units are woven, and in which context -/

/-- Why the file at a path is not woven, if it is not. -/
def skipReason? (plan : PassPlan) (fs : Files) (p : Path) : Option SkipReason :=
  match plan.unitAt fs p with
  | .error (reason, _) => some reason
  | .ok _ => none

lemma skipReason?_eq_none_iff : plan.skipReason? fs p = none ↔ ∃ d u, plan.Takes fs p d u := by
  unfold skipReason?
  rcases h : plan.unitAt fs p with ⟨reason, log⟩ | ⟨d, u⟩
  · refine iff_of_false (by simp) ?_
    rintro ⟨d, u, ht⟩
    rw [unitAt_eq_ok_iff.2 ht] at h
    cases h
  · exact iff_of_true rfl ⟨d, u, unitAt_eq_ok_iff.1 h⟩

/-- The reasons in the order in which they are looked for. -/
lemma skipReason?_eq (plan : PassPlan) (fs : Files) (p : Path) :
    plan.skipReason? fs p =
      if fs.has p then
        match plan.units.find? (·.outputPath == p) with
        | none => some .unknownUnit
        | some d => (plan.policy.skipReason? d).or <|
          match fs.readUnit p with
          | .error _ => some .unreadable
          | .ok u => if Policy.weavesCompiled u then none else some .marked
      else some .fileMissing := by
  unfold skipReason? unitAt
  by_cases hhas : fs.has p = true
  · rcases hlist : plan.units.find? (·.outputPath == p) with _ | d
    · simp [hhas, hlist]
    · rcases hskip : plan.policy.skipReason? d with _ | reason
      · rcases fs.readUnit p with e | u
        · simp [hhas, hlist, hskip]
        · by_cases hw : Policy.weavesCompiled u = true <;> simp [hhas, hlist, hskip, hw]
      · simp [hhas, hlist, hskip]
  · simp [hhas]

/-- The reason to leave a file out is seen without bodies. -/
lemma skipReason?_congr (h : SameOutlines fs fs') (p : Path) :
    plan.skipReason? fs p = plan.skipReason? fs' p := by
  have hread := h.readUnit p
  rw [skipReason?_eq, skipReason?_eq, Files.has_congr h.sameTree]
  rcases hu : fs.readUnit p with e | u
  · rcases hu' : fs'.readUnit p with e' | u'
    · rfl
    · rw [hu, hu'] at hread
      cases hread
  · rcases hu' : fs'.readUnit p with e' | u'
    · rw [hu, hu'] at hread
      cases hread
    · rw [hu, hu'] at hread
      have huu : u.bodiless = u'.bodiless := Except.ok.inj hread
      have hmarked : Policy.weavesCompiled u = Policy.weavesCompiled u' := by
        unfold Policy.weavesCompiled CompiledUnit.hasAttribute
        rw [CompiledUnit.attributes_congr huu]
      simp only [hmarked]

/-- What the weavers may rely on at a unit. -/
def contextOf (plan : PassPlan) (fs : Files) (r : Resolver) (u : CompiledUnit) : WeaveContext :=
  ⟨plan.hierarchyFor (r.hierarchyFor fs u).hierarchy u, plan.verbose⟩

lemma woven_eq (plan : PassPlan) (fs : Files) (r : Resolver) (u : CompiledUnit) :
    plan.woven fs r u = plan.weavers.weave (plan.contextOf fs r u) u := rfl

/-- Units of one outline are woven in one context, wherever the same is seen. -/
lemma contextOf_congr (h : SeesSame fs r fs' r') (huv : u.bodiless = v.bodiless) :
    plan.contextOf fs r u = plan.contextOf fs' r' v := by
  have hhierarchy := Resolver.hierarchyFor_congr h.outline_eq huv
  rw [contextOf, contextOf, hierarchyFor, hierarchyFor, hhierarchy, Hierarchy.addUnit_congr _ huv]

lemma woven_congr (h : SeesSame fs r fs' r') (u : CompiledUnit) :
    plan.woven fs r u = plan.woven fs' r' u := by
  rw [woven_eq, woven_eq, contextOf_congr h rfl]

/-! ### One path -/

/-- A path whose file is left out. -/
lemma weaveFile_of_skip {reason : SkipReason} (h : plan.skipReason? fs p = some reason) :
    (plan.weaveFile fs r p).files = fs ∧ (plan.weaveFile fs r p).resolver = r ∧
      (plan.weaveFile fs r p).run.outcome = .ok (.skipped reason) := by
  unfold skipReason? at h
  rcases hu : plan.unitAt fs p with ⟨reason', log⟩ | ⟨d, u⟩
  · rw [hu, Option.some.injEq] at h
    rw [weaveFile, hu, h]
    exact ⟨rfl, rfl, rfl⟩
  · rw [hu] at h
    cases h

/-- A path whose unit is taken: the outcome and the files, by what the weavers make of the unit. -/
lemma weaveFile_of_takes (h : plan.Takes fs p d u) (r : Resolver) :
    (∃ e, (plan.woven fs r u).run.outcome = .error e ∧ (plan.weaveFile fs r p).files = fs ∧
      (plan.weaveFile fs r p).run.outcome = .error e) ∨
    ((plan.woven fs r u).run.outcome = .ok false ∧ (plan.weaveFile fs r p).files = fs ∧
      (plan.weaveFile fs r p).run.outcome = .ok .unchanged) ∨
    ∃ l, (plan.woven fs r u).run.outcome = .ok true ∧ fs.follow p = .ok l ∧
      (plan.weaveFile fs r p).files =
        fs.insert l (.file (.text (plan.woven fs r u).value.render)) ∧
      (plan.weaveFile fs r p).run.outcome = .ok .written := by
  have hstep := weaveFile_step plan fs r p
  generalize (plan.weaveFile fs r p).files = files at hstep ⊢
  generalize (plan.weaveFile fs r p).run.outcome = outcome at hstep ⊢
  cases hstep with
  | skipped left => exact absurd h (left d u)
  | @failed d' u' e takes weaves =>
    obtain ⟨-, rfl⟩ := h.unique takes
    exact .inl ⟨e, weaves, rfl, rfl⟩
  | @unchanged d' u' takes weaves =>
    obtain ⟨-, rfl⟩ := h.unique takes
    exact .inr (.inl ⟨weaves, rfl, rfl⟩)
  | @written d' u' l c takes weaves leads holds =>
    obtain ⟨-, rfl⟩ := h.unique takes
    exact .inr (.inr ⟨l, weaves, leads, rfl, rfl⟩)

/-- The outcome at a path whose unit is taken is that of the weavers. -/
lemma outcome_of_takes (h : plan.Takes fs p d u) (r : Resolver) :
    (plan.weaveFile fs r p).run.outcome = (plan.woven fs r u).run.outcome.map fun changed =>
      if changed then .written else .unchanged := by
  rcases weaveFile_of_takes h r with ⟨e, hw, -, hout⟩ | ⟨hw, -, hout⟩ | ⟨l, hw, -, -, hout⟩ <;>
    rw [hw, hout] <;> rfl

lemma weaveFile_resolver_of_takes (h : plan.Takes fs p d u) (r : Resolver) :
    (plan.weaveFile fs r p).resolver = (r.hierarchyFor fs u).resolver ∨
      ∃ name, (plan.weaveFile fs r p).resolver =
        (r.hierarchyFor fs u).resolver.invalidate name := by
  unfold weaveFile
  simp only [unitAt_eq_ok_iff.2 h]
  split
  · exact .inl rfl
  · exact .inl rfl
  · split
    · exact .inl rfl
    · exact .inr ⟨_, rfl⟩

/-- The unit that is written at a path is read as it was written. -/
def RereadsAt (plan : PassPlan) (fs : Files) (r : Resolver) (p : Path) : Prop :=
  ∀ d u, plan.Takes fs p d u → (plan.woven fs r u).run.outcome = .ok true →
    CompiledUnit.parse? (plan.woven fs r u).value.render = some (plan.woven fs r u).value

/-- One path keeps what is seen. -/
lemma seesSame_weaveFile (hk : plan.weavers.KeepsOutline) (h : r.Agrees fs)
    (hre : plan.RereadsAt fs r p) :
    SeesSame fs r (plan.weaveFile fs r p).files (plan.weaveFile fs r p).resolver := by
  rcases hskip : plan.skipReason? fs p with _ | reason
  · obtain ⟨d, u, htakes⟩ := skipReason?_eq_none_iff.1 hskip
    obtain ⟨l, s, hf, hn, hu⟩ := Files.exists_text_of_readUnit htakes.readable
    have hout : SameOutlines fs (plan.weaveFile fs r p).files := by
      rcases weaveFile_of_takes htakes r with ⟨e, -, hfiles, -⟩ | ⟨-, hfiles, -⟩ |
        ⟨l', hw, hl, hfiles, -⟩
      · rw [hfiles]
        exact .refl fs
      · rw [hfiles]
        exact .refl fs
      · rw [hf] at hl
        cases hl
        rw [hfiles]
        exact Files.sameOutlines_insert hn hu (hre d u htakes hw) (hk _ u)
    obtain ⟨hpaths, hagrees⟩ :=
      Resolver.resolver_foldl_collect fs u.name ((r.graph fs).reach [u.name] u.references)
        ⟨r, [], .empty⟩ h
    have hpaths' : (r.hierarchyFor fs u).resolver.searchPaths = r.searchPaths := hpaths
    have hagrees' : (r.hierarchyFor fs u).resolver.Agrees fs := hagrees
    rcases weaveFile_resolver_of_takes htakes r with hr | ⟨name, hr⟩
    · rw [hr]
      exact ⟨hout, hpaths'.symm, h, hagrees'.congr hout⟩
    · rw [hr]
      exact ⟨hout, hpaths'.symm, h, (hagrees'.invalidate name).congr hout⟩
  · obtain ⟨hfiles, hr, -⟩ := weaveFile_of_skip (r := r) hskip
    rw [hfiles, hr]
    exact .refl h

/-! ### Paths in order -/

/-- Every unit that is written in the course of the paths is read as it was written. -/
def Rereads (plan : PassPlan) (fs : Files) (r : Resolver) : List Path → Prop
  | [] => True
  | p :: ps =>
    plan.RereadsAt fs r p ∧
      ((∃ result, (plan.weaveFile fs r p).run.outcome = .ok result) →
        plan.Rereads (plan.weaveFile fs r p).files (plan.weaveFile fs r p).resolver ps)

variable {report : PassReport} {ps : List Path}

lemma Rereads.take (h : plan.Rereads fs r ps) (k : Nat) : plan.Rereads fs r (ps.take k) := by
  induction ps generalizing fs r k with
  | nil =>
    rw [List.take_nil]
    exact h
  | cons p ps ih =>
    cases k with
    | zero => exact trivial
    | succ k => exact ⟨h.1, fun hok => ih (h.2 hok) k⟩

/-- **What is seen stays**: behind any paths every name leads to the declarations of the start. -/
theorem seesSame_weaveFiles (hk : plan.weavers.KeepsOutline) (h : r.Agrees fs)
    (hre : plan.Rereads fs r ps) {report' : PassReport}
    (hout : (plan.weaveFiles fs r report ps).run.outcome = .ok report') :
    SeesSame fs r (plan.weaveFiles fs r report ps).files
      (plan.weaveFiles fs r report ps).resolver := by
  induction ps generalizing fs r report with
  | nil => exact .refl h
  | cons p ps ih =>
    have hstep := seesSame_weaveFile hk h hre.1
    rcases hp : (plan.weaveFile fs r p).run.outcome with e | result
    · rw [(weaveFiles_cons_of_error hp report ps).2] at hout
      cases hout
    · obtain ⟨hfiles, hr, hrest⟩ := weaveFiles_cons_of_ok hp report ps
      rw [hrest] at hout
      rw [hfiles, hr]
      exact hstep.trans (ih hstep.agrees' (hre.2 ⟨result, hp⟩) hout)

end PassPlan

/-! ### The start of a pass -/

namespace Resolver

lemma loaded_addDirectories (unit : String) (refs : List (Except String Path)) (r : Resolver) :
    (r.addDirectories unit refs).1.loaded = r.loaded := by
  induction refs generalizing r with
  | nil => rfl
  | cons ref refs ih =>
    rcases ref with name | p
    · exact ih r
    · have hone : (r.addDirectoryOf p).1.loaded = r.loaded := by
        unfold addDirectoryOf addSearchPath
        rcases p.directory? with _ | d
        · rfl
        · dsimp only
          split <;> rfl
      rw [addDirectories]
      exact (ih _).trans hone

lemma loaded_addUnits (units us : List UnitDescriptor) (r : Resolver) :
    (r.addUnits units us).1.loaded = r.loaded := by
  induction us generalizing r with
  | nil => rfl
  | cons u us ih =>
    rw [addUnits]
    exact (ih _).trans (loaded_addDirectories u.name _ r)

end Resolver

/-! ### Passes that weave -/

namespace PassConfig

/-- A pass starts with a resolver that has read nothing. -/
lemma loaded_resolver (host : Host) : (resolver host).loaded = [] :=
  Resolver.loaded_addUnits host.units host.units .empty

lemma agrees_resolver (host : Host) (fs : Files) : (resolver host).Agrees fs := by
  intro name u hc
  rw [Resolver.cached?, loaded_resolver] at hc
  cases hc

variable {config : PassConfig} {host : Host} {fs : Files} {s : PassState}

/-- Every unit that the pass writes is read as it was written. -/
def RereadsWritten (config : PassConfig) (host : Host) (fs : Files) (s : PassState) : Prop :=
  (config.finish host fs s).GoesThrough →
    (config.plan host fs).Rereads fs (resolver host) (paths host s)

/-- A pass that weaves, in terms of its paths. -/
lemma weave_eq_weaveFiles (config : PassConfig) (host : Host) (fs : Files) (s : PassState) :
    (config.weave host fs s).files =
        ((config.plan host fs).weaveFiles fs (resolver host) .empty (paths host s)).files ∧
      (config.weave host fs s).run.outcome = ((config.plan host fs).weaveFiles fs (resolver host)
        .empty (paths host s)).run.outcome.map PassOutcome.completed := by
  have h := config.weave_files host fs s
  rwa [atEnd, PassPlan.upTo, List.take_length] at h

lemma completed_iff_weaveFiles {report : PassReport} (hw : Weaves config host s) :
    (config.finish host fs s).run.outcome = .ok (.completed report) ↔
      ((config.plan host fs).weaveFiles fs (resolver host) .empty (paths host s)).run.outcome =
        .ok report := by
  rw [hw.finish_eq, (config.weave_eq_weaveFiles host fs s).2]
  rcases ((config.plan host fs).weaveFiles fs (resolver host) .empty
    (paths host s)).run.outcome with e | report' <;> simp [Except.map]

end PassConfig

end Interpose
