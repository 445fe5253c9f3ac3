import Interpose.Proofs.PassOnDisk
import Interpose.Proofs.PassSight
import Interpose.Proofs.RoundTrip
import Interpose.Proofs.StaleUnits

/-!
What a pass sees of the units that it keeps.

A resolver keeps the units that it has read under the names that it looked for, and a pass that
writes a unit lets the resolver forget the one kept under the name that is stored in the written unit.
So a unit that is found under another name than its own stays kept as it was. Main statement: the
units that are out of date at a path are exactly those that a written unit has left behind in this
way, and a unit that refers to none of them gets the hierarchy that a new resolver would collect.
-/

namespace Interpose

open Files (SameTree)

namespace OnFiles

variable {α : Type}

/-- The same files with a resolver that has read nothing. -/
def afresh (now : OnFiles α) : OnFiles α := { now with resolver := now.resolver.forgetAll }

def reached (now : OnFiles α) (u : CompiledUnit) : List String := now.resolver.reached now.files u

def found (now : OnFiles α) (u : CompiledUnit) : List (String × Except Fault CompiledUnit) :=
  now.resolver.found now.files u

/-- The types of the units that a unit reaches. -/
def hierarchyFor (now : OnFiles α) (u : CompiledUnit) : Hierarchy :=
  (now.resolver.hierarchyFor now.files u).hierarchy

def IsStale (now : OnFiles α) (name : String) : Prop := now.resolver.IsStale now.files name

lemma hierarchyFor_afresh (now : OnFiles α) (u : CompiledUnit) : now.afresh.hierarchyFor u =
    (now.resolver.forgetAll.hierarchyFor now.files u).hierarchy := rfl

end OnFiles

/-! ### Along a pass -/

namespace PassPlan

variable {plan : PassPlan} {fs : Files} {r : Resolver} {ps : List Path} {p : Path}
  {d : UnitDescriptor} {u : CompiledUnit} {report report' : PassReport} {k : Nat} {name : String}

/-- The resolver when the pass has collected what the unit at the `k`-th path refers to. -/
def collectedAt (plan : PassPlan) (fs : Files) (r : Resolver) (ps : List Path) (k : Nat)
    (u : CompiledUnit) : Resolver :=
  ((plan.upTo fs r ps k).resolver.hierarchyFor (plan.upTo fs r ps k).files u).resolver

/-- The unit at the `k`-th path is written while another is kept under the name, which leads to the
same file and declares something else than what was written. -/
def Outdates (plan : PassPlan) (fs : Files) (r : Resolver) (ps : List Path) (k : Nat)
    (name : String) : Prop :=
  ∃ p u v, plan.Writes fs r ps k p u ∧ r.LeadsTo fs name p ∧
    (plan.collectedAt fs r ps k u).cached? name = some v ∧
    (CompiledUnit.parse? (plan.wovenAt fs r ps k u).value.render).map CompiledUnit.bodiless ≠
      some v.bodiless

/-- The unit at the `k`-th path is written under the name, so the one kept under it is forgotten. -/
def Forgets (plan : PassPlan) (fs : Files) (r : Resolver) (ps : List Path) (k : Nat)
    (name : String) : Prop :=
  ∃ p u, plan.Writes fs r ps k p u ∧ (plan.wovenAt fs r ps k u).value.name = name

lemma weaveFile_resolver_of_unchanged (h : plan.Takes fs p d u)
    (hw : (plan.woven fs r u).run.outcome = .ok false) :
    (plan.weaveFile fs r p).resolver = (r.hierarchyFor fs u).resolver := by
  unfold woven at hw
  unfold weaveFile
  simp only [unitAt_eq_ok_iff.2 h, hw]

lemma weaveFile_resolver_of_written (h : plan.Takes fs p d u)
    (hw : (plan.woven fs r u).run.outcome = .ok true) :
    (plan.weaveFile fs r p).resolver =
      (r.hierarchyFor fs u).resolver.invalidate (plan.woven fs r u).value.name := by
  obtain ⟨l, c, hf, hn⟩ := h.exists_file
  have hwrite : fs.writeUnit (plan.woven fs r u).value p =
      .ok (fs.insert l (.file (.text (plan.woven fs r u).value.render))) := by
    have htext := Files.write_of_file hf hn (plan.woven fs r u).value.render
    unfold CompiledUnit.render at htext
    unfold Files.writeUnit Files.writeDocument
    rw [htext]
    rfl
  unfold woven at hw hwrite ⊢
  unfold weaveFile
  simp only [unitAt_eq_ok_iff.2 h, hw, hwrite]

/-- The resolver behind one more path at the end of a list that went through. -/
lemma weaveFiles_concat_resolver
    (h : (plan.weaveFiles fs r report ps).run.outcome = .ok report') (p : Path) :
    (plan.weaveFiles fs r report (ps ++ [p])).resolver =
      (plan.weaveFile (plan.weaveFiles fs r report ps).files
        (plan.weaveFiles fs r report ps).resolver p).resolver := by
  induction ps generalizing fs r report with
  | nil =>
    rw [List.nil_append]
    rcases hp : (plan.weaveFile fs r p).run.outcome with e | result <;> simp [weaveFiles, hp]
  | cons q ps ih =>
    rcases hq : (plan.weaveFile fs r q).run.outcome with e | result
    · rw [(weaveFiles_cons_of_error hq report ps).2] at h
      cases h
    · obtain ⟨hfiles, hres, hout⟩ := weaveFiles_cons_of_ok hq report ps
      rw [hout] at h
      rw [List.cons_append, (weaveFiles_cons_of_ok hq report (ps ++ [p])).2.1, hfiles, hres]
      exact ih h

lemma resolver_upTo_succ (hout : (plan.upTo fs r ps k).run.outcome = .ok report)
    (hp : ps[k]? = some p) : (plan.upTo fs r ps (k + 1)).resolver =
      (plan.weaveFile (plan.upTo fs r ps k).files (plan.upTo fs r ps k).resolver p).resolver := by
  rw [upTo, take_succ_of_getElem? hp]
  exact weaveFiles_concat_resolver hout p

lemma forgetAll_weaveFile (plan : PassPlan) (fs : Files) (r : Resolver) (p : Path) :
    (plan.weaveFile fs r p).resolver.forgetAll = r.forgetAll := by
  unfold weaveFile
  rcases plan.unitAt fs p with ⟨reason, log⟩ | ⟨d, u⟩
  · rfl
  · have hpaths := (r.extends_hierarchyFor fs u).paths
    dsimp only
    split
    · exact hpaths
    · exact hpaths
    · split <;> exact hpaths

/-- A pass looks into the same directories all the time. -/
lemma forgetAll_weaveFiles (plan : PassPlan) (fs : Files) (r : Resolver) (report : PassReport)
    (ps : List Path) : (plan.weaveFiles fs r report ps).resolver.forgetAll = r.forgetAll := by
  induction ps generalizing fs r report with
  | nil => rfl
  | cons p ps ih =>
    have hhere := forgetAll_weaveFile plan fs r p
    rcases hp : (plan.weaveFile fs r p).run.outcome with e | result
    · simp [weaveFiles, hp, hhere]
    · rw [(weaveFiles_cons_of_ok hp report ps).2.1, ih, hhere]

/-! ### One path -/

/-- Where nothing is written nothing becomes out of date. -/
lemma isStale_succ_of_kept (hno : ∀ q v, ¬plan.Writes fs r ps k q v)
    (hfiles : (plan.upTo fs r ps (k + 1)).files = (plan.upTo fs r ps k).files)
    (hres : (plan.upTo fs r ps k).resolver.Extends (plan.upTo fs r ps (k + 1)).resolver
      (plan.upTo fs r ps k).files) :
    (plan.upTo fs r ps (k + 1)).IsStale name ↔
      ¬plan.Forgets fs r ps k name ∧ (plan.Outdates fs r ps k name ∨
        (plan.upTo fs r ps k).IsStale name) := by
  have hforgets : ¬plan.Forgets fs r ps k name := fun ⟨q, v, hw, _⟩ => hno q v hw
  have houtdates : ¬plan.Outdates fs r ps k name := fun ⟨q, v, _, hw, _⟩ => hno q v hw
  rw [and_iff_right hforgets, or_iff_right houtdates, OnFiles.IsStale, hfiles, hres.isStale_iff,
    OnFiles.IsStale]

/-- Where a unit is written the one kept under its name is forgotten, and those kept under other
names that lead to its file become out of date. -/
lemma isStale_succ_of_written (hw : plan.Writes fs r ps k p u)
    (htree : SameTree fs (plan.upTo fs r ps k).files) {l : Location} {c : Content}
    (hf : (plan.upTo fs r ps k).files.follow p = .ok l)
    (hn : (plan.upTo fs r ps k).files.node? l = some (.file c))
    (hfiles : (plan.upTo fs r ps (k + 1)).files = (plan.upTo fs r ps k).files.insert l
      (.file (.text (plan.wovenAt fs r ps k u).value.render)))
    (hres : (plan.upTo fs r ps (k + 1)).resolver =
      (plan.collectedAt fs r ps k u).invalidate (plan.wovenAt fs r ps k u).value.name)
    (hfresh : r.LeadsTo fs name p →
      ¬(plan.upTo fs r ps k).IsStale name) :
    (plan.upTo fs r ps (k + 1)).IsStale name ↔
      ¬plan.Forgets fs r ps k name ∧ (plan.Outdates fs r ps k name ∨
        (plan.upTo fs r ps k).IsStale name) := by
  have hext := (plan.upTo fs r ps k).resolver.extends_hierarchyFor (plan.upTo fs r ps k).files u
  have hforgets : plan.Forgets fs r ps k name ↔
      (plan.wovenAt fs r ps k u).value.name = name := by
    constructor
    · rintro ⟨q, v, hv, hname⟩
      obtain ⟨rfl, rfl⟩ := hw.unique hv
      exact hname
    · exact fun hname => ⟨p, u, hw, hname⟩
  have hforget : (plan.upTo fs r ps k).resolver.forgetAll = r.forgetAll :=
    forgetAll_weaveFiles plan fs r .empty (ps.take k)
  have hforget' : (plan.upTo fs r ps (k + 1)).resolver.forgetAll = r.forgetAll :=
    forgetAll_weaveFiles plan fs r .empty (ps.take (k + 1))
  rw [hforgets, OnFiles.IsStale, Resolver.IsStale, hforget', hfiles, hres]
  simp only [Resolver.cached?_invalidate]
  by_cases hname : (plan.wovenAt fs r ps k u).value.name = name
  · refine iff_of_false ?_ fun h => h.1 hname
    rintro ⟨v, hv, -⟩
    rw [if_pos hname.symm] at hv
    cases hv
  rw [if_neg (Ne.symm hname), and_iff_right hname]
  by_cases hleads : r.LeadsTo fs name p
  · rw [or_iff_left (hfresh hleads)]
    have hleads' : r.LeadsTo (plan.upTo fs r ps k).files name p := hleads.congr htree rfl
    constructor
    · rintro ⟨v, hv, hne⟩
      rw [Ne, hleads'.outline_insert hf hn] at hne
      exact ⟨p, u, v, hw, hleads, hv, hne⟩
    · rintro ⟨q, u', v, hw', -, hv, hne⟩
      obtain ⟨rfl, rfl⟩ := hw.unique hw'
      refine ⟨v, hv, ?_⟩
      rwa [Ne, hleads'.outline_insert hf hn]
  · have houtdates : ¬plan.Outdates fs r ps k name := by
      rintro ⟨q, u', v, hw', hleads', -⟩
      obtain ⟨rfl, rfl⟩ := hw.unique hw'
      exact hleads hleads'
    have hleads' : ¬r.LeadsTo (plan.upTo fs r ps k).files name p :=
      fun h => hleads (h.congr htree.symm rfl)
    rw [or_iff_right houtdates, OnFiles.IsStale, ← hext.isStale_iff,
      Resolver.outline_insert_of_not_leadsTo hleads' hf hn, Resolver.IsStale, hext.paths, hforget]
    rfl

/-- One path: a unit is out of date behind it if the path has outdated it, or if it was so before,
unless the unit kept was forgotten. -/
lemma isStale_succ (hprogress : plan.Progress fs r ps k report)
    (hd : ps.Pairwise fun p q => ¬fs.SameFile p q)
    (hout : (plan.upTo fs r ps k).run.outcome = .ok report) (hp : ps[k]? = some p)
    (hout' : (plan.upTo fs r ps (k + 1)).run.outcome = .ok report')
    (hfresh : ∀ q v, plan.Writes fs r ps k q v → r.LeadsTo fs name q →
      ¬(plan.upTo fs r ps k).IsStale name) :
    (plan.upTo fs r ps (k + 1)).IsStale name ↔
      ¬plan.Forgets fs r ps k name ∧ (plan.Outdates fs r ps k name ∨
        (plan.upTo fs r ps k).IsStale name) := by
  obtain ⟨hfiles, houtcome⟩ := upTo_succ_of_ok hout hp
  have hres := resolver_upTo_succ hout hp
  -- what is written at this path is what is taken there now
  have htaken (q : Path) (v : CompiledUnit) (hw : plan.Writes fs r ps k q v) :
      ∃ d, plan.Takes (plan.upTo fs r ps k).files p d v := by
    have hpq := hp.symm.trans hw.path
    cases hpq
    obtain ⟨d, htakes⟩ := hw.takes
    exact ⟨d, (hprogress.takes_iff hd hp d v).2 htakes⟩
  rcases hskip : plan.skipReason? (plan.upTo fs r ps k).files p with _ | reason
  · obtain ⟨d, u, htakes⟩ := skipReason?_eq_none_iff.1 hskip
    rcases weaveFile_of_takes htakes (plan.upTo fs r ps k).resolver with
      ⟨e, -, -, he⟩ | ⟨hw, hsame, -⟩ | ⟨l, hw, hf, hinsert, -⟩
    · rw [houtcome, he] at hout'
      cases hout'
    · refine isStale_succ_of_kept (fun q v hv => ?_) (hfiles.trans hsame) ?_
      · obtain ⟨d', htakes'⟩ := htaken q v hv
        have hchanges := hv.changes
        rw [wovenAt, ← (htakes.unique htakes').2, hw] at hchanges
        cases hchanges
      · rw [hres, weaveFile_resolver_of_unchanged htakes hw]
        exact Resolver.extends_hierarchyFor _ _ u
    · have hwrites : plan.Writes fs r ps k p u :=
        ⟨hp, ⟨d, (hprogress.takes_iff hd hp d u).1 htakes⟩, hw⟩
      obtain ⟨l', c, hf', hn⟩ := htakes.exists_file
      rw [hf] at hf'
      cases hf'
      exact isStale_succ_of_written hwrites hprogress.tree hf hn (hfiles.trans hinsert)
        (hres.trans (weaveFile_resolver_of_written htakes hw)) (hfresh p u hwrites)
  · obtain ⟨hsame, hres', -⟩ := weaveFile_of_skip (r := (plan.upTo fs r ps k).resolver) hskip
    refine isStale_succ_of_kept (fun q v hv => ?_) (hfiles.trans hsame) ?_
    · obtain ⟨d, htakes⟩ := htaken q v hv
      rw [skipReason?_eq_none_iff.2 ⟨d, v, htakes⟩] at hskip
      cases hskip
    · rw [hres, hres']
      exact .refl _ _

/-! ### All paths -/

/-- Any number of paths: a unit is out of date exactly if one of them has outdated it and none since
has let it be forgotten. -/
lemma isStale_upTo_iff (hd : ps.Pairwise fun p q => ¬fs.SameFile p q) (hr : r.loaded = [])
    (hk : k ≤ ps.length) (hout : (plan.upTo fs r ps k).run.outcome = .ok report) :
    (plan.upTo fs r ps k).IsStale name ↔
      ∃ j < k, plan.Outdates fs r ps j name ∧
        ∀ i, j ≤ i → i < k → ¬plan.Forgets fs r ps i name := by
  induction k generalizing report with
  | zero =>
    refine iff_of_false ?_ fun ⟨j, hj, _⟩ => Nat.not_lt_zero j hj
    rintro ⟨u, hu, -⟩
    have hnone : r.cached? name = none := by rw [Resolver.cached?, hr]; rfl
    rw [upTo, List.take_zero, weaveFiles, hnone] at hu
    cases hu
  | succ k ih =>
    have hp : ps[k]? = some ps[k] := List.getElem?_eq_getElem hk
    rcases ho : (plan.upTo fs r ps k).run.outcome with e | before
    · have herror := (weaveFiles_concat_of_error ho ps[k]).2
      rw [← take_succ_of_getElem? hp] at herror
      rw [upTo, herror] at hout
      cases hout
    · have hle : k ≤ ps.length := Nat.le_of_succ_le hk
      have hbefore := ih hle ho
      -- a file is written once, so what is out of date already lies in another
      have hfresh (q : Path) (v : CompiledUnit) (hw : plan.Writes fs r ps k q v)
          (hq : r.LeadsTo fs name q) :
          ¬(plan.upTo fs r ps k).IsStale name := by
        intro hstale
        obtain ⟨j, hj, ⟨p', u, v', hw', ⟨f, hf, hfp⟩, -⟩, -⟩ := hbefore.1 hstale
        obtain ⟨f', hf', hfq⟩ := hq
        have hff := hf.symm.trans hf'
        cases hff
        have := eq_of_sameFile hd hw'.path hw.path (hfp.symm.trans hfq)
        omega
      rw [isStale_succ (progress hd hle ho) hd ho hp hout hfresh, hbefore]
      constructor
      · rintro ⟨hkept, houtdates | ⟨j, hj, houtdates, hsince⟩⟩
        · refine ⟨k, Nat.lt_succ_self k, houtdates, fun i hi hik => ?_⟩
          obtain rfl := Nat.le_antisymm (Nat.le_of_lt_succ hik) hi
          exact hkept
        · refine ⟨j, Nat.lt_succ_of_lt hj, houtdates, fun i hi hik => ?_⟩
          rcases Nat.lt_succ_iff_lt_or_eq.1 hik with hik | rfl
          · exact hsince i hi hik
          · exact hkept
      · rintro ⟨j, hj, houtdates, hsince⟩
        refine ⟨hsince k (Nat.le_of_lt_succ hj) (Nat.lt_succ_self k), ?_⟩
        rcases Nat.lt_succ_iff_lt_or_eq.1 hj with hj | rfl
        · exact .inr ⟨j, hj, houtdates, fun i hi hik => hsince i hi (Nat.lt_succ_of_lt hik)⟩
        · exact .inl houtdates

end PassPlan

/-! ### Passes that weave -/

namespace PassConfig

variable (config : PassConfig) (host : Host) (fs : Files) (s : PassState)

/-- The pass of a finish when it comes to its `k`-th path. -/
def comingTo (k : Nat) : OnFiles PassReport :=
  (config.plan host fs).upTo fs (resolver host) (paths host s) k

variable {k : Nat} {p : Path} {report : PassReport}

/-- **What a pass sees of units that it keeps**: when it comes to a path, it finds for a unit what a
resolver that has read nothing would find in the files as they are then, exactly if nothing that the
unit reaches is out of date, and in that case the hierarchy is the same. What is kept under a name is
out of date exactly if a path before has outdated it, as the unit written there lay in the file that
the name leads to, and no unit has been written under the name since. So nothing is out of date as
long as each unit that is written bears every name that leads to its file. -/
theorem comingTo_finds (hd : (paths host s).Pairwise fun p q => ¬fs.SameFile p q)
    (hp : (paths host s)[k]? = some p)
    (hk : (config.comingTo host fs s k).run.outcome = .ok report) :
    (∀ u, ((config.comingTo host fs s k).found u = (config.comingTo host fs s k).afresh.found u ↔
        ∀ name ∈ (config.comingTo host fs s k).reached u,
          ¬(config.comingTo host fs s k).IsStale name) ∧
      ((config.comingTo host fs s k).found u = (config.comingTo host fs s k).afresh.found u →
        (config.comingTo host fs s k).hierarchyFor u =
          (config.comingTo host fs s k).afresh.hierarchyFor u)) ∧
    ∀ name, (config.comingTo host fs s k).IsStale name ↔
      ∃ j < k, (config.plan host fs).Outdates fs (resolver host) (paths host s) j name ∧
        ∀ i, j ≤ i → i < k →
          ¬(config.plan host fs).Forgets fs (resolver host) (paths host s) i name := by
  have hle : k ≤ (paths host s).length := Nat.le_of_lt (List.getElem?_eq_some_iff.1 hp).1
  exact ⟨fun u => ⟨Resolver.found_eq_iff, Resolver.hierarchy_congr⟩,
    fun name => PassPlan.isStale_upTo_iff hd (loaded_resolver host) hle hk⟩

/-! #### A project whose core unit is stored under another name than that of its file -/

def coreUnit : CompiledUnit := .ofName "Engine.Core"

/-- A unit that refers to the file of the core. -/
def onCore (name : String) : CompiledUnit := ⟨name, [], ["Core"], []⟩

def pathOf (name : String) : Path := ⟨"./" ++ name ++ ".json"⟩

def coreFiles : Files :=
  ⟨["home", "core"],
    [(["home", "core", "Game.json"], .file (.text (onCore "Game").render)),
      (["home", "core", "Core.json"], .file (.text coreUnit.render)),
      (["home", "core", "Ui.json"], .file (.text (onCore "Ui").render))]⟩

def coreHost : Host :=
  ⟨[⟨"Game", pathOf "Game", .ofList [Define.enabled], ["Core"], [], false⟩,
    ⟨"Core", pathOf "Core", .ofList [Define.enabled], [], [], false⟩,
    ⟨"Ui", pathOf "Ui", .ofList [Define.enabled], ["Core"], [], false⟩], .empty, false⟩

/-- The unit with one more type. -/
def declaring (u : CompiledUnit) : CompiledUnit :=
  { u with types := u.types ++ [.ofName "Engine" "Log"] }

/-- The one weaver declares a type in every unit. -/
def coreConfig : PassConfig :=
  ⟨⟨[⟨"declaring", id, fun _ u => ⟨declaring u, pure true⟩⟩]⟩, defaultWeaverUnit,
    ⟨ExclusionSettings.fileName⟩⟩

lemma corePaths : paths coreHost .initial = [pathOf "Game", pathOf "Core", pathOf "Ui"] := rfl

lemma coreFiles_distinct :
    (paths coreHost .initial).Pairwise fun p q => ¬coreFiles.SameFile p q := by
  have hgame : coreFiles.follow (pathOf "Game") = .ok ["home", "core", "Game.json"] := by rfl
  have hcore : coreFiles.follow (pathOf "Core") = .ok ["home", "core", "Core.json"] := by rfl
  have hui : coreFiles.follow (pathOf "Ui") = .ok ["home", "core", "Ui.json"] := by rfl
  rw [corePaths]
  simp [Files.SameFile, hgame, hcore, hui]

lemma coreConfig_takes : ∃ dg dc du,
    (coreConfig.plan coreHost coreFiles).Takes coreFiles (pathOf "Game") dg (onCore "Game") ∧
    (coreConfig.plan coreHost coreFiles).Takes coreFiles (pathOf "Core") dc coreUnit ∧
    (coreConfig.plan coreHost coreFiles).Takes coreFiles (pathOf "Ui") du (onCore "Ui") := by
  have hgame : CompiledUnit.parse? (onCore "Game").render = some (onCore "Game") :=
    CompiledUnit.parse?_render_iff.2 ⟨by decide, trivial⟩
  have hcore : CompiledUnit.parse? coreUnit.render = some coreUnit :=
    CompiledUnit.parse?_render_iff.2 ⟨by decide, trivial⟩
  have hui : CompiledUnit.parse? (onCore "Ui").render = some (onCore "Ui") :=
    CompiledUnit.parse?_render_iff.2 ⟨by decide, trivial⟩
  exact ⟨_, _, _,
    ⟨by rfl, by rfl, by rfl, Files.readUnit_of_text (by rfl) (by rfl) hgame, by rfl⟩,
    ⟨by rfl, by rfl, by rfl, Files.readUnit_of_text (by rfl) (by rfl) hcore, by rfl⟩,
    ⟨by rfl, by rfl, by rfl, Files.readUnit_of_text (by rfl) (by rfl) hui, by rfl⟩⟩

/-- The pass over this project when it comes to its `k`-th path. -/
def coreNow (k : Nat) : OnFiles PassReport := coreConfig.comingTo coreHost coreFiles .initial k

/-- One path of this project, whose unit is always written. -/
lemma coreNow_succ {d : UnitDescriptor} {u : CompiledUnit}
    (hk : (coreNow k).run.outcome = .ok report) (hp : (paths coreHost .initial)[k]? = some p)
    (htakes : (coreConfig.plan coreHost coreFiles).Takes coreFiles p d u) :
    (∃ report', (coreNow (k + 1)).run.outcome = .ok report') ∧
    (coreNow (k + 1)).resolver =
      ((coreNow k).resolver.hierarchyFor (coreNow k).files u).resolver.invalidate u.name ∧
    (coreNow (k + 1)).files.read p = .ok (declaring u).render := by
  have hlt : k < (paths coreHost .initial).length := (List.getElem?_eq_some_iff.1 hp).1
  have hprogress := PassPlan.progress coreFiles_distinct (Nat.le_of_lt hlt) hk
  have hnow := (hprogress.takes_iff coreFiles_distinct hp d u).2 htakes
  have hwoven (fs : Files) (r : Resolver) :
      ((coreConfig.plan coreHost coreFiles).woven fs r u).run.outcome = .ok true := rfl
  have hout : (coreNow (k + 1)).run.outcome = .ok (report.add p .written) := by
    have houtcome := (PassPlan.upTo_succ_of_ok hk hp).2
    rw [PassPlan.outcome_of_takes hnow, hwoven] at houtcome
    exact houtcome
  have hres := PassPlan.resolver_upTo_succ hk hp
  rw [PassPlan.weaveFile_resolver_of_written hnow (hwoven _ _)] at hres
  have hafter := PassPlan.progress coreFiles_distinct hlt hout
  exact ⟨⟨_, hout⟩, hres, hafter.holds k (Nat.lt_succ_self k) p u ⟨hp, ⟨d, htakes⟩, hwoven _ _⟩⟩

/-- When the first unit is woven the core is read and kept. -/
lemma coreNow_one : ∃ report, (coreNow 1).run.outcome = .ok report ∧
    (coreNow 1).resolver.cached? "Core" = some coreUnit := by
  obtain ⟨dg, dc, -, hgame, hcore, -⟩ := coreConfig_takes
  obtain ⟨⟨report, hone⟩, hres, -⟩ := coreNow_succ (k := 0) rfl (by rw [corePaths]; rfl) hgame
  refine ⟨report, hone, ?_⟩
  have hnone : (resolver coreHost).cached? "Core" = none := rfl
  have hfile : (resolver coreHost).findFile? coreFiles "Core" = some (pathOf "Core") := by rfl
  have hfound : (resolver coreHost).lookup coreFiles "Core" = .ok coreUnit := by
    rw [Resolver.lookup_of_file hnone hfile, hcore.readable]
  have hcollected :=
    (Resolver.hierarchyFor_of_leaf (u := onCore "Game") rfl (by decide) hfound rfl).1
  rw [hres, Resolver.cached?_invalidate, if_neg (by decide)]
  refine (congrArg (Resolver.cached? · "Core") hcollected).trans ?_
  rw [Resolver.keep, hnone, if_neg (by decide), Resolver.cached?_append, hnone]
  rfl

/-- At the third path the core is kept as it was, while its file holds what was written. -/
lemma coreNow_two : (∃ report, (coreNow 2).run.outcome = .ok report) ∧
    (coreNow 2).resolver.cached? "Core" = some coreUnit ∧
    (coreNow 2).resolver.forgetAll.lookup (coreNow 2).files "Core" = .ok (declaring coreUnit) := by
  obtain ⟨-, dc, -, -, hcore, -⟩ := coreConfig_takes
  obtain ⟨report, hone, hkept⟩ := coreNow_one
  obtain ⟨⟨report', htwo⟩, hres, hread⟩ := coreNow_succ hone (by rw [corePaths]; rfl) hcore
  refine ⟨⟨report', htwo⟩, ?_, ?_⟩
  · -- what is forgotten is what would be kept under the name that is stored in the unit
    rw [hres, Resolver.cached?_invalidate, if_neg (by decide)]
    exact (Resolver.extends_hierarchyFor _ _ _).retains "Core" coreUnit hkept
  · have hparse : CompiledUnit.parse? (declaring coreUnit).render = some (declaring coreUnit) := by
      refine CompiledUnit.parse?_render_iff.2 ⟨by decide, ?_⟩
      simp [declaring, coreUnit, CompiledUnit.ofName, CompiledUnit.Fits, TypeDecl.AllFit,
        TypeDecl.Fits, TypeDecl.ofName]
    obtain ⟨l, hf, hn⟩ := Files.exists_file_of_read hread
    have hprogress := PassPlan.progress coreFiles_distinct (by rw [corePaths]; decide) htwo
    have hfile : (resolver coreHost).findFile? coreFiles "Core" = some (pathOf "Core") := by rfl
    have hfile' := (Resolver.findFile?_congr hprogress.tree (r := (resolver coreHost).forgetAll) rfl
      "Core").symm.trans hfile
    have hforget : (coreNow 2).resolver.forgetAll = (resolver coreHost).forgetAll :=
      PassPlan.forgetAll_weaveFiles _ _ _ _ _
    rw [hforget]
    exact (Resolver.lookup_of_file rfl hfile').trans (Files.readUnit_of_text hf hn hparse)

/-- The third unit is taken then as it was at the start. -/
lemma coreNow_takes : ∃ d,
    (coreConfig.plan coreHost coreFiles).Takes (coreNow 2).files (pathOf "Ui") d (onCore "Ui") := by
  obtain ⟨-, -, du, -, -, hui⟩ := coreConfig_takes
  obtain ⟨⟨report, htwo⟩, -⟩ := coreNow_two
  have hprogress := PassPlan.progress coreFiles_distinct (by rw [corePaths]; decide) htwo
  exact ⟨du, (hprogress.takes_iff coreFiles_distinct (by rw [corePaths]; rfl) du _).2 hui⟩

/-- What is out of date at the third path has been left behind by a path before. -/
theorem comingTo_finds_core :
    ((paths coreHost .initial).Pairwise fun p q => ¬coreFiles.SameFile p q) ∧
    (paths coreHost .initial)[2]? = some (pathOf "Ui") ∧
    (∃ report, (coreNow 2).run.outcome = .ok report) ∧
    ∃ j < 2, (coreConfig.plan coreHost coreFiles).Outdates coreFiles (resolver coreHost)
        (paths coreHost .initial) j "Core" ∧
      ∀ i, j ≤ i → i < 2 → ¬(coreConfig.plan coreHost coreFiles).Forgets coreFiles
        (resolver coreHost) (paths coreHost .initial) i "Core" := by
  have hp : (paths coreHost .initial)[2]? = some (pathOf "Ui") := by rfl
  obtain ⟨⟨report, hk⟩, hkept, hnew⟩ := coreNow_two
  have hstale : (coreNow 2).IsStale "Core" := by
    refine ⟨coreUnit, hkept, fun h => ?_⟩
    rw [Resolver.outline, hnew] at h
    have htypes := congrArg CompiledUnit.types (Except.ok.inj h)
    simp [CompiledUnit.bodiless, declaring, coreUnit, CompiledUnit.ofName,
      TypeDecl.bodilessAll] at htypes
  exact ⟨coreFiles_distinct, hp, ⟨report, hk⟩,
    ((comingTo_finds coreConfig coreHost coreFiles .initial coreFiles_distinct hp hk).2 "Core").1
      hstale⟩

/-- A unit that is woven then gets another hierarchy than from a resolver that has read nothing. -/
theorem comingTo_staleCore :
    ((paths coreHost .initial).Pairwise fun p q => ¬coreFiles.SameFile p q) ∧
    (paths coreHost .initial)[2]? = some (pathOf "Ui") ∧
    (∃ report, (coreNow 2).run.outcome = .ok report) ∧
    (∃ d, (coreConfig.plan coreHost coreFiles).Takes (coreNow 2).files (pathOf "Ui") d
      (onCore "Ui")) ∧
    ((coreNow 2).hierarchyFor (onCore "Ui")).contains "Engine.Log" = false ∧
    ((coreNow 2).afresh.hierarchyFor (onCore "Ui")).contains "Engine.Log" = true := by
  obtain ⟨hk, hkept, hnew⟩ := coreNow_two
  refine ⟨coreFiles_distinct, by rfl, hk, coreNow_takes, ?_, ?_⟩
  · have hcore : (coreNow 2).resolver.lookup (coreNow 2).files "Core" = .ok coreUnit :=
      Resolver.lookup_of_cached hkept
    have hold := (Resolver.hierarchyFor_of_leaf (u := onCore "Ui") rfl (by decide) hcore rfl).2
    rw [OnFiles.hierarchyFor, hold]
    simp [Hierarchy.addUnit, CompiledUnit.allTypes, coreUnit, CompiledUnit.ofName, TypeDecl.visit,
      Hierarchy.addTypes, Hierarchy.contains, Hierarchy.find?, Hierarchy.empty]
  · have hfresh := (Resolver.hierarchyFor_of_leaf (u := onCore "Ui") rfl (by decide) hnew rfl).2
    rw [OnFiles.hierarchyFor_afresh, hfresh]
    simp [Hierarchy.addUnit, CompiledUnit.allTypes, declaring, coreUnit, CompiledUnit.ofName,
      TypeDecl.ofName, TypeDecl.visit, Hierarchy.addTypes, Hierarchy.contains, Hierarchy.find?,
      Hierarchy.insert, Hierarchy.empty]

end PassConfig

end Interpose
