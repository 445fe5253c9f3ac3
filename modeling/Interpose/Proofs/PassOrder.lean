import Interpose.Proofs.LoadChain
import Interpose.Proofs.PassSight
import Interpose.Proofs.StaleUnits
import Interpose.Proofs.UnitText

/-!
The order in which units were compiled.

As every unit of a pass sees what it would have seen at the start, the outcome at a path is the one
that it would have as the only path. A pass adds these outcomes up, and a sum does not depend on the
order. Main statement: two passes of the network weavers over the same paths in different orders
complete together, and then leave the same files and the same entries in their reports.
-/

namespace Interpose

open Files (SameTree SameFile)

/-! ### Reports in different orders -/

/-- The reports have the same entries. -/
structure PassReport.SameEntries (a b : PassReport) : Prop where
  written : a.written.Perm b.written
  unchanged : a.unchanged.Perm b.unchanged
  skipped : a.skipped.Perm b.skipped

namespace PassReport

variable {a b c : PassReport} {p q : Path}

lemma SameEntries.refl (a : PassReport) : SameEntries a a := ⟨.refl _, .refl _, .refl _⟩

lemma SameEntries.trans (h : SameEntries a b) (h' : SameEntries b c) : SameEntries a c :=
  ⟨h.written.trans h'.written, h.unchanged.trans h'.unchanged, h.skipped.trans h'.skipped⟩

lemma SameEntries.add (h : SameEntries a b) (p : Path) (x : UnitResult) :
    SameEntries (a.add p x) (b.add p x) := by
  cases x with
  | written => exact ⟨h.written.append_right [p], h.unchanged, h.skipped⟩
  | unchanged => exact ⟨h.written, h.unchanged.append_right [p], h.skipped⟩
  | skipped reason => exact ⟨h.written, h.unchanged, h.skipped.append_right [(p, reason)]⟩

/-- Two entries may come in either order. -/
lemma sameEntries_add_add (a : PassReport) (p q : Path) (x y : UnitResult) :
    SameEntries ((a.add p x).add q y) ((a.add q y).add p x) := by
  have hswap {α : Type} (l : List α) (v w : α) : (l ++ [v] ++ [w]).Perm (l ++ [w] ++ [v]) := by
    rw [List.append_assoc, List.append_assoc]
    exact (List.Perm.swap w v []).append_left l
  cases x <;> cases y <;>
    first
    | exact ⟨hswap _ _ _, .refl _, .refl _⟩
    | exact ⟨.refl _, hswap _ _ _, .refl _⟩
    | exact ⟨.refl _, .refl _, hswap _ _ _⟩
    | exact .refl _

/-- The report with the outcomes of more paths at its end; the first failure is the outcome. -/
def addAll (outcome : Path → Except Fault UnitResult) (a : PassReport) :
    List Path → Except Fault PassReport
  | [] => .ok a
  | p :: ps =>
    match outcome p with
    | .error e => .error e
    | .ok x => addAll outcome (a.add p x) ps

variable {outcome : Path → Except Fault UnitResult}

lemma addAll_cons_of_ok {x : UnitResult} (hp : outcome p = .ok x) (a : PassReport)
    (ps : List Path) : a.addAll outcome (p :: ps) = (a.add p x).addAll outcome ps := by
  rw [addAll, hp]

lemma of_addAll_cons {ps : List Path} (h : a.addAll outcome (p :: ps) = .ok c) :
    ∃ x, outcome p = .ok x ∧ (a.add p x).addAll outcome ps = .ok c := by
  rcases hp : outcome p with e | x
  · rw [addAll, hp] at h
    cases h
  · exact ⟨x, rfl, by rwa [addAll_cons_of_ok hp] at h⟩

/-- The same paths are added to reports with the same entries. -/
lemma SameEntries.addAll (h : SameEntries a b) {ps : List Path} {c : PassReport}
    (hc : a.addAll outcome ps = .ok c) : ∃ d, b.addAll outcome ps = .ok d ∧ SameEntries c d := by
  induction ps generalizing a b with
  | nil =>
    cases hc
    exact ⟨b, rfl, h⟩
  | cons p ps ih =>
    obtain ⟨x, hx, hrest⟩ := of_addAll_cons hc
    rw [addAll_cons_of_ok hx]
    exact ih (h.add p x) hrest

/-- In another order the same outcomes lead to a report with the same entries. -/
lemma addAll_perm {ps qs : List Path} (hperm : ps.Perm qs) (hc : a.addAll outcome ps = .ok c) :
    ∃ d, a.addAll outcome qs = .ok d ∧ SameEntries c d := by
  induction hperm generalizing a c with
  | nil => exact ⟨c, hc, .refl c⟩
  | cons p _ ih =>
    obtain ⟨x, hx, hrest⟩ := of_addAll_cons hc
    rw [addAll_cons_of_ok hx]
    exact ih hrest
  | swap p q ps =>
    obtain ⟨y, hy, hc⟩ := of_addAll_cons hc
    obtain ⟨x, hx, hc⟩ := of_addAll_cons hc
    rw [addAll_cons_of_ok hx, addAll_cons_of_ok hy]
    exact (sameEntries_add_add a q p y x).addAll hc
  | trans _ _ ih ih' =>
    obtain ⟨d, hd, hcd⟩ := ih hc
    obtain ⟨d', hd', hdd'⟩ := ih' hd
    exact ⟨d', hd', hcd.trans hdd'⟩

end PassReport

/-! ### Each path on its own -/

namespace PassPlan

variable {plan : PassPlan} {fs fs' : Files} {r r' : Resolver} {p : Path} {ps : List Path}
  {report report' : PassReport}

/-- The outcome at a path depends on what is seen and on the node that the path leads to. -/
lemma weaveFile_outcome_congr (h : SeesSame fs r fs' r') (hl : fs.lookup? p = fs'.lookup? p) :
    (plan.weaveFile fs r p).run.outcome = (plan.weaveFile fs' r' p).run.outcome := by
  rcases hskip : plan.skipReason? fs p with _ | reason
  · obtain ⟨d, u, htakes⟩ := skipReason?_eq_none_iff.1 hskip
    have htakes' : plan.Takes fs' p d u := (takes_congr h.outlines.sameTree hl).1 htakes
    rw [outcome_of_takes htakes, outcome_of_takes htakes', woven_congr h]
  · have hskip' : plan.skipReason? fs' p = some reason := by
      rw [← skipReason?_congr h.outlines, hskip]
    rw [(weaveFile_of_skip hskip).2.2, (weaveFile_of_skip hskip').2.2]

/-- A path overwrites its own file only. -/
lemma lookup?_weaveFile {q : Path} (hne : ¬fs.SameFile p q) :
    (plan.weaveFile fs r p).files.lookup? q = fs.lookup? q := by
  rcases hskip : plan.skipReason? fs p with _ | reason
  · obtain ⟨d, u, htakes⟩ := skipReason?_eq_none_iff.1 hskip
    obtain ⟨l, c, hf, hn⟩ := htakes.exists_file
    rcases weaveFile_of_takes htakes r with ⟨e, -, hfiles, -⟩ | ⟨-, hfiles, -⟩ |
      ⟨l', -, hl, hfiles, -⟩
    · rw [hfiles]
    · rw [hfiles]
    · rw [hf] at hl
      cases hl
      rw [hfiles]
      refine Files.lookup?_congr (Files.insert_sameTree hn) fun l' hl' => ?_
      have hll : l' ≠ l := by
        rintro rfl
        exact hne ⟨l', c, hf, hl', hn⟩
      exact Files.node?_insert_of_ne hll _
  · rw [(weaveFile_of_skip hskip).1]

/-- Behind a path, the later ones lead to what they have led to at the start. -/
lemma lookup?_later {fs₀ : Files} {r₀ : Resolver} (h : SeesSame fs₀ r₀ fs r)
    (hl : ∀ q ∈ ps, fs.lookup? q = fs₀.lookup? q) (hd : ∀ q ∈ ps, ¬fs₀.SameFile p q) :
    ∀ q ∈ ps, (plan.weaveFile fs r p).files.lookup? q = fs₀.lookup? q := by
  intro q hq
  have hne : ¬fs.SameFile p q := fun hpq => hd q hq (hpq.congr h.symm.outlines.sameTree)
  rw [lookup?_weaveFile hne, hl q hq]

/-- **Each path on its own**: if no two paths lead to one file, a pass adds up the outcomes that the
paths have at the start. -/
lemma weaveFiles_outcome (hk : plan.weavers.KeepsOutline) {fs₀ : Files} {r₀ : Resolver}
    (h : SeesSame fs₀ r₀ fs r) (hl : ∀ p ∈ ps, fs.lookup? p = fs₀.lookup? p)
    (hd : ps.Pairwise fun p q => ¬fs₀.SameFile p q) (hre : plan.Rereads fs r ps) :
    (plan.weaveFiles fs r report ps).run.outcome =
      report.addAll (fun p => (plan.weaveFile fs₀ r₀ p).run.outcome) ps := by
  induction ps generalizing fs r report with
  | nil => rfl
  | cons p ps ih =>
    obtain ⟨hp, hps⟩ := List.forall_mem_cons.1 hl
    obtain ⟨hpd, hd⟩ := List.pairwise_cons.1 hd
    have hhere : (plan.weaveFile fs r p).run.outcome = (plan.weaveFile fs₀ r₀ p).run.outcome :=
      weaveFile_outcome_congr h.symm hp
    rcases ho : (plan.weaveFile fs₀ r₀ p).run.outcome with e | x
    · rw [ho] at hhere
      rw [(weaveFiles_cons_of_error hhere report ps).2, PassReport.addAll, ho]
    · rw [ho] at hhere
      rw [(weaveFiles_cons_of_ok hhere report ps).2.2, PassReport.addAll_cons_of_ok ho]
      have hstep := seesSame_weaveFile hk h.agrees' hre.1
      exact ih (h.trans hstep) (lookup?_later h hps hpd) hd (hre.2 ⟨x, hhere⟩)

/-- Whether units are read as they were written can be told at the start. -/
lemma rereads_of_forall (hk : plan.weavers.KeepsOutline) {fs₀ : Files} {r₀ : Resolver}
    (h : SeesSame fs₀ r₀ fs r) (hl : ∀ p ∈ ps, fs.lookup? p = fs₀.lookup? p)
    (hd : ps.Pairwise fun p q => ¬fs₀.SameFile p q)
    (hre : ∀ p ∈ ps, plan.RereadsAt fs₀ r₀ p) : plan.Rereads fs r ps := by
  induction ps generalizing fs r with
  | nil => trivial
  | cons p ps ih =>
    obtain ⟨hp, hps⟩ := List.forall_mem_cons.1 hl
    obtain ⟨hpd, hd⟩ := List.pairwise_cons.1 hd
    obtain ⟨hrep, hreps⟩ := List.forall_mem_cons.1 hre
    have hhere : plan.RereadsAt fs r p := fun d u htakes hw => by
      have htakes₀ : plan.Takes fs₀ p d u := (takes_congr h.outlines.symm.sameTree hp).1 htakes
      rw [← woven_congr h] at hw ⊢
      exact hrep d u htakes₀ hw
    have hstep := seesSame_weaveFile hk h.agrees' hhere
    exact ⟨hhere, fun _ => ih (h.trans hstep) (lookup?_later h hps hpd) hd hreps⟩

/-! ### The files that are left -/

lemma exists_take_of_ok {k : Nat} (h : (plan.weaveFiles fs r report ps).run.outcome = .ok report') :
    ∃ before, (plan.weaveFiles fs r report (ps.take k)).run.outcome = .ok before := by
  induction ps generalizing fs r report k with
  | nil =>
    rw [List.take_nil]
    exact ⟨report', h⟩
  | cons p ps ih =>
    cases k with
    | zero => exact ⟨report, rfl⟩
    | succ k =>
      rcases hp : (plan.weaveFile fs r p).run.outcome with e | x
      · rw [(weaveFiles_cons_of_error hp report ps).2] at h
        cases h
      · rw [(weaveFiles_cons_of_ok hp report ps).2.2] at h
        rw [List.take_succ_cons, (weaveFiles_cons_of_ok hp report (ps.take k)).2.2]
        exact ih h

/-- In a pass that completes a unit is woven as it would be at the start. -/
lemma wovenAt_eq (hk : plan.weavers.KeepsOutline) (h : r.Agrees fs) (hre : plan.Rereads fs r ps)
    (hout : (plan.weaveFiles fs r .empty ps).run.outcome = .ok report) (k : Nat)
    (u : CompiledUnit) : plan.wovenAt fs r ps k u = plan.woven fs r u := by
  obtain ⟨before, hbefore⟩ := exists_take_of_ok (k := k) hout
  exact woven_congr (seesSame_weaveFiles hk h (hre.take k) hbefore).symm u

/-- A path where the weavers change the unit that was there at the start. -/
structure Changes (plan : PassPlan) (fs : Files) (r : Resolver) (p : Path) (u : CompiledUnit) :
    Prop where
  takes : ∃ d, plan.Takes fs p d u
  weaves : (plan.woven fs r u).run.outcome = .ok true

/-- What a file is at the end of a pass that completes: the woven unit of a path that leads to it,
or what it was. -/
lemma node?_weaveFiles (hk : plan.weavers.KeepsOutline) (h : r.Agrees fs)
    (hd : ps.Pairwise fun p q => ¬fs.SameFile p q) (hre : plan.Rereads fs r ps)
    (hout : (plan.weaveFiles fs r .empty ps).run.outcome = .ok report) (l : Location) :
    (∀ p ∈ ps, ∀ u, plan.Changes fs r p u → fs.follow p = .ok l →
      (plan.weaveFiles fs r .empty ps).files.node? l =
        some (.file (.text (plan.woven fs r u).value.render))) ∧
    ((∀ p ∈ ps, ∀ u, plan.Changes fs r p u → fs.follow p ≠ .ok l) →
      (plan.weaveFiles fs r .empty ps).files.node? l = fs.node? l) := by
  have hupTo : plan.upTo fs r ps ps.length = plan.weaveFiles fs r .empty ps := by
    rw [upTo, List.take_length]
  have hprogress := progress hd (Nat.le_refl _) (hupTo ▸ hout)
  have hwoven := wovenAt_eq hk h hre hout
  constructor
  · intro p hp u hc hf
    obtain ⟨k, hlt, hk⟩ := List.mem_iff_getElem.1 hp
    have hwrites : plan.Writes fs r ps k p u :=
      ⟨by rw [List.getElem?_eq_getElem hlt, hk], hc.takes, by rw [hwoven]; exact hc.weaves⟩
    have hread := hprogress.holds k hlt p u hwrites
    rw [hwoven, hupTo] at hread
    obtain ⟨l', hf', hn⟩ := Files.exists_file_of_read hread
    rw [← hupTo, ← Files.follow_congr hprogress.tree, hf] at hf'
    cases hf'
    exact hn
  · intro hno
    by_contra hne
    rw [← hupTo] at hne
    obtain ⟨k, -, p, u, hw, hf⟩ := hprogress.changed l hne
    have hchanges := hw.changes
    rw [hwoven] at hchanges
    exact hno p (List.mem_of_getElem? hw.path) u ⟨hw.takes, hchanges⟩ hf

/-- Two orders of the same paths leave the same files. -/
lemma node?_weaveFiles_perm {qs : List Path} (hk : plan.weavers.KeepsOutline) (h : r.Agrees fs)
    (hperm : ps.Perm qs) (hd : ps.Pairwise fun p q => ¬fs.SameFile p q)
    (hd' : qs.Pairwise fun p q => ¬fs.SameFile p q) (hps : plan.Rereads fs r ps)
    (hqs : plan.Rereads fs r qs) (hout : (plan.weaveFiles fs r .empty ps).run.outcome = .ok report)
    (hout' : (plan.weaveFiles fs r .empty qs).run.outcome = .ok report') (l : Location) :
    (plan.weaveFiles fs r .empty ps).files.node? l =
      (plan.weaveFiles fs r .empty qs).files.node? l := by
  obtain ⟨hwritten, hkept⟩ := node?_weaveFiles hk h hd hps hout l
  obtain ⟨hwritten', hkept'⟩ := node?_weaveFiles hk h hd' hqs hout' l
  by_cases hex : ∃ p ∈ ps, ∃ u, plan.Changes fs r p u ∧ fs.follow p = .ok l
  · obtain ⟨p, hp, u, hc, hf⟩ := hex
    rw [hwritten p hp u hc hf, hwritten' p (hperm.mem_iff.1 hp) u hc hf]
  · have hno (p : Path) (hp : p ∈ ps) (u : CompiledUnit) (hc : plan.Changes fs r p u) :
        fs.follow p ≠ .ok l := fun hf => hex ⟨p, hp, u, hc, hf⟩
    rw [hkept hno, hkept' fun q hq => hno q (hperm.mem_iff.2 hq)]

end PassPlan

/-! ### Passes -/

namespace PassConfig

variable {config : PassConfig} {host : Host} {fs : Files} {s s' : PassState}

lemma paths_of_dirty (host : Host) (h : s.dirty ≠ []) : paths host s = s.dirty :=
  if_neg (by simpa using h)

/-- One order completes if another does, with the same files and entries. -/
lemma completed_of_perm (hk : config.weavers.KeepsOutline)
    (hforced : s.forcedRebuild = s'.forcedRebuild) (hperm : s.dirty.Perm s'.dirty)
    (hne : s.dirty ≠ []) (hd : s.dirty.Pairwise fun p q => ¬fs.SameFile p q)
    (hs : config.RereadsWritten host fs s) (hs' : config.RereadsWritten host fs s')
    {report : PassReport} (h : (config.finish host fs s).run.outcome = .ok (.completed report)) :
    ∃ report', (config.finish host fs s').run.outcome = .ok (.completed report') ∧
      report.SameEntries report' ∧
      ∀ l, (config.finish host fs s).files.node? l = (config.finish host fs s').files.node? l := by
  have hthrough : (config.finish host fs s).GoesThrough := .inl ⟨report, h⟩
  have hw : Weaves config host s := (finish_ends config host fs s).weaves hthrough
  have hcompiled : s.hasCompiled config.weaverUnit = s'.hasCompiled config.weaverUnit :=
    hperm.any_eq
  have hw' : Weaves config host s' :=
    ⟨hw.weavers, hw.enabled, fun hc => hforced ▸ hw.allowed (hcompiled ▸ hc), hw.units⟩
  have hthrough' : (config.finish host fs s').GoesThrough := by
    rw [hw'.finish_eq]
    exact weave_goesThrough
  have hne' : s'.dirty ≠ [] := fun hnil => hne (List.perm_nil.1 (hnil ▸ hperm))
  have hpaths : paths host s = s.dirty := paths_of_dirty host hne
  have hpaths' : paths host s' = s'.dirty := paths_of_dirty host hne'
  have hps := hs hthrough
  have hqs := hs' hthrough'
  rw [completed_iff_weaveFiles hw, hpaths] at h
  rw [hpaths] at hps
  rw [hpaths'] at hqs
  have hagrees : (resolver host).Agrees fs := agrees_resolver host fs
  have hd' : s'.dirty.Pairwise fun p q => ¬fs.SameFile p q :=
    Files.pairwise_not_sameFile_perm hperm hd
  -- both orders add up the outcomes that the paths have at the start
  have hsum := h
  rw [PassPlan.weaveFiles_outcome hk (.refl hagrees) (fun _ _ => rfl) hd hps] at hsum
  obtain ⟨report', hsum', hentries⟩ := PassReport.addAll_perm hperm hsum
  rw [← PassPlan.weaveFiles_outcome hk (.refl hagrees) (fun _ _ => rfl) hd' hqs] at hsum'
  refine ⟨report', ?_, hentries, fun l => ?_⟩
  · rw [completed_iff_weaveFiles hw', hpaths']
    exact hsum'
  · rw [hw.finish_eq, hw'.finish_eq, (config.weave_eq_weaveFiles host fs s).1,
      (config.weave_eq_weaveFiles host fs s').1, hpaths, hpaths']
    exact PassPlan.node?_weaveFiles_perm hk hagrees hperm hd hd' hps hqs h hsum' l

/-- **The order of compilation does not matter**: two states that wait alike, with the same dirty
paths in different orders, no two of them leading to one file. If every unit that is written is read
as it was written, the pass of the network weavers completes from one state exactly if it does from
the other, and then leaves the same files, and a report with the same entries. -/
theorem finish_perm {o : CaptureOptions} (hweavers : config.weavers = .ofOptions o)
    (hforced : s.forcedRebuild = s'.forcedRebuild) (hperm : s.dirty.Perm s'.dirty)
    (hne : s.dirty ≠ []) (hd : s.dirty.Pairwise fun p q => ¬fs.SameFile p q)
    (hs : config.RereadsWritten host fs s) (hs' : config.RereadsWritten host fs s') :
    ((∃ report, (config.finish host fs s).run.outcome = .ok (.completed report)) ↔
      ∃ report, (config.finish host fs s').run.outcome = .ok (.completed report)) ∧
    ∀ report report', (config.finish host fs s).run.outcome = .ok (.completed report) →
      (config.finish host fs s').run.outcome = .ok (.completed report') →
      (∀ l, (config.finish host fs s).files.node? l = (config.finish host fs s').files.node? l) ∧
        report.written.Perm report'.written ∧ report.unchanged.Perm report'.unchanged ∧
        report.skipped.Perm report'.skipped := by
  have hk : config.weavers.KeepsOutline := by
    rw [hweavers]
    exact WeaverList.keepsOutline_ofOptions o
  have hne' : s'.dirty ≠ [] := fun hnil => hne (List.perm_nil.1 (hnil ▸ hperm))
  have hd' : s'.dirty.Pairwise fun p q => ¬fs.SameFile p q :=
    Files.pairwise_not_sameFile_perm hperm hd
  refine ⟨⟨fun ⟨report, h⟩ => ?_, fun ⟨report, h⟩ => ?_⟩, fun report report' h h' => ?_⟩
  · obtain ⟨report', h', -, -⟩ := completed_of_perm hk hforced hperm hne hd hs hs' h
    exact ⟨report', h'⟩
  · obtain ⟨report', h', -, -⟩ :=
      completed_of_perm hk hforced.symm hperm.symm hne' hd' hs' hs h
    exact ⟨report', h'⟩
  · obtain ⟨report'', h'', hentries, hfiles⟩ :=
      completed_of_perm hk hforced hperm hne hd hs hs' h
    rw [h'] at h''
    cases h''
    exact ⟨hfiles, hentries.written, hentries.unchanged, hentries.skipped⟩

/-! #### A unit that disposes of what another one declares -/

open NetworkCapture (rules webRequest sendMethod interfaceDisposeMethod disposeRule)

/-- Declares requests as a kind of handle, and sends one. -/
def engineUnit : CompiledUnit :=
  { CompiledUnit.ofName "Engine" with
    types := [{ TypeDecl.ofName "UnityEngine.Networking" "UnityWebRequest" with
      baseType := some "Engine.Handle"
      methods := [{ MethodDecl.ofName "Start" voidType with
        body := some [.load .this, .call sendMethod .virtual, .other "ret"] }] }] }

/-- Disposes of a handle through the interface. -/
def closing : MethodDecl :=
  { MethodDecl.ofName "Close" voidType with
    locals := [⟨none, "Engine.Handle"⟩]
    body := some [.load (.local 0), .call interfaceDisposeMethod .virtual, .other "ret"] }

def closed : MethodDecl := closing.redirectAt 1 disposeRule

def pool : TypeDecl := { TypeDecl.ofName "Game" "Pool" with methods := [closing] }

def poolUnit : CompiledUnit :=
  { CompiledUnit.ofName "Game" with references := ["Engine"], types := [pool] }

/-- The unit with its disposal sent, as by what the other unit declares the handle may be a
request. -/
def closedPool : CompiledUnit := { poolUnit with types := [{ pool with methods := [closed] }] }

def enginePath : Path := ⟨"/lib/Engine.json"⟩

def poolFiles : Files :=
  ⟨["home", "game"],
    [(["home", "game", "Game.unit"], .file (.text poolUnit.render)), (["lib"], .directory),
      (["lib", "Engine.json"], .file (.text engineUnit.render))]⟩

def poolOutput : UnitDescriptor :=
  ⟨"Game", gamePath, .ofList [Define.enabled], ["Engine"], [], false⟩

def engineOutput : UnitDescriptor := ⟨"Engine", enginePath, .ofList [Define.enabled], [], [], false⟩

def poolHost : Host := ⟨[poolOutput, engineOutput], .empty, false⟩

def networkConfig : PassConfig :=
  ⟨.ofOptions .default, defaultWeaverUnit, ⟨ExclusionSettings.fileName⟩⟩

lemma follow_gamePath : poolFiles.follow gamePath = .ok ["home", "game", "Game.unit"] := rfl

lemma follow_enginePath : poolFiles.follow enginePath = .ok ["lib", "Engine.json"] := rfl

lemma distinct_pool : [gamePath, enginePath].Pairwise fun p q => ¬poolFiles.SameFile p q := by
  rw [List.pairwise_pair]
  simp [Files.SameFile, follow_gamePath, follow_enginePath]

lemma takes_gamePath :
    (networkConfig.plan poolHost poolFiles).Takes poolFiles gamePath poolOutput poolUnit := by
  refine ⟨rfl, rfl, by decide +kernel, Files.readUnit_of_text follow_gamePath rfl ?_, rfl⟩
  rw [CompiledUnit.parse?_render]
  rfl

lemma takes_enginePath :
    (networkConfig.plan poolHost poolFiles).Takes poolFiles enginePath engineOutput engineUnit := by
  refine ⟨rfl, rfl, by decide +kernel, Files.readUnit_of_text follow_enginePath rfl ?_, rfl⟩
  rw [CompiledUnit.parse?_render]
  rfl

section

variable {c : WeaveContext}

/-- Where requests are handles, a disposal of a handle is sent. -/
lemma weave_closing (T : String)
    (h : c.hierarchy.isStrictSupertype "Engine.Handle" webRequest = true) :
    (closing.weave (rules .default) c T).value = closed ∧
      (closing.weave (rules .default) c T).run.outcome = .ok true := by
  have hflow : closing.infer c.hierarchy T webRequest 0 = .ok .assumed := by
    have hload : closing.instructions[0]? = some (.load (.local 0)) := rfl
    have hslot : closing.slotType T (.local 0) = .ok "Engine.Handle" := rfl
    rw [MethodDecl.infer, TypeFlow.infer_of_load hload hslot, h]
    rfl
  have hload : closing.choice (rules .default) c T 0 = .ok none := rfl
  have hdispose : closing.choice (rules .default) c T 1 = .ok (some disposeRule) := by
    rw [NetworkCapture.choice_of_disposal rfl ⟨interfaceDisposeMethod, .virtual, rfl, rfl⟩,
      NetworkCapture.outcome_receiverIs, hflow]
    rfl
  have hend : (MethodDecl.weaveFrom (rules .default) c T 1 2 closed).value = closed ∧
      (MethodDecl.weaveFrom (rules .default) c T 1 2 closed).run.outcome = .ok false := ⟨rfl, rfl⟩
  obtain ⟨hvalue, houtcome⟩ := MethodDecl.weaveFrom_succ_of_ok (n := 2) hload
  obtain ⟨hvalue', houtcome'⟩ := MethodDecl.weaveFrom_succ_of_ok (n := 1) hdispose
  rw [MethodDecl.decideAt_none, hvalue', MethodDecl.decideAt_some] at hvalue
  rw [MethodDecl.decideAt_none, houtcome', MethodDecl.decideAt_some] at houtcome
  refine ⟨hvalue.trans hend.1, houtcome.trans ?_⟩
  change Except.map _ (Except.map _
    (MethodDecl.weaveFrom (rules .default) c T 1 2 closed).run.outcome) = _
  rw [hend.2]
  rfl

lemma weave_pool (h : c.hierarchy.isStrictSupertype "Engine.Handle" webRequest = true) :
    (networkConfig.weavers.weave c poolUnit).value = closedPool ∧
      (networkConfig.weavers.weave c poolUnit).run.outcome = .ok true := by
  have hmethods : (TypeDecl.weaveMethods (rules .default) c pool [closing]).value = [closed] ∧
      (TypeDecl.weaveMethods (rules .default) c pool [closing]).run.outcome = .ok true := by
    obtain ⟨hvalue, houtcome⟩ := weave_closing pool.fullName h
    rw [TypeDecl.weaveMethods_cons, if_pos (by rfl), Woven.followed, hvalue, houtcome]
    exact ⟨rfl, rfl⟩
  have htree : (TypeDecl.weaveTree (rules .default) c none pool).value =
        { pool with methods := [closed] } ∧
      (TypeDecl.weaveTree (rules .default) c none pool).run.outcome = .ok true := by
    have hlist : pool.methods = [closing] := rfl
    rw [TypeDecl.weaveTree_eq, if_pos (by rfl), Woven.after_followed, Woven.followed, hlist,
      hmethods.1, hmethods.2]
    exact ⟨rfl, rfl⟩
  have hforest : TypeDecl.weaveForest (rules .default) c none poolUnit.types =
      TypeDecl.weaveForest (rules .default) c none [pool] := rfl
  obtain ⟨hvalue, houtcome⟩ := WeaverList.weave_ofOptions .default c poolUnit
  rw [networkConfig, hvalue, houtcome, CompiledUnit.weave_eq_weaveForest, hforest,
    TypeDecl.weaveForest, Woven.followed, htree.1, htree.2]
  exact ⟨rfl, rfl⟩

/-- The other unit is changed in every context, to one that is read as it is written. -/
lemma weave_engine (c : WeaveContext) :
    (networkConfig.weavers.weave c engineUnit).run.outcome = .ok true ∧
      CompiledUnit.parse? (networkConfig.weavers.weave c engineUnit).value.render =
        some (networkConfig.weavers.weave c engineUnit).value := by
  obtain ⟨hvalue, houtcome⟩ := WeaverList.weave_ofOptions .default c engineUnit
  rw [networkConfig, hvalue, houtcome, CompiledUnit.parse?_render,
    CompiledUnit.weave_eq_weaveForest]
  exact ⟨rfl, rfl⟩

end

/-- What the unit is woven in tells that requests are handles. -/
lemma isStrictSupertype_contextOf :
    ((networkConfig.plan poolHost poolFiles).contextOf poolFiles (resolver poolHost)
      poolUnit).hierarchy.isStrictSupertype "Engine.Handle" webRequest = true := by
  have hfile : (resolver poolHost).findFile? poolFiles "Engine" = some enginePath := by rfl
  have hfound : (resolver poolHost).lookup poolFiles "Engine" = .ok engineUnit := by
    rw [Resolver.lookup_of_file rfl hfile, takes_enginePath.readable]
  have hcollected :=
    (Resolver.hierarchyFor_of_leaf (u := poolUnit) rfl (by decide) hfound rfl).2
  rw [Hierarchy.isStrictSupertype_of_ne (by decide)]
  refine Hierarchy.isAssignable_of_mem_parents ?_
  rw [PassPlan.contextOf, PassPlan.hierarchyFor, hcollected]
  decide +kernel

lemma woven_pool :
    ((networkConfig.plan poolHost poolFiles).woven poolFiles (resolver poolHost) poolUnit).value =
        closedPool ∧
      ((networkConfig.plan poolHost poolFiles).woven poolFiles (resolver poolHost)
        poolUnit).run.outcome = .ok true :=
  weave_pool isStrictSupertype_contextOf

lemma rereadsAt_pool (p : Path) (hp : p ∈ [gamePath, enginePath]) :
    (networkConfig.plan poolHost poolFiles).RereadsAt poolFiles (resolver poolHost) p := by
  intro d u htakes hw
  rw [List.mem_pair] at hp
  rcases hp with rfl | rfl
  · obtain ⟨-, rfl⟩ := takes_gamePath.unique htakes
    rw [woven_pool.1, CompiledUnit.parse?_render]
    rfl
  · obtain ⟨-, rfl⟩ := takes_enginePath.unique htakes
    exact (weave_engine _).2

/-- In either order of the paths, what is written is read as it was written. -/
lemma rereads_pool {ps : List Path} (hperm : [gamePath, enginePath].Perm ps) :
    (networkConfig.plan poolHost poolFiles).Rereads poolFiles (resolver poolHost) ps := by
  exact PassPlan.rereads_of_forall (WeaverList.keepsOutline_ofOptions .default)
    (.refl (agrees_resolver poolHost poolFiles)) (fun _ _ => rfl)
    (Files.pairwise_not_sameFile_perm hperm distinct_pool)
    fun p hp => rereadsAt_pool p (hperm.mem_iff.2 hp)

lemma rereadsWritten_pool {s : PassState} (hperm : [gamePath, enginePath].Perm s.dirty) :
    networkConfig.RereadsWritten poolHost poolFiles s := by
  intro _
  rw [paths_of_dirty poolHost fun hnil => by simp [hnil] at hperm]
  exact rereads_pool hperm

section

variable {s : PassState}

lemma paths_pool (hs : s.dirty = [gamePath, enginePath]) :
    paths poolHost s = [gamePath, enginePath] := by
  rw [paths_of_dirty poolHost (by simp [hs]), hs]

lemma weaves_pool (hs : s.dirty = [gamePath, enginePath]) : Weaves networkConfig poolHost s := by
  have hcompiled : s.hasCompiled networkConfig.weaverUnit = false := by
    rw [PassState.hasCompiled, hs]
    decide +kernel
  exact ⟨rfl, by decide +kernel, fun h => absurd (hcompiled.symm.trans h) (by decide), rfl⟩

/-- Both units are written. -/
lemma completed_pool (hs : s.dirty = [gamePath, enginePath]) :
    (networkConfig.finish poolHost poolFiles s).run.outcome =
      .ok (.completed ⟨[gamePath, enginePath], [], []⟩) := by
  rw [completed_iff_weaveFiles (weaves_pool hs), paths_pool hs,
    PassPlan.weaveFiles_outcome (WeaverList.keepsOutline_ofOptions .default)
      (.refl (agrees_resolver poolHost poolFiles)) (fun _ _ => rfl) distinct_pool
      (rereads_pool (.refl _)),
    PassReport.addAll_cons_of_ok (x := .written), PassReport.addAll_cons_of_ok (x := .written)]
  · rfl
  · rw [PassPlan.outcome_of_takes takes_enginePath, PassPlan.woven_eq]
    exact congrArg (Except.map _) (weave_engine _).1
  · rw [PassPlan.outcome_of_takes takes_gamePath, woven_pool.2]
    rfl

/-- The disposal is sent in the file, by what is found in that of the other unit. -/
lemma node?_pool (hs : s.dirty = [gamePath, enginePath]) :
    (networkConfig.finish poolHost poolFiles s).files.node? ["home", "game", "Game.unit"] =
      some (.file (.text closedPool.render)) := by
  have hw := weaves_pool hs
  have hcompleted := completed_pool hs
  rw [completed_iff_weaveFiles hw, paths_pool hs] at hcompleted
  have hnode := (PassPlan.node?_weaveFiles (WeaverList.keepsOutline_ofOptions .default)
    (agrees_resolver poolHost poolFiles) distinct_pool (rereads_pool (.refl _)) hcompleted
    ["home", "game", "Game.unit"]).1 gamePath (by simp) poolUnit
    ⟨⟨_, takes_gamePath⟩, woven_pool.2⟩ follow_gamePath
  rw [hw.finish_eq, (networkConfig.weave_eq_weaveFiles poolHost poolFiles s).1, paths_pool hs,
    hnode, woven_pool.1]

end

/-- The unit that refers to the other is compiled first, or last. -/
def poolFirst : PassState := ⟨.collecting, [gamePath, enginePath], false⟩

def poolLast : PassState := ⟨.collecting, [enginePath, gamePath], false⟩

/-- In both orders the disposal is sent: from the file of the other unit as it was, or as the pass
has written it. -/
theorem finish_perm_pool :
    ∃ report,
      (networkConfig.finish poolHost poolFiles poolLast).run.outcome = .ok (.completed report) ∧
      report.written.Perm [enginePath, gamePath] ∧ report.unchanged = [] ∧ report.skipped = [] ∧
      (networkConfig.finish poolHost poolFiles poolLast).files.node?
        ["home", "game", "Game.unit"] = some (.file (.text closedPool.render)) ∧
      ∀ l, (networkConfig.finish poolHost poolFiles poolFirst).files.node? l =
        (networkConfig.finish poolHost poolFiles poolLast).files.node? l := by
  have hswap : poolFirst.dirty.Perm poolLast.dirty := .swap _ _ _
  obtain ⟨hiff, hsame⟩ := finish_perm (o := .default) (by rfl) (by rfl) hswap (by simp [poolFirst])
    distinct_pool (rereadsWritten_pool (.refl _)) (rereadsWritten_pool hswap)
  have hfirst := completed_pool (s := poolFirst) rfl
  obtain ⟨report, hlast⟩ := hiff.1 ⟨_, hfirst⟩
  obtain ⟨hfiles, hwritten, hunchanged, hskipped⟩ := hsame _ _ hfirst hlast
  exact ⟨report, hlast, hwritten.symm.trans (.swap _ _ _), List.perm_nil.1 hunchanged.symm,
    List.perm_nil.1 hskipped.symm, (hfiles _).symm.trans (node?_pool rfl), hfiles⟩

end PassConfig

end Interpose
