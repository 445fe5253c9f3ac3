import Interpose.Proofs.PassProgress
import Interpose.Proofs.References
import Interpose.Proofs.UnitText

/-!
What a finished compilation does to the files of a project.

Main statement: a pass that is left out or asks for a rebuild changes no file; a completed one has
written exactly the files whose units were taken and changed, and nothing else; and a weaver that
fails leaves its file and all later ones as they were.
-/

namespace Interpose.PassConfig

/-- The paths that a pass comes to: those of the dirty units, or of all units if none is dirty. -/
def paths (host : Host) (s : PassState) : List Path :=
  if s.dirty.isEmpty then host.units.map (·.outputPath) else s.dirty

/-- What stays the same during a pass. -/
def plan (config : PassConfig) (host : Host) (fs : Files) : PassPlan :=
  ⟨config.weavers, host.units,
    ⟨(ExclusionSettings.load fs config.settingsPath host.units).2, host.releaseBuild⟩,
    host.defines Define.verboseLogging⟩

/-- The resolver that a pass starts with. -/
def resolver (host : Host) : Resolver := (Resolver.ofUnits host.units).1

variable (config : PassConfig) (host : Host) (fs : Files) (s : PassState)

/-- The pass when it has come to the end of its paths, or has failed before. -/
def atEnd : OnFiles PassReport :=
  (config.plan host fs).upTo fs (resolver host) (paths host s) (paths host s).length

lemma weave_files : (config.weave host fs s).files = (config.atEnd host fs s).files ∧
    (config.weave host fs s).run.outcome =
      (config.atEnd host fs s).run.outcome.map PassOutcome.completed := by
  have hend : config.atEnd host fs s =
      (config.plan host fs).weaveFiles fs (resolver host) .empty (paths host s) := by
    rw [atEnd, PassPlan.upTo, List.take_length]
  rw [hend]
  rcases h : ((config.plan host fs).weaveFiles fs (resolver host) .empty
    (paths host s)).run.outcome with e | report <;> unfold plan resolver paths at h ⊢ <;>
    unfold weave <;> simp only [h, true_and] <;> rfl

/-- A compilation that finishes leaves the files alone, or weaves. -/
lemma finish_cases :
    ((config.finish host fs s).files = fs ∧
      ((∃ reason, (config.finish host fs s).run.outcome = .ok (.skipped reason)) ∨
        ∃ reason, (config.finish host fs s).run.outcome = .ok (.rebuildRequested reason))) ∨
    config.finish host fs s = config.weave host fs s := by
  unfold finish
  split
  · exact .inl ⟨rfl, .inl ⟨_, rfl⟩⟩
  · split
    · exact .inl ⟨rfl, .inl ⟨_, rfl⟩⟩
    · split
      · exact .inl ⟨rfl, .inr ⟨_, rfl⟩⟩
      · split
        · split
          · exact .inl ⟨rfl, .inl ⟨_, rfl⟩⟩
          · exact .inl ⟨rfl, .inr ⟨_, rfl⟩⟩
        · exact .inr rfl

/-- **What a pass does to the files**: a compilation whose finish is left out or asks for a rebuild
leaves all files alone. A completed pass has written the paths whose units were taken and changed by
the weavers, their files hold the woven units, and no other file has changed. An error comes from
the weavers at one of the paths; the files of this path and of all later ones are as they were, and
before it the same has been written as in a completed pass. -/
theorem finish_files (hd : (paths host s).Pairwise fun p q => ¬fs.SameFile p q) :
    (∀ reason, (config.finish host fs s).run.outcome = .ok (.skipped reason) →
      (config.finish host fs s).files = fs) ∧
    (∀ reason, (config.finish host fs s).run.outcome = .ok (.rebuildRequested reason) →
      (config.finish host fs s).files = fs) ∧
    (∀ report, (config.finish host fs s).run.outcome = .ok (.completed report) →
      (∀ l, (config.finish host fs s).files.node? l ≠ fs.node? l →
        ∃ p ∈ report.written, fs.follow p = .ok l) ∧
      (∀ p, p ∈ report.written ↔
        ∃ k u, (config.plan host fs).Writes fs (resolver host) (paths host s) k p u) ∧
      ∀ k p u, (config.plan host fs).Writes fs (resolver host) (paths host s) k p u →
        (config.finish host fs s).files.read p =
          .ok ((config.plan host fs).wovenAt fs (resolver host) (paths host s) k u).value.render) ∧
    ∀ e, (config.finish host fs s).run.outcome = .error e →
      ∃ k p d u, (paths host s)[k]? = some p ∧ (config.plan host fs).Takes fs p d u ∧
        ((config.plan host fs).wovenAt fs (resolver host) (paths host s) k u).run.outcome =
          .error e ∧
        (∀ i q, k ≤ i → (paths host s)[i]? = some q →
          (config.finish host fs s).files.lookup? q = fs.lookup? q) ∧
        (∀ l, (config.finish host fs s).files.node? l ≠ fs.node? l → ∃ j < k, ∃ q v,
          (config.plan host fs).Writes fs (resolver host) (paths host s) j q v ∧
            fs.follow q = .ok l) ∧
        ∀ j < k, ∀ q v, (config.plan host fs).Writes fs (resolver host) (paths host s) j q v →
          (config.finish host fs s).files.read q =
            .ok ((config.plan host fs).wovenAt fs (resolver host) (paths host s) j
              v).value.render := by
  rcases config.finish_cases host fs s with ⟨hfiles, ⟨reason, hout⟩ | ⟨reason, hout⟩⟩ | hweave
  · rw [hfiles, hout]
    exact ⟨fun _ _ => rfl, fun _ _ => rfl, fun _ h => (by cases h), fun _ h => (by cases h)⟩
  · rw [hfiles, hout]
    exact ⟨fun _ _ => rfl, fun _ _ => rfl, fun _ h => (by cases h), fun _ h => (by cases h)⟩
  · obtain ⟨hfiles, hout⟩ := config.weave_files host fs s
    rw [hweave, hfiles, hout]
    rcases hend : (config.atEnd host fs s).run.outcome with e | report
    · refine ⟨fun _ h => (by cases h), fun _ h => (by cases h), fun _ h => (by cases h), ?_⟩
      intro e' he
      cases he
      obtain ⟨k, before, hprogress, hsame, p, d, u, hp, htakes, hwoven⟩ :=
        PassPlan.exists_failure hd (Nat.le_refl _) hend
      refine ⟨k, p, d, u, hp, htakes, hwoven, fun i q hi hq => ?_, fun l hl => ?_, ?_⟩
      · rw [atEnd, hsame]
        exact hprogress.lookup? hd hi hq
      · rw [atEnd, hsame] at hl
        exact hprogress.changed l hl
      · rw [atEnd, hsame]
        exact hprogress.holds
    · refine ⟨fun _ h => (by cases h), fun _ h => (by cases h), fun report' h => ?_,
        fun _ h => (by cases h)⟩
      cases h
      have hprogress := PassPlan.progress hd (Nat.le_refl _) hend
      -- whatever is written stands among the paths
      have hlt {k : Nat} {p : Path} {u : CompiledUnit} (hw : (config.plan host fs).Writes fs
          (resolver host) (paths host s) k p u) : k < (paths host s).length :=
        (List.getElem?_eq_some_iff.1 hw.path).1
      refine ⟨fun l hl => ?_, fun p => ?_, fun k p u hw => hprogress.holds k (hlt hw) p u hw⟩
      · obtain ⟨j, hj, p, u, hw, hf⟩ := hprogress.changed l hl
        exact ⟨p, (hprogress.written p).2 ⟨j, hj, u, hw⟩, hf⟩
      · rw [hprogress.written]
        constructor
        · rintro ⟨j, -, u, hw⟩
          exact ⟨j, u, hw⟩
        · rintro ⟨j, u, hw⟩
          exact ⟨j, hlt hw, u, hw⟩

/-! #### A project of three units, one of which is not there -/

def gamePath : Path := ⟨"Game.unit"⟩

/-- A path from the root. -/
def libraryPath : Path := ⟨"/lib/Library.unit"⟩

/-- A path to the directory above. -/
def gonePath : Path := ⟨"../Gone.unit"⟩

def gameFiles : Files :=
  ⟨["home", "game"],
    [(["home", "game", "Game.unit"], .file (.text (CompiledUnit.ofName "Game").render)),
      (["lib"], .directory),
      (["lib", "Library.unit"], .file (.text (CompiledUnit.ofName "Library").render))]⟩

def gameHost : Host :=
  ⟨[⟨"Game", gamePath, .ofList [Define.enabled], [], [], false⟩,
    ⟨"Gone", gonePath, .ofList [Define.enabled], [], [], false⟩,
    ⟨"Library", libraryPath, .ofList [Define.enabled], [], [], false⟩], .empty, false⟩

def linked (u : CompiledUnit) : CompiledUnit := { u with references := u.references ++ ["Log"] }

/-- The one weaver adds a reference to every unit. -/
def gameConfig : PassConfig :=
  ⟨⟨[⟨"linking", id, fun _ u => ⟨linked u, pure true⟩⟩]⟩, defaultWeaverUnit,
    ⟨ExclusionSettings.fileName⟩⟩

lemma writes_gameFiles :
    (gameConfig.plan gameHost gameFiles).Writes gameFiles (resolver gameHost)
      (paths gameHost .initial) 0 gamePath (.ofName "Game") ∧
    (gameConfig.plan gameHost gameFiles).Writes gameFiles (resolver gameHost)
      (paths gameHost .initial) 2 libraryPath (.ofName "Library") := by
  have hparse (name : String) :
      CompiledUnit.parse? (CompiledUnit.ofName name).render = some (.ofName name) := by
    rw [CompiledUnit.parse?_render]
    rfl
  refine ⟨⟨by rfl, ⟨_, by rfl, by rfl, by rfl, ?_, by rfl⟩, by rfl⟩,
    ⟨by rfl, ⟨_, by rfl, by rfl, by rfl, ?_, by rfl⟩, by rfl⟩⟩
  · exact Files.readUnit_of_text (by rfl) (by rfl) (hparse "Game")
  · exact Files.readUnit_of_text (by rfl) (by rfl) (hparse "Library")

/-- The units that are there are written, wherever they lie, and nothing else changes. -/
theorem finish_files_game :
    ((paths gameHost .initial).Pairwise fun p q => ¬gameFiles.SameFile p q) ∧
    ∃ report, (gameConfig.finish gameHost gameFiles .initial).run.outcome =
        .ok (.completed report) ∧
      gamePath ∈ report.written ∧ libraryPath ∈ report.written ∧
      (∀ l, (gameConfig.finish gameHost gameFiles .initial).files.node? l ≠ gameFiles.node? l →
        ∃ p ∈ report.written, gameFiles.follow p = .ok l) ∧
      (gameConfig.finish gameHost gameFiles .initial).files.read gamePath =
        .ok (linked (.ofName "Game")).render ∧
      (gameConfig.finish gameHost gameFiles .initial).files.read libraryPath =
        .ok (linked (.ofName "Library")).render := by
  have hd : (paths gameHost .initial).Pairwise fun p q => ¬gameFiles.SameFile p q := by
    have hpaths : paths gameHost .initial = [gamePath, gonePath, libraryPath] := by rfl
    have hgame : gameFiles.follow gamePath = .ok ["home", "game", "Game.unit"] := by rfl
    have hgone : gameFiles.follow gonePath = .ok ["home", "Gone.unit"] := by rfl
    have hlibrary : gameFiles.follow libraryPath = .ok ["lib", "Library.unit"] := by rfl
    rw [hpaths]
    simp [Files.SameFile, hgame, hgone, hlibrary]
  have hweave : gameConfig.finish gameHost gameFiles .initial =
      gameConfig.weave gameHost gameFiles .initial := by
    have hweavers : gameConfig.weavers.isEmpty = false := rfl
    have henabled : gameHost.defines Define.enabled = true := by decide +kernel
    have hcompiled : PassState.initial.hasCompiled gameConfig.weaverUnit = false := rfl
    have hunits : gameHost.units.isEmpty = false := rfl
    simp [finish, hweavers, henabled, hcompiled, hunits]
  obtain ⟨-, -, hcompleted, hfailed⟩ := finish_files gameConfig gameHost gameFiles .initial hd
  rcases h : (gameConfig.finish gameHost gameFiles .initial).run.outcome with e | outcome
  · -- the weaver fails nowhere
    obtain ⟨k, p, d, u, -, -, hfails, -⟩ := hfailed e h
    cases hfails
  · obtain ⟨report, rfl⟩ : ∃ report, outcome = .completed report := by
      rw [hweave, (gameConfig.weave_files gameHost gameFiles .initial).2] at h
      rcases hend : (gameConfig.atEnd gameHost gameFiles .initial).run.outcome with e | report
      · rw [hend] at h
        cases h
      · rw [hend] at h
        cases h
        exact ⟨report, rfl⟩
    obtain ⟨hchanged, hiff, hholds⟩ := hcompleted report h
    obtain ⟨hgame, hlibrary⟩ := writes_gameFiles
    exact ⟨hd, report, rfl, (hiff gamePath).2 ⟨0, _, hgame⟩, (hiff libraryPath).2 ⟨2, _, hlibrary⟩,
      hchanged, hholds 0 _ _ hgame, hholds 2 _ _ hlibrary⟩

end Interpose.PassConfig
