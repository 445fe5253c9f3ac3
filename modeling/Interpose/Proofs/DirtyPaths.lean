import Interpose.Proofs.Callbacks
import Mathlib.Data.List.DropRight

/-!
Which paths are dirty when a compilation finishes.

A start forgets the dirty paths, a finish does not, and a unit that is compiled outside of a
compilation is added to what is there. So what an earlier pass has left stands in front. Main
statement: the dirty paths are exactly those compiled since the latest start or finish if and only if
what that finish has left is a front part of them.
-/

namespace Interpose

/-! ### Adding paths, each once -/

namespace PassState

/-- Behind the dirty paths come the added ones that are not among them, each once. -/
lemma dirty_foldl_addCompiled (ps : List Path) (s : PassState) :
    (ps.foldl addCompiled s).dirty =
      s.dirty ++ (ps.filter fun p => !s.dirty.contains p).eraseDups := by
  induction ps generalizing s with
  | nil => simp
  | cons p ps ih =>
    rw [List.foldl_cons, ih]
    by_cases hp : s.dirty.contains p = true
    · have hadd : (s.addCompiled p).dirty = s.dirty := if_pos hp
      rw [hadd, List.filter_cons_of_neg (by simp [hp])]
    · have hadd : (s.addCompiled p).dirty = s.dirty ++ [p] := if_neg hp
      have hfilter : (ps.filter fun q => !(s.dirty ++ [p]).contains q) =
          (ps.filter fun q => !s.dirty.contains q).filter fun q => !q == p := by
        rw [List.filter_filter]
        refine List.filter_congr fun q _ => ?_
        simp [List.contains_append, Bool.and_comm]
      rw [hadd, hfilter, List.filter_cons_of_pos (by simpa using hp), List.eraseDups_cons,
        List.append_assoc]
      rfl

end PassState

/-- A front part of a list without repetitions is what the rest is added to. -/
lemma append_eraseDups_filter_iff {ds ps : List Path} :
    ds ++ (ps.filter fun p => !ds.contains p).eraseDups = ps.eraseDups ↔ ds <+: ps.eraseDups := by
  constructor
  · exact fun h => ⟨_, h⟩
  · intro h
    induction ds generalizing ps with
    | nil =>
      have hall : (ps.filter fun p => !([] : List Path).contains p) = ps := by simp
      rw [hall, List.nil_append]
    | cons d ds ih =>
      -- the list has repetitions of its head taken out first
      rcases ps with _ | ⟨p, ps⟩
      · simp at h
      · rw [List.eraseDups_cons, List.cons_prefix_cons] at h
        obtain ⟨rfl, h⟩ := h
        have hfilter : ((d :: ps).filter fun q => !(d :: ds).contains q) =
            (ps.filter fun q => !q == d).filter fun q => !ds.contains q := by
          rw [List.filter_cons_of_neg (by simp), List.filter_filter]
          refine List.filter_congr fun q _ => ?_
          simp [List.contains_cons, Bool.and_comm]
        rw [List.eraseDups_cons, hfilter, List.cons_append, ih h]

/-! ### Runs -/

def Callback.path? : Callback → Option Path
  | .compiled p => some p
  | _ => none

/-- The paths of the units compiled since the latest start or finish of a run, or since its
beginning. -/
def compiledSince (cs : List Callback) : List Path :=
  (cs.rtakeWhile Callback.isCompiled).filterMap Callback.path?

/-- The run up to its latest start or finish. -/
def upToBoundary (cs : List Callback) : List Callback := cs.rdropWhile Callback.isCompiled

namespace PassConfig

variable {config : PassConfig} {host : Host} {fs : Files} {s : PassState}

/-- The paths that were dirty right behind the latest start or finish of a run. -/
def leftDirty (config : PassConfig) (cs : List Callback) : List Path :=
  (config.stateAfter (upToBoundary cs)).dirty

lemma foldl_after_of_isCompiled {cs : List Callback} (h : ∀ c ∈ cs, c.isCompiled = true) :
    cs.foldl config.after s = (cs.filterMap Callback.path?).foldl PassState.addCompiled s := by
  induction cs generalizing s with
  | nil => rfl
  | cons c cs ih =>
    obtain ⟨hc, hcs⟩ := List.forall_mem_cons.1 h
    cases c with
    | started => cases hc
    | compiled p => exact ih hcs
    | finished host fs => cases hc

lemma dirty_stateAfter (config : PassConfig) (cs : List Callback) :
    (config.stateAfter cs).dirty = config.leftDirty cs ++
      ((compiledSince cs).filter fun p => !(config.leftDirty cs).contains p).eraseDups := by
  have hsplit : upToBoundary cs ++ cs.rtakeWhile Callback.isCompiled = cs :=
    List.rdropWhile_append_rtakeWhile
  have hstate := stateAfter_append config (upToBoundary cs)
    (cs.rtakeWhile Callback.isCompiled)
  rw [hsplit, foldl_after_of_isCompiled fun c hc => List.mem_rtakeWhile_imp hc] at hstate
  rw [hstate, PassState.dirty_foldl_addCompiled]
  rfl

/-- A finish keeps the dirty paths; a pass over all units makes all of them dirty. -/
lemma Ends.dirty_eq {r : PassResult} (h : Ends config host fs s r) :
    r.state.dirty = s.dirty ∨ s.dirty = [] ∧ r.state.dirty = host.units.map (·.outputPath) := by
  cases h with
  | leftOut reason => exact .inl rfl
  | asked entry reason first => exact .inl rfl
  | wove =>
    rw [(config.weave_state host fs s).1]
    by_cases hd : s.dirty.isEmpty = true
    · exact .inr ⟨List.isEmpty_iff.1 hd, if_pos hd⟩
    · exact .inl (if_neg hd)

/-- **What is dirty**, after every run from a new state: what was left dirty at the latest start or
finish, and behind it the paths compiled since that are not among it, each once. These are exactly
the paths compiled since, in the order of their first occurrence, if and only if what was left is a
front part of them. Nothing is left at the beginning and by a start; a finish leaves the paths that
were dirty, or those of all units if it has woven them all. -/
theorem dirty_eq_compiledSince_iff (config : PassConfig) (cs : List Callback) :
    (config.stateAfter cs).dirty = config.leftDirty cs ++
      ((compiledSince cs).filter fun p => !(config.leftDirty cs).contains p).eraseDups ∧
    ((config.stateAfter cs).dirty = (compiledSince cs).eraseDups ↔
      config.leftDirty cs <+: (compiledSince cs).eraseDups) ∧
    (upToBoundary cs = [] → config.leftDirty cs = []) ∧
    (∀ before, upToBoundary cs = before ++ [.started] → config.leftDirty cs = []) ∧
    ∀ before host fs, upToBoundary cs = before ++ [.finished host fs] →
      config.leftDirty cs = (config.stateAfter before).dirty ∨
        (config.stateAfter before).dirty = [] ∧
          config.leftDirty cs = host.units.map (·.outputPath) := by
  have hdirty := config.dirty_stateAfter cs
  refine ⟨hdirty, ?_, fun h => ?_, fun before h => ?_, fun before host fs h => ?_⟩
  · rw [hdirty]
    exact append_eraseDups_filter_iff
  · rw [leftDirty, h]
    rfl
  · rw [leftDirty, h, stateAfter_concat]
    rfl
  · rw [leftDirty, h, stateAfter_concat]
    exact (finish_ends config host fs (config.stateAfter before)).dirty_eq

/-- A unit is compiled and its pass finishes; then another one is compiled outside of a
compilation. -/
def strayRun : List Callback :=
  [.started, .compiled gamePath, .finished gameHost gameFiles, .compiled ⟨"Ui.unit"⟩]

/-- The path of the finished pass is dirty again, though its unit was not compiled again. -/
theorem dirty_strayRun : (gameConfig.stateAfter strayRun).dirty ≠
    (compiledSince strayRun).eraseDups := by
  have hdirty : (gameConfig.stateAfter strayRun).dirty.map (·.text) = ["Game.unit", "Ui.unit"] := by
    decide +kernel
  have hsince : (compiledSince strayRun).eraseDups.map (·.text) = ["Ui.unit"] := by
    decide +kernel
  intro h
  rw [h, hsince] at hdirty
  exact absurd hdirty (by decide)

end PassConfig

end Interpose
