import Interpose.Pass
import Interpose.Proofs.FileChanges
import Mathlib.Tactic.ByContra

/-!
What a pass has written when it comes to a path.

A pass comes to its paths one after the other and overwrites a file only where the weavers changed
the unit that it holds. As no two paths lead to one file, the unit at a path is still the one that
was there at the start. Main statements: before every path exactly the files of the units that were
taken and changed have been written, each with the text of the woven unit; and a pass that fails has
come to a path where the weavers failed.
-/

namespace Interpose

open Files (SameTree SameFile)

namespace PassPlan

/-! ### One path -/

/-- The file at a path holds a unit that the pass weaves. -/
structure Takes (plan : PassPlan) (fs : Files) (p : Path) (d : UnitDescriptor)
    (u : CompiledUnit) : Prop where
  present : fs.has p = true
  listed : plan.units.find? (·.outputPath == p) = some d
  allowed : plan.policy.skipReason? d = none
  readable : fs.readUnit p = .ok u
  unmarked : Policy.weavesCompiled u = true

/-- What the weavers make of a unit, given the files and the resolver at that time. -/
def woven (plan : PassPlan) (fs : Files) (r : Resolver) (u : CompiledUnit) : Woven CompiledUnit :=
  plan.weavers.weave ⟨plan.hierarchyFor (r.hierarchyFor fs u).hierarchy u, plan.verbose⟩ u

/-- What can happen at one path: the files after it, and the outcome. -/
inductive Step (plan : PassPlan) (fs : Files) (r : Resolver) (p : Path) :
    Files → Except Fault UnitResult → Prop
  | skipped {reason : SkipReason} (left : ∀ d u, ¬plan.Takes fs p d u) :
      Step plan fs r p fs (.ok (.skipped reason))
  | failed {d : UnitDescriptor} {u : CompiledUnit} {e : Fault} (takes : plan.Takes fs p d u)
      (weaves : (plan.woven fs r u).run.outcome = .error e) : Step plan fs r p fs (.error e)
  | unchanged {d : UnitDescriptor} {u : CompiledUnit} (takes : plan.Takes fs p d u)
      (weaves : (plan.woven fs r u).run.outcome = .ok false) :
      Step plan fs r p fs (.ok .unchanged)
  | written {d : UnitDescriptor} {u : CompiledUnit} {l : Location} {c : Content}
      (takes : plan.Takes fs p d u) (weaves : (plan.woven fs r u).run.outcome = .ok true)
      (leads : fs.follow p = .ok l) (holds : fs.node? l = some (.file c)) :
      Step plan fs r p (fs.insert l (.file (.text (plan.woven fs r u).value.render)))
        (.ok .written)

variable {plan : PassPlan} {fs fs' : Files} {r : Resolver} {p : Path} {d : UnitDescriptor}
  {u : CompiledUnit}

lemma unitAt_eq_ok_iff : plan.unitAt fs p = .ok (d, u) ↔ plan.Takes fs p d u := by
  constructor
  · intro h
    unfold unitAt at h
    split at h
    · cases h
    · next hhas =>
      split at h
      · cases h
      · next d' hd =>
        split at h
        · cases h
        · next hskip =>
          split at h
          · cases h
          · next u' hu =>
            split at h
            · next hw =>
              cases h
              exact ⟨by simpa using hhas, hd, hskip, hu, hw⟩
            · cases h
  · rintro ⟨hhas, hd, hskip, hu, hw⟩
    simp [unitAt, hhas, hd, hskip, hu, hw]

/-- The file of a unit that is taken. -/
lemma Takes.exists_file (h : plan.Takes fs p d u) :
    ∃ l c, fs.follow p = .ok l ∧ fs.node? l = some (.file c) := by
  have hu := h.readable
  unfold Files.readUnit Files.readDocument at hu
  split at hu
  · cases hu
  · next s hs =>
    obtain ⟨l, hl, hn⟩ := Files.exists_file_of_read hs
    exact ⟨l, .text s, hl, hn⟩

lemma Takes.unique {d' : UnitDescriptor} {u' : CompiledUnit} (h : plan.Takes fs p d u)
    (h' : plan.Takes fs p d' u') : d = d' ∧ u = u' := by
  have hd := h.listed.symm.trans h'.listed
  have hu := h.readable.symm.trans h'.readable
  cases hd
  cases hu
  exact ⟨rfl, rfl⟩

/-- Whether a unit is taken depends on the node that the path leads to. -/
lemma takes_congr (ht : SameTree fs fs') (hl : fs.lookup? p = fs'.lookup? p) :
    plan.Takes fs p d u ↔ plan.Takes fs' p d u := by
  have hread : fs.readUnit p = fs'.readUnit p := by
    unfold Files.readUnit Files.readDocument
    rw [Files.read_congr (Files.follow_congr ht p) hl]
  constructor
  · rintro ⟨hhas, hd, hskip, hu, hw⟩
    exact ⟨Files.has_congr ht p ▸ hhas, hd, hskip, hread ▸ hu, hw⟩
  · rintro ⟨hhas, hd, hskip, hu, hw⟩
    exact ⟨Files.has_congr ht p ▸ hhas, hd, hskip, hread ▸ hu, hw⟩

lemma weaveFile_step (plan : PassPlan) (fs : Files) (r : Resolver) (p : Path) :
    Step plan fs r p (plan.weaveFile fs r p).files (plan.weaveFile fs r p).run.outcome := by
  rcases hu : plan.unitAt fs p with ⟨reason, log⟩ | ⟨d, u⟩
  · have hleft (d : UnitDescriptor) (u : CompiledUnit) : ¬plan.Takes fs p d u := by
      intro h
      rw [unitAt_eq_ok_iff.2 h] at hu
      cases hu
    have hfile : plan.weaveFile fs r p = ⟨fs, r, ⟨log, .ok (.skipped reason)⟩⟩ := by
      rw [weaveFile, hu]
    rw [hfile]
    exact .skipped hleft
  · have htakes := unitAt_eq_ok_iff.1 hu
    obtain ⟨l, c, hf, hn⟩ := htakes.exists_file
    have hwrite := Files.write_of_file hf hn (plan.woven fs r u).value.render
    have hunit : fs.writeUnit (plan.woven fs r u).value p =
        .ok (fs.insert l (.file (.text (plan.woven fs r u).value.render))) := by
      unfold CompiledUnit.render at hwrite
      unfold Files.writeUnit Files.writeDocument
      rw [hwrite]
      rfl
    unfold weaveFile
    simp only [hu]
    rcases ho : (plan.woven fs r u).run.outcome with e | _ | _
    · have hout := ho
      unfold woven at hout
      simp only [hout]
      exact .failed htakes ho
    · have hout := ho
      unfold woven at hout
      simp only [hout]
      exact .unchanged htakes ho
    · have hout := ho
      have hfile := Step.written htakes ho hf hn
      unfold woven at hout hunit hfile
      simp only [hout, hunit]
      exact hfile

/-! ### The first paths -/

variable {ps : List Path} {report : PassReport}

/-- Behind a path that went through the list goes on. -/
lemma weaveFiles_cons_of_ok {q : Path} {result : UnitResult}
    (hq : (plan.weaveFile fs r q).run.outcome = .ok result) (report : PassReport)
    (ps : List Path) :
    (plan.weaveFiles fs r report (q :: ps)).files =
        (plan.weaveFiles (plan.weaveFile fs r q).files (plan.weaveFile fs r q).resolver
          (report.add q result) ps).files ∧
      (plan.weaveFiles fs r report (q :: ps)).resolver =
        (plan.weaveFiles (plan.weaveFile fs r q).files (plan.weaveFile fs r q).resolver
          (report.add q result) ps).resolver ∧
      (plan.weaveFiles fs r report (q :: ps)).run.outcome =
        (plan.weaveFiles (plan.weaveFile fs r q).files (plan.weaveFile fs r q).resolver
          (report.add q result) ps).run.outcome := by
  simp [weaveFiles, hq, Traced.after]

/-- A failure leaves out the rest. -/
lemma weaveFiles_cons_of_error {q : Path} {e : Fault}
    (hq : (plan.weaveFile fs r q).run.outcome = .error e) (report : PassReport)
    (ps : List Path) :
    (plan.weaveFiles fs r report (q :: ps)).files = (plan.weaveFile fs r q).files ∧
      (plan.weaveFiles fs r report (q :: ps)).run.outcome = .error e := by
  simp [weaveFiles, hq]

/-- One more path at the end of a list that went through. -/
lemma weaveFiles_concat_of_ok {report' : PassReport}
    (h : (plan.weaveFiles fs r report ps).run.outcome = .ok report') (p : Path) :
    (plan.weaveFiles fs r report (ps ++ [p])).files =
        (plan.weaveFile (plan.weaveFiles fs r report ps).files
          (plan.weaveFiles fs r report ps).resolver p).files ∧
      (plan.weaveFiles fs r report (ps ++ [p])).run.outcome =
        (plan.weaveFile (plan.weaveFiles fs r report ps).files
          (plan.weaveFiles fs r report ps).resolver p).run.outcome.map (report'.add p) := by
  induction ps generalizing fs r report with
  | nil =>
    have hnil : plan.weaveFiles fs r report [] = ⟨fs, r, pure report⟩ := rfl
    rw [List.nil_append, hnil]
    cases h
    rcases hp : (plan.weaveFile fs r p).run.outcome with e | result
    · exact weaveFiles_cons_of_error hp _ []
    · obtain ⟨hfiles, -, hout⟩ := weaveFiles_cons_of_ok hp _ []
      exact ⟨hfiles, hout⟩
  | cons q ps ih =>
    rcases hq : (plan.weaveFile fs r q).run.outcome with e | result
    · rw [(weaveFiles_cons_of_error hq report ps).2] at h
      cases h
    · obtain ⟨hfiles, hres, hout⟩ := weaveFiles_cons_of_ok hq report ps
      obtain ⟨hfiles', -, hout'⟩ := weaveFiles_cons_of_ok hq report (ps ++ [p])
      rw [hout] at h
      rw [List.cons_append, hfiles', hout', hfiles, hres]
      exact ih h

/-- After a failure one more path changes nothing. -/
lemma weaveFiles_concat_of_error {e : Fault}
    (h : (plan.weaveFiles fs r report ps).run.outcome = .error e) (p : Path) :
    (plan.weaveFiles fs r report (ps ++ [p])).files = (plan.weaveFiles fs r report ps).files ∧
      (plan.weaveFiles fs r report (ps ++ [p])).run.outcome = .error e := by
  induction ps generalizing fs r report with
  | nil => cases h
  | cons q ps ih =>
    rcases hq : (plan.weaveFile fs r q).run.outcome with e' | result
    · obtain ⟨hfiles, hout⟩ := weaveFiles_cons_of_error hq report ps
      obtain ⟨hfiles', hout'⟩ := weaveFiles_cons_of_error hq report (ps ++ [p])
      rw [List.cons_append, hfiles, hfiles', hout', ← h, hout]
      exact ⟨rfl, rfl⟩
    · obtain ⟨hfiles, -, hout⟩ := weaveFiles_cons_of_ok hq report ps
      obtain ⟨hfiles', -, hout'⟩ := weaveFiles_cons_of_ok hq report (ps ++ [p])
      rw [hout] at h
      rw [List.cons_append, hfiles, hfiles', hout']
      exact ih h

/-- The pass when it comes to its `k`-th path. -/
def upTo (plan : PassPlan) (fs : Files) (r : Resolver) (ps : List Path) (k : Nat) :
    OnFiles PassReport := plan.weaveFiles fs r .empty (ps.take k)

/-- What the weavers make of a unit at the `k`-th path. -/
def wovenAt (plan : PassPlan) (fs : Files) (r : Resolver) (ps : List Path) (k : Nat)
    (u : CompiledUnit) : Woven CompiledUnit :=
  plan.woven (plan.upTo fs r ps k).files (plan.upTo fs r ps k).resolver u

/-- The unit at the `k`-th path is taken and the weavers change it. -/
structure Writes (plan : PassPlan) (fs : Files) (r : Resolver) (ps : List Path) (k : Nat)
    (p : Path) (u : CompiledUnit) : Prop where
  path : ps[k]? = some p
  takes : ∃ d, plan.Takes fs p d u
  changes : (plan.wovenAt fs r ps k u).run.outcome = .ok true

/-- What has been written before the `k`-th path. -/
structure Progress (plan : PassPlan) (fs : Files) (r : Resolver) (ps : List Path) (k : Nat)
    (report : PassReport) : Prop where
  tree : SameTree fs (plan.upTo fs r ps k).files
  changed : ∀ l, (plan.upTo fs r ps k).files.node? l ≠ fs.node? l →
    ∃ j < k, ∃ p u, plan.Writes fs r ps j p u ∧ fs.follow p = .ok l
  written : ∀ p, p ∈ report.written ↔ ∃ j < k, ∃ u, plan.Writes fs r ps j p u
  holds : ∀ j < k, ∀ p u, plan.Writes fs r ps j p u →
    (plan.upTo fs r ps k).files.read p = .ok (plan.wovenAt fs r ps j u).value.render

variable {k : Nat}

lemma Writes.exists_file (h : plan.Writes fs r ps k p u) :
    ∃ l c, fs.follow p = .ok l ∧ fs.node? l = some (.file c) := by
  obtain ⟨d, htakes⟩ := h.takes
  exact htakes.exists_file

/-- Two paths of the list that lead to one file are the same in place. -/
lemma eq_of_sameFile (hd : ps.Pairwise fun p q => ¬fs.SameFile p q) {i j : Nat} {p q : Path}
    (hi : ps[i]? = some p) (hj : ps[j]? = some q) (h : fs.SameFile p q) : i = j := by
  obtain ⟨hi', rfl⟩ := List.getElem?_eq_some_iff.1 hi
  obtain ⟨hj', rfl⟩ := List.getElem?_eq_some_iff.1 hj
  rw [List.pairwise_iff_getElem] at hd
  rcases Nat.lt_trichotomy i j with hlt | heq | hgt
  · exact absurd h (hd i j hi' hj' hlt)
  · exact heq
  · obtain ⟨l, c, hp, hq, hn⟩ := h
    exact absurd ⟨l, c, hq, hp, hn⟩ (hd j i hj' hi' hgt)

/-- At a path that is still to come the files are as at the start. -/
lemma Progress.lookup? (hd : ps.Pairwise fun p q => ¬fs.SameFile p q)
    (h : plan.Progress fs r ps k report) {i : Nat} (hk : k ≤ i) (hp : ps[i]? = some p) :
    (plan.upTo fs r ps k).files.lookup? p = fs.lookup? p := by
  refine Files.lookup?_congr h.tree fun l hl => ?_
  by_contra hne
  obtain ⟨j, hj, q, u, hw, hq⟩ := h.changed l hne
  obtain ⟨l', c, hl', hn⟩ := hw.exists_file
  rw [hq] at hl'
  cases hl'
  have := eq_of_sameFile hd hw.path hp ⟨l, c, hq, hl, hn⟩
  omega

/-- The unit at the next path is taken exactly if it was so at the start. -/
lemma Progress.takes_iff (hd : ps.Pairwise fun p q => ¬fs.SameFile p q)
    (h : plan.Progress fs r ps k report) (hp : ps[k]? = some p) (d : UnitDescriptor)
    (u : CompiledUnit) : plan.Takes (plan.upTo fs r ps k).files p d u ↔ plan.Takes fs p d u :=
  (takes_congr h.tree (h.lookup? hd (Nat.le_refl k) hp).symm).symm

lemma Writes.unique {q : Path} {u' : CompiledUnit} (h : plan.Writes fs r ps k p u)
    (h' : plan.Writes fs r ps k q u') : p = q ∧ u = u' := by
  have hpq := h.path.symm.trans h'.path
  cases hpq
  obtain ⟨d, htakes⟩ := h.takes
  obtain ⟨d', htakes'⟩ := h'.takes
  exact ⟨rfl, (htakes.unique htakes').2⟩

lemma take_succ_of_getElem? (hp : ps[k]? = some p) : ps.take (k + 1) = ps.take k ++ [p] := by
  rw [List.take_add_one, hp]
  rfl

lemma progress_zero : plan.Progress fs r ps 0 .empty where
  tree := .refl fs
  changed := fun l hl => absurd rfl hl
  written := by simp [PassReport.empty]
  holds := fun j hj => absurd hj (Nat.not_lt_zero j)

variable {report' : PassReport}

lemma Progress.succ_of_kept (h : plan.Progress fs r ps k report)
    (hfiles : (plan.upTo fs r ps (k + 1)).files = (plan.upTo fs r ps k).files)
    (hreport : report'.written = report.written) (hno : ∀ p u, ¬plan.Writes fs r ps k p u) :
    plan.Progress fs r ps (k + 1) report' := by
  have hlt {j : Nat} (hj : j < k + 1) {p : Path} {u : CompiledUnit}
      (hw : plan.Writes fs r ps j p u) : j < k := by
    rcases Nat.lt_succ_iff_lt_or_eq.1 hj with hlt | rfl
    · exact hlt
    · exact absurd hw (hno p u)
  refine ⟨?_, fun l hl => ?_, fun p => ?_, fun j hj p u hw => ?_⟩
  · rw [hfiles]
    exact h.tree
  · rw [hfiles] at hl
    obtain ⟨j, hj, hrest⟩ := h.changed l hl
    exact ⟨j, Nat.lt_succ_of_lt hj, hrest⟩
  · rw [hreport, h.written]
    constructor
    · rintro ⟨j, hj, hrest⟩
      exact ⟨j, Nat.lt_succ_of_lt hj, hrest⟩
    · rintro ⟨j, hj, u, hw⟩
      exact ⟨j, hlt hj hw, u, hw⟩
  · rw [hfiles]
    exact h.holds j (hlt hj hw) p u hw

lemma Progress.succ_of_written (hd : ps.Pairwise fun p q => ¬fs.SameFile p q)
    (h : plan.Progress fs r ps k report) (hw : plan.Writes fs r ps k p u) {l : Location}
    {c : Content} (hf : (plan.upTo fs r ps k).files.follow p = .ok l)
    (hn : (plan.upTo fs r ps k).files.node? l = some (.file c))
    (hfiles : (plan.upTo fs r ps (k + 1)).files = (plan.upTo fs r ps k).files.insert l
      (.file (.text (plan.wovenAt fs r ps k u).value.render)))
    (hreport : report'.written = report.written ++ [p]) :
    plan.Progress fs r ps (k + 1) report' := by
  have hf' : fs.follow p = .ok l := by rw [Files.follow_congr h.tree, hf]
  have htree : SameTree fs (plan.upTo fs r ps (k + 1)).files := by
    rw [hfiles]
    exact h.tree.trans (Files.insert_sameTree hn)
  have hnode {l' : Location} (hl : l' ≠ l) : (plan.upTo fs r ps (k + 1)).files.node? l' =
      (plan.upTo fs r ps k).files.node? l' := by
    rw [hfiles, Files.node?_insert_of_ne hl]
  refine ⟨htree, fun l' hl => ?_, fun q => ?_, fun j hj q v hv => ?_⟩
  · by_cases hll : l' = l
    · exact ⟨k, Nat.lt_succ_self k, p, u, hw, hll ▸ hf'⟩
    · rw [hnode hll] at hl
      obtain ⟨j, hj, hrest⟩ := h.changed l' hl
      exact ⟨j, Nat.lt_succ_of_lt hj, hrest⟩
  · rw [hreport, List.mem_append, h.written, List.mem_singleton]
    constructor
    · rintro (⟨j, hj, hrest⟩ | rfl)
      · exact ⟨j, Nat.lt_succ_of_lt hj, hrest⟩
      · exact ⟨k, Nat.lt_succ_self k, u, hw⟩
    · rintro ⟨j, hj, v, hv⟩
      rcases Nat.lt_succ_iff_lt_or_eq.1 hj with hlt | rfl
      · exact .inl ⟨j, hlt, v, hv⟩
      · exact .inr (hv.unique hw).1
  · rcases Nat.lt_succ_iff_lt_or_eq.1 hj with hlt | rfl
    · -- the file of an earlier path is another one
      have hkept : SameTree (plan.upTo fs r ps k).files (plan.upTo fs r ps (k + 1)).files := by
        rw [hfiles]
        exact Files.insert_sameTree hn
      have hlookup : (plan.upTo fs r ps (k + 1)).files.lookup? q =
          (plan.upTo fs r ps k).files.lookup? q := by
        refine Files.lookup?_congr hkept fun l' hl' => hnode ?_
        rintro rfl
        obtain ⟨l'', c', hl'', hc'⟩ := hv.exists_file
        rw [← Files.follow_congr h.tree, hl''] at hl'
        cases hl'
        have := eq_of_sameFile hd hv.path hw.path ⟨l', c', hl'', hf', hc'⟩
        omega
      rw [← h.holds j hlt q v hv]
      exact Files.read_congr (Files.follow_congr hkept q).symm hlookup
    · obtain ⟨rfl, rfl⟩ := hv.unique hw
      rw [hfiles]
      exact Files.read_insert hf hn _

lemma upTo_succ_of_ok (hk : (plan.upTo fs r ps k).run.outcome = .ok report)
    (hp : ps[k]? = some p) :
    (plan.upTo fs r ps (k + 1)).files = (plan.weaveFile (plan.upTo fs r ps k).files
        (plan.upTo fs r ps k).resolver p).files ∧
      (plan.upTo fs r ps (k + 1)).run.outcome = (plan.weaveFile (plan.upTo fs r ps k).files
        (plan.upTo fs r ps k).resolver p).run.outcome.map (report.add p) := by
  have h := weaveFiles_concat_of_ok hk p
  rw [← take_succ_of_getElem? hp] at h
  exact h

/-- One more path that goes through. -/
lemma Progress.succ (hd : ps.Pairwise fun p q => ¬fs.SameFile p q)
    (h : plan.Progress fs r ps k report)
    (hk : (plan.upTo fs r ps k).run.outcome = .ok report) (hp : ps[k]? = some p)
    (hout : (plan.upTo fs r ps (k + 1)).run.outcome = .ok report') :
    plan.Progress fs r ps (k + 1) report' := by
  obtain ⟨hfiles, houtcome⟩ := upTo_succ_of_ok hk hp
  rw [houtcome] at hout
  have hstep := weaveFile_step plan (plan.upTo fs r ps k).files (plan.upTo fs r ps k).resolver p
  -- the unit at this path, if there is one, is the one of the start
  have hwrites (q : Path) (v : CompiledUnit) (hw : plan.Writes fs r ps k q v) :
      ∃ d, plan.Takes (plan.upTo fs r ps k).files p d v := by
    have hpq := hp.symm.trans hw.path
    cases hpq
    obtain ⟨d, htakes⟩ := hw.takes
    exact ⟨d, (h.takes_iff hd hp d v).2 htakes⟩
  rcases hres : (plan.weaveFile (plan.upTo fs r ps k).files (plan.upTo fs r ps k).resolver
    p).run.outcome with e | result
  · rw [hres] at hout
    cases hout
  · rw [hres] at hout hstep
    cases hout
    generalize (plan.weaveFile (plan.upTo fs r ps k).files (plan.upTo fs r ps k).resolver
      p).files = files at hstep hfiles
    cases hstep with
    | skipped left =>
      refine h.succ_of_kept hfiles rfl fun q v hw => ?_
      obtain ⟨d, htakes⟩ := hwrites q v hw
      exact left d v htakes
    | @unchanged d u takes weaves =>
      refine h.succ_of_kept hfiles rfl fun q v hw => ?_
      obtain ⟨d', htakes⟩ := hwrites q v hw
      have hv := (takes.unique htakes).2
      have hchanges := hw.changes
      rw [wovenAt, ← hv, weaves] at hchanges
      cases hchanges
    | @written d u l c takes weaves leads holds =>
      exact h.succ_of_written hd ⟨hp, ⟨d, (h.takes_iff hd hp d u).1 takes⟩, weaves⟩ leads holds
        hfiles rfl

lemma progress (hd : ps.Pairwise fun p q => ¬fs.SameFile p q) (hk : k ≤ ps.length)
    (h : (plan.upTo fs r ps k).run.outcome = .ok report) : plan.Progress fs r ps k report := by
  induction k generalizing report with
  | zero =>
    cases h
    exact progress_zero
  | succ k ih =>
    have hp : ps[k]? = some ps[k] := List.getElem?_eq_getElem hk
    rcases ho : (plan.upTo fs r ps k).run.outcome with e | before
    · have herror := (weaveFiles_concat_of_error ho ps[k]).2
      rw [← take_succ_of_getElem? hp] at herror
      rw [upTo, herror] at h
      cases h
    · exact (ih (Nat.le_of_succ_le hk) ho).succ hd ho hp h

/-- A failure comes from the weavers, and leaves the files as they were when the pass came there. -/
lemma exists_failure (hd : ps.Pairwise fun p q => ¬fs.SameFile p q) (hk : k ≤ ps.length)
    {e : Fault} (h : (plan.upTo fs r ps k).run.outcome = .error e) :
    ∃ j before, plan.Progress fs r ps j before ∧
      (plan.upTo fs r ps k).files = (plan.upTo fs r ps j).files ∧
      ∃ p d u, ps[j]? = some p ∧ plan.Takes fs p d u ∧
        (plan.wovenAt fs r ps j u).run.outcome = .error e := by
  induction k with
  | zero => cases h
  | succ k ih =>
    have hp : ps[k]? = some ps[k] := List.getElem?_eq_getElem hk
    rcases ho : (plan.upTo fs r ps k).run.outcome with e' | before
    · obtain ⟨hfiles, hout⟩ := weaveFiles_concat_of_error ho ps[k]
      rw [← take_succ_of_getElem? hp] at hfiles hout
      rw [upTo, hout] at h
      cases h
      obtain ⟨j, before, hj, hsame, hrest⟩ := ih (Nat.le_of_succ_le hk) ho
      exact ⟨j, before, hj, hfiles.trans hsame, hrest⟩
    · have hprogress := progress hd (Nat.le_of_succ_le hk) ho
      obtain ⟨hfiles, hout⟩ := upTo_succ_of_ok ho hp
      have hstep := weaveFile_step plan (plan.upTo fs r ps k).files
        (plan.upTo fs r ps k).resolver ps[k]
      rw [hout] at h
      rcases hres : (plan.weaveFile (plan.upTo fs r ps k).files (plan.upTo fs r ps k).resolver
        ps[k]).run.outcome with e' | result
      · rw [hres] at h hstep
        cases h
        generalize (plan.weaveFile (plan.upTo fs r ps k).files (plan.upTo fs r ps k).resolver
          ps[k]).files = files at hstep hfiles
        cases hstep with
        | @failed d u _ takes weaves =>
          exact ⟨k, before, hprogress, hfiles, ps[k], d, u, hp,
            (hprogress.takes_iff hd hp d u).1 takes, weaves⟩
      · rw [hres] at h
        cases h

end PassPlan

end Interpose
