import Mathlib.Tactic.Lemma
import Mathlib.Tactic.SplitIfs
import Interpose.Files
import Interpose.Proofs.Entries

/-!
Files after a file was overwritten.

Where a path leads depends on which files and directories there are, not on what the files hold. So
overwriting a file leaves every path where it was, and what is read at a path stays unless the path
leads to that file.
-/

namespace Interpose

def Node.isDirectory : Node → Bool
  | .file _ => false
  | .directory => true

namespace Files

variable {fs fs' : Files} {l : Location} {p q : Path}

/-! ### Files and directories at the same locations -/

/-- The same files and directories are there, whatever the files hold. -/
structure SameTree (fs fs' : Files) : Prop where
  workingDirectory : fs.workingDirectory = fs'.workingDirectory
  kind : ∀ l, (fs.node? l).map Node.isDirectory = (fs'.node? l).map Node.isDirectory

lemma SameTree.refl (fs : Files) : SameTree fs fs := ⟨rfl, fun _ => rfl⟩

lemma SameTree.symm (h : SameTree fs fs') : SameTree fs' fs :=
  ⟨h.workingDirectory.symm, fun l => (h.kind l).symm⟩

lemma SameTree.trans {fs'' : Files} (h : SameTree fs fs') (h' : SameTree fs' fs'') :
    SameTree fs fs'' :=
  ⟨h.workingDirectory.trans h'.workingDirectory, fun l => (h.kind l).trans (h'.kind l)⟩

lemma walk_congr (h : SameTree fs fs') (segments : List String) (start : Location) :
    fs.walk start segments = fs'.walk start segments := by
  induction segments generalizing start with
  | nil => rfl
  | cons s rest ih =>
    have hstart := h.kind start
    rw [walk, walk, ih, ih, ih]
    rcases hn : fs.node? start with _ | _ | _ <;>
      rcases hn' : fs'.node? start with _ | _ | _ <;>
      simp_all [Node.isDirectory]

lemma follow_congr (h : SameTree fs fs') (p : Path) : fs.follow p = fs'.follow p := by
  have horigin : fs.origin p = fs'.origin p := by rw [origin, origin, h.workingDirectory]
  rw [follow, follow, walk_congr h, horigin]

lemma has_congr (h : SameTree fs fs') (p : Path) : fs.has p = fs'.has p := by
  rw [has, has, lookup?, lookup?, follow_congr h]
  rcases fs'.follow p with e | l
  · rfl
  · have hnode := congrArg Option.isSome (h.kind l)
    simpa using hnode

lemma lookup?_of_follow (h : fs.follow p = .ok l) : fs.lookup? p = fs.node? l := by
  rw [lookup?, h]

lemma read_of_follow (h : fs.follow p = .ok l) :
    fs.read p = match fs.node? l with
      | none => .error .notFound
      | some .directory => .error .isADirectory
      | some (.file (.bytes _)) => .error .notText
      | some (.file (.text s)) => .ok s := by
  rw [read, h]
  rfl

/-- A path that leads to the same node in both reads the same. -/
lemma read_congr (hf : fs.follow p = fs'.follow p) (hl : fs.lookup? p = fs'.lookup? p) :
    fs.read p = fs'.read p := by
  rcases h : fs'.follow p with e | place
  · rw [read, read, hf, h]
    rfl
  · rw [lookup?_of_follow (hf.trans h), lookup?_of_follow h] at hl
    rw [read_of_follow (hf.trans h), read_of_follow h, hl]

/-- What can be read lies in a file of the tree. -/
lemma exists_file_of_read {s : String} (h : fs.read p = .ok s) :
    ∃ l, fs.follow p = .ok l ∧ fs.node? l = some (.file (.text s)) := by
  rcases hf : fs.follow p with e | l
  · rw [read, hf] at h
    cases h
  · refine ⟨l, rfl, ?_⟩
    rw [read_of_follow hf] at h
    rcases hn : fs.node? l with _ | ⟨_ | _⟩ | _ <;> rw [hn] at h <;> cases h
    rfl

/-! ### Overwriting a file -/

@[simp] lemma workingDirectory_insert (fs : Files) (l : Location) (n : Node) :
    (fs.insert l n).workingDirectory = fs.workingDirectory := by
  rw [insert]
  split <;> rfl

lemma node?_insert (fs : Files) (l l' : Location) (n : Node) :
    (fs.insert l n).node? l' =
      if l'.isPrefixOf fs.workingDirectory then some .directory
      else if l' = l then some n else fs.node? l' := by
  have hset : ((fs.insert l n).nodes.find? (·.1 == l')).map (·.2) =
      if l' = l then some n else (fs.nodes.find? (·.1 == l')).map (·.2) := by
    simpa [insert, apply_ite Files.nodes] using find?_setEntry fs.nodes l l' n
  rw [node?, node?, workingDirectory_insert, hset]
  split <;> rfl

lemma node?_insert_of_ne {l' : Location} (hl : l' ≠ l) (n : Node) :
    (fs.insert l n).node? l' = fs.node? l' := by
  rw [node?_insert, if_neg hl]
  split
  · next habove => rw [node?, if_pos habove]
  · rfl

/-- The node at a location in the place of which there is no directory. -/
lemma node?_insert_self (hl : fs.node? l ≠ some .directory) (n : Node) :
    (fs.insert l n).node? l = some n := by
  have habove : ¬l.isPrefixOf fs.workingDirectory := fun habove =>
    hl (by rw [node?, if_pos habove])
  rw [node?_insert, if_neg habove, if_pos rfl]

variable {c c' : Content}

lemma insert_sameTree (hn : fs.node? l = some (.file c)) :
    SameTree fs (fs.insert l (.file c')) := by
  refine ⟨(workingDirectory_insert fs l _).symm, fun l' => ?_⟩
  by_cases hl : l' = l
  · have hself : (fs.insert l (.file c')).node? l = some (.file c') :=
      node?_insert_self (by simp [hn]) _
    rw [hl, hn, hself]
    rfl
  · rw [node?_insert_of_ne hl]

/-- A file that is there can be overwritten. -/
lemma write_of_file (hf : fs.follow p = .ok l) (hn : fs.node? l = some (.file c)) (s : String) :
    fs.write p s = .ok (fs.insert l (.file (.text s))) := by
  simp [write, hf, hn, Bind.bind, Except.bind]

/-- What was written is read. -/
lemma read_insert (hf : fs.follow p = .ok l) (hn : fs.node? l = some (.file c)) (s : String) :
    (fs.insert l (.file (.text s))).read p = .ok s := by
  have hf' : (fs.insert l (.file (.text s))).follow p = .ok l := by
    rw [← follow_congr (insert_sameTree hn), hf]
  rw [read_of_follow hf', node?_insert_self (by simp [hn])]

/-- A way that was found stays if what is replaced or new is no directory. -/
lemma walk_insert {segments : List String} {start l' : Location}
    (h : fs.walk start segments = .ok l') (hl : fs.node? l ≠ some .directory) (n : Node) :
    (fs.insert l n).walk start segments = .ok l' := by
  induction segments generalizing start with
  | nil => exact h
  | cons s rest ih =>
    rw [walk] at h ⊢
    rcases hs : fs.node? start with _ | _ | _
    · rw [hs] at h
      cases h
    · rw [hs] at h
      cases h
    · have hne : start ≠ l := by
        rintro rfl
        exact hl hs
      rw [hs] at h
      rw [node?_insert_of_ne hne, hs]
      dsimp only at h ⊢
      split_ifs at h ⊢
      · exact ih h
      · exact ih h
      · exact ih h

/-- What was written at a path is read there, whether or not its file is new. -/
lemma read_write {s : String} (h : fs.write p s = .ok fs') : fs'.read p = .ok s := by
  rcases hf : fs.follow p with e | l
  · simp [write, hf, Bind.bind, Except.bind] at h
  · simp only [write, hf, Bind.bind, Except.bind] at h
    split at h
    · cases h
    · next hdir =>
      cases h
      have hl : fs.node? l ≠ some .directory := hdir
      have hf' : (fs.insert l (.file (.text s))).follow p = .ok l := by
        have horigin : (fs.insert l (.file (.text s))).origin p = fs.origin p := by
          rw [origin, origin, workingDirectory_insert]
        unfold follow at hf ⊢
        rw [horigin]
        split_ifs at hf ⊢
        exact walk_insert hf hl _
      rw [read_of_follow hf', node?_insert_self hl]

lemma has_of_read {s : String} (h : fs.read p = .ok s) : fs.has p = true := by
  obtain ⟨l, hf, hn⟩ := exists_file_of_read h
  rw [has, lookup?_of_follow hf, hn]
  rfl

/-- A path that does not lead to a location that changed leads to the same node. -/
lemma lookup?_congr (h : SameTree fs fs')
    (hn : ∀ l, fs.follow p = .ok l → fs'.node? l = fs.node? l) : fs'.lookup? p = fs.lookup? p := by
  rw [lookup?, lookup?, ← follow_congr h]
  rcases hf : fs.follow p with e | l
  · rfl
  · exact hn l hf

/-- Two paths lead to one file. -/
def SameFile (fs : Files) (p q : Path) : Prop :=
  ∃ l c, fs.follow p = .ok l ∧ fs.follow q = .ok l ∧ fs.node? l = some (.file c)

lemma SameTree.exists_file (h : SameTree fs fs') (hn : fs.node? l = some (.file c)) :
    ∃ c', fs'.node? l = some (.file c') := by
  have hdir := h.kind l
  rw [hn] at hdir
  rcases hn' : fs'.node? l with _ | c' | _ <;> rw [hn'] at hdir
  · cases hdir
  · exact ⟨c', rfl⟩
  · cases hdir

lemma SameFile.symm (h : fs.SameFile p q) : fs.SameFile q p := by
  obtain ⟨l, c, hp, hq, hn⟩ := h
  exact ⟨l, c, hq, hp, hn⟩

lemma SameFile.trans {p' : Path} (h : fs.SameFile p q) (h' : fs.SameFile q p') :
    fs.SameFile p p' := by
  obtain ⟨l, c, hp, hq, hn⟩ := h
  obtain ⟨l', c', hq', hp', -⟩ := h'
  rw [hq, Except.ok.injEq] at hq'
  exact ⟨l, c, hp, hq' ▸ hp', hn⟩

lemma SameFile.congr (h : SameTree fs fs') (hpq : fs.SameFile p q) : fs'.SameFile p q := by
  obtain ⟨l, c, hp, hq, hn⟩ := hpq
  obtain ⟨c', hn'⟩ := h.exists_file hn
  rw [follow_congr h] at hp hq
  exact ⟨l, c', hp, hq, hn'⟩

/-- Whether each path leads to a file of its own does not depend on their order. -/
lemma pairwise_not_sameFile_perm {ps qs : List Path} (hperm : ps.Perm qs)
    (hd : ps.Pairwise fun p q => ¬fs.SameFile p q) : qs.Pairwise fun p q => ¬fs.SameFile p q :=
  (hperm.pairwise_iff fun hpq hqp => hpq hqp.symm).1 hd

end Files

end Interpose
