import Mathlib.Logic.Relation
import Mathlib.Tactic.Lemma
import Interpose.NameGraph

/-!
What the search of a graph of names finds.

The search keeps what it has found and takes up everything on its work list that it does not have
to pass over. Main statements: exactly those names are found that can be reached without coming to
one that is passed over; and two graphs lead to the same names if each of these has the same
successors in both.
-/

namespace Interpose.NameGraph

variable {g g' : NameGraph} {seen found work : List String}

lemma mem_search_of_mem {n : String} (h : n ∈ found) : n ∈ g.search seen found work := by
  induction found, work using search.induct g seen with
  | case1 found =>
    rw [search]
    exact List.mem_reverse.2 h
  | case2 found m rest hm ih =>
    rw [search, if_pos hm]
    exact ih h
  | case3 found m rest hm ih =>
    simp only [List.unattach_reverse, List.unattach_attach] at ih
    rw [search, if_neg hm]
    exact ih (List.mem_cons_of_mem m h)

/-- Everything on the work list is found, unless it is passed over. -/
lemma mem_search_of_mem_work {n : String} (h : n ∈ work) (hs : n ∉ seen) :
    n ∈ g.search seen found work := by
  induction found, work using search.induct g seen with
  | case1 found => cases h
  | case2 found m rest hm ih =>
    rw [search, if_pos hm]
    rcases List.mem_cons.1 h with rfl | h
    · exact mem_search_of_mem ((List.mem_append.1 hm).resolve_right hs)
    · exact ih h
  | case3 found m rest hm ih =>
    simp only [List.unattach_reverse, List.unattach_attach] at ih
    rw [search, if_neg hm]
    rcases List.mem_cons.1 h with rfl | h
    · exact mem_search_of_mem List.mem_cons_self
    · exact ih (List.mem_append_right _ h)

/-- Two graphs lead to the same names if each of these has the same successors in both. -/
lemma search_congr (h : ∀ n ∈ g.search seen found work, g.next n = g'.next n) :
    g.search seen found work = g'.search seen found work := by
  induction found, work using search.induct g seen with
  | case1 found => rw [search, search]
  | case2 found m rest hm ih =>
    rw [search, if_pos hm] at h
    rw [search, if_pos hm, search, if_pos hm, ih h]
  | case3 found m rest hm ih =>
    simp only [List.unattach_reverse, List.unattach_attach] at ih
    rw [search, if_neg hm] at h
    have hnext := h m (mem_search_of_mem List.mem_cons_self)
    rw [search, if_neg hm, search, if_neg hm, ih h, hnext]

/-! ### Exactly what can be reached -/

/-- A step of the graph to a name that is not passed over. -/
def Step (g : NameGraph) (seen : List String) (m n : String) : Prop := n ∈ g.next m ∧ n ∉ seen

/-- What is found was found before, or can be reached from the work list. -/
lemma of_mem_search {n : String} (h : n ∈ g.search seen found work) :
    n ∈ found ∨ ∃ m ∈ work, m ∉ seen ∧ Relation.ReflTransGen (g.Step seen) m n := by
  induction found, work using search.induct g seen with
  | case1 found =>
    rw [search] at h
    exact .inl (List.mem_reverse.1 h)
  | case2 found m rest hm ih =>
    rw [search, if_pos hm] at h
    rcases ih h with h | ⟨k, hk, hs, hpath⟩
    · exact .inl h
    · exact .inr ⟨k, List.mem_cons_of_mem m hk, hs, hpath⟩
  | case3 found m rest hm ih =>
    simp only [List.unattach_reverse, List.unattach_attach] at ih
    rw [search, if_neg hm] at h
    have hms : m ∉ seen := fun hs => hm (List.mem_append_right _ hs)
    rcases ih h with h | ⟨k, hk, hs, hpath⟩
    · rcases List.mem_cons.1 h with rfl | h
      · exact .inr ⟨n, List.mem_cons_self, hms, .refl⟩
      · exact .inl h
    · rcases List.mem_append.1 hk with hk | hk
      · -- a successor of the name taken up: the path begins one step earlier
        exact .inr ⟨m, List.mem_cons_self, hms, hpath.head ⟨List.mem_reverse.1 hk, hs⟩⟩
      · exact .inr ⟨k, List.mem_cons_of_mem m hk, hs, hpath⟩

/-- The names found are closed under steps. The invariant: what a found name leads to has been
found or is still on the work list. -/
lemma mem_search_of_step (hfront : ∀ m ∈ found, ∀ n, g.Step seen m n → n ∈ found ∨ n ∈ work)
    {m n : String} (hm : m ∈ g.search seen found work) (hstep : g.Step seen m n) :
    n ∈ g.search seen found work := by
  induction found, work using search.induct g seen with
  | case1 found =>
    rw [search] at hm ⊢
    have hn := hfront m (List.mem_reverse.1 hm) n hstep
    simpa using hn
  | case2 found k rest hk ih =>
    rw [search, if_pos hk] at hm ⊢
    refine ih (fun a ha b hb => ?_) hm
    rcases hfront a ha b hb with h | h
    · exact .inl h
    · rcases List.mem_cons.1 h with rfl | h
      · exact .inl ((List.mem_append.1 hk).resolve_right hb.2)
      · exact .inr h
  | case3 found k rest hk ih =>
    simp only [List.unattach_reverse, List.unattach_attach] at ih
    rw [search, if_neg hk] at hm ⊢
    refine ih (fun a ha b hb => ?_) hm
    rcases List.mem_cons.1 ha with rfl | ha
    · exact .inr (List.mem_append_left _ (List.mem_reverse.2 hb.1))
    · rcases hfront a ha b hb with h | h
      · exact .inl (List.mem_cons_of_mem k h)
      · rcases List.mem_cons.1 h with rfl | h
        · exact .inl List.mem_cons_self
        · exact .inr (List.mem_append_right _ h)

/-- **Reachability**: the names found are those to which a path leads from one of the first names
without coming to a name that is passed over. -/
theorem mem_reach_iff {start : List String} {n : String} : n ∈ g.reach seen start ↔
    ∃ m ∈ start, m ∉ seen ∧ Relation.ReflTransGen (g.Step seen) m n := by
  constructor
  · intro h
    obtain ⟨m, hm, hs, hpath⟩ := (of_mem_search h).resolve_left List.not_mem_nil
    exact ⟨m, List.mem_reverse.1 hm, hs, hpath⟩
  · rintro ⟨m, hm, hs, hpath⟩
    induction hpath with
    | refl => exact mem_search_of_mem_work (List.mem_reverse.2 hm) hs
    | tail _ hstep ih =>
      exact mem_search_of_step (fun a ha => absurd ha List.not_mem_nil) ih hstep

/-- Nothing is found twice. -/
lemma nodup_search (hf : found.Nodup) : (g.search seen found work).Nodup := by
  induction found, work using search.induct g seen with
  | case1 found =>
    rw [search]
    exact (List.reverse_perm found).nodup_iff.2 hf
  | case2 found m rest hm ih =>
    rw [search, if_pos hm]
    exact ih hf
  | case3 found m rest hm ih =>
    simp only [List.unattach_reverse, List.unattach_attach] at ih
    rw [search, if_neg hm]
    exact ih (List.nodup_cons.2 ⟨fun h => hm (List.mem_append_left _ h), hf⟩)

lemma nodup_reach (g : NameGraph) (seen start : List String) : (g.reach seen start).Nodup :=
  nodup_search List.nodup_nil

/-- A name without successors leads nowhere else. -/
lemma reach_singleton {n : String} (hs : n ∉ seen) (hn : g.next n = []) :
    g.reach seen [n] = [n] := by
  rw [reach, List.reverse_singleton, search, if_neg (by simpa using hs), hn, List.reverse_nil,
    List.nil_append, search, List.reverse_singleton]

end Interpose.NameGraph
