/-!
Finite graphs of names and the search from a work list.

A graph gives every name its successors; only finitely many names are successors at all. The
search takes names from the front of a work list, passes over those it has seen, and puts the
successors of a new one in front, the last first. It ends because every new name uses up one of
the finitely many that are left.
-/

namespace Interpose

structure NameGraph where
  next : String → List String
  finite : ∃ pool : List String, ∀ n, next n ⊆ pool

namespace NameGraph

/-! ### Names that are left -/

/-- The names of a pool that are not among `seen`, each once. -/
def unseen (seen : List String) : List String → List String
  | [] => []
  | n :: pool => if n ∈ seen then unseen seen pool else n :: unseen (n :: seen) pool

theorem mem_unseen {n : String} {seen pool : List String} :
    n ∈ unseen seen pool ↔ n ∈ pool ∧ n ∉ seen := by
  induction pool generalizing seen with
  | nil => simp [unseen]
  | cons m pool ih =>
    by_cases hm : m ∈ seen
    · rw [unseen, if_pos hm, ih]
      constructor
      · exact fun h => ⟨List.mem_cons_of_mem _ h.1, h.2⟩
      · rintro ⟨h, hn⟩
        rcases List.mem_cons.1 h with rfl | h
        · exact absurd hm hn
        · exact ⟨h, hn⟩
    · rw [unseen, if_neg hm, List.mem_cons, ih]
      by_cases hnm : n = m
      · subst hnm; simp [hm]
      · simp [hnm]

theorem nodup_unseen (seen pool : List String) : (unseen seen pool).Nodup := by
  induction pool generalizing seen with
  | nil => simp [unseen]
  | cons m pool ih =>
    by_cases hm : m ∈ seen
    · rw [unseen, if_pos hm]; exact ih seen
    · rw [unseen, if_neg hm, List.nodup_cons]
      exact ⟨fun h => (mem_unseen.1 h).2 List.mem_cons_self, ih _⟩

theorem length_unseen_le {seen pool pool' : List String} (h : pool' ⊆ pool) :
    (unseen seen pool').length ≤ (unseen seen pool).length :=
  (nodup_unseen _ _).length_le_of_subset fun _ hn =>
    mem_unseen.2 ⟨h (mem_unseen.1 hn).1, (mem_unseen.1 hn).2⟩

theorem length_unseen_lt {n : String} {seen pool pool' : List String} (h : pool' ⊆ pool)
    (hn : n ∈ pool) (hs : n ∉ seen) :
    (unseen (n :: seen) pool').length < (unseen seen pool).length := by
  have hnodup : (n :: unseen (n :: seen) pool').Nodup :=
    List.nodup_cons.2 ⟨fun hm => (mem_unseen.1 hm).2 List.mem_cons_self, nodup_unseen _ _⟩
  refine hnodup.length_le_of_subset fun m hm => ?_
  rcases List.mem_cons.1 hm with rfl | hm
  · exact mem_unseen.2 ⟨hn, hs⟩
  · obtain ⟨h1, h2⟩ := mem_unseen.1 hm
    exact mem_unseen.2 ⟨h h1, fun hc => h2 (List.mem_cons_of_mem _ hc)⟩

/-! ### The search -/

/-- A pool that holds every successor. -/
noncomputable def pool (g : NameGraph) : List String := g.finite.choose

theorem next_subset_pool (g : NameGraph) (n : String) : g.next n ⊆ g.pool :=
  g.finite.choose_spec n

/-- The names found from a work list, in the order of their discovery behind those in `found`
(last first). The names in `seen` and `found` are passed over. -/
def search (g : NameGraph) (seen found : List String) (work : List String) : List String :=
  match work with
  | [] => found.reverse
  | n :: rest =>
    if n ∈ found ++ seen then g.search seen found rest
    else g.search seen (n :: found) ((g.next n).reverse ++ rest)
termination_by ((unseen (found ++ seen) (work ++ g.pool)).length, work.length)
decreasing_by
  · have hsub : rest ++ g.pool ⊆ n :: rest ++ g.pool := fun _ hm => List.mem_cons_of_mem _ hm
    rcases Nat.lt_or_eq_of_le (length_unseen_le hsub : _ ≤ (unseen (found ++ seen) _).length) with h | h
    · exact Prod.Lex.left _ _ h
    · rw [h]
      exact Prod.Lex.right _ (by simp)
  · rename_i hn
    refine Prod.Lex.left _ _ (length_unseen_lt (n := n) ?_ (by simp) hn)
    intro m hm
    simp only [List.unattach_reverse, List.unattach_attach, List.mem_append, List.mem_reverse,
      List.mem_cons] at hm ⊢
    rcases hm with (hm | hm) | hm
    · exact Or.inr (g.next_subset_pool n hm)
    · exact Or.inl (Or.inr hm)
    · exact Or.inr hm

/-- The names that are found from a list of names, the last first, without entering `seen`. -/
def reach (g : NameGraph) (seen start : List String) : List String :=
  g.search seen [] start.reverse

end NameGraph

end Interpose
