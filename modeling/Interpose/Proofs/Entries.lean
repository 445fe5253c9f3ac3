import Mathlib.Tactic.Lemma

/-!
Lists of entries, each under a key.

Setting an entry replaces the one under its key, or adds one at the end if there is none. Main
statement: the entry that was set is found under its key, and every other key finds what it found.
-/

namespace Interpose

variable {α β : Type} [BEq α] [LawfulBEq α]

/-- Replacing entries keeps the keys, so what is found is found at the same place. -/
lemma find?_replaceEntry (es : List (α × β)) (k k' : α) (v : β) :
    (es.map fun e => if e.1 == k then (k, v) else e).find? (·.1 == k') =
      (es.find? (·.1 == k')).map fun e => if e.1 == k then (k, v) else e := by
  have hkey : ((fun e : α × β => e.1 == k') ∘ fun e => if e.1 == k then (k, v) else e) =
      fun e => e.1 == k' := by
    funext e
    by_cases he : e.1 = k <;> simp [he]
  rw [List.find?_map, hkey]

lemma find?_setEntry (es : List (α × β)) (k k' : α) (v : β) :
    ((if es.any (·.1 == k) then es.map fun e => if e.1 == k then (k, v) else e
      else es ++ [(k, v)]).find? (·.1 == k')).map (·.2) =
      if k' == k then some v else (es.find? (·.1 == k')).map (·.2) := by
  split
  · next hany =>
    rw [find?_replaceEntry]
    rcases hf : es.find? (·.1 == k') with _ | e
    · have hne : k' ≠ k := by
        rintro rfl
        obtain ⟨e, he, hk⟩ := List.any_eq_true.1 hany
        exact absurd hk (List.find?_eq_none.1 hf e he)
      simp [hf, hne]
    · have he : e.1 = k' := by simpa using List.find?_some hf
      by_cases hk : k' = k
      · subst hk
        simp [hf, he]
      · simp [hf, he, hk]
  · next hany =>
    rw [List.find?_append]
    by_cases hk : k' = k
    · subst hk
      have hnone : es.find? (·.1 == k') = none :=
        List.find?_eq_none.2 fun e he hk => hany (List.any_eq_true.2 ⟨e, he, hk⟩)
      simp [hnone]
    · simp [hk, Ne.symm hk]

/-- Setting an entry adds no second one under its key. -/
lemma nodup_setEntry (es : List (α × β)) (k : α) (v : β) (h : (es.map (·.1)).Nodup) :
    ((if es.any (·.1 == k) then es.map fun e => if e.1 == k then (k, v) else e
      else es ++ [(k, v)]).map (·.1)).Nodup := by
  split
  · have hkey : ((fun e : α × β => e.1) ∘ fun e => if e.1 == k then (k, v) else e) =
        fun e => e.1 := by
      funext e
      by_cases he : e.1 = k <;> simp [he]
    rwa [List.map_map, hkey]
  · next hany =>
    have hk : k ∉ es.map (·.1) := fun hk => by
      obtain ⟨e, he, rfl⟩ := List.mem_map.1 hk
      exact hany (List.any_eq_true.2 ⟨e, he, beq_self_eq_true _⟩)
    rw [List.map_append, List.nodup_append]
    refine ⟨h, by simp, fun a ha b hb => ?_⟩
    rintro rfl
    have hak : a = k := by simpa using hb
    exact hk (hak ▸ ha)

end Interpose
