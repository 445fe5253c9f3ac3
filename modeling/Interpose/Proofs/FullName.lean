import Mathlib.Tactic.Lemma
import Interpose.Instruction.Basic

/-!
What a full name tells of a method.

Rules know a method by its full name only, in which the parameter types run together and the
receiver does not show. When the separators occur in it no more often than they must, all that
stands before the parameters can be read off again. Main statement: methods with such a full name
agree in return type, declaring type and name.
-/

namespace Interpose

namespace MethodRef

/-- A blank, a colon or an opening bracket. -/
def isSeparator (c : Char) : Bool := c == ' ' || c == ':' || c == '('

/-- There are no separators in the full name but those between its parts. -/
def Legible (m : MethodRef) : Prop :=
  m.fullName.toList.filter isSeparator = [' ', ':', ':', '(']

instance (m : MethodRef) : Decidable m.Legible :=
  inferInstanceAs (Decidable (_ = _))

/-- The texts that the full name of a method is made of. -/
def words (m : MethodRef) : List String := m.returnType :: m.declaringType :: m.name :: m.params

lemma Legible.count_eq {m : MethodRef} (h : m.Legible) {c : Char} (hc : isSeparator c = true) :
    m.fullName.toList.count c = [' ', ':', ':', '('].count c := by
  rw [← h, List.count_filter hc]

lemma toList_fullName (m : MethodRef) :
    m.fullName.toList =
      m.returnType.toList ++ (' ' :: (m.declaringType.toList ++
        (':' :: ':' :: (m.name.toList ++ ('(' ::
          ((",".intercalate m.params).toList ++ [')'])))))) := by
  simp [fullName]

lemma mem_intercalate {sep : String} {c : Char} (ss : List String)
    (h : c ∈ (sep.intercalate ss).toList) : c ∈ sep.toList ∨ ∃ s ∈ ss, c ∈ s.toList := by
  rw [String.toList_intercalate] at h
  induction ss with
  | nil => cases h
  | cons s ss ih =>
    rcases ss with _ | ⟨s', ss⟩
    · rw [List.map_singleton, List.intercalate_singleton] at h
      exact .inr ⟨s, List.mem_singleton_self s, h⟩
    · rw [List.map_cons, List.map_cons, List.intercalate_cons_cons, List.mem_append,
        List.mem_append] at h
      rcases h with (h | h) | h
      · exact .inr ⟨s, List.mem_cons_self, h⟩
      · exact .inl h
      · exact (ih h).imp_right fun ⟨t, ht, hc⟩ => ⟨t, List.mem_cons_of_mem s ht, hc⟩

/-- What stands in a full name, by what it is made of. -/
lemma mem_fullName {m : MethodRef} {c : Char} (h : c ∈ m.fullName.toList) :
    (∃ w ∈ m.words, c ∈ w.toList) ∨ c ∈ [' ', ':', '(', ',', ')'] := by
  rw [toList_fullName] at h
  simp only [List.mem_append, List.mem_cons, List.not_mem_nil, or_false] at h
  rcases h with h | rfl | h | rfl | rfl | h | rfl | h | rfl
  · exact .inl ⟨_, List.mem_cons_self, h⟩
  · simp
  · exact .inl ⟨_, List.mem_cons_of_mem _ List.mem_cons_self, h⟩
  · simp
  · simp
  · exact .inl ⟨_, List.mem_cons_of_mem _ (List.mem_cons_of_mem _ List.mem_cons_self), h⟩
  · simp
  · rcases mem_intercalate m.params h with hcomma | ⟨w, hw, h⟩
    · have hc : c = ',' := by simpa using hcomma
      simp [hc]
    · refine .inl ⟨w, ?_, h⟩
      exact List.mem_cons_of_mem _ (List.mem_cons_of_mem _ (List.mem_cons_of_mem _ hw))
  · simp

/-- A full name is legible if there are no separators in what it is made of. -/
lemma legible_of_words {m : MethodRef}
    (h : ∀ w ∈ m.words, ∀ c ∈ w.toList, isSeparator c = false) : m.Legible := by
  have hnone {cs : List Char} (hcs : ∀ c ∈ cs, isSeparator c = false) :
      cs.filter isSeparator = [] :=
    List.filter_eq_nil_iff.2 fun c hc => by simp [hcs c hc]
  obtain ⟨hreturn, h⟩ := List.forall_mem_cons.1 h
  obtain ⟨hdeclaring, h⟩ := List.forall_mem_cons.1 h
  obtain ⟨hname, hparams⟩ := List.forall_mem_cons.1 h
  have hlist : ∀ c ∈ (",".intercalate m.params).toList, isSeparator c = false := by
    intro c hc
    rcases mem_intercalate m.params hc with hcomma | ⟨w, hw, hc⟩
    · have hc : c = ',' := by simpa using hcomma
      rw [hc]
      rfl
    · exact hparams w hw c hc
  have hclose : [')'].filter isSeparator = [] := rfl
  rw [Legible, toList_fullName]
  simp only [List.filter_append, List.filter_cons, hnone hreturn, hnone hdeclaring, hnone hname,
    hnone hlist, hclose]
  rfl

/-- A separator that does not occur before its place tells where that place is. -/
lemma eq_of_separated {x : Char} {a a' b b' : List Char} (ha : x ∉ a) (ha' : x ∉ a')
    (h : a ++ x :: b = a' ++ x :: b') : a = a' ∧ b = b' := by
  have hfront (l r : List Char) (hl : x ∉ l) : (l ++ x :: r).takeWhile (· ≠ x) = l := by
    rw [List.takeWhile_append_of_pos fun y hy => by
      rw [decide_eq_true_eq]
      rintro rfl
      exact hl hy]
    simp
  have haa : a = a' := by rw [← hfront a b ha, h, hfront a' b' ha']
  subst haa
  exact ⟨rfl, by simpa using h⟩

lemma not_mem_of_count_le {x : Char} {n : Nat} {a b : List Char} (h : (a ++ b).count x ≤ n)
    (hb : n ≤ b.count x) : x ∉ a := by
  rw [List.count_append] at h
  exact List.count_eq_zero.1 (by omega)

/-- **What a full name determines**: everything before the parameters, if it is legible. -/
theorem eq_of_fullName_eq {m m' : MethodRef} (h : m.fullName = m'.fullName) (hl : m'.Legible) :
    m.returnType = m'.returnType ∧ m.declaringType = m'.declaringType ∧ m.name = m'.name := by
  have hlm : m.Legible := by rwa [Legible, h]
  have heq : m.fullName.toList = m'.fullName.toList := by rw [h]
  have hblank := Nat.le_of_eq (hl.count_eq (c := ' ') rfl)
  have hcolon := Nat.le_of_eq (hl.count_eq (c := ':') rfl)
  have hbracket := Nat.le_of_eq (hl.count_eq (c := '(') rfl)
  have hblank' := Nat.le_of_eq (hlm.count_eq (c := ' ') rfl)
  have hcolon' := Nat.le_of_eq (hlm.count_eq (c := ':') rfl)
  have hbracket' := Nat.le_of_eq (hlm.count_eq (c := '(') rfl)
  rw [toList_fullName] at heq hblank hcolon hbracket hblank' hcolon' hbracket'
  rw [toList_fullName] at heq
  obtain ⟨hr, heq⟩ := eq_of_separated (not_mem_of_count_le hblank' (by simp))
    (not_mem_of_count_le hblank (by simp)) heq
  -- what is left of the name has no more separators than the whole
  have hrest {x : Char} {n : Nat} {a b : List Char} {y : Char} (hn : (a ++ y :: b).count x ≤ n) :
      b.count x ≤ n := by
    rw [List.count_append, List.count_cons] at hn
    omega
  obtain ⟨hd, heq⟩ := eq_of_separated (not_mem_of_count_le (hrest hcolon') (by simp))
    (not_mem_of_count_le (hrest hcolon) (by simp)) heq
  have heq := List.tail_eq_of_cons_eq heq
  obtain ⟨hn, -⟩ := eq_of_separated
    (not_mem_of_count_le (hrest (a := []) (hrest (hrest hbracket'))) (by simp))
    (not_mem_of_count_le (hrest (a := []) (hrest (hrest hbracket))) (by simp)) heq
  exact ⟨String.ext hr, String.ext hd, String.ext hn⟩

end MethodRef

end Interpose
