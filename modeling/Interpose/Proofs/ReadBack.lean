import Mathlib.Data.List.Nodup
import Interpose.Document
import Interpose.Json.Writer

/-!
What readers of documents make of written values.

A reader takes in the levels of arrays and objects that it opens, so what it makes of a written value
depends on how deep this nests. Records, lists and variants are treated here once, for readers and
writers of any fields: the fields of a record are found under its names, a list is read back if its
members are, and a variant is taken in as a whole if there is room for all of it.
-/

namespace Interpose

/-! ### Levels of a value -/

namespace Json

mutual

/-- How deep arrays and objects are nested in a value. -/
def depth : Json → Nat
  | .arr items => depths items + 1
  | .obj members => memberDepths members + 1
  | _ => 0

def depths : List Json → Nat
  | [] => 0
  | v :: vs => max (depth v) (depths vs)

def memberDepths : List (Option String × Json) → Nat
  | [] => 0
  | (_, v) :: ms => max (depth v) (memberDepths ms)

end

variable {room : Nat} {α : Type}

@[simp] lemma depth_null : null.depth = 0 := rfl

@[simp] lemma depth_bool (b : Bool) : (bool b).depth = 0 := rfl

@[simp] lemma depth_text (s : String) : (text s).depth = 0 := rfl

@[simp] lemma depth_ofNat (n : Nat) : (ofNat n).depth = 0 := rfl

@[simp] lemma depth_nullable_text (s : Option String) : (nullable text s).depth = 0 := by
  cases s <;> rfl

@[simp] lemma depth_arr_le {items : List Json} :
    (arr items).depth ≤ room + 1 ↔ ∀ v ∈ items, v.depth ≤ room := by
  have hdepths : depths items ≤ room ↔ ∀ v ∈ items, v.depth ≤ room := by
    induction items with
    | nil => simp [depths]
    | cons v vs ih => rw [depths, Nat.max_le, ih, List.forall_mem_cons]
  rw [depth, Nat.add_le_add_iff_right, hdepths]

@[simp] lemma depth_record_le {ms : List (String × Json)} :
    (record ms).depth ≤ room + 1 ↔ ∀ m ∈ ms, m.2.depth ≤ room := by
  have hdepths : memberDepths (ms.map fun m => (some m.1, m.2)) ≤ room ↔
      ∀ m ∈ ms, m.2.depth ≤ room := by
    induction ms with
    | nil => simp [memberDepths]
    | cons m ms ih => rw [List.map_cons, memberDepths, Nat.max_le, ih, List.forall_mem_cons]
  rw [record, depth, Nat.add_le_add_iff_right, hdepths]

@[simp] lemma depth_arr_ne_zero {items : List Json} : (arr items).depth ≠ 0 :=
  Nat.succ_ne_zero _

@[simp] lemma depth_record_ne_zero {ms : List (String × Json)} : (record ms).depth ≠ 0 :=
  Nat.succ_ne_zero _

end Json

namespace Numeral

lemma digitsValue_toDigits (n : Nat) : digitsValue (Nat.toDigits 10 n) = n :=
  Nat.ofDigitChars_toDigits (by decide) (by decide)

/-- The index that was written is the one that is read, if it is within the bound. -/
lemma index?_ofNat (n : Nat) : (ofNat n).index? = if n < indexBound then some n else none := by
  simp [index?, ofNat, digitsValue_toDigits]

lemma le_ofDigitChars (digits : List Char) (n : Nat) : n ≤ Nat.ofDigitChars 10 digits n := by
  induction digits generalizing n with
  | nil => exact Nat.le_refl n
  | cons c rest ih => exact Nat.le_trans (by omega) (ih (10 * n + (c.toNat - '0'.toNat)))

lemma significand_nil (n : Nat) : significand n [] = (n, 0) := rfl

lemma significand_cons (n : Nat) (c : Char) (rest : List Char) : significand n (c :: rest) =
    if 10 * n + (c.toNat - '0'.toNat) < indexBound then
      significand (10 * n + (c.toNat - '0'.toNat)) rest
    else (n, rest.length + 1) := rfl

/-- Digits whose number fits are all taken. -/
lemma significand_eq (digits : List Char) (n : Nat)
    (h : Nat.ofDigitChars 10 digits n < indexBound) :
    significand n digits = (Nat.ofDigitChars 10 digits n, 0) := by
  induction digits generalizing n with
  | nil => rfl
  | cons c rest ih =>
    have hnext : Nat.ofDigitChars 10 (c :: rest) n =
        Nat.ofDigitChars 10 rest (10 * n + (c.toNat - '0'.toNat)) := rfl
    rw [hnext] at h
    rw [significand_cons, if_pos (Nat.lt_of_le_of_lt (le_ofDigitChars rest _) h), ih _ h, hnext]

lemma round53_le (n : Nat) : round53 n ≤ 2 * n := by
  rcases Nat.eq_zero_or_pos n with rfl | hn
  · decide
  · have hunit : Nat.pow 2 (n.log2 + 1 - 53) ≤ n :=
      Nat.le_trans (Nat.pow_le_pow_right (by decide) (by omega)) (Nat.log2_self_le (by omega))
    have hkept : n / Nat.pow 2 (n.log2 + 1 - 53) * Nat.pow 2 (n.log2 + 1 - 53) ≤ n :=
      Nat.div_mul_le_self _ _
    rw [round53]
    split
    · rw [Nat.add_mul]
      omega
    · omega

/-- An index within the bound is in range. -/
lemma isFinite_ofNat {n : Nat} (h : n < indexBound) : (ofNat n).isFinite = true := by
  have hvalue : significand 0 (Nat.toDigits 10 n) = (n, 0) := by
    rw [significand_eq _ 0 (by rwa [Nat.ofDigitChars_toDigits (by decide) (by decide)]),
      Nat.ofDigitChars_toDigits (by decide) (by decide)]
  have hscaled : (ofNat n).scaled = (n, 0) := by
    simp [scaled, ofNat, hvalue, significand_nil]
  have hone : round53 (Nat.pow 10 0) = 1 := by decide
  have hround (k : Nat) (hk : 66 ≤ k) :
      round53 (round53 n * round53 (Nat.pow 10 0)) < Nat.pow 2 k := by
    rw [hone]
    have h1 := round53_le n
    have h2 := round53_le (round53 n * 1)
    have h3 : 2 ^ 66 ≤ Nat.pow 2 k := Nat.pow_le_pow_right (by decide) hk
    have h4 : n < 2 ^ 64 := h
    omega
  have hpower : (0 : Int) = .ofNat 0 := rfl
  rw [isFinite, hscaled, hpower]
  refine Bool.or_eq_true_iff.2 (.inr (Bool.and_eq_true_iff.2 ⟨rfl, ?_⟩))
  rw [decide_eq_true_eq]
  apply hround
  decide

end Numeral

/-! ### Reading records back -/

namespace Document

variable {α β : Type} {room : Nat} {read : DocumentReader α} {write : α → Json} {fits : α → Prop}

/-- A reader gives back every value that was written, if it fits, exactly if there is room for its
levels. -/
def ReadsBack (read : DocumentReader α) (write : α → Json) (fits : α → Prop) : Prop :=
  ∀ room a, read room (write a) = some a ↔ (write a).depth ≤ room ∧ fits a

/-- A record opens a level, so nothing is read without room. -/
lemma ReadsBack.of_record (hzero : ∀ v, read 0 v = none) (hrecord : ∀ a, ∃ ms, write a = .record ms)
    (h : ∀ room a, read (room + 1) (write a) = some a ↔ (write a).depth ≤ room + 1 ∧ fits a) :
    ReadsBack read write fits := by
  intro room a
  cases room with
  | zero =>
    obtain ⟨ms, hms⟩ := hrecord a
    refine iff_of_false (by simp [hzero]) fun h => ?_
    rw [hms] at h
    exact Json.depth_record_ne_zero (Nat.le_zero.1 h.1)
  | succ room => exact h room a

lemma find?_of_nodup {ms : List (String × Json)} (h : (ms.map (·.1)).Nodup) {m : String × Json}
    (hm : m ∈ ms) : ms.find? (·.1 == m.1) = some m := by
  induction ms with
  | nil => cases hm
  | cons m' ms ih =>
    rw [List.map_cons, List.nodup_cons] at h
    rcases List.mem_cons.1 hm with rfl | hm
    · exact List.find?_cons_of_pos (beq_self_eq_true m.1)
    · have hne : m'.1 ≠ m.1 := fun heq => h.1 (heq ▸ List.mem_map_of_mem hm)
      rw [List.find?_cons_of_neg (by simpa using hne)]
      exact ih h.2 hm

/-- The fields of a record are found under its names. -/
lemma fields?_record {v : Json} {names : List String} {ms : List (String × Json)}
    (hv : v = .record ms) (hnames : names = ms.map (·.1)) (hnodup : names.Nodup) :
    fields? names v = some (ms.map fun m => some m.2) := by
  subst hv hnames
  have hsome : (ms.map fun m : String × Json => (some m.1, m.2)).all (·.1.isSome) = true := by
    simp
  have hkey (n : String) : (fun e : Option String × Json => e.1 == some n) ∘
      (fun m : String × Json => (some m.1, m.2)) = fun m => m.1 == n := by
    funext m
    exact Option.some_beq_some
  have honce : (ms.map (·.1)).all (fun n =>
      (ms.map fun m : String × Json => (some m.1, m.2)).countP (·.1 == some n) ≤ 1) = true := by
    refine List.all_eq_true.2 fun n _ => decide_eq_true ?_
    have hcount := List.nodup_iff_count_le_one.1 hnodup n
    rw [List.count, List.countP_map] at hcount
    rw [List.countP_map, hkey]
    exact hcount
  rw [Json.record, fields?, hsome, honce, Bool.and_self, if_pos rfl, List.map_map]
  refine congrArg some (List.map_congr_left fun m hm => ?_)
  rw [Function.comp_apply, List.find?_map, hkey, find?_of_nodup hnodup hm]
  rfl

@[simp] lemma required_text (s : String) : required text room (some (.text s)) = some s := rfl

lemma required_index (n : Nat) : required index room (some (.ofNat n)) =
    if n < Numeral.indexBound then some n else none := Numeral.index?_ofNat n

@[simp] lemma withDefault_flag (b : Bool) :
    withDefault false flag room (some (.bool b)) = some b := rfl

@[simp] lemma nullable_text (s : Option String) :
    nullable text room (some (.nullable .text s)) = some s := by
  cases s <;> rfl

lemma mapM_map_eq_some {f : Json → Option α} {as : List α} :
    (as.map write).mapM f = some as ↔ ∀ a ∈ as, f (write a) = some a := by
  induction as with
  | nil => simp
  | cons a as ih =>
    rw [List.forall_mem_cons, ← ih, List.map_cons, List.mapM_cons]
    simp [Option.bind_eq_some_iff]

/-- A list is read back if each of its members is. -/
lemma listField_iff (h : ReadsBack read write fits) {as : List α} :
    listField read room (some (.arr (as.map write))) = some as ↔
      (Json.arr (as.map write)).depth ≤ room ∧ ∀ a ∈ as, fits a := by
  have hlist : listField read room (some (.arr (as.map write))) =
      listOf read room (.arr (as.map write)) := rfl
  rw [hlist]
  cases room with
  | zero => exact iff_of_false (by simp [listOf]) fun h => Json.depth_arr_ne_zero (Nat.le_zero.1 h.1)
  | succ room =>
    rw [listOf, mapM_map_eq_some, Json.depth_arr_le, List.forall_mem_map, ← forall₂_and]
    exact forall₂_congr fun a _ => h room a

lemma text_readsBack : ReadsBack text .text fun _ => True :=
  fun room _ => iff_of_true rfl ⟨Nat.zero_le room, trivial⟩

@[simp] lemma listField_text_iff {ss : List String} :
    listField text room (some (.texts ss)) = some ss ↔ (Json.texts ss).depth ≤ room := by
  rw [Json.texts, listField_iff text_readsBack]
  simp

/-! ### Variants -/

lemma variant?_record {v tag : Json} {name : String} {ms : List (String × Json)}
    (hv : v = .record ((name, tag) :: ms)) (hname : name ∉ ms.map (·.1)) :
    variant? name v = some (tag, .record ms) := by
  subst hv
  have hne (e : Option String × Json) (he : e ∈ ms.map fun m => (some m.1, m.2)) :
      e.1 ≠ some name := by
    obtain ⟨m, hm, rfl⟩ := List.mem_map.1 he
    exact fun heq => hname (Option.some.inj heq ▸ List.mem_map_of_mem hm)
  have htag : (((name, tag) :: ms).map fun m : String × Json => (some m.1, m.2)).filter
      (·.1 == some name) = [(some name, tag)] := by
    rw [List.map_cons, List.filter_cons_of_pos (by simp),
      List.filter_eq_nil_iff.2 fun e he => by simpa using hne e he]
  have hrest : (((name, tag) :: ms).map fun m : String × Json => (some m.1, m.2)).filter
      (·.1 != some name) = ms.map fun m => (some m.1, m.2) := by
    rw [List.map_cons, List.filter_cons_of_neg (by simp),
      List.filter_eq_self.2 fun e he => by simpa using hne e he]
  rw [Json.record, variant?, htag, hrest]
  rfl

@[simp] lemma tagName?_text (s : String) : tagName? (.text s) = some s := rfl

@[simp] lemma isStorable_text (s : String) : isStorable room (.text s) = true := by
  simp [isStorable, Json.text]

@[simp] lemma isStorable_bool (b : Bool) : isStorable room (.bool b) = true := by simp [isStorable]

@[simp] lemma isStorable_record {ms : List (String × Json)} :
    isStorable (room + 1) (.record ms) = ms.all fun m => isStorable room m.2 := by
  have hmembers : areMembersStorable room (ms.map fun m => (some m.1, m.2)) =
      ms.all fun m => isStorable room m.2 := by
    induction ms with
    | nil => rfl
    | cons m ms ih => rw [List.map_cons, areMembersStorable, ih, List.all_cons]; rfl
  rw [Json.record, isStorable, hmembers]

@[simp] lemma isStorable_texts (ss : List String) : isStorable (room + 1) (.texts ss) = true := by
  have hall : areStorable room (ss.map .text) = true := by
    induction ss with
    | nil => rfl
    | cons s ss ih => rw [List.map_cons, areStorable, isStorable_text, ih]; rfl
  rw [Json.texts, isStorable, hall]

end Document


end Interpose
