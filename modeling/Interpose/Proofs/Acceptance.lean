import Interpose.Proofs.RoundTrip

/-!
What a reader takes in.

A reader opens a level for each record, list and variant that it reads, so a document that was read
tells how much room there was for each of its parts: the members of a list were read with one level
less, and without room a list was left out. An index that was read is below the bound of indices.
-/

namespace Interpose

open Document

namespace Document

variable {α : Type} {read : DocumentReader α} {room : Nat} {a : α} {as : List α}

/-- The reader gives this for some value, with this room. -/
def Reads (read : DocumentReader α) (room : Nat) (a : α) : Prop := ∃ v, read room v = some a

lemma exists_of_mapM {f : Json → Option α} {vs : List Json} (h : vs.mapM f = some as) :
    ∀ a ∈ as, ∃ v, f v = some a := by
  induction vs generalizing as with
  | nil =>
    cases h
    exact nofun
  | cons v vs ih =>
    rw [List.mapM_cons] at h
    obtain ⟨a, ha, h⟩ := Option.bind_eq_some_iff.1 h
    obtain ⟨as, has, h⟩ := Option.bind_eq_some_iff.1 h
    cases h
    exact List.forall_mem_cons.2 ⟨⟨v, ha⟩, ih has⟩

/-- A list that has members was read with room for its own level. -/
lemma reads_of_listOf {v : Json} (h : listOf read room v = some as) (ha : a ∈ as) :
    ∃ less, room = less + 1 ∧ Reads read less a := by
  unfold listOf at h
  split at h
  · next less vs => exact ⟨less, rfl, exists_of_mapM h a ha⟩
  · cases h

lemma reads_of_listField {field : Option Json} (h : listField read room field = some as)
    (ha : a ∈ as) : ∃ less, room = less + 1 ∧ Reads read less a := by
  rcases field with _ | v
  · cases h
    cases ha
  · exact reads_of_listOf h ha

/-- So was a list that may be null. -/
lemma reads_of_nullable {field : Option Json} (h : nullable (listOf read) room field = some (some as))
    (ha : a ∈ as) : ∃ less, room = less + 1 ∧ Reads read less a := by
  unfold nullable at h
  split at h
  · cases h
  · cases h
  · obtain ⟨as', has', heq⟩ := Option.map_eq_some_iff.1 h
    cases heq
    exact reads_of_listOf has' ha

lemma lt_of_required_index {field : Option Json} {i : Nat}
    (h : required index room field = some i) : i < Numeral.indexBound := by
  obtain ⟨v, -, hv⟩ := Option.bind_eq_some_iff.1 h
  unfold index at hv
  split at hv
  · unfold Numeral.index? at hv
    split at hv
    · cases hv
    · split at hv
      · next hlt =>
        cases hv
        exact hlt
      · cases hv
  · cases hv

/-- A record of one field, taken apart. -/
lemma of_oneField {name : String} {v : Json} {next : Option Json → Option α}
    (h : (do let [field] ← fields? [name] v | none
             next field) = some a) : ∃ field, next field = some a := by
  obtain ⟨fields, -, h⟩ := Option.bind_eq_some_iff.1 h
  split at h
  · exact ⟨_, h⟩
  · cases h

end Document

/-! ### Instructions -/

lemma Slot.of_reads {room : Nat} {s : Slot} (h : Reads Slot.ofStored? room s) :
    room ≠ 0 ∧ s.Fits := by
  obtain ⟨v, hv⟩ := h
  rcases room with _ | room
  · cases hv
  · refine ⟨Nat.succ_ne_zero _, ?_⟩
    rw [ofStored?, ofTagged?] at hv
    split at hv
    · cases hv
    · obtain ⟨⟨tag, fields⟩, -, hv⟩ := Option.bind_eq_some_iff.1 hv
      obtain ⟨name, -, hv⟩ := Option.bind_eq_some_iff.1 hv
      -- a field, a local, a parameter, the receiver, and a tag that is not known
      split at hv
      · obtain ⟨ref, -, hv⟩ := Option.bind_eq_some_iff.1 hv
        cases hv
        trivial
      · obtain ⟨given, hv⟩ := of_oneField hv
        obtain ⟨i, hi, hv⟩ := Option.bind_eq_some_iff.1 hv
        cases hv
        exact lt_of_required_index hi
      · obtain ⟨given, hv⟩ := of_oneField hv
        obtain ⟨i, hi, hv⟩ := Option.bind_eq_some_iff.1 hv
        cases hv
        exact lt_of_required_index hi
      · split at hv
        · cases hv
          trivial
        · cases hv
      · cases hv

namespace Instruction

/-- What an instruction refers to was read with this room. -/
def PartsRead (room : Nat) : Instruction → Prop
  | .load slot | .store slot => Reads Slot.ofStored? room slot
  | .call callee _ => Reads MethodRef.ofJson? room callee
  | .other _ => True

lemma partsRead_of_reads {room : Nat} {i : Instruction} (h : Reads ofJson? (room + 1) i) :
    i.PartsRead room := by
  obtain ⟨v, hv⟩ := h
  have htarget {slot : Option Json} {s : Slot} (hs : required Slot.ofStored? room slot = some s) :
      Reads Slot.ofStored? room s := by
    obtain ⟨w, -, hw⟩ := Option.bind_eq_some_iff.1 hs
    exact ⟨w, hw⟩
  rw [ofJson?] at hv
  split at hv
  · cases hv
  · obtain ⟨⟨tag, fields⟩, -, hv⟩ := Option.bind_eq_some_iff.1 hv
    obtain ⟨name, -, hv⟩ := Option.bind_eq_some_iff.1 hv
    -- a load, a store, a call, another instruction, and a tag that is not known
    split at hv
    · obtain ⟨given, hv⟩ := of_oneField hv
      obtain ⟨s, hs, hv⟩ := Option.bind_eq_some_iff.1 hv
      cases hv
      exact htarget hs
    · obtain ⟨given, hv⟩ := of_oneField hv
      obtain ⟨s, hs, hv⟩ := Option.bind_eq_some_iff.1 hv
      cases hv
      exact htarget hs
    · obtain ⟨given, -, hv⟩ := Option.bind_eq_some_iff.1 hv
      split at hv
      · obtain ⟨callee, hcallee, hv⟩ := Option.bind_eq_some_iff.1 hv
        obtain ⟨kind, -, hv⟩ := Option.bind_eq_some_iff.1 hv
        cases hv
        obtain ⟨w, -, hw⟩ := Option.bind_eq_some_iff.1 hcallee
        exact ⟨w, hw⟩
      · cases hv
    · obtain ⟨given, hv⟩ := of_oneField hv
      obtain ⟨opcode, -, hv⟩ := Option.bind_eq_some_iff.1 hv
      cases hv
      trivial
    · cases hv

/-- An instruction that was read fits. -/
lemma fits_of_reads {room : Nat} {i : Instruction} (h : Reads ofJson? room i) : i.Fits := by
  rcases room with _ | room
  · obtain ⟨v, hv⟩ := h
    cases hv
  · have hparts := partsRead_of_reads h
    cases i with
    | load slot | store slot => exact (Slot.of_reads hparts).2
    | call callee kind => trivial
    | other opcode => trivial

lemma depth_call (callee : MethodRef) (kind : CallKind) : (call callee kind).toJson.depth = 3 := by
  have hle : (call callee kind).toJson.depth ≤ 3 := by simp [toJson, MethodRef.toJson, Json.texts]
  have hlt : ¬(call callee kind).toJson.depth ≤ 2 := by simp [toJson, MethodRef.toJson, Json.texts]
  omega

lemma depth_le_three (i : Instruction) : i.toJson.depth ≤ 3 := by
  cases i with
  | load slot | store slot => simp [toJson, Slot.depth_toJson]
  | call callee kind => exact Nat.le_of_eq (depth_call callee kind)
  | other opcode => simp [toJson]

/-- With an odd number of levels, an instruction that was read is written with no more. -/
lemma depth_le_of_reads {k : Nat} {i : Instruction} (h : Reads ofJson? (2 * k + 1) i) :
    i.toJson.depth ≤ 2 * k + 1 := by
  rcases k with _ | k
  · have hparts := partsRead_of_reads h
    cases i with
    | load slot | store slot => exact absurd rfl (Slot.of_reads hparts).1
    | call callee kind =>
      obtain ⟨v, hv⟩ := hparts
      cases hv
    | other opcode => simp [toJson]
  · have hle := i.depth_le_three
    omega

end Instruction

/-! ### Methods -/

namespace MethodDecl

lemma instructions_read {room : Nat} {m : MethodDecl} (h : Reads ofJson? room m) :
    ∀ i ∈ m.instructions, ∃ less, room = less + 2 ∧ Reads Instruction.ofJson? less i := by
  obtain ⟨v, hv⟩ := h
  rcases room with _ | room
  · cases hv
  · rw [ofJson?] at hv
    obtain ⟨fields, -, hv⟩ := Option.bind_eq_some_iff.1 hv
    split at hv
    · simp only [Option.bind_eq_bind, Option.bind_eq_some_iff, Option.pure_def,
        Option.some.injEq] at hv
      obtain ⟨-, -, -, -, -, -, -, -, -, -, -, -, body, hbody, rfl⟩ := hv
      intro i hi
      rcases body with _ | is
      · cases hi
      · obtain ⟨less, rfl, hread⟩ := reads_of_nullable hbody hi
        exact ⟨less, rfl, hread⟩
    · cases hv

/-- A method that was read fits. -/
lemma fits_of_reads {room : Nat} {m : MethodDecl} (h : Reads ofJson? room m) : m.Fits := by
  intro i hi
  obtain ⟨less, -, hread⟩ := instructions_read h i hi
  exact Instruction.fits_of_reads hread

lemma depth_toJson_le_iff {room : Nat} {m : MethodDecl} :
    m.toJson.depth ≤ room + 3 ↔ ∀ i ∈ m.instructions, i.toJson.depth ≤ room + 1 := by
  have hbody (body : Option (List Instruction)) :
      (Json.nullable (fun is => .arr (is.map (·.toJson))) body).depth ≤ room + 2 ↔
        ∀ i ∈ body.getD [], i.toJson.depth ≤ room + 1 := by
    cases body <;> simp [Json.nullable]
  simp [toJson, hbody, Parameter.toJson, Local.toJson, Json.texts, instructions]

/-- With an odd number of levels, at least three, a method that was read is written with no more. -/
lemma depth_le_of_reads {k : Nat} {m : MethodDecl} (h : Reads ofJson? (2 * k + 3) m) :
    m.toJson.depth ≤ 2 * k + 3 := by
  rw [depth_toJson_le_iff]
  intro i hi
  obtain ⟨less, hless, hread⟩ := instructions_read h i hi
  obtain rfl : less = 2 * k + 1 := by omega
  exact Instruction.depth_le_of_reads hread

lemma not_depth_toJson_le_one (m : MethodDecl) : ¬m.toJson.depth ≤ 1 := by
  simp [toJson]

end MethodDecl

/-! ### Types -/

lemma PropertyDecl.depth_toJson_le (p : PropertyDecl) (room : Nat) : p.toJson.depth ≤ room + 2 := by
  simp [toJson, Json.texts]

lemma PropertyDecl.not_depth_toJson_le_one (p : PropertyDecl) : ¬p.toJson.depth ≤ 1 := by
  simp [toJson, Json.texts]

namespace TypeDecl

lemma parts_read {nestedType : Json → Option TypeDecl} {room : Nat} {v : Json} {t : TypeDecl}
    (h : ofJson?.read nestedType room v = some t) :
    (∀ m ∈ t.methods, ∃ less, room = less + 1 ∧ Reads MethodDecl.ofJson? less m) ∧
      ∀ s ∈ t.nestedTypes, ∃ less w, room = less + 1 ∧ nestedType w = some s := by
  rw [ofJson?.read] at h
  obtain ⟨fields, -, h⟩ := Option.bind_eq_some_iff.1 h
  split at h
  · simp only [Option.bind_eq_bind, Option.bind_eq_some_iff, Option.pure_def,
      Option.some.injEq] at h
    obtain ⟨-, -, -, -, -, -, -, -, -, -, -, -, -, -, -, -, methods, hmethods, nested, hnested,
      rfl⟩ := h
    refine ⟨fun m hm => reads_of_listField hmethods hm, fun s hs => ?_⟩
    obtain ⟨less, hless, w, hw⟩ := reads_of_listField hnested hs
    exact ⟨less, w, hless, hw⟩
  · cases h

/-- The methods of a type, and the types nested in it, were read with two levels less. -/
lemma of_reads {room : Nat} {t : TypeDecl} (h : Reads ofJson? room t) :
    (∀ m ∈ t.methods, ∃ less, room = less + 2 ∧ Reads MethodDecl.ofJson? less m) ∧
      ∀ s ∈ t.nestedTypes, ∃ less, room = less + 2 ∧ Reads ofJson? less s := by
  obtain ⟨v, hv⟩ := h
  match room with
  | 0 => cases hv
  | 1 =>
    rw [ofJson?] at hv
    obtain ⟨hmethods, hnested⟩ := parts_read hv
    refine ⟨fun m hm => ?_, fun s hs => ?_⟩
    · obtain ⟨less, hless, -⟩ := hmethods m hm
      cases hless
    · obtain ⟨less, w, hless, -⟩ := hnested s hs
      cases hless
  | room + 2 =>
    rw [ofJson?] at hv
    obtain ⟨hmethods, hnested⟩ := parts_read hv
    refine ⟨fun m hm => ?_, fun s hs => ?_⟩
    · obtain ⟨less, hless, hread⟩ := hmethods m hm
      cases hless
      exact ⟨room, rfl, hread⟩
    · obtain ⟨less, w, hless, hw⟩ := hnested s hs
      exact ⟨room, rfl, w, hw⟩

lemma fits_iff (t : TypeDecl) : t.Fits ↔ (∀ m ∈ t.methods, m.Fits) ∧ AllFit t.nestedTypes := by
  cases t
  rw [Fits]

/-- Types that were read fit. -/
lemma allFit_of_reads (ts : List TypeDecl) (h : ∀ t ∈ ts, ∃ room, Reads ofJson? room t) :
    AllFit ts := by
  induction ts using forest_induction with
  | nil => trivial
  | cons t ts ihn iht =>
    obtain ⟨⟨room, ht⟩, hts⟩ := List.forall_mem_cons.1 h
    obtain ⟨hmethods, hnested⟩ := of_reads ht
    have hfits (m : MethodDecl) (hm : m ∈ t.methods) : m.Fits := by
      obtain ⟨less, -, hread⟩ := hmethods m hm
      exact MethodDecl.fits_of_reads hread
    have hbelow : AllFit t.nestedTypes := ihn fun s hs => by
      obtain ⟨less, -, hread⟩ := hnested s hs
      exact ⟨less, hread⟩
    exact ⟨(fits_iff t).2 ⟨hfits, hbelow⟩, iht hts⟩

end TypeDecl

/-! ### Units -/

/-- The types of a unit were read with two levels less. -/
lemma CompiledUnit.types_read {room : Nat} {u : CompiledUnit} (h : Reads ofJson? room u) :
    ∀ t ∈ u.types, ∃ less, room = less + 2 ∧ Reads TypeDecl.ofJson? less t := by
  obtain ⟨v, hv⟩ := h
  rcases room with _ | room
  · cases hv
  · rw [ofJson?] at hv
    obtain ⟨fields, -, hv⟩ := Option.bind_eq_some_iff.1 hv
    split at hv
    · simp only [Option.bind_eq_bind, Option.bind_eq_some_iff, Option.pure_def,
        Option.some.injEq] at hv
      obtain ⟨-, -, -, -, -, -, types, htypes, rfl⟩ := hv
      intro t ht
      obtain ⟨less, rfl, hread⟩ := reads_of_listField htypes ht
      exact ⟨less, rfl, hread⟩
    · cases hv

end Interpose
