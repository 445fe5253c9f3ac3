import Interpose.Proofs.FileChanges
import Interpose.Proofs.ReadBack
import Interpose.Proofs.TypeTree
import Interpose.Proofs.UnitText
import Interpose.Settings

/-!
Documents that are read back.

Each reader of a part of a unit undoes its writer, under conditions that only its own levels and
indices enter: by the fields for a record, by the tag for an instruction, and by induction for the
tree of types, where a nested type stands two levels further in. Main statement: a unit is read back
from the text that was written exactly if its value has at most the levels that a document may have,
and settings are always read back.
-/

namespace Interpose

open Document

lemma FieldDecl.readsBack : ReadsBack FieldDecl.ofJson? FieldDecl.toJson fun _ => True := by
  refine .of_record (fun _ => rfl) (fun _ => ⟨_, rfl⟩) fun room f => ?_
  have hfields : fields? fieldNames f.toJson = _ := fields?_record rfl rfl (by decide)
  rw [ofJson?, hfields]
  simp [toJson]

lemma PropertyDecl.readsBack : ReadsBack PropertyDecl.ofJson? PropertyDecl.toJson fun _ => True := by
  refine .of_record (fun _ => rfl) (fun _ => ⟨_, rfl⟩) fun room p => ?_
  have hfields : fields? fieldNames p.toJson = _ := fields?_record rfl rfl (by decide)
  rw [ofJson?, hfields]
  cases p
  simp [toJson, Option.bind_eq_some_iff]

lemma Parameter.readsBack : ReadsBack Parameter.ofJson? Parameter.toJson fun _ => True := by
  refine .of_record (fun _ => rfl) (fun _ => ⟨_, rfl⟩) fun room p => ?_
  have hfields : fields? fieldNames p.toJson = _ := fields?_record rfl rfl (by decide)
  rw [ofJson?, hfields]
  simp [toJson]

lemma Local.readsBack : ReadsBack Local.ofJson? Local.toJson fun _ => True := by
  refine .of_record (fun _ => rfl) (fun _ => ⟨_, rfl⟩) fun room l => ?_
  have hfields : fields? fieldNames l.toJson = _ := fields?_record rfl rfl (by decide)
  rw [ofJson?, hfields]
  simp [toJson]

lemma MethodRef.readsBack : ReadsBack MethodRef.ofJson? MethodRef.toJson fun _ => True := by
  refine .of_record (fun _ => rfl) (fun _ => ⟨_, rfl⟩) fun room m => ?_
  have hfields : fields? fieldNames m.toJson = _ := fields?_record rfl rfl (by decide)
  rw [ofJson?, hfields]
  cases m
  simp [toJson, Option.bind_eq_some_iff]

lemma FieldRef.ofRecord?_toMembers (ref : FieldRef) (room : Nat) :
    ofRecord? room (.record ref.toMembers) = some ref := by
  have hfields : fields? fieldNames (.record ref.toMembers) = _ :=
    fields?_record rfl rfl (by decide)
  rw [ofRecord?, hfields]
  simp [toMembers]

/-- An index that a slot has is below the bound of indices. -/
def Slot.Fits : Slot → Prop
  | .local i | .parameter i => i < Numeral.indexBound
  | _ => True

namespace Slot

lemma depth_toJson (s : Slot) : s.toJson.depth = 1 := by cases s <;> rfl

lemma isStorable_toJson {s : Slot} (h : s.Fits) (room : Nat) :
    isStorable (room + 1) s.toJson = true := by
  cases s with
  | field ref => simp [toJson, FieldRef.toMembers]
  | «local» i => simp [toJson, isStorable, Json.ofNat, Numeral.isFinite_ofNat h]
  | parameter i => simp [toJson, isStorable, Json.ofNat, Numeral.isFinite_ofNat h]
  | this => simp [toJson]

lemma ofTagged?_readsBack {tag? : Json → Option String}
    (htag : ∀ name, tag? (.text name) = some name) : ReadsBack (ofTagged? tag?) toJson Fits := by
  intro room s
  cases room with
  | zero => simp [ofTagged?, depth_toJson]
  | succ room =>
    have hfields (i : Nat) : fields? ["index"] (.record [("index", .ofNat i)]) = _ :=
      fields?_record rfl rfl (by decide)
    -- a slot that fits is let in, and one that does not fails at its index
    have hstore : s.Fits → isStorable (room + 1) s.toJson = true :=
      fun h => isStorable_toJson h room
    cases s with
    | field ref =>
      have hvariant : variant? "kind" (toJson (.field ref)) = _ :=
        variant?_record rfl (by simp [FieldRef.toMembers])
      rw [ofTagged?, hvariant]
      simpa [htag, FieldRef.ofRecord?_toMembers, Fits, depth_toJson] using hstore
    | «local» i =>
      have hvariant : variant? "kind" (toJson (.local i)) = _ := variant?_record rfl (by simp)
      rw [ofTagged?, hvariant]
      simpa [htag, hfields, required_index, Option.bind_eq_some_iff, Fits, depth_toJson] using hstore
    | parameter i =>
      have hvariant : variant? "kind" (toJson (.parameter i)) = _ := variant?_record rfl (by simp)
      rw [ofTagged?, hvariant]
      simpa [htag, hfields, required_index, Option.bind_eq_some_iff, Fits, depth_toJson] using hstore
    | this =>
      have hvariant : variant? "kind" (toJson .this) = _ := variant?_record rfl (by simp)
      rw [ofTagged?, hvariant]
      simpa [htag, isBare, Json.record, Fits, depth_toJson] using hstore

/-- A slot inside a value that was taken in as a whole. -/
lemma ofStored?_iff {room : Nat} {s : Slot} :
    isStorable room s.toJson = true ∧ ofStored? room s.toJson = some s ↔
      s.toJson.depth ≤ room ∧ s.Fits := by
  rw [ofStored?, ofTagged?_readsBack (fun _ => rfl) room s, and_iff_right_iff_imp]
  rintro ⟨hdepth, hfits⟩
  rw [depth_toJson] at hdepth
  obtain ⟨room, rfl⟩ := Nat.exists_eq_add_of_le' hdepth
  exact isStorable_toJson hfits room

end Slot

/-- A method reference inside a value that was taken in as a whole. -/
lemma MethodRef.stored_iff {room : Nat} {m : MethodRef} :
    isStorable room m.toJson = true ∧ ofJson? room m.toJson = some m ↔ m.toJson.depth ≤ room := by
  rw [readsBack room m, and_true, and_iff_right_iff_imp]
  intro hdepth
  match room, hdepth with
  | 0, hdepth => simp [toJson] at hdepth
  | 1, hdepth => simp [toJson, Json.texts] at hdepth
  | room + 2, _ => simp [toJson]

@[simp] lemma CallKind.ofStored?_toJson (k : CallKind) (room : Nat) :
    ofStored? room k.toJson = some k := by
  cases k <;> rfl

@[simp] lemma CallKind.isStorable_toJson (k : CallKind) (room : Nat) :
    isStorable room k.toJson = true := isStorable_text k.name

@[simp] lemma CallKind.depth_toJson (k : CallKind) : k.toJson.depth = 0 := rfl

namespace Instruction

/-- The index of the slot that an instruction has is below the bound of indices. -/
def Fits : Instruction → Prop
  | .load slot | .store slot => slot.Fits
  | _ => True

lemma readsBack : ReadsBack ofJson? toJson Fits := by
  intro room i
  cases room with
  | zero => cases i <;> simp [ofJson?, toJson]
  | succ room =>
    cases i with
    | load slot =>
      have hvariant : variant? "op" (toJson (.load slot)) = _ := variant?_record rfl (by simp)
      have hfields : fields? ["target"] (.record [("target", slot.toJson)]) = _ :=
        fields?_record rfl rfl (by decide)
      rw [ofJson?, hvariant]
      simp [hfields, toJson, required, Option.bind_eq_some_iff, Slot.ofStored?_iff, Fits]
    | store slot =>
      have hvariant : variant? "op" (toJson (.store slot)) = _ := variant?_record rfl (by simp)
      have hfields : fields? ["target"] (.record [("target", slot.toJson)]) = _ :=
        fields?_record rfl rfl (by decide)
      rw [ofJson?, hvariant]
      simp [hfields, toJson, required, Option.bind_eq_some_iff, Slot.ofStored?_iff, Fits]
    | call callee kind =>
      have hvariant : variant? "op" (toJson (.call callee kind)) = _ :=
        variant?_record rfl (by simp)
      have hfields : fields? ["callee", "kind"]
          (.record [("callee", callee.toJson), ("kind", kind.toJson)]) = _ :=
        fields?_record rfl rfl (by decide)
      rw [ofJson?, hvariant]
      simp [hfields, toJson, required, Option.bind_eq_some_iff, MethodRef.stored_iff, Fits]
    | other opcode =>
      have hvariant : variant? "op" (toJson (.other opcode)) = _ := variant?_record rfl (by simp)
      have hfields : fields? ["opcode"] (.record [("opcode", .text opcode)]) = _ :=
        fields?_record rfl rfl (by decide)
      rw [ofJson?, hvariant]
      simp [hfields, toJson, Fits]

end Instruction

/-! ### Units -/

lemma nullable_body_iff {room : Nat} {body : Option (List Instruction)} :
    nullable (listOf Instruction.ofJson?) room
        (some (.nullable (fun is => .arr (is.map (·.toJson))) body)) = some body ↔
      (Json.nullable (fun is => .arr (is.map (·.toJson))) body).depth ≤ room ∧
        ∀ i ∈ body.getD [], i.Fits := by
  cases body with
  | none => simp [nullable, Json.nullable]
  | some is =>
    have hlist : listField Instruction.ofJson? room _ = some is ↔ _ :=
      listField_iff Instruction.readsBack
    simpa [nullable, Json.nullable, listField, withDefault] using hlist

/-- Every index in the body of a method is below the bound of indices. -/
def MethodDecl.Fits (m : MethodDecl) : Prop := ∀ i ∈ m.instructions, i.Fits

lemma MethodDecl.readsBack : ReadsBack MethodDecl.ofJson? MethodDecl.toJson Fits := by
  refine .of_record (fun _ => rfl) (fun _ => ⟨_, rfl⟩) fun room m => ?_
  have hfields : fields? fieldNames m.toJson = _ := fields?_record rfl rfl (by decide)
  rw [ofJson?, hfields]
  cases m
  simp [toJson, Option.bind_eq_some_iff, listField_iff Parameter.readsBack,
    listField_iff Local.readsBack, nullable_body_iff, Fits, instructions, and_assoc]

namespace TypeDecl

mutual

/-- Every index in the methods of a type and of those nested in it is below the bound of indices. -/
def Fits : TypeDecl → Prop
  | ⟨_, _, _, _, _, _, _, _, methods, nested⟩ => (∀ m ∈ methods, m.Fits) ∧ AllFit nested

def AllFit : List TypeDecl → Prop
  | [] => True
  | t :: ts => Fits t ∧ AllFit ts

end

lemma allFit_iff {ts : List TypeDecl} : AllFit ts ↔ ∀ t ∈ ts, t.Fits := by
  induction ts with
  | nil => simp [AllFit]
  | cons t ts ih => rw [AllFit, ih, List.forall_mem_cons]

lemma toJsons_eq (ts : List TypeDecl) : toJsons ts = ts.map toJson := by
  induction ts with
  | nil => rfl
  | cons t ts ih => rw [toJsons, ih, List.map_cons]

/-- One type, given that the types nested in it are read back where they stand. -/
lemma read_iff {nestedType : Json → Option TypeDecl} {room : Nat} {t : TypeDecl}
    (hnested : listField (fun _ => nestedType) room (some (.arr (t.nestedTypes.map toJson))) =
      some t.nestedTypes ↔ (Json.arr (t.nestedTypes.map toJson)).depth ≤ room ∧
        AllFit t.nestedTypes) :
    ofJson?.read nestedType room t.toJson = some t ↔ t.toJson.depth ≤ room + 1 ∧ t.Fits := by
  cases t with
  | mk name fullName baseType interfaces isGenerated attributes fields properties methods nested =>
    have hfields : fields? fieldNames (toJson ⟨name, fullName, baseType, interfaces, isGenerated,
        attributes, fields, properties, methods, nested⟩) = _ :=
      fields?_record (by rw [toJson]) rfl (by decide)
    rw [ofJson?.read, hfields]
    simp [toJson, toJsons_eq, Option.bind_eq_some_iff, listField_iff FieldDecl.readsBack,
      listField_iff PropertyDecl.readsBack, listField_iff MethodDecl.readsBack, hnested, Fits,
      and_assoc]
    exact fun _ _ _ _ _ => and_left_comm

lemma depth_toJson_ne_zero (t : TypeDecl) : t.toJson.depth ≠ 0 := by
  cases t
  rw [toJson]
  exact Json.depth_record_ne_zero

lemma forest_readsBack (ts : List TypeDecl) :
    ∀ room, ∀ t ∈ ts, ofJson? room t.toJson = some t ↔ t.toJson.depth ≤ room ∧ t.Fits := by
  induction ts using forest_induction with
  | nil => exact fun _ _ h => (by cases h)
  | cons t ts ihn iht =>
    intro room t' ht'
    rcases List.mem_cons.1 ht' with rfl | hmem
    · match room with
      | 0 => simp [ofJson?, depth_toJson_ne_zero]
      | 1 =>
        rw [ofJson?]
        exact read_iff (iff_of_false (by simp [listField, withDefault, listOf]) (by simp))
      | room + 2 =>
        rw [ofJson?]
        refine read_iff ?_
        have hlist : listField (fun _ => ofJson? room) (room + 1)
            (some (.arr (t'.nestedTypes.map toJson))) =
              (t'.nestedTypes.map toJson).mapM (ofJson? room) := rfl
        rw [hlist, mapM_map_eq_some, Json.depth_arr_le, List.forall_mem_map, allFit_iff,
          ← forall₂_and]
        exact forall₂_congr (ihn room)
    · exact iht room t' hmem

lemma readsBack : ReadsBack ofJson? toJson Fits :=
  fun room t => forest_readsBack [t] room t List.mem_cons_self

end TypeDecl

namespace CompiledUnit

/-- Every index in the methods of a unit is below the bound of indices. -/
def Fits (u : CompiledUnit) : Prop := TypeDecl.AllFit u.types

lemma readsBack : ReadsBack ofJson? toJson Fits := by
  refine .of_record (fun _ => rfl) (fun _ => ⟨_, rfl⟩) fun room u => ?_
  have hfields : fields? fieldNames u.toJson = _ := fields?_record rfl rfl (by decide)
  rw [ofJson?, hfields]
  cases u
  simp [toJson, Option.bind_eq_some_iff, TypeDecl.toJsons_eq, listField_iff TypeDecl.readsBack,
    Fits, TypeDecl.allFit_iff, and_assoc]

lemma parse?_render_iff {u : CompiledUnit} :
    parse? u.render = some u ↔ u.toJson.depth ≤ documentRoom ∧ u.Fits := by
  rw [parse?_render]
  exact readsBack documentRoom u

end CompiledUnit

/-! ### Files -/

lemma Files.read_writeDocument {fs fs' : Files} {v : Json} {p : Path}
    (h : fs.writeDocument v p = .ok fs') : fs'.read p = .ok v.pretty := by
  unfold writeDocument at h
  split at h
  · cases h
  · next written hw =>
    cases h
    exact read_write hw

namespace ExclusionSettings

lemma readsBack : ReadsBack ofJson? toJson fun _ => True := by
  refine .of_record (fun _ => rfl) (fun _ => ⟨_, rfl⟩) fun room s => ?_
  have hfields : fields? ["excluded_units"] s.toJson = _ := fields?_record rfl rfl (by decide)
  rw [ofJson?, hfields]
  cases s
  simp [toJson, Option.bind_eq_some_iff]

lemma depth_toJson_le (s : ExclusionSettings) : s.toJson.depth ≤ documentRoom := by
  simp [toJson, documentRoom, Json.texts]

lemma isSpelled_toJson (s : ExclusionSettings) : s.toJson.IsSpelled :=
  ⟨rfl, Json.isSpelled_texts _, trivial⟩

/-- What was saved is loaded, whatever the defaults would be. -/
lemma load_of_save {s : ExclusionSettings} {fs fs' : Files} {p : Path}
    (h : s.save fs p = (fs', .ok ())) (units : List UnitDescriptor) :
    load fs' p units = ([], s) := by
  have hread : fs'.read p = .ok s.toJson.pretty := by
    unfold save at h
    split at h
    · cases h
    · split at h
      · cases h
      · next hw =>
        cases h
        exact Files.read_writeDocument hw
  have hparse : Document.parse? ofJson? s.toJson.pretty = some s := by
    rw [Document.parse?, Json.parse?_pretty s.isSpelled_toJson, Option.bind_some]
    exact (readsBack _ s).2 ⟨s.depth_toJson_le, trivial⟩
  rw [load, if_pos (Files.has_of_read hread), Files.readDocument, hread]
  simp [hparse]

end ExclusionSettings

/-- **Documents are read back.** A unit is what its text spells, and what is read from the file that
it was written to, exactly if its value nests no deeper than a document may and each of its indices is
below the bound of indices. Settings that were saved are loaded again, and nothing is logged. -/
theorem documents_readBack :
    (∀ u : CompiledUnit, CompiledUnit.parse? u.render = some u ↔
      u.toJson.depth ≤ documentRoom ∧ u.Fits) ∧
    (∀ (u : CompiledUnit) (fs fs' : Files) (p : Path), fs.writeUnit u p = .ok fs' →
      (fs'.readUnit p = .ok u ↔ u.toJson.depth ≤ documentRoom ∧ u.Fits)) ∧
    ∀ (s : ExclusionSettings) (fs fs' : Files) (p : Path) (units : List UnitDescriptor),
      s.save fs p = (fs', .ok ()) → ExclusionSettings.load fs' p units = ([], s) := by
  refine ⟨fun _ => CompiledUnit.parse?_render_iff, fun u fs fs' p h => ?_,
    fun _ _ _ _ units h => ExclusionSettings.load_of_save h units⟩
  have hread : fs'.read p = .ok u.render := Files.read_writeDocument h
  rw [← CompiledUnit.parse?_render_iff, Files.readUnit, Files.readDocument, hread,
    CompiledUnit.parse?]
  rcases hu : Document.parse? CompiledUnit.ofJson? u.render with _ | v <;> simp [hu]

/-- A unit with the largest index, and a call. -/
def largeUnit : CompiledUnit :=
  ⟨"Game", [], ["Core"], [{ TypeDecl.ofName "Game" "Ui" with
    methods := [{ MethodDecl.ofName "Run" voidType with
      body := some [.load (.parameter 18446744073709551615),
        .call (.instanceOf "Game.Log" "Add" ["System.Int32"] voidType) .virtual] }] }]⟩

/-- A path from the root, to a directory that is not there yet. -/
def newSettingsPath : Path := ⟨"/games/ui/WeaverSettings.json"⟩

/-- What is left when settings for one unit have been saved in a new file. -/
def savedSettings : Files × Except Fault Unit :=
  ExclusionSettings.save ⟨["Game"]⟩ .empty newSettingsPath

/-- The unit and the settings are read back. -/
theorem documents_readBack_large :
    CompiledUnit.parse? largeUnit.render = some largeUnit ∧ savedSettings.2 = .ok () ∧
      ExclusionSettings.load savedSettings.1 newSettingsPath [] = ([], ⟨["Game"]⟩) := by
  have hdepth : largeUnit.toJson.depth ≤ documentRoom := by decide
  have hfits : largeUnit.Fits := by
    simp [largeUnit, CompiledUnit.Fits, TypeDecl.AllFit, TypeDecl.Fits, TypeDecl.ofName,
      MethodDecl.Fits, MethodDecl.instructions, Instruction.Fits, Slot.Fits, Numeral.indexBound]
  have hsaved : savedSettings.2 = .ok () := by rfl
  obtain ⟨hunits, -, hsettings⟩ := documents_readBack
  exact ⟨(hunits largeUnit).2 ⟨hdepth, hfits⟩, hsaved, hsettings _ _ _ _ [] (Prod.ext rfl hsaved)⟩

end Interpose
