import Interpose.Proofs.JsonText
import Interpose.Unit.Document

/-!
The texts of documents.

Documents are built of texts, flags, indices, arrays and records, all of which are spelled. Main
statement: what is read from the text of a unit is what its value says.
-/

namespace Interpose

namespace Json

variable {α : Type}

lemma isSpelled_text (s : String) : (text s).IsSpelled := rfl

lemma isSpelled_ofNat (n : Nat) : (ofNat n).IsSpelled := Numeral.isSpelled_ofNat n

lemma isSpelled_arr {vs : List Json} (h : ∀ v ∈ vs, v.IsSpelled) : (arr vs).IsSpelled := by
  have hall : AreSpelled vs := by
    induction vs with
    | nil => trivial
    | cons v vs ih => exact ⟨h v List.mem_cons_self, ih fun w hw => h w (List.mem_cons_of_mem _ hw)⟩
  exact hall

lemma isSpelled_arr_map {f : α → Json} (h : ∀ a, (f a).IsSpelled) (as : List α) :
    (arr (as.map f)).IsSpelled := by
  refine isSpelled_arr fun v hv => ?_
  obtain ⟨a, -, rfl⟩ := List.mem_map.1 hv
  exact h a

lemma isSpelled_texts (ss : List String) : (texts ss).IsSpelled := isSpelled_arr_map isSpelled_text ss

lemma isSpelled_nullable {f : α → Json} (h : ∀ a, (f a).IsSpelled) (a : Option α) :
    (nullable f a).IsSpelled := by
  cases a with
  | none => trivial
  | some a => exact h a

lemma isSpelled_record {fields : List (String × Json)} (h : ∀ f ∈ fields, f.2.IsSpelled) :
    (record fields).IsSpelled := by
  have hall : AreMembersSpelled (fields.map fun f => (some f.1, f.2)) := by
    induction fields with
    | nil => trivial
    | cons f fields ih =>
      exact ⟨rfl, h f List.mem_cons_self, ih fun g hg => h g (List.mem_cons_of_mem _ hg)⟩
  exact hall

end Json

open Json

/-! ### Instructions -/

lemma MethodRef.isSpelled_toJson (m : MethodRef) : m.toJson.IsSpelled := by
  refine isSpelled_record ?_
  simp only [List.forall_mem_cons]
  exact ⟨rfl, rfl, isSpelled_texts _, rfl, trivial, List.forall_mem_nil _⟩

lemma Slot.isSpelled_toJson (s : Slot) : s.toJson.IsSpelled := by
  cases s with
  | field ref => exact ⟨rfl, rfl, rfl, rfl, rfl, rfl, rfl, rfl, trivial⟩
  | «local» i => exact ⟨rfl, rfl, rfl, isSpelled_ofNat i, trivial⟩
  | parameter i => exact ⟨rfl, rfl, rfl, isSpelled_ofNat i, trivial⟩
  | this => exact ⟨rfl, rfl, trivial⟩

lemma Instruction.isSpelled_toJson (i : Instruction) : i.toJson.IsSpelled := by
  cases i with
  | load slot => exact ⟨rfl, rfl, rfl, slot.isSpelled_toJson, trivial⟩
  | store slot => exact ⟨rfl, rfl, rfl, slot.isSpelled_toJson, trivial⟩
  | call callee kind => exact ⟨rfl, rfl, rfl, callee.isSpelled_toJson, rfl, rfl, trivial⟩
  | other opcode => exact ⟨rfl, rfl, rfl, rfl, trivial⟩

/-! ### Units -/

lemma FieldDecl.isSpelled_toJson (f : FieldDecl) : f.toJson.IsSpelled :=
  ⟨rfl, rfl, rfl, rfl, rfl, trivial, trivial⟩

lemma PropertyDecl.isSpelled_toJson (p : PropertyDecl) : p.toJson.IsSpelled :=
  ⟨rfl, rfl, rfl, isSpelled_nullable isSpelled_text _, rfl, isSpelled_nullable isSpelled_text _, rfl,
    isSpelled_texts _, trivial⟩

lemma Parameter.isSpelled_toJson (p : Parameter) : p.toJson.IsSpelled :=
  ⟨rfl, rfl, rfl, rfl, trivial⟩

lemma Local.isSpelled_toJson (l : Local) : l.toJson.IsSpelled :=
  ⟨rfl, isSpelled_nullable isSpelled_text _, rfl, rfl, trivial⟩

lemma MethodDecl.isSpelled_toJson (m : MethodDecl) : m.toJson.IsSpelled := by
  refine isSpelled_record ?_
  simp only [List.forall_mem_cons]
  exact ⟨rfl, trivial, rfl, isSpelled_arr_map Parameter.isSpelled_toJson _,
    isSpelled_arr_map Local.isSpelled_toJson _, isSpelled_texts _,
    isSpelled_nullable (isSpelled_arr_map Instruction.isSpelled_toJson) _, List.forall_mem_nil _⟩

mutual

theorem TypeDecl.isSpelled_toJson (t : TypeDecl) : t.toJson.IsSpelled := by
  match t with
  | ⟨name, fullName, baseType, interfaces, isGenerated, attributes, fields, properties, methods,
      nested⟩ =>
    rw [TypeDecl.toJson]
    refine isSpelled_record ?_
    simp only [List.forall_mem_cons]
    exact ⟨rfl, rfl, isSpelled_nullable isSpelled_text _, isSpelled_texts _, trivial,
      isSpelled_texts _, isSpelled_arr_map FieldDecl.isSpelled_toJson _,
      isSpelled_arr_map PropertyDecl.isSpelled_toJson _,
      isSpelled_arr_map MethodDecl.isSpelled_toJson _, TypeDecl.areSpelled_toJsons nested,
      List.forall_mem_nil _⟩

theorem TypeDecl.areSpelled_toJsons (ts : List TypeDecl) : AreSpelled (TypeDecl.toJsons ts) := by
  match ts with
  | [] => trivial
  | t :: ts => exact ⟨TypeDecl.isSpelled_toJson t, TypeDecl.areSpelled_toJsons ts⟩

end

namespace CompiledUnit

lemma isSpelled_toJson (u : CompiledUnit) : u.toJson.IsSpelled :=
  ⟨rfl, rfl, rfl, isSpelled_texts _, rfl, isSpelled_texts _, rfl,
    TypeDecl.areSpelled_toJsons u.types, trivial⟩

/-- **The text of a unit says what its value says**: what is read from the file that a unit was
written to is what the reader of units makes of its value. -/
theorem parse?_render (u : CompiledUnit) : parse? u.render = ofJson? documentRoom u.toJson := by
  rw [parse?, render, Document.parse?, parse?_pretty u.isSpelled_toJson, Option.bind_some]

end CompiledUnit

end Interpose
