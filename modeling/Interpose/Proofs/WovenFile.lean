import Interpose.Proofs.Acceptance
import Interpose.Proofs.CallsSent

/-!
The files of woven units.

A unit may be read from a text that leaves out lists, and is written with every list, so that a type
takes one more level in what is written. Sending calls takes no more levels. Main statement: the file
of a woven unit is read again exactly if its types are nested no deeper than there is room for the
lists of the innermost one.
-/

namespace Interpose

open Document

variable {rules : List Rule}

/-! ### Sending calls takes no more levels -/

lemma Json.depths_map_congr {α : Type} {f : α → Json} {as bs : List α}
    (h : List.Forall₂ (fun a b => (f b).depth = (f a).depth) as bs) :
    depths (bs.map f) = depths (as.map f) := by
  induction h with
  | nil => rfl
  | cons hab _ ih => rw [List.map_cons, List.map_cons, depths, depths, hab, ih]

namespace Rule.Sends

variable {a b : Instruction}

lemma depth_eq (h : Sends rules a b) : b.toJson.depth = a.toJson.depth := by
  cases h with
  | kept => rfl
  | sent => rw [Instruction.depth_call, Instruction.depth_call]

lemma fits (h : Sends rules a b) (ha : a.Fits) : b.Fits := by
  cases h with
  | kept => exact ha
  | sent => trivial

end Rule.Sends

lemma exists_of_forall₂ {α β : Type} {R : α → β → Prop} {as : List α} {bs : List β}
    (h : List.Forall₂ R as bs) : ∀ b ∈ bs, ∃ a ∈ as, R a b := by
  induction h with
  | nil => exact nofun
  | @cons a b as bs hab _ ih =>
    refine List.forall_mem_cons.2 ⟨⟨a, List.mem_cons_self, hab⟩, fun b hb => ?_⟩
    obtain ⟨a, ha, hab⟩ := ih b hb
    exact ⟨a, List.mem_cons_of_mem _ ha, hab⟩

namespace MethodDecl.CallsSent

variable {m m' : MethodDecl}

lemma depth_eq (h : m.CallsSent rules m') : m'.toJson.depth = m.toJson.depth := by
  obtain ⟨body', rfl, hbody⟩ := h
  obtain ⟨name, hasThis, returnType, params, locals, attributes, body⟩ := m
  have hdepth : (Json.nullable (fun is => .arr (is.map (·.toJson))) body').depth =
      (Json.nullable (fun is : List Instruction => .arr (is.map (·.toJson))) body).depth := by
    cases hbody with
    | none => rfl
    | some his =>
      rw [Json.nullable, Json.nullable, Json.depth, Json.depth,
        Json.depths_map_congr (his.imp fun _ _ => Rule.Sends.depth_eq)]
  simp only [toJson, Json.record, List.map_cons, Json.depth, Json.memberDepths, hdepth]

lemma fits (h : m.CallsSent rules m') (hm : m.Fits) : m'.Fits := by
  obtain ⟨body', rfl, hbody⟩ := h
  obtain ⟨name, hasThis, returnType, params, locals, attributes, body⟩ := m
  unfold MethodDecl.Fits instructions at hm ⊢
  cases hbody with
  | none => exact hm
  | some his =>
    intro i hi
    obtain ⟨a, ha, hsent⟩ := exists_of_forall₂ his i hi
    exact hsent.fits (hm a ha)

end MethodDecl.CallsSent

namespace TypeDecl

lemma toJson_eq (t : TypeDecl) : t.toJson =
    .record [("name", .text t.name), ("full_name", .text t.fullName),
      ("base_type", .nullable .text t.baseType), ("interfaces", .texts t.interfaces),
      ("compiler_generated", .bool t.isGenerated), ("attributes", .texts t.attributes),
      ("fields", .arr (t.fields.map (·.toJson))), ("properties", .arr (t.properties.map (·.toJson))),
      ("methods", .arr (t.methods.map (·.toJson))),
      ("nested_types", .arr (t.nestedTypes.map toJson))] := by
  cases t
  rw [toJson, toJsons_eq]

/-- Types with sent calls take the same levels, and fit if they did. -/
lemma depths_of_callsSent (ts : List TypeDecl) :
    ∀ ts', List.Forall₂ (CallsSent rules) ts ts' →
      Json.depths (ts'.map toJson) = Json.depths (ts.map toJson) ∧ (AllFit ts → AllFit ts') := by
  induction ts using forest_induction with
  | nil =>
    intro ts' h
    cases h
    exact ⟨rfl, id⟩
  | cons t ts ihn iht =>
    intro ts' h
    obtain ⟨t', ts', ht, hts, rfl⟩ := List.forall₂_cons_left_iff.1 h
    obtain ⟨hdepths, hfit⟩ := iht ts' hts
    cases ht with
    | @intro _ ms nested hms hnested =>
      obtain ⟨hbelow, hfitbelow⟩ := ihn nested hnested
      have hmethods := Json.depths_map_congr (f := MethodDecl.toJson)
        (hms.imp fun _ _ => MethodDecl.CallsSent.depth_eq)
      have htype : ((t.withMethods ms).withNested nested).toJson.depth = t.toJson.depth := by
        rw [toJson_eq, toJson_eq t]
        simp only [nestedTypes_withNested, methods_withNested, methods_withMethods, Json.record,
          List.map_cons, Json.depth, Json.memberDepths, hbelow, hmethods]
        rfl
      refine ⟨by rw [List.map_cons, List.map_cons, Json.depths, Json.depths, htype, hdepths], ?_⟩
      rw [AllFit, AllFit, fits_iff, fits_iff]
      rintro ⟨⟨hown, hallbelow⟩, hall⟩
      refine ⟨⟨fun m hm => ?_, hfitbelow hallbelow⟩, hfit hall⟩
      obtain ⟨m₀, hm₀, hsent⟩ := exists_of_forall₂ hms m hm
      exact hsent.fits (hown m₀ hm₀)

end TypeDecl

namespace CompiledUnit.CallsSent

variable {u u' : CompiledUnit}

lemma depth_eq (h : u.CallsSent rules u') : u'.toJson.depth = u.toJson.depth := by
  obtain ⟨ts, rfl, hts⟩ := h
  have hdepths := (TypeDecl.depths_of_callsSent u.types ts hts).1
  simp only [toJson, TypeDecl.toJsons_eq, Json.record, List.map_cons, Json.depth, Json.memberDepths,
    hdepths]

lemma fits (h : u.CallsSent rules u') (hu : u.Fits) : u'.Fits := by
  obtain ⟨ts, rfl, hts⟩ := h
  exact (TypeDecl.depths_of_callsSent u.types ts hts).2 hu

end CompiledUnit.CallsSent

/-! ### Room for the lists of a type -/

namespace TypeDecl

/-- Every type in the tree has room for its lists, where the tree has this room: a type in the
innermost place that has room can have fields, but no methods or properties. -/
def HasRoom (room : Nat) (t : TypeDecl) : Prop := ∀ path s, t.nestedAt? path = some s →
  2 * path.length + 3 ≤ room ∧
    (2 * path.length + 3 = room → s.methods = [] ∧ s.properties = [])

lemma hasRoom_iff {room : Nat} {t : TypeDecl} :
    t.HasRoom (room + 2) ↔
      (1 ≤ room ∧ (room = 1 → t.methods = [] ∧ t.properties = [])) ∧
        ∀ s ∈ t.nestedTypes, s.HasRoom room := by
  constructor
  · intro h
    obtain ⟨hroom, hlists⟩ := h [] t rfl
    rw [List.length_nil] at hroom hlists
    refine ⟨⟨by omega, fun h1 => hlists (by omega)⟩, fun s hs path s' hs' => ?_⟩
    obtain ⟨i, hi⟩ := List.mem_iff_getElem?.1 hs
    have hpath : t.nestedAt? (i :: path) = some s' := by rw [nestedAt?, hi, Option.bind_some, hs']
    obtain ⟨hroom', hlists'⟩ := h (i :: path) s' hpath
    rw [List.length_cons] at hroom' hlists'
    exact ⟨by omega, fun heq => hlists' (by omega)⟩
  · rintro ⟨⟨hroom, hlists⟩, hnested⟩ path s hs
    rcases path with _ | ⟨i, path⟩
    · cases hs
      rw [List.length_nil]
      exact ⟨by omega, fun heq => hlists (by omega)⟩
    · obtain ⟨s', hi, hs'⟩ := Option.bind_eq_some_iff.1 hs
      obtain ⟨hroom', hlists'⟩ := hnested s' (List.mem_of_getElem? hi) path s hs'
      rw [List.length_cons]
      exact ⟨by omega, fun heq => hlists' (by omega)⟩

lemma depth_toJson_le_iff {room : Nat} {t : TypeDecl} :
    t.toJson.depth ≤ room + 3 ↔ (∀ p ∈ t.properties, p.toJson.depth ≤ room + 1) ∧
      (∀ m ∈ t.methods, m.toJson.depth ≤ room + 1) ∧
      ∀ s ∈ t.nestedTypes, s.toJson.depth ≤ room + 1 := by
  rw [toJson_eq]
  simp [FieldDecl.toJson, Json.texts]

lemma forall_depth_le_one_iff {α : Type} {f : α → Json} (hf : ∀ a, ¬(f a).depth ≤ 1) (as : List α) :
    (∀ a ∈ as, (f a).depth ≤ 1) ↔ as = [] := by
  rcases as with _ | ⟨a, as⟩
  · simp
  · simp [hf a]

/-- The properties and methods of a type that was read take no more levels than are left for them;
where one is left, there can be none. -/
lemma own_depth_le_iff {k : Nat} {t : TypeDecl} (h : Reads ofJson? (2 * k + 1 + 2) t) :
    (∀ p ∈ t.properties, p.toJson.depth ≤ 2 * k + 1) ∧
        (∀ m ∈ t.methods, m.toJson.depth ≤ 2 * k + 1) ↔
      1 ≤ 2 * k + 1 ∧ (2 * k + 1 = 1 → t.methods = [] ∧ t.properties = []) := by
  rcases k with _ | k
  · have hmethods : (∀ m ∈ t.methods, m.toJson.depth ≤ 1) ↔ t.methods = [] :=
      forall_depth_le_one_iff MethodDecl.not_depth_toJson_le_one t.methods
    have hproperties : (∀ p ∈ t.properties, p.toJson.depth ≤ 1) ↔ t.properties = [] :=
      forall_depth_le_one_iff PropertyDecl.not_depth_toJson_le_one t.properties
    simp only [Nat.mul_zero, Nat.zero_add, Nat.le_refl, true_and, true_implies, hmethods,
      hproperties, and_comm]
  · refine iff_of_true ⟨fun p _ => p.depth_toJson_le (2 * k + 1), fun m hm => ?_⟩
      ⟨by omega, fun h => by omega⟩
    obtain ⟨less, hless, hread⟩ := (of_reads h).1 m hm
    obtain rfl : less = 2 * k + 3 := by omega
    exact MethodDecl.depth_le_of_reads hread

/-- A type that was read with an odd number of levels is written with no more exactly if it has
room for its lists. -/
lemma depth_le_iff_hasRoom (ts : List TypeDecl) : ∀ k, ∀ t ∈ ts, Reads ofJson? (2 * k + 1) t →
    (t.toJson.depth ≤ 2 * k + 1 ↔ t.HasRoom (2 * k + 1)) := by
  induction ts using forest_induction with
  | nil => exact fun _ _ ht => nomatch ht
  | cons t ts ihn iht =>
    intro k t' ht' hread
    rcases List.mem_cons.1 ht' with rfl | hmem
    · rcases k with _ | k
      · -- the last level holds no list at all
        refine iff_of_false ?_ fun h => ?_
        · rw [toJson_eq]
          simp [Json.texts]
        · have hroom := (h [] t' rfl).1
          rw [List.length_nil] at hroom
          omega
      · have hodd : 2 * (k + 1) + 1 = 2 * k + 1 + 2 := by omega
        rw [hodd] at hread ⊢
        have hbelow : (∀ s ∈ t'.nestedTypes, s.toJson.depth ≤ 2 * k + 1) ↔
            ∀ s ∈ t'.nestedTypes, s.HasRoom (2 * k + 1) := by
          refine forall₂_congr fun s hs => ihn k s hs ?_
          obtain ⟨less, hless, hs'⟩ := (of_reads hread).2 s hs
          obtain rfl : less = 2 * k + 1 := by omega
          exact hs'
        rw [hasRoom_iff, ← own_depth_le_iff hread, ← hbelow, and_assoc]
        exact depth_toJson_le_iff
    · exact iht k t' hmem hread

end TypeDecl

namespace CompiledUnit

/-- Every type of the unit has room for its lists in a document. -/
def HasRoom (u : CompiledUnit) : Prop := ∀ path t, u.typeAt? path = some t →
  2 * path.length + 3 ≤ documentRoom ∧
    (2 * path.length + 3 = documentRoom → t.methods = [] ∧ t.properties = [])

variable {u u' : CompiledUnit}

lemma hasRoom_iff : u.HasRoom ↔ ∀ t ∈ u.types, t.HasRoom 125 := by
  constructor
  · intro h t ht path s hs
    obtain ⟨i, hi⟩ := List.mem_iff_getElem?.1 ht
    have hpath : u.typeAt? (i :: path) = some s := by rw [typeAt?, hi, Option.bind_some, hs]
    obtain ⟨hroom, hlists⟩ := h (i :: path) s hpath
    rw [List.length_cons, documentRoom] at hroom hlists
    exact ⟨by omega, fun heq => hlists (by omega)⟩
  · intro h path s hs
    rcases path with _ | ⟨i, path⟩
    · cases hs
    · obtain ⟨t, hi, hs'⟩ := Option.bind_eq_some_iff.1 hs
      obtain ⟨hroom, hlists⟩ := h t (List.mem_of_getElem? hi) path s hs'
      rw [List.length_cons, documentRoom]
      exact ⟨by omega, fun heq => hlists (by omega)⟩

/-- A unit that was read is read again from what is written of it, and so is every unit that it
becomes by sending calls, exactly if all types have room for their lists. -/
lemma parse?_render_iff_hasRoom (h : Reads ofJson? documentRoom u) (hsent : u.CallsSent rules u') :
    parse? u'.render = some u' ↔ u.HasRoom := by
  have hread : ∀ t ∈ u.types, Reads TypeDecl.ofJson? (2 * 62 + 1) t := by
    intro t ht
    obtain ⟨less, hless, hread⟩ := types_read h t ht
    rw [documentRoom] at hless
    obtain rfl : less = 2 * 62 + 1 := by omega
    exact hread
  have hfits : u'.Fits := hsent.fits (TypeDecl.allFit_of_reads u.types fun t ht => ⟨_, hread t ht⟩)
  have hdepth : u.toJson.depth ≤ documentRoom ↔ ∀ t ∈ u.types, t.toJson.depth ≤ 2 * 62 + 1 := by
    rw [toJson, TypeDecl.toJsons_eq, documentRoom]
    simp [Json.texts]
  rw [parse?_render_iff, and_iff_left hfits, hsent.depth_eq, hdepth, hasRoom_iff]
  exact forall₂_congr fun t ht => TypeDecl.depth_le_iff_hasRoom u.types 62 t ht (hread t ht)

lemma reads_of_parse? {s : String} (h : parse? s = some u) : Reads ofJson? documentRoom u := by
  obtain ⟨v, -, hv⟩ := Option.bind_eq_some_iff.1 h
  exact ⟨v, hv⟩

lemma callsSent_weave_ofOptions (o : CaptureOptions) (c : WeaveContext) (u : CompiledUnit) :
    u.CallsSent (NetworkCapture.rules o) ((WeaverList.ofOptions o).weave c u).value := by
  rw [(WeaverList.weave_ofOptions o c u).1]
  exact u.callsSent_weave

/-- **What is read of a woven unit**: a unit that was read is woven, and what is written of it is
read as the woven unit exactly if every type has room for its lists, however the unit was woven. The
text that was read may have left lists out, so a unit can be woven and its file be lost. -/
theorem woven_readAgain_iff {s : String} (h : parse? s = some u) (o : CaptureOptions)
    (c : WeaveContext) :
    (parse? ((WeaverList.ofOptions o).weave c u).value.render =
        some ((WeaverList.ofOptions o).weave c u).value ↔ u.HasRoom) ∧
    ∀ (fs fs' : Files) (p : Path),
      fs.writeUnit ((WeaverList.ofOptions o).weave c u).value p = .ok fs' →
        (fs'.readUnit p = .ok ((WeaverList.ofOptions o).weave c u).value ↔ u.HasRoom) := by
  have hrender := parse?_render_iff_hasRoom (reads_of_parse? h) (callsSent_weave_ofOptions o c u)
  refine ⟨hrender, fun fs fs' p hw => ?_⟩
  have hread : fs'.read p = .ok (render _) := Files.read_writeDocument hw
  rw [← hrender, Files.readUnit, Files.readDocument, hread, parse?]
  rcases hu : Document.parse? ofJson? (render _) with _ | v <;> simp [hu]

/-! #### Types without lists, one nested in the other -/

def bareJson : Nat → Json
  | 0 => .record [("name", .text "T"), ("full_name", .text "T")]
  | k + 1 => .record [("name", .text "T"), ("full_name", .text "T"),
      ("nested_types", .arr [bareJson k])]

def bareType : Nat → TypeDecl
  | 0 => .ofName "" "T"
  | k + 1 => (TypeDecl.ofName "" "T").withNested [bareType k]

lemma read_bareJson (k : Nat) :
    ∀ room, TypeDecl.ofJson? (room + 2 * k + 1) (bareJson k) = some (bareType k) := by
  induction k with
  | zero => rintro (_ | room) <;> rfl
  | succ k ih =>
    intro room
    have hfields : fields? TypeDecl.fieldNames (bareJson (k + 1)) =
        some [some (.text "T"), some (.text "T"), none, none, none, none, none, none, none,
          some (.arr [bareJson k])] := rfl
    have hnested : listField (fun _ => TypeDecl.ofJson? (room + 2 * k + 1)) (room + 2 * k + 2)
        (some (.arr [bareJson k])) = some [bareType k] := by
      simp [listField, withDefault, listOf, ih room]
    have hroom : room + 2 * (k + 1) + 1 = room + 2 * k + 1 + 2 := by omega
    rw [hroom, TypeDecl.ofJson?, TypeDecl.ofJson?.read, hfields]
    simp [hnested]
    rfl

lemma isSpelled_bareJson (k : Nat) : (bareJson k).IsSpelled := by
  induction k with
  | zero => exact ⟨rfl, rfl, rfl, rfl, trivial⟩
  | succ k ih => exact ⟨rfl, rfl, rfl, rfl, rfl, ⟨ih, trivial⟩, trivial⟩

lemma hasRoom_bareType (k : Nat) : ∀ room, (bareType k).HasRoom (room + 2 * k + 3) := by
  induction k with
  | zero => exact fun room => TypeDecl.hasRoom_iff.2 ⟨⟨by omega, fun _ => ⟨rfl, rfl⟩⟩, nofun⟩
  | succ k ih =>
    intro room
    have hroom : room + 2 * (k + 1) + 3 = room + 2 * k + 3 + 2 := by omega
    rw [hroom]
    exact TypeDecl.hasRoom_iff.2 ⟨⟨by omega, fun _ => ⟨rfl, rfl⟩⟩,
      List.forall_mem_singleton.2 (ih room)⟩

lemma nestedAt?_bareType (k : Nat) :
    (bareType k).nestedAt? (List.replicate k 0) = some (bareType 0) := by
  induction k with
  | zero => rfl
  | succ k ih => exact ih

/-- Makes a client. -/
def connect : MethodDecl :=
  { MethodDecl.ofName "Connect" NetworkCapture.httpClient with
    body := some [.call (NetworkCapture.clientConstructor []) .construct, .other "ret"] }

def clientJson (k : Nat) : Json :=
  .record [("name", .text "Net"), ("full_name", .text "Game.Net"),
    ("methods", .arr [connect.toJson]), ("nested_types", .arr [bareJson k])]

/-- A type that makes a client, over types without lists. -/
def clientType (k : Nat) : TypeDecl :=
  { TypeDecl.ofName "Game" "Net" with methods := [connect], nestedTypes := [bareType k] }

def deepJson (k : Nat) : Json := .record [("name", .text "Game"), ("types", .arr [clientJson k])]

def deepUnit (k : Nat) : CompiledUnit := { CompiledUnit.ofName "Game" with types := [clientType k] }

lemma read_clientJson (room : Nat) {k : Nat} (h : room + 2 * k = 122) :
    TypeDecl.ofJson? 125 (clientJson k) = some (clientType k) := by
  have hfields : fields? TypeDecl.fieldNames (clientJson k) =
      some [some (.text "Net"), some (.text "Game.Net"), none, none, none, none, none, none,
        some (.arr [connect.toJson]), some (.arr [bareJson k])] := rfl
  have hmethods : listField MethodDecl.ofJson? 124 (some (.arr [connect.toJson])) =
      some [connect] := rfl
  have hnested : listField (fun _ => TypeDecl.ofJson? 123) 124 (some (.arr [bareJson k])) =
      some [bareType k] := by
    have hbare := read_bareJson k room
    rw [h] at hbare
    simp [listField, withDefault, listOf, hbare]
  rw [TypeDecl.ofJson?, TypeDecl.ofJson?.read, hfields]
  simp [hmethods, hnested]
  rfl

/-- The text spells the unit, when no type lies behind the last level. -/
lemma parse?_deepJson (room : Nat) {k : Nat} (h : room + 2 * k = 122) :
    parse? (deepJson k).pretty = some (deepUnit k) := by
  have hspelled : (deepJson k).IsSpelled :=
    ⟨rfl, rfl, rfl, ⟨⟨rfl, rfl, rfl, rfl, rfl, ⟨connect.isSpelled_toJson, trivial⟩, rfl,
      ⟨isSpelled_bareJson k, trivial⟩, trivial⟩, trivial⟩, trivial⟩
  have hfields : fields? fieldNames (deepJson k) =
      some [some (.text "Game"), none, none, some (.arr [clientJson k])] := rfl
  have htypes : listField TypeDecl.ofJson? 126 (some (.arr [clientJson k])) =
      some [clientType k] := by
    simp [listField, withDefault, listOf, read_clientJson room h]
  have hroom : documentRoom = 126 + 1 := rfl
  rw [parse?, Document.parse?, Json.parse?_pretty hspelled, Option.bind_some, hroom, ofJson?, hfields]
  simp [htypes]
  rfl

/-- The file of a unit with a client maker is read again after weaving, where all types have room. -/
theorem woven_readAgain_deep :
    parse? (deepJson 60).pretty = some (deepUnit 60) ∧
    parse? ((WeaverList.ofOptions .default).weave ⟨.empty, false⟩ (deepUnit 60)).value.render =
      some ((WeaverList.ofOptions .default).weave ⟨.empty, false⟩ (deepUnit 60)).value := by
  have hparse : parse? (deepJson 60).pretty = some (deepUnit 60) := parse?_deepJson 2 rfl
  have hroom : (deepUnit 60).HasRoom := by
    rw [hasRoom_iff]
    refine List.forall_mem_singleton.2 (TypeDecl.hasRoom_iff.2
      ⟨⟨by decide, fun h => absurd h (by decide)⟩, ?_⟩)
    exact List.forall_mem_singleton.2 (hasRoom_bareType 60 0)
  exact ⟨hparse, (woven_readAgain_iff hparse .default ⟨.empty, false⟩).1.2 hroom⟩

lemma typeAt?_deepUnit (k : Nat) (path : List Nat) :
    (deepUnit k).typeAt? (0 :: 0 :: path) = (bareType k).nestedAt? path := rfl

lemma outcome_weave_deepUnit :
    ((deepUnit 61).weave (NetworkCapture.rules .default) ⟨.empty, false⟩).run.outcome = .ok true := by
  have hsome : ((deepUnit 61).weave (NetworkCapture.rules .default)
      ⟨.empty, false⟩).run.outcome.toOption = some true := by
    rw [weave_eq_weaveForest]
    decide +kernel
  rcases hout : ((deepUnit 61).weave (NetworkCapture.rules .default) ⟨.empty, false⟩).run.outcome
    with e | changed <;> rw [hout] at hsome <;> cases hsome
  rfl

/-- With one type more the unit is read and woven, but what is written of it is not read again. -/
theorem woven_notReadAgain :
    ¬∀ (s : String) (u : CompiledUnit) (o : CaptureOptions) (c : WeaveContext),
      parse? s = some u → ((WeaverList.ofOptions o).weave c u).run.outcome = .ok true →
        parse? ((WeaverList.ofOptions o).weave c u).value.render =
          some ((WeaverList.ofOptions o).weave c u).value := by
  intro h
  have hparse : parse? (deepJson 61).pretty = some (deepUnit 61) := parse?_deepJson 0 rfl
  have hchanged := ((WeaverList.weave_ofOptions .default ⟨.empty, false⟩ (deepUnit 61)).2 true).2
    outcome_weave_deepUnit
  have hroom := (parse?_render_iff_hasRoom (reads_of_parse? hparse)
    (callsSent_weave_ofOptions .default ⟨.empty, false⟩ _)).1 (h _ _ _ _ hparse hchanged)
  have hpath : (deepUnit 61).typeAt? (0 :: 0 :: List.replicate 61 0) = some (bareType 0) := by
    rw [typeAt?_deepUnit, nestedAt?_bareType]
  obtain ⟨hlevels, -⟩ := hroom _ _ hpath
  rw [List.length_cons, List.length_cons, List.length_replicate, documentRoom] at hlevels
  omega

end CompiledUnit

end Interpose
