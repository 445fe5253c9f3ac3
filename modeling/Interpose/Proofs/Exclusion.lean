import Mathlib.Data.List.Find
import Mathlib.Tactic.Lemma
import Interpose.Scope

/-!
What a container and an accessor owe to the marker.

A container is left out for the method that it was made for, and of several methods that it can have
been made for the first one counts. Main statements: a container agrees with its only origin unless
that is left out for a property alone; and a method with a local of the container decides over it
unless the fields of the container fit a method of the same name that is listed before and is marked
differently.
-/

namespace Interpose

/-! ### The first one found -/

/-- In every order the first that passes a test is as wanted exactly if all that pass are. -/
lemma forall_perm_find?_iff {α : Type} {p : α → Bool} {wanted : α → Prop} {xs : List α} :
    (∀ ys : List α, ys.Perm xs → ∀ a, ys.find? p = some a → wanted a) ↔
      ∀ a ∈ xs, p a = true → wanted a := by
  constructor
  · intro h a ha hp
    obtain ⟨front, back, rfl⟩ := List.append_of_mem ha
    have hfind : (a :: (front ++ back)).find? p = some a := List.find?_cons_of_pos hp
    exact h _ List.perm_middle.symm a hfind
  · intro h ys hys a hfind
    exact h a (hys.subset (List.mem_of_find?_eq_some hfind)) (List.find?_some hfind)

/-! ### Accessors -/

/-- The first property that the method of this name reads or writes carries the marker. -/
def TypeDecl.MarksFirst (t : TypeDecl) (method : String) : Prop :=
  ∃ q, t.propertyAccessedBy? method = some q ∧ q.hasAttribute exclusionMarker = true

lemma Scope.weavesMethod_eq_false_iff {t : TypeDecl} {m : MethodDecl} :
    weavesMethod t m = false ↔ m.hasAttribute exclusionMarker = true ∨ t.MarksFirst m.name := by
  rw [weavesMethod, TypeDecl.MarksFirst]
  rcases m.hasAttribute exclusionMarker with _ | _ <;>
    rcases t.propertyAccessedBy? m.name with _ | q <;> simp

/-! ### Names of containers -/

namespace Container

lemma occursIn_append_left (front : List Char) {part s : List Char} (h : occursIn part s = true) :
    occursIn part (front ++ s) = true := by
  induction front with
  | nil => exact h
  | cons c front ih => rw [List.cons_append, occursIn, ih, Bool.or_true]

lemma occursIn_append (part s : List Char) : occursIn part (part ++ s) = true := by
  rcases part with _ | ⟨c, part⟩
  · rcases s with _ | ⟨c, s⟩ <;> simp [occursIn]
  · rw [List.cons_append, occursIn, ← List.cons_append, List.isPrefixOf_iff_prefix.2
      (List.prefix_append _ _), Bool.true_or]

/-- The name of a container holds that of the method in it. -/
lemma occursIn_of_originName? {s name : String} (h : originName? s = some name) :
    occursIn name.toList s.toList = true := by
  unfold originName? at h
  split at h
  · next rest hs =>
    split at h
    · next c word tail hw hd =>
      cases h
      have hrest : rest = (c :: word) ++ '>' :: 'd' :: '_' :: '_' :: tail := by
        rw [← hw, ← hd, List.takeWhile_append_dropWhile]
      rw [hs, hrest, String.toList_ofList]
      exact occursIn_append_left ['<'] (occursIn_append _ _)
    · cases h
  · cases h

/-! ### Two signs of an origin -/

/-- A method has a local of the type. -/
def hasLocalOf (t : TypeDecl) (m : MethodDecl) : Bool := m.locals.any (·.localType == t.fullName)

/-- The public fields of the type capture the parameters of a method, or without parameters the
receiver and nothing else. -/
def fieldsFit (t : TypeDecl) (m : MethodDecl) : Bool :=
  if m.params.isEmpty then t.publicFields.length == m.hasThis.toNat else m.params.all (captures t)

/-- A container made by the compiler for a method of this name, without the marker of its own. -/
structure IsMadeFor (t : TypeDecl) (name : String) : Prop where
  generated : t.isGenerated = true
  unmarked : t.hasAttribute exclusionMarker = false
  named : originName? t.name = some name

variable {t : TypeDecl} {m : MethodDecl}

/-- Among the methods that bear the name in a container's name, only the signs count. -/
lemma IsMadeFor.isFor_eq (h : IsMadeFor t m.name) :
    isFor t m = (hasLocalOf t m || fieldsFit t m) := by
  rw [isFor, occursIn_of_originName? h.named, Bool.true_and]
  rfl

end Container

open Container (IsMadeFor hasLocalOf fieldsFit)

namespace Scope

variable {p t : TypeDecl} {m : MethodDecl} {name : String}

/-- The method bears the name and can be what the container was made for. -/
def isCandidate (t : TypeDecl) (name : String) (k : MethodDecl) : Bool :=
  k.name == name && Container.isFor t k

lemma origin?_eq_find? (p t : TypeDecl) (name : String) :
    origin? p t name = p.methods.find? (isCandidate t name) := by
  rw [origin?, List.find?_filter]
  congr 1
  funext k
  rw [isCandidate, Bool.decide_and, Bool.decide_coe, Bool.decide_coe]

lemma isCandidate_iff {k : MethodDecl} :
    isCandidate t name k = true ↔ k.name = name ∧ Container.isFor t k = true := by
  simp [isCandidate]

lemma exists_origin? (hm : m ∈ p.methods) (hc : isCandidate t name m = true) :
    ∃ k, origin? p t name = some k := by
  rw [← Option.isSome_iff_exists, origin?_eq_find?, List.find?_isSome]
  exact ⟨m, hm, hc⟩

lemma weavesType_of_origin? (h : IsMadeFor t name) (ho : origin? p t name = some m) :
    weavesType (some p) t = !m.hasAttribute exclusionMarker := by
  simp [weavesType, h.unmarked, h.generated, h.named, ho]

/-! ### The only origin of a container -/

/-- Of the methods of a type, the container can have been made for `m` and for no other. -/
structure OnlyOrigin (p t : TypeDecl) (m : MethodDecl) : Prop where
  made : IsMadeFor t m.name
  mem : m ∈ p.methods
  isFor : Container.isFor t m = true
  only : ∀ k ∈ p.methods, k.name = m.name → Container.isFor t k = true → k = m

lemma OnlyOrigin.origin? (h : OnlyOrigin p t m) : origin? p t m.name = some m := by
  obtain ⟨k, hk⟩ := exists_origin? h.mem (isCandidate_iff.2 ⟨rfl, h.isFor⟩)
  have hfind := origin?_eq_find? p t m.name ▸ hk
  obtain ⟨hname, hfor⟩ := isCandidate_iff.1 (List.find?_some hfind)
  rwa [h.only k (List.mem_of_find?_eq_some hfind) hname hfor] at hk

/-- **A container and its origin**: a container with an only origin is woven exactly if this does
not carry the marker. So it is woven exactly if its origin is, unless the origin is left out for the
marker of the property that it reads or writes, and for nothing else. -/
theorem weavesType_eq_weavesMethod_iff (h : OnlyOrigin p t m) :
    weavesType (some p) t = !m.hasAttribute exclusionMarker ∧
    (weavesType (some p) t = weavesMethod p m ↔
      m.hasAttribute exclusionMarker = true ∨ ¬p.MarksFirst m.name) := by
  have hcontainer := weavesType_of_origin? h.made h.origin?
  refine ⟨hcontainer, ?_⟩
  rw [hcontainer]
  rcases hm : m.hasAttribute exclusionMarker with _ | _
  · -- without the marker only the property can leave the method out
    have hmethod : weavesMethod p m = true ↔ ¬p.MarksFirst m.name := by
      rw [← Bool.not_eq_false, weavesMethod_eq_false_iff, hm]
      simp
    rw [Bool.not_false, eq_comm, hmethod]
    simp
  · have hmethod : weavesMethod p m = false := weavesMethod_eq_false_iff.2 (.inl hm)
    rw [hmethod]
    simp

/-- A type whose property is read by an iterator. -/
def feed (attributes : List String) : TypeDecl :=
  { TypeDecl.ofName "Game" "Feed" with
    properties := [⟨"Items", some "get_Items", none, attributes⟩]
    methods := [{ MethodDecl.ofName "get_Items" "System.Collections.IEnumerable" with
      hasThis := true
      locals := [⟨none, "Game.Feed/<get_Items>d__1"⟩] }] }

/-- The container of the iterator. -/
def feedItems : TypeDecl :=
  { TypeDecl.ofName "" "<get_Items>d__1" with
    fullName := "Game.Feed/<get_Items>d__1"
    isGenerated := true }

lemma onlyOrigin_feed (attributes : List String) :
    ∃ m, (feed attributes).methods = [m] ∧ OnlyOrigin (feed attributes) feedItems m := by
  refine ⟨_, rfl, ⟨⟨rfl, rfl, by decide +kernel⟩, List.mem_singleton_self _, by decide +kernel, ?_⟩⟩
  exact fun k hk _ _ => List.mem_singleton.1 hk

/-- Without a marker the container is woven, as its iterator is. -/
theorem weavesType_eq_weavesMethod_feed : ∃ m, OnlyOrigin (feed []) feedItems m ∧
    weavesType (some (feed [])) feedItems = true ∧
    weavesType (some (feed [])) feedItems = weavesMethod (feed []) m := by
  obtain ⟨m, hm, h⟩ := onlyOrigin_feed []
  cases hm
  obtain ⟨hcontainer, hagree⟩ := weavesType_eq_weavesMethod_iff h
  refine ⟨_, h, hcontainer, hagree.2 (.inr ?_)⟩
  rintro ⟨q, hq, hmark⟩
  cases hq
  cases hmark

/-- The marker of the property leaves out the iterator, but not its container. -/
theorem weavesType_markedFeed :
    ¬∀ (p t : TypeDecl) (m : MethodDecl), OnlyOrigin p t m →
      weavesType (some p) t = weavesMethod p m := by
  intro hagree
  obtain ⟨m, hm, h⟩ := onlyOrigin_feed [exclusionMarker]
  cases hm
  exact absurd (hagree _ _ _ h) (by decide +kernel)

/-! ### A local of the container -/

/-- Of the methods that bear the name in a container's name, `m` alone has a local of the container,
and is listed between `before` and `after`. -/
structure LocalOrigin (p t : TypeDecl) (before : List MethodDecl) (m : MethodDecl)
    (after : List MethodDecl) : Prop where
  made : IsMadeFor t m.name
  listed : p.methods = before ++ m :: after
  hasLocal : hasLocalOf t m = true
  alone : ∀ k ∈ before ++ after, k.name = m.name → hasLocalOf t k = false

variable {before after : List MethodDecl}

lemma LocalOrigin.isCandidate_self (h : LocalOrigin p t before m after) :
    isCandidate t m.name m = true := by
  rw [isCandidate_iff, h.made.isFor_eq, h.hasLocal]
  exact ⟨rfl, rfl⟩

/-- Of the others, those of the name count that the fields fit. -/
lemma LocalOrigin.isCandidate_eq (h : LocalOrigin p t before m after) {k : MethodDecl}
    (hk : k ∈ before ++ after) :
    isCandidate t m.name k = (k.name == m.name && fieldsFit t k) := by
  by_cases hname : k.name = m.name
  · have hmade : IsMadeFor t k.name := hname ▸ h.made
    rw [isCandidate, hmade.isFor_eq, h.alone k hk hname, Bool.false_or]
  · rw [isCandidate, beq_eq_false_iff_ne.2 hname, Bool.false_and, Bool.false_and]

/-- With something to be found, a container is left out as told exactly if what is found first is
marked as told. -/
lemma weavesType_eq_false_iff (h : IsMadeFor t name) (hm : m ∈ p.methods)
    (hc : isCandidate t name m = true) (b : Bool) :
    (weavesType (some p) t = false ↔ b = true) ↔
      ∀ k, p.methods.find? (isCandidate t name) = some k →
        k.hasAttribute exclusionMarker = b := by
  obtain ⟨k, hk⟩ := exists_origin? hm hc
  rw [weavesType_of_origin? h hk, Bool.not_eq_false', Bool.coe_iff_coe, ← origin?_eq_find?, hk]
  simp

/-- **A local of the container**: the method with the local decides exactly if the first of the
methods listed before it that bear its name and that the fields fit, if there is one, is marked as
it is. It decides in every order of the methods exactly if all of that name that the fields fit
are. -/
theorem weavesType_local_iff (h : LocalOrigin p t before m after) :
    ((weavesType (some p) t = false ↔ m.hasAttribute exclusionMarker = true) ↔
      ∀ k, before.find? (fun k => k.name == m.name && fieldsFit t k) = some k →
        k.hasAttribute exclusionMarker = m.hasAttribute exclusionMarker) ∧
    ((∀ ms : List MethodDecl, ms.Perm p.methods →
        (weavesType (some { p with methods := ms }) t = false ↔
          m.hasAttribute exclusionMarker = true)) ↔
      ∀ k ∈ before ++ after, k.name = m.name → fieldsFit t k = true →
        k.hasAttribute exclusionMarker = m.hasAttribute exclusionMarker) := by
  have hm : m ∈ p.methods := by simp [h.listed]
  constructor
  · rw [weavesType_eq_false_iff h.made hm h.isCandidate_self, h.listed, List.find?_append,
      List.find?_cons_of_pos h.isCandidate_self, List.find?_congr fun k hk =>
        h.isCandidate_eq (List.mem_append_left after hk)]
    rcases before.find? _ with _ | k <;> simp
  · calc (∀ ms : List MethodDecl, ms.Perm p.methods →
          (weavesType (some { p with methods := ms }) t = false ↔
            m.hasAttribute exclusionMarker = true))
      _ ↔ ∀ ms : List MethodDecl, ms.Perm p.methods →
          ∀ k, ms.find? (isCandidate t m.name) = some k →
            k.hasAttribute exclusionMarker = m.hasAttribute exclusionMarker :=
        forall₂_congr fun ms hms =>
          weavesType_eq_false_iff (p := { p with methods := ms }) h.made (hms.mem_iff.2 hm)
            h.isCandidate_self _
      _ ↔ ∀ k ∈ p.methods, isCandidate t m.name k = true →
            k.hasAttribute exclusionMarker = m.hasAttribute exclusionMarker :=
        forall_perm_find?_iff
      _ ↔ ∀ k ∈ before ++ after, k.name = m.name → fieldsFit t k = true →
            k.hasAttribute exclusionMarker = m.hasAttribute exclusionMarker := by
        constructor
        · intro hall k hk hname hfit
          have hmem : k ∈ p.methods := by
            rw [h.listed, List.perm_middle.mem_iff]
            exact List.mem_cons_of_mem m hk
          exact hall k hmem (by rw [h.isCandidate_eq hk, hname, hfit, beq_self_eq_true]; rfl)
        · intro hall k hk hc
          rw [h.listed, List.perm_middle.mem_iff, List.mem_cons] at hk
          rcases hk with rfl | hk
          · rfl
          · rw [h.isCandidate_eq hk, Bool.and_eq_true_iff, beq_iff_eq] at hc
            exact hall k hk hc.1 hc.2

/-- Downloads what the instance stands for. -/
def download : MethodDecl :=
  { MethodDecl.ofName "Download" "System.Collections.IEnumerator" with hasThis := true }

/-- Downloads from an address; not to be woven. -/
def downloadFrom : MethodDecl :=
  { MethodDecl.ofName "Download" "System.Collections.IEnumerator" with
    params := [⟨"url", "System.String"⟩]
    locals := [⟨none, "Game.Loader/<Download>d__2"⟩]
    attributes := [exclusionMarker] }

/-- The container of `downloadFrom`, with its parameter as the only public field. -/
def downloadContainer : TypeDecl :=
  { TypeDecl.ofName "" "<Download>d__2" with
    fullName := "Game.Loader/<Download>d__2"
    isGenerated := true
    fields := [⟨"url", "System.String", true⟩] }

def loader (methods : List MethodDecl) : TypeDecl :=
  { TypeDecl.ofName "Game" "Loader" with methods := methods }

lemma localOrigin_loader (front back : List MethodDecl) (h : front ++ back = [download]) :
    LocalOrigin (loader (front ++ downloadFrom :: back)) downloadContainer front downloadFrom
      back := by
  refine ⟨⟨rfl, rfl, by decide +kernel⟩, rfl, by decide, fun k hk _ => ?_⟩
  rw [h] at hk
  rw [List.mem_singleton.1 hk]
  rfl

/-- Listed first, the method with the local leaves its container out. -/
theorem weavesType_local_loader :
    LocalOrigin (loader [downloadFrom, download]) downloadContainer [] downloadFrom [download] ∧
    weavesType (some (loader [downloadFrom, download])) downloadContainer = false := by
  have h : LocalOrigin (loader [downloadFrom, download]) downloadContainer [] downloadFrom
      [download] := localOrigin_loader [] [download] rfl
  exact ⟨h, ((weavesType_local_iff h).1.2 fun k hk => by cases hk).2 rfl⟩

/-- Listed second it does not: the only public field is taken for the receiver of the other one. -/
theorem weavesType_fieldsFirst :
    ¬∀ (p t : TypeDecl) (before : List MethodDecl) (m : MethodDecl) (after : List MethodDecl),
      LocalOrigin p t before m after →
        (weavesType (some p) t = false ↔ m.hasAttribute exclusionMarker = true) := by
  intro hdecides
  have h : LocalOrigin (loader [download, downloadFrom]) downloadContainer [download] downloadFrom
      [] := localOrigin_loader [download] [] rfl
  exact absurd ((hdecides _ _ _ _ _ h).2 rfl) (by decide +kernel)

end Scope

end Interpose
