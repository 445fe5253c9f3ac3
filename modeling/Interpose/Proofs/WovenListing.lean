import Interpose.Proofs.CallsSent
import Interpose.Proofs.ListingLines

/-!
The listing of a woven unit.

Weaving leaves every line of a listing in its place. A call that it replaces is captured by its full
name, in which there is no line break, and so the call stands on one line, before and after. Main
statement: the lines on which the listings before and after differ are those of the replaced calls, so
the listings are the same exactly if weaving reports no change.
-/

namespace Interpose

open Listing Listing.Item

/-! ### Items of a woven unit -/

lemma MethodDecl.CallsSent.forall₂_sends {rules : List Rule} {m m' : MethodDecl}
    (h : m.CallsSent rules m') : List.Forall₂ (Rule.Sends rules) m.instructions m'.instructions := by
  obtain ⟨body, rfl, hbody⟩ := h
  rw [instructions, instructions]
  generalize m.body = before at hbody ⊢
  cases hbody with
  | none => exact .nil
  | some hall => exact hall

namespace Listing

variable {rules : List Rule}

/-- Around its instructions, a method is listed as before. -/
lemma methodFront_of_callsSent {m m' : MethodDecl} (h : m.CallsSent rules m') (level : Nat) :
    methodFront level m' = methodFront level m ∧ methodBack level m' = methodBack level m := by
  obtain ⟨body, rfl, hbody⟩ := h
  have hsome : body.isSome = m.body.isSome := by
    generalize m.body = before at hbody ⊢
    cases hbody <;> rfl
  rw [methodFront, methodFront, methodBack, methodBack, hsome]
  exact ⟨rfl, rfl⟩

/-- Two items show the same instruction, or show none and are the same. -/
structure Item.Alike (x y : Item) : Prop where
  shown : y.shown = x.shown
  text : x.shown = none → y.text = x.text

lemma forall₂_alike_refl (xs : List Item) : List.Forall₂ Item.Alike xs xs :=
  List.forall₂_same.2 fun _ _ => ⟨rfl, fun _ => rfl⟩

lemma forall₂_alike_below {xs ys : List Item} (h : List.Forall₂ Item.Alike xs ys) (k : Nat) :
    List.Forall₂ Item.Alike (xs.map (Item.below k)) (ys.map (Item.below k)) := by
  refine List.rel_map (fun x y hxy => ⟨congrArg (Option.map (Address.below k)) hxy.shown, ?_⟩) h
  intro hnone
  exact hxy.text (Option.map_eq_none_iff.1 hnone)

lemma forall₂_alike_instructionItems {R : Instruction → Instruction → Prop} {is is' : List Instruction}
    (h : List.Forall₂ R is is') (level j : Nat) : ∀ n,
      List.Forall₂ Item.Alike (instructionItems level j n is) (instructionItems level j n is') := by
  induction h with
  | nil => exact fun _ => .nil
  | cons _ _ ih => exact fun n => .cons ⟨rfl, nofun⟩ (ih (n + 1))

lemma forall₂_alike_methodItems {ms ms' : List MethodDecl}
    (h : List.Forall₂ (MethodDecl.CallsSent rules) ms ms') (level : Nat) :
    ∀ j, List.Forall₂ Item.Alike (methodItems level j ms) (methodItems level j ms') := by
  induction h with
  | nil => exact fun _ => .nil
  | cons hm _ ih =>
    intro j
    obtain ⟨hfront, hback⟩ := methodFront_of_callsSent hm level
    rw [methodItems, methodItems, hfront, hback]
    exact List.rel_append (List.rel_append (List.rel_append (forall₂_alike_refl _)
      (forall₂_alike_instructionItems hm.forall₂_sends (level + 1) j 0)) (forall₂_alike_refl _))
      (ih (j + 1))

lemma forall₂_alike_forestItems (ts : List TypeDecl) :
    ∀ ts', List.Forall₂ (TypeDecl.CallsSent rules) ts ts' → ∀ gap level k,
      List.Forall₂ Item.Alike (forestItems gap level k ts) (forestItems gap level k ts') := by
  induction ts using TypeDecl.forest_induction with
  | nil =>
    intro ts' h gap level k
    cases h
    exact .nil
  | cons t ts ihn iht =>
    intro ts' h gap level k
    obtain ⟨t', ts', ht, hts, rfl⟩ := List.forall₂_cons_left_iff.1 h
    have htree : List.Forall₂ Item.Alike (typeItems level t) (typeItems level t') := by
      cases ht with
      | @intro _ ms nested hms hnested =>
        rw [typeItems_eq, typeItems_eq]
        exact List.rel_append (List.rel_append (List.rel_append (forall₂_alike_refl _)
          (forall₂_alike_methodItems hms (level + 1) 0)) (ihn nested hnested [] (level + 1) 0))
          (forall₂_alike_refl _)
    rw [forestItems, forestItems]
    exact List.rel_append (List.rel_append (forall₂_alike_below htree k) (forall₂_alike_refl _))
      (iht ts' hts gap level (k + 1))

lemma forall₂_alike_unitItems {u u' : CompiledUnit} (h : u.CallsSent rules u') :
    List.Forall₂ Item.Alike (unitItems u) (unitItems u') := by
  obtain ⟨ts, rfl, hts⟩ := h
  exact List.rel_append (forall₂_alike_refl _) (forall₂_alike_forestItems u.types ts hts [""] 0 0)

end Listing

/-! ### Calls that are replaced -/

/-- The second unit has another instruction at the address than the first. -/
def CompiledUnit.ReplacedAt (u u' : CompiledUnit) (a : Address) : Prop :=
  u'.instructionAt? a ≠ u.instructionAt? a

section

variable {rules : List Rule}

lemma MethodDecl.eq_of_callsSent {m m' : MethodDecl} (h : m.CallsSent rules m')
    (hsame : m'.instructions = m.instructions) : m' = m := by
  obtain ⟨body, rfl, hbody⟩ := h
  obtain ⟨name, hasThis, returnType, params, locals, attributes, before⟩ := m
  cases hbody with
  | none => rfl
  | some _ =>
    cases hsame
    rfl

namespace TypeDecl

lemma methods_eq_of_callsSent {ms ms' : List MethodDecl}
    (h : List.Forall₂ (MethodDecl.CallsSent rules) ms ms')
    (hsame : ∀ j n, methodInstruction? ms' j n = methodInstruction? ms j n) : ms' = ms := by
  induction h with
  | nil => rfl
  | cons hm _ ih =>
    rw [MethodDecl.eq_of_callsSent hm (List.ext_getElem? fun n => hsame 0 n),
      ih fun j n => hsame (j + 1) n]

lemma forest_eq_of_callsSent (ts : List TypeDecl) :
    ∀ ts', List.Forall₂ (CallsSent rules) ts ts' →
      (∀ l path j n, forestInstruction? ts' l path j n = forestInstruction? ts l path j n) →
      ts' = ts := by
  induction ts using forest_induction with
  | nil =>
    intro ts' h _
    cases h
    rfl
  | cons t ts ihn iht =>
    intro ts' h hsame
    obtain ⟨t', ts', ht, hts, rfl⟩ := List.forall₂_cons_left_iff.1 h
    rw [iht ts' hts fun l path j n => hsame (l + 1) path j n]
    cases ht with
    | @intro _ ms nested hms hnested =>
      have hmethods : ms = t.methods := methods_eq_of_callsSent hms fun j n => hsame 0 [] j n
      have hbelow : nested = t.nestedTypes := ihn nested hnested fun l path j n => by
        have hfirst := hsame 0 (l :: path) j n
        simp only [forestInstruction?, List.getElem?_cons_zero, Option.bind_some,
          instructionAt?_cons] at hfirst
        exact hfirst
      rw [hmethods, hbelow]
      exact congrArg (· :: ts) t.withNested_self

end TypeDecl

/-- Calls were sent in a unit only if one was replaced. -/
lemma CompiledUnit.exists_replacedAt {u u' : CompiledUnit} (h : u.CallsSent rules u')
    (hne : u' ≠ u) : ∃ a, u.ReplacedAt u' a := by
  by_contra hnone
  refine hne ?_
  obtain ⟨ts, rfl, hts⟩ := h
  have hsame (a : Address) :
      CompiledUnit.instructionAt? { u with types := ts } a = u.instructionAt? a :=
    by_contra fun ha => hnone ⟨a, ha⟩
  rw [TypeDecl.forest_eq_of_callsSent u.types ts hts fun l path j n => ?_]
  have ha := hsame ⟨l :: path, j, n⟩
  rwa [instructionAt?_cons, instructionAt?_cons] at ha

end

namespace NetworkCapture

variable {o : CaptureOptions} {c : WeaveContext} {u : CompiledUnit} {a : Address}

/-- The call at the address is captured, and its wrapper is called directly in its place. -/
structure WrappedAt (u u' : CompiledUnit) (a : Address) (p : MethodRef × MethodRef) (callee : MethodRef)
    (kind : CallKind) : Prop where
  mem : p ∈ captured
  name : callee.fullName = p.1.fullName
  before : u.instructionAt? a = some (.call callee kind)
  after : u'.instructionAt? a = some (.call p.2 .direct)

lemma exists_wrappedAt (h : u.ReplacedAt (u.weave (rules o) c).value a) :
    ∃ p callee kind, WrappedAt u (u.weave (rules o) c).value a p callee kind := by
  have hsends : Option.Rel (Rule.Sends (rules o)) (u.instructionAt? a)
      ((u.weave (rules o) c).value.instructionAt? a) := u.weave_sends a
  unfold CompiledUnit.ReplacedAt at h
  rcases hb : u.instructionAt? a with _ | before <;>
    rcases ha : (u.weave (rules o) c).value.instructionAt? a with _ | after <;>
    rw [hb, ha] at hsends h
  · exact absurd rfl h
  · cases hsends
  · cases hsends
  · cases hsends with
    | some hsent =>
      cases hsent with
      | kept => exact absurd rfl h
      | @sent r s callee kind mem site applies =>
        obtain ⟨p, hp, hn, hr⟩ := exists_captured_of_applies mem site applies
        rw [callKind_of_mem mem, hr] at ha
        exact ⟨p, callee, kind, hp, hn, hb, ha⟩

/-- No full name of a captured method or of a wrapper has a line break. -/
lemma isOneLine_captured {p : MethodRef × MethodRef} (hp : p ∈ captured) :
    IsOneLine p.1.fullName ∧ IsOneLine p.2.fullName := by
  have hword {w : String} (hw : w ∈ words) : IsOneLine w := fun hbreak =>
    (plain_of_mem_words w hw _ hbreak).2 rfl
  obtain ⟨hcaptured, hwrapper⟩ := words_of_mem_captured p hp
  exact ⟨MethodRef.isOneLine_fullName fun w hw => hword (hcaptured w hw),
    MethodRef.isOneLine_fullName fun w hw => hword (hwrapper w hw)⟩

/-- A captured call and the call of its wrapper are listed without line breaks, and not alike. -/
lemma WrappedAt.listing {u' : CompiledUnit} {p : MethodRef × MethodRef} {callee : MethodRef}
    {kind : CallKind} (h : WrappedAt u u' a p callee kind) :
    IsOneLine (Instruction.call callee kind).listing ∧ IsOneLine (Instruction.call p.2 .direct).listing ∧
    (Instruction.call p.2 .direct).listing ≠ (Instruction.call callee kind).listing := by
  obtain ⟨hone, hone'⟩ := isOneLine_captured h.mem
  rw [← h.name] at hone
  refine ⟨Instruction.isOneLine_listing_call hone kind, Instruction.isOneLine_listing_call hone' .direct,
    fun heq => ?_⟩
  have hname := Instruction.fullName_eq_of_listing_eq heq
  rw [h.name] at hname
  exact wrapper_ne_of_mem_captured p h.mem p h.mem hname

/-! ### Lines that differ -/

/-- Two lines show the same instruction or none, and differ exactly where it was replaced. -/
structure DifferWhereReplaced (u u' : CompiledUnit) (x y : Item) : Prop where
  shown : y.shown = x.shown
  text : y.text ≠ x.text ↔ ∃ a, x.shown = some a ∧ u.ReplacedAt u' a

/-- The lines of an item that shows nothing replaced. -/
lemma forall₂_lines_self {u u' : CompiledUnit} {x : Item}
    (h : ∀ a, x.shown = some a → ¬u.ReplacedAt u' a) :
    List.Forall₂ (DifferWhereReplaced u u') x.lines x.lines := by
  refine List.forall₂_same.2 fun l hl => ⟨rfl, fun hne => absurd rfl hne, ?_⟩
  rintro ⟨a, ha, hreplaced⟩
  rw [shown_of_mem_lines hl] at ha
  exact absurd hreplaced (h a ha)

lemma forall₂_lines {x y : Item} (hx : x ∈ unitItems u)
    (hy : y ∈ unitItems (u.weave (rules o) c).value) (hxy : x.Alike y) :
    List.Forall₂ (DifferWhereReplaced u (u.weave (rules o) c).value) x.lines y.lines := by
  obtain ⟨s, shown⟩ := x
  obtain ⟨s', shown'⟩ := y
  obtain ⟨hshown, htext⟩ := hxy
  cases hshown
  rcases shown with _ | a
  · cases htext rfl
    exact forall₂_lines_self nofun
  · obtain ⟨i, hi, rfl⟩ := mem_unitItems_iff.1 hx
    obtain ⟨i', hi', rfl⟩ := mem_unitItems_iff.1 hy
    by_cases hreplaced : u.ReplacedAt (u.weave (rules o) c).value a
    · obtain ⟨p, callee, kind, hw⟩ := exists_wrappedAt hreplaced
      cases hi.symm.trans hw.before
      cases hi'.symm.trans hw.after
      obtain ⟨hone, hone', hne⟩ := hw.listing
      rw [lines_instructionLine hone, lines_instructionLine hone']
      exact .cons ⟨rfl, fun _ => ⟨a, rfl, hreplaced⟩, fun _ => mt instructionLine_inj.1 hne⟩ .nil
    · have hsame : some i' = some i := by
        rw [← hi, ← hi']
        exact of_not_not hreplaced
      cases hsame
      refine forall₂_lines_self fun a' ha' => ?_
      cases ha'
      exact hreplaced

/-- Line by line, the two listings differ where they show a call that was replaced. -/
lemma forall₂_listedLines (o : CaptureOptions) (c : WeaveContext) (u : CompiledUnit) :
    List.Forall₂ (DifferWhereReplaced u (u.weave (rules o) c).value) u.listedLines
      (u.weave (rules o) c).value.listedLines := by
  have halike : List.Forall₂ Item.Alike (unitItems u) (unitItems (u.weave (rules o) c).value) :=
    forall₂_alike_unitItems u.callsSent_weave
  have hitems : List.Forall₂ (fun x y => List.Forall₂ (DifferWhereReplaced u
      (u.weave (rules o) c).value) x.lines y.lines) (unitItems u)
      (unitItems (u.weave (rules o) c).value) := by
    refine List.forall₂_iff_zip.2 ⟨halike.length_eq, fun {x y} hmem => ?_⟩
    obtain ⟨hx, hy⟩ := List.of_mem_zip hmem
    exact forall₂_lines hx hy (List.forall₂_zip halike hmem)
  exact List.rel_flatMap hitems fun _ _ h => h

section

variable {u' : CompiledUnit} (h : List.Forall₂ (DifferWhereReplaced u u') u.listedLines u'.listedLines)
include h

lemma rel_listedLines (k : Nat) :
    Option.Rel (DifferWhereReplaced u u') u.listedLines[k]? u'.listedLines[k]? := by
  obtain ⟨hlength, hget⟩ := List.forall₂_iff_get.1 h
  rcases Nat.lt_or_ge k u.listedLines.length with hlt | hge
  · rw [List.getElem?_eq_getElem hlt, List.getElem?_eq_getElem (hlength ▸ hlt)]
    exact .some (hget k hlt (hlength ▸ hlt))
  · rw [List.getElem?_eq_none hge, List.getElem?_eq_none (hlength ▸ hge)]
    exact .none

lemma shownOn?_eq (k : Nat) : u'.shownOn? k = u.shownOn? k := by
  have hk := rel_listedLines h k
  rw [CompiledUnit.shownOn?, CompiledUnit.shownOn?]
  generalize u.listedLines[k]? = x at hk ⊢
  generalize u'.listedLines[k]? = y at hk ⊢
  cases hk with
  | none => rfl
  | some hxy => exact hxy.shown

lemma length_linesOf_listing : (linesOf u'.listing).length = (linesOf u.listing).length := by
  rw [CompiledUnit.linesOf_listing, CompiledUnit.linesOf_listing, List.length_append,
    List.length_append, List.length_map, List.length_map, h.length_eq]

lemma linesOf_listing_ne_iff (k : Nat) : (linesOf u'.listing)[k]? ≠ (linesOf u.listing)[k]? ↔
    ∃ a, u.shownOn? k = some a ∧ u.ReplacedAt u' a := by
  have hk := rel_listedLines h k
  rw [CompiledUnit.linesOf_listing, CompiledUnit.linesOf_listing, CompiledUnit.shownOn?,
    List.getElem?_append, List.getElem?_append, List.length_map, List.length_map, ← h.length_eq]
  split
  · rw [List.getElem?_map, List.getElem?_map]
    generalize u.listedLines[k]? = x at hk ⊢
    generalize u'.listedLines[k]? = y at hk ⊢
    cases hk with
    | none => simp
    | some hxy => simpa using hxy.text
  · next hge => simp [List.getElem?_eq_none (Nat.le_of_not_lt hge)]

end

/-- **The listing shows what weaving did**: if weaving goes through, the listing has as many lines as
before, and on each it shows what it showed before. The lines that differ are those on which a call is
shown that was replaced. Each such call is shown on one line, by its position, and was captured. So the
listing stays the same exactly if weaving reports no change. -/
theorem listing_weave (o : CaptureOptions) (c : WeaveContext) (u : CompiledUnit) (changed : Bool)
    (hout : (u.weave (rules o) c).run.outcome = .ok changed) :
    (linesOf (u.weave (rules o) c).value.listing).length = (linesOf u.listing).length ∧
    (∀ k, (u.weave (rules o) c).value.shownOn? k = u.shownOn? k) ∧
    (∀ k, (linesOf (u.weave (rules o) c).value.listing)[k]? ≠ (linesOf u.listing)[k]? ↔
      ∃ a, u.shownOn? k = some a ∧ u.ReplacedAt (u.weave (rules o) c).value a) ∧
    (∀ a, u.ReplacedAt (u.weave (rules o) c).value a → ∃ p callee kind k,
      WrappedAt u (u.weave (rules o) c).value a p callee kind ∧
      (∀ k', u.shownOn? k' = some a ↔ k' = k) ∧
      (linesOf u.listing)[k]? =
        some (instructionLine (a.path.length + 1) a.position (.call callee kind)) ∧
      (linesOf (u.weave (rules o) c).value.listing)[k]? =
        some (instructionLine (a.path.length + 1) a.position (.call p.2 .direct))) ∧
    ((u.weave (rules o) c).value.listing = u.listing ↔ changed = false) := by
  have hlines := forall₂_listedLines o c u
  have hone (a : Address) (ha : u.ReplacedAt (u.weave (rules o) c).value a) : ∃ p callee kind k,
      WrappedAt u (u.weave (rules o) c).value a p callee kind ∧
      (∀ k', u.shownOn? k' = some a ↔ k' = k) ∧
      (linesOf u.listing)[k]? =
        some (instructionLine (a.path.length + 1) a.position (.call callee kind)) ∧
      (linesOf (u.weave (rules o) c).value.listing)[k]? =
        some (instructionLine (a.path.length + 1) a.position (.call p.2 .direct)) := by
    obtain ⟨p, callee, kind, hw⟩ := exists_wrappedAt ha
    obtain ⟨hcall, hwrapper, -⟩ := hw.listing
    obtain ⟨k, hk, hline⟩ := CompiledUnit.exists_shownOn? hw.before hcall
    obtain ⟨k', hk', hline'⟩ := CompiledUnit.exists_shownOn? hw.after hwrapper
    have hkk' : k' = k := (hk k').1 ((shownOn?_eq hlines k').symm.trans ((hk' k').2 rfl))
    exact ⟨p, callee, kind, k, hw, hk, hline, hkk' ▸ hline'⟩
  refine ⟨length_linesOf_listing hlines, shownOn?_eq hlines, linesOf_listing_ne_iff hlines, hone,
    fun hsame => ?_, ?_⟩
  · rcases changed with _ | _
    · rfl
    · have hne := u.reports_weave.2 (settled_rules o) hout
      obtain ⟨a, ha⟩ := CompiledUnit.exists_replacedAt u.callsSent_weave hne
      obtain ⟨-, -, -, k, -, hk, -⟩ := hone a ha
      have hdiffer := (linesOf_listing_ne_iff hlines k).2 ⟨a, (hk k).2 rfl, ha⟩
      exact absurd (by rw [hsame]) hdiffer
  · rintro rfl
    rw [u.reports_weave.1 hout]

/-- A unit whose name has two lines, with a nested type that sends a request. -/
def sender : CompiledUnit :=
  { CompiledUnit.ofName "Game\nof two lines" with
    types := [{ TypeDecl.ofName "Game" "Client" with
      nestedTypes := [{ TypeDecl.ofName "" "Worker" with
        fullName := "Game.Client/Worker"
        methods := [{ MethodDecl.ofName "Send" voidType with
          body := some [.load (.local 0), .call sendMethod .virtual, .other "ret"] }] }] }] }

/-- The request is sent on the eighth line of the listing, and that line alone shows it. -/
theorem listing_weave_sender :
    (sender.weave (rules .default) ⟨.empty, false⟩).run.outcome = .ok true ∧
    (∀ k, sender.shownOn? k = some ⟨[0, 0], 0, 1⟩ ↔ k = 7) ∧
    (linesOf sender.listing)[7]? = some ("      0001: callvirt " ++ sendMethod.fullName) ∧
    (linesOf (sender.weave (rules .default) ⟨.empty, false⟩).value.listing)[7]? =
      some ("      0001: call " ++ sendWrapper.fullName) ∧
    (sender.weave (rules .default) ⟨.empty, false⟩).value.listing ≠ sender.listing := by
  have hout : (sender.weave (rules .default) ⟨.empty, false⟩).run.outcome = .ok true := by
    rw [CompiledUnit.weave_eq_weaveForest]
    rfl
  obtain ⟨-, -, -, hone, hsame⟩ := listing_weave .default ⟨.empty, false⟩ sender true hout
  have hreplaced : sender.ReplacedAt (sender.weave (rules .default) ⟨.empty, false⟩).value
      ⟨[0, 0], 0, 1⟩ := by
    unfold CompiledUnit.ReplacedAt
    rw [CompiledUnit.weave_eq_weaveForest]
    decide +kernel
  obtain ⟨p, callee, kind, k, hw, hk, hline, hline'⟩ := hone _ hreplaced
  have hseven : 7 = k := (hk 7).1 (by decide +kernel)
  subst hseven
  cases hw.before
  have hwrapper : p.2 = sendWrapper := by
    have hp := captured_inj hw.mem (by simp [captured] : (sendMethod, sendWrapper) ∈ captured)
      hw.name.symm
    rw [hp]
  rw [hwrapper] at hline'
  refine ⟨hout, hk, hline.trans ?_, hline'.trans ?_, fun heq => ?_⟩
  · decide +kernel
  · decide +kernel
  · cases hsame.1 heq

end NetworkCapture

end Interpose
