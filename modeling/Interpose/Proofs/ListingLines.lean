import Interpose.Proofs.FullName
import Interpose.Proofs.ListedInstructions
import Mathlib.Tactic.Set

/-!
The lines of a listing.

A text inside a listing may hold line breaks, and what is listed for an instruction then takes several
lines. The text of a call has no line break if there is none in the full name of the callee. Main
statement: an instruction that is listed without a line break has a line of its own in the listing.
-/

namespace Interpose

/-! ### Lines of a text -/

/-- The lines of a text, cut at its line breaks. What is behind the last one is a line too. -/
def linesOf (s : String) : List String := (s.toList.splitOn '\n').map String.ofList

/-- The text has no line break. -/
def IsOneLine (s : String) : Prop := '\n' ∉ s.toList

lemma isOneLine_ofList {s : String} {cs : List Char} (h : s = String.ofList cs) (hcs : '\n' ∉ cs) :
    IsOneLine s := by
  rw [IsOneLine, h, String.toList_ofList]
  exact hcs

lemma isOneLine_append {s t : String} : IsOneLine (s ++ t) ↔ IsOneLine s ∧ IsOneLine t := by
  rw [IsOneLine, String.toList_append, List.mem_append, not_or]
  rfl

lemma linesOf_of_isOneLine {s : String} (h : IsOneLine s) : linesOf s = [s] := by
  rw [linesOf, List.splitOn_eq_singleton h, List.map_singleton, String.ofList_toList]

lemma linesOf_append (s t : String) : linesOf (s ++ "\n" ++ t) = linesOf s ++ linesOf t := by
  have htext : (s ++ "\n" ++ t).toList = s.toList ++ '\n' :: t.toList := by simp
  rw [linesOf, htext, List.splitOn_append_cons_self, List.map_append]
  rfl

lemma linesOf_join (ss : List String) :
    linesOf (String.join (ss.map (· ++ "\n"))) = ss.flatMap linesOf ++ [""] := by
  induction ss with
  | nil => decide
  | cons s ss ih =>
    rw [List.map_cons, String.join_cons, linesOf_append, ih, List.flatMap_cons, List.append_assoc]

/-! ### Calls in a line -/

lemma MethodRef.isOneLine_fullName {m : MethodRef} (h : ∀ w ∈ m.words, IsOneLine w) :
    IsOneLine m.fullName := by
  intro hmem
  rcases mem_fullName hmem with ⟨w, hw, hbreak⟩ | hbreak
  · exact h w hw hbreak
  · revert hbreak
    decide

namespace Instruction

variable {m m' : MethodRef} {kind kind' : CallKind}

/-- The full name of the callee can be read off a listed call. -/
lemma fullName_eq_of_listing_eq (h : (call m kind).listing = (call m' kind').listing) :
    m.fullName = m'.fullName := by
  have hblank (k : CallKind) : ' ' ∉ k.mnemonic.toList := by cases k <;> decide
  have htext (m : MethodRef) (k : CallKind) : (call m k).listing.toList =
      k.mnemonic.toList ++ ' ' :: m.fullName.toList := by simp [listing]
  have heq := congrArg String.toList h
  rw [htext, htext] at heq
  exact String.ext (MethodRef.eq_of_separated (hblank kind) (hblank kind') heq).2

lemma isOneLine_listing_call (h : IsOneLine m.fullName) (kind : CallKind) :
    IsOneLine (call m kind).listing := by
  have hmnemonic : IsOneLine kind.mnemonic := by cases kind <;> exact isOneLine_ofList rfl (by decide)
  have hblank : IsOneLine " " := isOneLine_ofList rfl (by decide)
  rw [listing, isOneLine_append, isOneLine_append]
  exact ⟨⟨hmnemonic, hblank⟩, h⟩

end Instruction

namespace Listing

lemma instructionLine_inj {level n : Nat} {i i' : Instruction} :
    instructionLine level n i = instructionLine level n i' ↔ i.listing = i'.listing := by
  rw [instructionLine, instructionLine, line, line, String.append_right_inj, String.append_right_inj]

/-- The lines that an item takes; each shows what the item shows. -/
def Item.lines (x : Item) : List Item := (linesOf x.text).map (⟨·, x.shown⟩)

lemma Item.shown_of_mem_lines {x l : Item} (h : l ∈ x.lines) : l.shown = x.shown := by
  obtain ⟨s, -, rfl⟩ := List.mem_map.1 h
  rfl

/-- An instruction that is listed without a line break takes one line. -/
lemma Item.lines_instructionLine {i : Instruction} (h : IsOneLine i.listing) (level n : Nat)
    (shown : Option Address) :
    Item.lines ⟨instructionLine level n i, shown⟩ = [⟨instructionLine level n i, shown⟩] := by
  have hdigits : '\n' ∉ Nat.toDigits 10 n := fun hmem => by
    have hdigit := Nat.isDigit_of_mem_toDigits (by decide) (by decide) hmem
    revert hdigit
    decide
  have hline : IsOneLine (instructionLine level n i) := by
    unfold IsOneLine at h ⊢
    simp [instructionLine, line, position, hdigits, h]
  rw [lines, linesOf_of_isOneLine hline, List.map_singleton]

end Listing

open Listing Listing.Item

/-! ### Lines of a listing -/

lemma getElem?_bind_eq_some_iff {α β : Type} {f : α → Option β} {front back : List α} {x : α} {b : β}
    (hfront : ∀ y ∈ front, f y ≠ some b) (hx : f x = some b) (hback : ∀ y ∈ back, f y ≠ some b)
    {k : Nat} : ((front ++ x :: back)[k]?).bind f = some b ↔ k = front.length := by
  constructor
  · intro h
    obtain ⟨y, hy, hfy⟩ := Option.bind_eq_some_iff.1 h
    rcases Nat.lt_trichotomy k front.length with hlt | heq | hgt
    · rw [List.getElem?_append_left hlt] at hy
      exact absurd hfy (hfront y (List.mem_of_getElem? hy))
    · exact heq
    · obtain ⟨n, hn⟩ : ∃ n, k - front.length = n + 1 := ⟨k - front.length - 1, by omega⟩
      rw [List.getElem?_append_right (by omega), hn, List.getElem?_cons_succ] at hy
      exact absurd hfy (hback y (List.mem_of_getElem? hy))
  · rintro rfl
    simp [hx]

namespace CompiledUnit

/-- The lines of a listing with the addresses of the instructions that they show. -/
def listedLines (u : CompiledUnit) : List Item := (unitItems u).flatMap Item.lines

/-- The address of the instruction that is shown on a line of the listing. -/
def shownOn? (u : CompiledUnit) (k : Nat) : Option Address := (u.listedLines[k]?).bind Item.shown

variable {u : CompiledUnit} {a : Address} {i : Instruction}

lemma linesOf_listing (u : CompiledUnit) :
    linesOf u.listing = u.listedLines.map Item.text ++ [""] := by
  have hlines : Item.lines = fun x => (linesOf x.text).map (⟨·, x.shown⟩) := rfl
  rw [listing, linesOf_join, ← map_text_unitItems, listedLines, List.flatMap_map, List.map_flatMap,
    hlines]
  simp [Function.comp_def]

/-- An instruction that is listed without a line break is shown on one line, and on no other. -/
lemma exists_shownOn? (hi : u.instructionAt? a = some i) (hline : IsOneLine i.listing) :
    ∃ k, (∀ k', u.shownOn? k' = some a ↔ k' = k) ∧
      (linesOf u.listing)[k]? = some (instructionLine (a.path.length + 1) a.position i) := by
  set x : Item := ⟨instructionLine (a.path.length + 1) a.position i, some a⟩
  have hmem : x ∈ unitItems u := mem_unitItems_iff.2 ⟨i, hi, rfl⟩
  obtain ⟨front, back, hsplit⟩ := List.append_of_mem hmem
  have hother : ∀ y ∈ front ++ back, y.shown ≠ some a := by
    intro y hy hshown
    have hnodup : (addresses front ++ a :: addresses back).Nodup := by
      have hall := nodup_unitItems u
      rwa [hsplit, addresses_append] at hall
    rw [List.nodup_middle, List.nodup_cons, ← addresses_append] at hnodup
    exact hnodup.1 (List.mem_filterMap.2 ⟨y, hy, hshown⟩)
  -- the same for the lines that these items take
  have hlines (ys : List Item) (h : ∀ y ∈ ys, y.shown ≠ some a) :
      ∀ l ∈ ys.flatMap Item.lines, l.shown ≠ some a := by
    intro l hl
    obtain ⟨y, hy, hl⟩ := List.mem_flatMap.1 hl
    rw [shown_of_mem_lines hl]
    exact h y hy
  have hlisted : u.listedLines = front.flatMap Item.lines ++ x :: back.flatMap Item.lines := by
    have hx : x.lines = [x] := lines_instructionLine hline _ _ _
    rw [listedLines, hsplit, List.flatMap_append, List.flatMap_cons, hx, List.singleton_append]
  refine ⟨(front.flatMap Item.lines).length, fun k' => ?_, ?_⟩
  · rw [shownOn?, hlisted]
    exact getElem?_bind_eq_some_iff (hlines front fun y hy => hother y (List.mem_append_left _ hy)) rfl
      (hlines back fun y hy => hother y (List.mem_append_right _ hy))
  · rw [linesOf_listing, hlisted]
    simp [x]

end CompiledUnit

end Interpose
