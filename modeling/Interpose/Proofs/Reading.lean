import Mathlib.Tactic.Lemma
import Interpose.Rule

/-!
What the decision on a call reads.

A condition looks at the call, at the declaration of its method and, when it asks for the receiver,
at the instructions before the call. Of those it sees the slots of loads and stores and the types
that calls push. So a body may change behind a call, and before it a call may become another one
that pushes the same type: the decision stays as it is.
-/

namespace Interpose

/-! ### Methods without their bodies -/

namespace MethodDecl

/-- The method without its body. -/
def bodiless (m : MethodDecl) : MethodDecl := { m with body := none }

variable {m m' : MethodDecl}

lemma displayName_congr (h : m.bodiless = m'.bodiless) (T : String) :
    m.displayName T = m'.displayName T :=
  show m.bodiless.displayName T = _ by rw [h]; rfl

lemma slotType_bodiless (m : MethodDecl) (T : String) (slot : Slot) :
    m.bodiless.slotType T slot = m.slotType T slot := by
  cases slot <;> rfl

lemma slotType_congr (h : m.bodiless = m'.bodiless) (T : String) (slot : Slot) :
    m.slotType T slot = m'.slotType T slot := by
  rw [← slotType_bodiless, h, slotType_bodiless]

end MethodDecl

/-! ### Type flow -/

namespace TypeFlow

/-- What the type flow sees of an instruction. -/
inductive Reading where
  | load (slot : Slot)
  | store (slot : Slot)
  | call (pushed : String)
  | other
  deriving DecidableEq

def reading : Instruction → Reading
  | .load slot => .load slot
  | .store slot => .store slot
  | .call callee kind => .call (pushedType callee kind)
  | .other _ => .other

/-- What it sees at a position of a body. -/
def readingAt (body : List Instruction) (n : Nat) : Option Reading := (body[n]?).map reading

variable {b b' : List Instruction}

lemma readingAt_eq_store_iff {slot : Slot} {n : Nat} :
    readingAt b n = some (.store slot) ↔ b[n]? = some (.store slot) := by
  unfold readingAt
  rcases b[n]? with _ | ⟨_ | _ | _ | _⟩ <;> simp [reading]

lemma latestStore?_congr {slot : Slot} {n : Nat} (h : ∀ j < n, readingAt b j = readingAt b' j) :
    latestStore? b slot n = latestStore? b' slot n := by
  induction n with
  | zero => rfl
  | succ n ih =>
    have hn : b[n]? = some (.store slot) ↔ b'[n]? = some (.store slot) := by
      rw [← readingAt_eq_store_iff, h n (by omega), readingAt_eq_store_iff]
    rw [latestStore?, latestStore?, ih fun j hj => h j (by omega)]
    simp only [hn]

/-- The inference in terms of what is read. -/
lemma infer_eq (h : Hierarchy) (m : MethodDecl) (T target : String) (refined : Bool) (k : Nat) :
    infer h m T target refined k =
      match readingAt m.instructions k with
      | none => .error (m.fault T (.instructionOutOfRange k))
      | some (.call pushed) => .ok (classify h target refined pushed)
      | some (.load slot) =>
        match m.slotType T slot with
        | .error e => .error e
        | .ok declared =>
          if declared = target then .ok (.found refined)
          else if !h.isStrictSupertype declared target then .ok .mismatch
          else match latestStore? m.instructions slot k with
            | none | some 0 => .ok .assumed
            | some (n + 1) => infer h m T target true n
      | some (.store _) => .ok .mismatch
      | some .other => .ok .mismatch := by
  rw [infer.eq_def, readingAt]
  rcases m.instructions[k]? with _ | ⟨slot | slot | ⟨callee, kind⟩ | opcode⟩
  · rfl
  · simp only [Option.map_some, reading]
    rcases m.slotType T slot with e | declared
    · rfl
    · simp only
      split
      · rfl
      · split
        · rfl
        · split <;> simp_all
  · rfl
  · rfl
  · rfl

/-- **Locality**: methods declared alike whose bodies read the same up to a position give the same
inference there. -/
theorem infer_congr {h : Hierarchy} {m m' : MethodDecl} {T target : String} {k : Nat}
    (hm : m.bodiless = m'.bodiless)
    (hr : ∀ j ≤ k, readingAt m.instructions j = readingAt m'.instructions j) (refined : Bool) :
    infer h m T target refined k = infer h m' T target refined k := by
  induction k using Nat.strongRecOn generalizing refined with
  | ind k ih =>
    have hstore (slot : Slot) :
        latestStore? m.instructions slot k = latestStore? m'.instructions slot k :=
      latestStore?_congr fun j hj => hr j (by omega)
    have hfault : m.fault T (.instructionOutOfRange k) = m'.fault T (.instructionOutOfRange k) := by
      rw [MethodDecl.fault, MethodDecl.displayName_congr hm, MethodDecl.fault]
    rw [infer_eq, infer_eq h m', hr k (Nat.le_refl k), hfault]
    rcases readingAt m'.instructions k with _ | ⟨slot | slot | pushed | _⟩
    · rfl
    · simp only [MethodDecl.slotType_congr hm, hstore]
      rcases m'.slotType T slot with e | declared
      · rfl
      · -- only a followed store leads to another position, and that one is smaller
        rcases hs : latestStore? m'.instructions slot k with _ | _ | n
        · rfl
        · rfl
        · have hlt := latestStore?_lt hs
          simp only [ih n (by omega) fun j hj => hr j (by omega)]
    · rfl
    · rfl
    · rfl

end TypeFlow

/-! ### Conditions -/

namespace CallSite

/-- Two sites that no condition can tell apart. -/
structure Alike (s s' : CallSite) : Prop where
  method : s.method.bodiless = s'.method.bodiless
  owner : s.declaringType = s'.declaringType
  index : s.index = s'.index
  context : s.context = s'.context
  callee : s.callee? = s'.callee?
  before : ∀ j < s.index, TypeFlow.readingAt s.method.instructions j =
    TypeFlow.readingAt s'.method.instructions j

variable {s s' : CallSite}

lemma calleeIs_congr (h : s.Alike s') (fullName : String) :
    s.calleeIs fullName = s'.calleeIs fullName := by
  rw [calleeIs, h.callee, calleeIs]

lemma receiverIs_congr (h : s.Alike s') (target : String) :
    s.receiverIs target = s'.receiverIs target := by
  obtain ⟨m, T, i, c⟩ := s
  obtain ⟨m', T', i', c'⟩ := s'
  obtain ⟨hm, rfl, rfl, rfl, -, hr⟩ := h
  simp only at hm hr
  cases i with
  | zero => rfl
  | succ i =>
    have hi : m.infer c.hierarchy T target i = m'.infer c.hierarchy T target i :=
      TypeFlow.infer_congr hm (fun j hj => hr j (by omega)) false
    simp only [receiverIs, hi, MethodDecl.displayName_congr hm]

end CallSite

namespace Condition

variable {s s' : CallSite}

mutual

/-- Sites that are alike get the same answer, with the same log. -/
theorem holds_congr (h : s.Alike s') : ∀ k : Condition, holds s k = holds s' k
  | .always _ => rfl
  | .callee _ => by rw [holds, holds, CallSite.calleeIs_congr h]
  | .receiver _ => by rw [holds, holds, CallSite.receiverIs_congr h]
  | .at _ => by rw [holds, holds, h.index]
  | .all ks => by rw [holds, holds, allHold_congr h ks]
  | .any ks => by rw [holds, holds, anyHolds_congr h ks]
  | .fail _ => by rw [holds, holds, h.owner]

theorem allHold_congr (h : s.Alike s') : ∀ ks : List Condition, allHold s ks = allHold s' ks
  | [] => rfl
  | k :: ks => by rw [allHold, allHold, holds_congr h k, allHold_congr h ks]

theorem anyHolds_congr (h : s.Alike s') : ∀ ks : List Condition, anyHolds s ks = anyHolds s' ks
  | [] => rfl
  | k :: ks => by rw [anyHolds, anyHolds, holds_congr h k, anyHolds_congr h ks]

end

end Condition

end Interpose
