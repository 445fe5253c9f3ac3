import Interpose.Hierarchy

/-!
Which type the value has that an instruction pushes.

A load from a slot that is declared as a supertype of the target is followed to the latest store
into the slot before it, and from there to the instruction that pushed the stored value. A value
of which nothing is known but that it may be of the target type is assumed to be.
-/

namespace Interpose

inductive Inference where
  /-- Pushed by a slot or a call that is declared with the target type. -/
  | exact
  /-- The slot is declared as a supertype, and what was stored into it has the target type. -/
  | refined
  /-- Declared as a supertype, with nothing more to be found. -/
  | assumed
  | mismatch
  deriving DecidableEq, Repr

namespace Inference

def isMatch (i : Inference) : Bool := i != .mismatch

def found (refined : Bool) : Inference := if refined then .refined else .exact

end Inference

namespace TypeFlow

def pushedType (callee : MethodRef) : CallKind → String
  | .construct => callee.declaringType
  | _ => callee.returnType

/-- The inference for a value of which only the declared type is known. -/
def classify (h : Hierarchy) (target : String) (refined : Bool) (declared : String) : Inference :=
  if declared = target then .found refined
  else if h.isStrictSupertype declared target then .assumed
  else .mismatch

/-- The position of the latest store into a slot before a position. -/
def latestStore? (body : List Instruction) (slot : Slot) : (before : Nat) → Option Nat
  | 0 => none
  | n + 1 => if body[n]? = some (.store slot) then some n else latestStore? body slot n

theorem latestStore?_lt {body : List Instruction} {slot : Slot} {before n : Nat}
    (h : latestStore? body slot before = some n) : n < before := by
  induction before with
  | zero => simp [latestStore?] at h
  | succ k ih =>
    rw [latestStore?] at h
    split at h
    · simp at h; omega
    · have := ih h; omega

/-- What is known of the value that the instruction at `cursor` pushes. -/
def infer (h : Hierarchy) (m : MethodDecl) (declaringType target : String) (refined : Bool)
    (cursor : Nat) : Except Fault Inference :=
  match m.instructions[cursor]? with
  | none => .error (m.fault declaringType (.instructionOutOfRange cursor))
  | some (.call callee kind) => .ok (classify h target refined (pushedType callee kind))
  | some (.load slot) =>
    match m.slotType declaringType slot with
    | .error e => .error e
    | .ok declared =>
      if declared = target then .ok (.found refined)
      else if !h.isStrictSupertype declared target then .ok .mismatch
      else match _hs : latestStore? m.instructions slot cursor with
        -- a store at the start takes a value that was there before the method ran
        | none | some 0 => .ok .assumed
        | some (n + 1) => infer h m declaringType target true n
  | some (.store _) => .ok .mismatch
  | some (.other _) => .ok .mismatch
termination_by cursor
decreasing_by have := latestStore?_lt _hs; omega

end TypeFlow

def MethodDecl.infer (m : MethodDecl) (h : Hierarchy) (declaringType target : String)
    (index : Nat) : Except Fault Inference :=
  TypeFlow.infer h m declaringType target false index

end Interpose
