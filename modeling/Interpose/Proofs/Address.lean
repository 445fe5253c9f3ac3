import Interpose.Proofs.WorkList

/-!
Instructions by their addresses.

Weaving keeps every instruction at its place. Main statement: at every address of a unit there is
the same instruction before and after, or a call that a rule that applies has sent to its wrapper,
whether the weaving went through or failed.
-/

namespace Interpose

/-- Where an instruction stands: the index path of a type, the index of a method, a position. -/
structure Address where
  path : List Nat
  method : Nat
  position : Nat

/-! ### Instructions of methods, types and units -/

namespace TypeDecl

/-- The instruction at a position of a method. -/
def methodInstruction? (ms : List MethodDecl) (j i : Nat) : Option Instruction :=
  (ms[j]?).bind fun m => m.instructions[i]?

/-- The instruction in a type or in one that is nested in it. -/
def instructionAt? (t : TypeDecl) (path : List Nat) (j i : Nat) : Option Instruction :=
  (t.nestedAt? path).bind fun s => methodInstruction? s.methods j i

/-- The instruction in a tree of a forest. -/
def forestInstruction? (ts : List TypeDecl) (k : Nat) (path : List Nat) (j i : Nat) :
    Option Instruction :=
  (ts[k]?).bind fun t => t.instructionAt? path j i

lemma instructionAt?_nil (t : TypeDecl) (j i : Nat) :
    t.instructionAt? [] j i = methodInstruction? t.methods j i := rfl

lemma instructionAt?_cons (t : TypeDecl) (k : Nat) (path : List Nat) (j i : Nat) :
    t.instructionAt? (k :: path) j i = forestInstruction? t.nestedTypes k path j i := by
  rw [instructionAt?, nestedAt?, Option.bind_assoc]
  rfl

end TypeDecl

/-- The instruction at an address. -/
def CompiledUnit.instructionAt? (u : CompiledUnit) (a : Address) : Option Instruction :=
  (u.typeAt? a.path).bind fun t => TypeDecl.methodInstruction? t.methods a.method a.position

lemma CompiledUnit.instructionAt?_cons (u : CompiledUnit) (k : Nat) (path : List Nat) (j i : Nat) :
    u.instructionAt? ⟨k :: path, j, i⟩ = TypeDecl.forestInstruction? u.types k path j i := by
  rw [instructionAt?, typeAt?, Option.bind_assoc]
  rfl

/-! ### Weaving keeps instructions or sends them -/

variable {rules : List Rule} {c : WeaveContext}

namespace TypeDecl

open MethodDecl (sends_refl)

lemma weaveMethods_sends (owner : TypeDecl) (ms : List MethodDecl) (j i : Nat) :
    Option.Rel (Rule.Sends rules) (methodInstruction? ms j i)
      (methodInstruction? (weaveMethods rules c owner ms).value j i) := by
  induction ms generalizing j with
  | nil => exact sends_refl _
  | cons m ms ih =>
    rw [weaveMethods_cons]
    split
    · have hm : Option.Rel (Rule.Sends rules) (m.instructions[i]?)
          ((m.weave rules c owner.fullName).value.instructions[i]?) := MethodDecl.weave_sends m i
      rcases h : (m.weave rules c owner.fullName).run.outcome with e | changed <;>
        rcases j with _ | j
      · simpa [Woven.followed, h, methodInstruction?] using hm
      · simpa [Woven.followed, h, methodInstruction?] using sends_refl _
      · simpa [Woven.followed, h, methodInstruction?] using hm
      · simpa [Woven.followed, h, methodInstruction?] using ih j
    · rcases j with _ | j
      · exact sends_refl _
      · exact ih j

/-- A tree, when what is nested in it is known to be kept or sent. -/
lemma weaveTree_sends {t : TypeDecl}
    (hn : ∀ parent k path j i, Option.Rel (Rule.Sends rules)
      (forestInstruction? t.nestedTypes k path j i)
      (forestInstruction? (weaveForest rules c parent t.nestedTypes).value k path j i))
    (parent : Option TypeDecl) (path : List Nat) (j i : Nat) :
    Option.Rel (Rule.Sends rules) (t.instructionAt? path j i)
      ((weaveTree rules c parent t).value.instructionAt? path j i) := by
  rw [weaveTree_eq]
  split
  · have hm : Option.Rel (Rule.Sends rules) (methodInstruction? t.methods j i)
        (methodInstruction? (weaveMethods rules c t t.methods).value j i) :=
      weaveMethods_sends t t.methods j i
    rw [Woven.after_followed, Woven.value_after]
    rcases h : (weaveMethods rules c t t.methods).run.outcome with e | changed <;>
      rcases path with _ | ⟨k, path⟩
    · simpa [Woven.followed, h, instructionAt?_nil] using hm
    · simpa [Woven.followed, h, instructionAt?_cons] using sends_refl _
    · simpa [Woven.followed, h, instructionAt?_nil] using hm
    · simpa [Woven.followed, h, instructionAt?_cons] using hn (some t) k path j i
  · exact sends_refl _

lemma weaveForest_sends (ts : List TypeDecl) :
    ∀ parent k path j i, Option.Rel (Rule.Sends rules) (forestInstruction? ts k path j i)
      (forestInstruction? (weaveForest rules c parent ts).value k path j i) := by
  induction ts using forest_induction with
  | nil => exact fun _ _ _ _ _ => sends_refl _
  | cons t ts ihn iht =>
    intro parent k path j i
    have ht := weaveTree_sends ihn parent path j i
    rw [weaveForest]
    rcases h : (weaveTree rules c parent t).run.outcome with e | changed <;> rcases k with _ | k
    · simpa [Woven.followed, h, forestInstruction?] using ht
    · simpa [Woven.followed, h, forestInstruction?] using sends_refl _
    · simpa [Woven.followed, h, forestInstruction?] using ht
    · simpa [Woven.followed, h, forestInstruction?] using iht parent k path j i

end TypeDecl

/-- **Kept or sent everywhere**: at every address weaving keeps the instruction or sends it. -/
theorem CompiledUnit.weave_sends (u : CompiledUnit) (a : Address) :
    Option.Rel (Rule.Sends rules) (u.instructionAt? a)
      ((u.weave rules c).value.instructionAt? a) := by
  obtain ⟨_ | ⟨k, path⟩, j, i⟩ := a
  · exact .none
  · rw [weave_eq_weaveForest, instructionAt?_cons, instructionAt?_cons]
    exact TypeDecl.weaveForest_sends u.types none k path j i

end Interpose
