import Interpose.Proofs.Address
import Interpose.Proofs.NetworkRules

/-!
The stack around captured calls.

A wrapper is made for the usual call of the method that it captures: sending and disposing take the
request, a client is made of the constructor's parameters. A rule knows the callee by its full name
only, which tells neither how it is called nor whether it has a receiver. Main statement: weaving
keeps the stack effect at an address exactly if the instruction stays or is a call of the usual
shape. A call of the base constructor of the client is not.
-/

namespace Interpose.NetworkCapture

/-! ### The shape of a call -/

/-- How many values a call takes from the stack. -/
def taken (callee : MethodRef) : CallKind → Nat
  | .construct => callee.params.length
  | _ => callee.params.length + callee.hasThis.toNat

/-- A call by the full name of a captured method is shaped like the usual one: a client is made of
as many values as the constructor has parameters, and any other method takes the request and no
more, and is called to make an object only if it returns one. -/
def IsShaped (original callee : MethodRef) (kind : CallKind) : Prop :=
  if original.isConstructor then
    kind = .construct ∧ callee.params.length = original.params.length
  else taken callee kind = 1 ∧ (kind = .construct → original.returnsValue = true)

/-- An instruction is no call of a captured method, or one of the usual shape. -/
def Fits (a : Instruction) : Prop :=
  ∀ callee kind, a = .call callee kind → ∀ p ∈ captured, callee.fullName = p.1.fullName →
    IsShaped p.1 callee kind

variable {callee : MethodRef} {kind : CallKind} {p : MethodRef × MethodRef}

lemma fits_call_iff (hp : p ∈ captured) (hn : callee.fullName = p.1.fullName) :
    Fits (.call callee kind) ↔ IsShaped p.1 callee kind := by
  refine ⟨fun h => h callee kind rfl p hp hn, fun h callee' kind' heq q hq hnq => ?_⟩
  cases heq
  rwa [captured_inj hq hp (hnq.symm.trans hn)]

/-- A wrapper of a constructor takes its parameters and returns the object that it would have made;
any other wrapper takes the request and returns what the method returns. -/
lemma wrapper_shape : ∀ p ∈ captured, p.2.hasThis = false ∧
    if p.1.isConstructor then
      p.2.params.length = p.1.params.length ∧ p.2.returnsValue = true ∧ p.1.returnsValue = false
    else p.2.params.length = 1 ∧ p.2.returnsValue = p.1.returnsValue := by
  decide +kernel

/-- A wrapper does to the stack what the call does that it replaces, if that is of the usual
shape, and only then. -/
lemma stackEffect_wrapper_iff (hp : p ∈ captured) (hn : callee.fullName = p.1.fullName) :
    (Instruction.call p.2 .direct).stackEffect? = (Instruction.call callee kind).stackEffect? ↔
      IsShaped p.1 callee kind := by
  -- the full name tells what the callee returns
  have hret : callee.returnsValue = p.1.returnsValue := by
    rw [MethodRef.returnsValue, (MethodRef.eq_of_fullName_eq hn (legible_of_mem_captured p hp)).1]
    rfl
  have hcall : (Instruction.call callee kind).stackEffect? = some ⟨taken callee kind,
      if kind = .construct then 1 else p.1.returnsValue.toNat⟩ := by
    rw [← hret]
    cases kind <;> rfl
  obtain ⟨hthis, hshape⟩ := wrapper_shape p hp
  have hwrapper : (Instruction.call p.2 .direct).stackEffect? =
      some ⟨p.2.params.length, p.2.returnsValue.toNat⟩ := by
    simp [Instruction.stackEffect?, hthis]
  rw [hcall, hwrapper, IsShaped, Option.some.injEq, StackEffect.mk.injEq, eq_comm]
  split at hshape
  · next hc =>
    obtain ⟨hlen, hout, hin⟩ := hshape
    rw [if_pos hc, hlen, hout, hin]
    cases kind <;> simp [taken]
  · next hc =>
    obtain ⟨hlen, hout⟩ := hshape
    rw [if_neg hc, hlen, hout]
    cases kind <;> simp

/-! ### Weaving -/

variable {o : CaptureOptions}

lemma stackEffect_of_sends {before after : Instruction} (h : Rule.Sends (rules o) before after) :
    after.stackEffect? = before.stackEffect? ↔ after = before ∨ Fits before := by
  cases h with
  | kept => simp
  | @sent r s callee kind mem site applies =>
    obtain ⟨p, hp, hn, hr⟩ := exists_captured_of_applies mem site applies
    rw [callKind_of_mem mem, hr]
    have heffect : (Instruction.call p.2 .direct).stackEffect? =
        (Instruction.call callee kind).stackEffect? ↔ Fits (.call callee kind) :=
      (stackEffect_wrapper_iff hp hn).trans (fits_call_iff hp hn).symm
    refine ⟨fun h => .inr (heffect.1 h), fun h => ?_⟩
    rcases h with h | h
    · rw [← h]
    · exact heffect.2 h

/-- **The stack effect**: at every address weaving keeps the effect on the stack exactly if it keeps
the instruction or the instruction fits. -/
theorem weave_stackEffect_iff (o : CaptureOptions) (c : WeaveContext) (u : CompiledUnit)
    (a : Address) :
    Option.Rel (fun before after => after.stackEffect? = before.stackEffect? ↔
        after = before ∨ Fits before)
      (u.instructionAt? a) ((u.weave (rules o) c).value.instructionAt? a) := by
  have h : Option.Rel (Rule.Sends (rules o)) (u.instructionAt? a)
      ((u.weave (rules o) c).value.instructionAt? a) := u.weave_sends a
  generalize u.instructionAt? a = before at h ⊢
  generalize (u.weave (rules o) c).value.instructionAt? a = after at h ⊢
  cases h with
  | none => exact .none
  | some h => exact .some (stackEffect_of_sends h)

/-- A unit with a type derived from the client, whose constructor calls that of its base. -/
def derivedClient : CompiledUnit :=
  { CompiledUnit.ofName "Game" with
    types := [{ TypeDecl.ofName "Game" "Client" with
      baseType := some httpClient
      methods := [{ MethodDecl.ofName constructorName voidType with
        hasThis := true
        body := some [.load .this, .call (clientConstructor []) .direct, .other "ret"] }] }] }

/-- The call of the base constructor takes the object and leaves nothing; the wrapper in its place
takes nothing and leaves a client. -/
theorem stackEffect_baseConstructor :
    ¬∀ (o : CaptureOptions) (c : WeaveContext) (u : CompiledUnit) (a : Address),
      (((u.weave (rules o) c).value.instructionAt? a).map Instruction.stackEffect?) =
        (u.instructionAt? a).map Instruction.stackEffect? := by
  intro h
  have hbase := h .default ⟨.empty, false⟩ derivedClient ⟨[0], 0, 1⟩
  rw [CompiledUnit.weave_eq_weaveForest] at hbase
  revert hbase
  decide +kernel

end Interpose.NetworkCapture
