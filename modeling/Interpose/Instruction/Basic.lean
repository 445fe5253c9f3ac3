/-!
Instructions of a stack machine.

A method body is a flat list of instructions. Loads, stores and calls are told apart; every other
operation is opaque and kept by its name.
-/

namespace Interpose

def voidType : String := "System.Void"

def constructorName : String := ".ctor"

/-- A reference to a method by its signature. -/
structure MethodRef where
  declaringType : String
  name : String
  params : List String
  returnType : String
  /-- The method takes a receiver that its parameters do not list. -/
  hasThis : Bool
  deriving DecidableEq, Repr

namespace MethodRef

/-- A method without receiver. -/
def static (declaringType name : String) (params : List String) (returnType : String) : MethodRef :=
  ⟨declaringType, name, params, returnType, false⟩

/-- A method with a receiver. -/
def instanceOf (declaringType name : String) (params : List String) (returnType : String) :
    MethodRef :=
  ⟨declaringType, name, params, returnType, true⟩

def constructor (declaringType : String) (params : List String) : MethodRef :=
  instanceOf declaringType constructorName params voidType

/-- The signature: return type, declaring type, name and parameter types. -/
def fullName (m : MethodRef) : String :=
  m.returnType ++ " " ++ m.declaringType ++ "::" ++ m.name ++ "(" ++ ",".intercalate m.params ++ ")"

def returnsValue (m : MethodRef) : Bool := m.returnType != voidType

def isConstructor (m : MethodRef) : Bool := m.name == constructorName

end MethodRef

structure FieldRef where
  declaringType : String
  name : String
  fieldType : String
  deriving DecidableEq, Repr

/-- What a load reads and a store writes. -/
inductive Slot where
  | field (ref : FieldRef)
  | local (index : Nat)
  | parameter (index : Nat)
  /-- The receiver. -/
  | this
  deriving DecidableEq, Repr

def Slot.listing : Slot → String
  | .field ref => ref.declaringType ++ "::" ++ ref.name
  | .local i => "loc" ++ toString i
  | .parameter i => "arg" ++ toString i
  | .this => "this"

/-- How a call finds its method. -/
inductive CallKind where
  | direct
  /-- By the type of the receiver. -/
  | virtual
  /-- A constructor, on an object made for it. -/
  | construct
  deriving DecidableEq, Repr

def CallKind.mnemonic : CallKind → String
  | .direct => "call"
  | .virtual => "callvirt"
  | .construct => "newobj"

/-- How many values an instruction takes from the stack and puts onto it. -/
structure StackEffect where
  pops : Nat
  pushes : Nat
  deriving DecidableEq, Repr

inductive Instruction where
  | load (slot : Slot)
  | store (slot : Slot)
  | call (callee : MethodRef) (kind : CallKind)
  | other (opcode : String)
  deriving DecidableEq, Repr

namespace Instruction

def isCall : Instruction → Bool
  | .call _ _ => true
  | _ => false

def callee? : Instruction → Option MethodRef
  | .call callee _ => some callee
  | _ => none

/-- The effect on the stack; none for an opaque instruction. -/
def stackEffect? : Instruction → Option StackEffect
  | .load _ => some ⟨0, 1⟩
  | .store _ => some ⟨1, 0⟩
  | .call callee .construct => some ⟨callee.params.length, 1⟩
  | .call callee _ =>
    some ⟨callee.params.length + callee.hasThis.toNat, callee.returnsValue.toNat⟩
  | .other _ => none

/-- How an instruction is shown in a listing. -/
def listing : Instruction → String
  | .load slot => "ld " ++ slot.listing
  | .store slot => "st " ++ slot.listing
  | .call callee kind => kind.mnemonic ++ " " ++ callee.fullName
  | .other opcode => opcode

end Instruction

end Interpose
