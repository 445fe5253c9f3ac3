import Interpose.Path

/-!
What can go wrong, as causes. The wording of every cause is in one function.
-/

namespace Interpose

inductive BodyFault where
  | localOutOfRange (index : Nat)
  | parameterOutOfRange (index : Nat)
  | instructionOutOfRange (index : Nat)
  | receiverInStaticMethod
  | other (message : String)
  deriving DecidableEq, Repr

def BodyFault.message : BodyFault → String
  | .localOutOfRange i => "local index " ++ toString i ++ " out of range"
  | .parameterOutOfRange i => "parameter index " ++ toString i ++ " out of range"
  | .instructionOutOfRange i => "instruction index " ++ toString i ++ " out of range"
  | .receiverInStaticMethod => "receiver loaded in a static method"
  | .other m => m

/-- A method with a malformed body is named by its signature. A rule that failed comes with the message
of what failed in it, and a weaver with the fault. -/
inductive Fault where
  | io (path : Path) (detail : String)
  | malformedDocument (path : Path) (detail : String)
  | unitNotFound (name : String)
  | malformedBody (method : String) (cause : BodyFault)
  | rule (name method message : String)
  | weaver (name unit : String) (cause : Fault)
  deriving Repr

namespace Fault

def message : Fault → String
  | .io path detail => "IO error on " ++ path.text ++ ": " ++ detail
  | .malformedDocument path detail => "Malformed JSON in " ++ path.text ++ ": " ++ detail
  | .unitNotFound name => "Compiled unit not found: " ++ name
  | .malformedBody method cause => "Malformed method body in " ++ method ++ ": " ++ cause.message
  | .rule name method m => "Rule '" ++ name ++ "' failed in " ++ method ++ ": " ++ m
  | .weaver name unit cause =>
    "Weaver '" ++ name ++ "' failed on unit " ++ unit ++ ": " ++ cause.message

/-- The fault came out of running rules, not out of reading input. -/
def isWeavingFault : Fault → Bool
  | .malformedBody _ _ | .rule _ _ _ => true
  | .weaver _ _ cause => cause.isWeavingFault
  | .io _ _ | .malformedDocument _ _ | .unitNotFound _ => false

end Fault

end Interpose
