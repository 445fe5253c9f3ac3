import Interpose.Log
import Interpose.TypeFlow

/-!
Rules: which calls go to a wrapper, and to which.

A rule looks at a call in its method and says yes or no; it may fail, and it may log. Conditions
are rules' questions as data: on the callee, on the receiver, on the place of the call, and
combined from left to right.
-/

namespace Interpose

/-- What the weaving of a unit may rely on. -/
structure WeaveContext where
  hierarchy : Hierarchy
  /-- Decisions are logged as information. -/
  verbose : Bool

def WeaveContext.traceLevel (c : WeaveContext) : LogLevel := .trace c.verbose

structure CallSite where
  method : MethodDecl
  declaringType : String
  index : Nat
  context : WeaveContext

namespace CallSite

def callee? (s : CallSite) : Option MethodRef :=
  (s.method.instructions[s.index]?).bind Instruction.callee?

def calleeIs (s : CallSite) (fullName : String) : Bool :=
  match s.callee? with
  | some m => m.fullName == fullName
  | none => false

/-- The value pushed right before the call may be of the target type. -/
def receiverIs (s : CallSite) (target : String) : Traced Bool :=
  match s.index with
  | 0 => pure false
  | previous + 1 =>
    match s.method.infer s.context.hierarchy s.declaringType target previous with
    | .error e => throw e
    | .ok .assumed =>
      ⟨[⟨s.context.traceLevel,
        .receiverAssumed (s.method.displayName s.declaringType) s.index target⟩], .ok true⟩
    | .ok inference => pure inference.isMatch

end CallSite

/-- Sends the calls that it applies to to a wrapper. -/
structure Rule where
  name : String
  replacement : MethodRef
  /-- The kind of the new call; the old kind is kept if there is none. -/
  callKind : Option CallKind
  applies : CallSite → Traced Bool

namespace Rule

/-- A call sent to the wrapper; other instructions stay. -/
def redirect (r : Rule) : Instruction → Instruction
  | .call _ kind => .call r.replacement (r.callKind.getD kind)
  | i => i

/-- The first rule that applies to a call. A failure is that of the rule at this method. -/
def first? (rules : List Rule) (s : CallSite) : Traced (Option Rule) :=
  match rules with
  | [] => pure none
  | r :: rest => do
    let applies ← (r.applies s).mapFault fun e =>
      .rule r.name (s.method.displayName s.declaringType) e.message
    if applies then pure (some r) else first? rest s

end Rule

inductive Condition where
  | always (answer : Bool)
  | callee (fullName : String)
  | receiver (target : String)
  | at (index : Nat)
  /-- Asks the first that may be wrong, and so on. -/
  | all (conditions : List Condition)
  | any (conditions : List Condition)
  | fail (message : String)

namespace Condition

mutual

def holds (s : CallSite) : Condition → Traced Bool
  | .always b => pure b
  | .callee fullName => pure (s.calleeIs fullName)
  | .receiver target => s.receiverIs target
  | .at index => pure (s.index == index)
  | .all conditions => allHold s conditions
  | .any conditions => anyHolds s conditions
  | .fail message => throw (.malformedBody s.declaringType (.other message))

def allHold (s : CallSite) : List Condition → Traced Bool
  | [] => pure true
  | c :: cs => do if ← holds s c then allHold s cs else pure false

def anyHolds (s : CallSite) : List Condition → Traced Bool
  | [] => pure false
  | c :: cs => do if ← holds s c then pure true else anyHolds s cs

end

end Condition

end Interpose
