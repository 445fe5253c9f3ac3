import Interpose.NetworkCapture

/-!
Weavers, and lists of weavers that work on a unit one after the other.
-/

namespace Interpose

/-- A way to change units, with the types that it relies on. -/
structure Weaver where
  name : String
  seed : Hierarchy → Hierarchy
  weave : WeaveContext → CompiledUnit → Woven CompiledUnit

namespace Weaver

/-- The weaver that applies a list of rules to every type of a unit. -/
def ofRules (name : String) (seed : Hierarchy → Hierarchy) (rules : List Rule) : Weaver :=
  ⟨name, seed, fun c u => u.weave rules c⟩

def networkCapture (o : CaptureOptions) : Weaver :=
  ofRules "network-capture" NetworkCapture.seed (NetworkCapture.rules o)

end Weaver

/-- Weavers in the order in which they work on a unit. -/
structure WeaverList where
  weavers : List Weaver

namespace WeaverList

def ofOptions (o : CaptureOptions) : WeaverList := ⟨[.networkCapture o]⟩

def isEmpty (l : WeaverList) : Bool := l.weavers.isEmpty

def names (l : WeaverList) : List String := l.weavers.map (·.name)

def seed (l : WeaverList) (h : Hierarchy) : Hierarchy := l.weavers.foldl (fun h w => w.seed h) h

/-- Runs weavers on a unit until one fails; a failure names the weaver and the unit. -/
def weaveAll (c : WeaveContext) : List Weaver → CompiledUnit → Woven CompiledUnit
  | [], u => .unchanged u
  | w :: ws, u =>
    let woven := w.weave c u
    match woven.run.outcome with
    | .error e => ⟨woven.value, woven.run.log, .error (.weaver w.name woven.value.name e)⟩
    | .ok changed => (weaveAll c ws woven.value).after woven.run.log changed

def weave (l : WeaverList) (c : WeaveContext) (u : CompiledUnit) : Woven CompiledUnit :=
  weaveAll c l.weavers u

end WeaverList

end Interpose
