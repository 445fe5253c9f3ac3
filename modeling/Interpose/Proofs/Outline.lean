import Interpose.Proofs.SecondWeave

/-!
Units without their bodies.

What other units see of a unit is what it declares and what it refers to, and a hierarchy is made
from that alone. Main statement: weaving changes bodies only, so a woven unit and the original
declare the same. For the weavers of the network it follows as well that no unit is changed twice.
-/

namespace Interpose

/-! ### Types and units without bodies -/

namespace TypeDecl

mutual

/-- The type, and all that is nested in it, without the bodies of the methods. -/
def bodiless : TypeDecl → TypeDecl
  | ⟨name, fullName, baseType, interfaces, isGenerated, attributes, fields, properties, methods,
      nested⟩ =>
    ⟨name, fullName, baseType, interfaces, isGenerated, attributes, fields, properties,
      methods.map MethodDecl.bodiless, bodilessAll nested⟩

def bodilessAll : List TypeDecl → List TypeDecl
  | [] => []
  | t :: ts => bodiless t :: bodilessAll ts

end

lemma bodiless_eq (t : TypeDecl) :
    t.bodiless = (t.withMethods (t.methods.map MethodDecl.bodiless)).withNested
      (bodilessAll t.nestedTypes) := by
  obtain ⟨_, _, _, _, _, _, _, _, _, _⟩ := t
  rw [bodiless]
  rfl

lemma bodilessAll_eq_map (ts : List TypeDecl) : bodilessAll ts = ts.map bodiless := by
  induction ts with
  | nil => rfl
  | cons t ts ih => rw [bodilessAll, ih, List.map_cons]

@[simp] lemma fullName_bodiless (t : TypeDecl) : t.bodiless.fullName = t.fullName := by
  rw [bodiless_eq]
  rfl

@[simp] lemma baseType_bodiless (t : TypeDecl) : t.bodiless.baseType = t.baseType := by
  rw [bodiless_eq]
  rfl

@[simp] lemma interfaces_bodiless (t : TypeDecl) : t.bodiless.interfaces = t.interfaces := by
  rw [bodiless_eq]
  rfl

@[simp] lemma nestedTypes_bodiless (t : TypeDecl) :
    t.bodiless.nestedTypes = t.nestedTypes.map bodiless := by
  rw [bodiless_eq, nestedTypes_withNested, bodilessAll_eq_map]

/-- Types with other methods and other nested types have one outline if these have. -/
lemma bodiless_congr {t : TypeDecl} {ms : List MethodDecl} {ts : List TypeDecl}
    (hm : ms.map MethodDecl.bodiless = t.methods.map MethodDecl.bodiless)
    (hn : bodilessAll ts = bodilessAll t.nestedTypes) :
    ((t.withMethods ms).withNested ts).bodiless = t.bodiless := by
  rw [bodiless_eq, bodiless_eq t, methods_withNested, methods_withMethods, nestedTypes_withNested,
    hm, hn]
  rfl

/-- The walk over a forest does not look at bodies. -/
lemma visit_bodiless (found work : List TypeDecl) :
    visit (found.map bodiless) (work.map bodiless) = (visit found work).map bodiless := by
  induction found, work using visit.induct with
  | case1 found =>
    rw [visit, List.map_nil, visit, List.map_reverse]
  | case2 found t rest ih =>
    rw [List.map_cons] at ih
    rw [visit, List.map_cons, visit, nestedTypes_bodiless, ← List.map_append, ih]

end TypeDecl

namespace CompiledUnit

/-- The unit without the bodies of its methods. -/
def bodiless (u : CompiledUnit) : CompiledUnit := { u with types := TypeDecl.bodilessAll u.types }

variable {u v : CompiledUnit}

lemma allTypes_bodiless (u : CompiledUnit) :
    u.bodiless.allTypes = u.allTypes.map TypeDecl.bodiless := by
  unfold allTypes
  rw [bodiless, TypeDecl.bodilessAll_eq_map]
  exact TypeDecl.visit_bodiless [] u.types

lemma name_congr (h : u.bodiless = v.bodiless) : u.name = v.name :=
  show u.bodiless.name = _ by rw [h]; rfl

lemma references_congr (h : u.bodiless = v.bodiless) : u.references = v.references :=
  show u.bodiless.references = _ by rw [h]; rfl

lemma attributes_congr (h : u.bodiless = v.bodiless) : u.attributes = v.attributes :=
  show u.bodiless.attributes = _ by rw [h]; rfl

end CompiledUnit

namespace Hierarchy

lemma addUnit_bodiless (h : Hierarchy) (u : CompiledUnit) : h.addUnit u.bodiless = h.addUnit u := by
  rw [addUnit, addTypes, CompiledUnit.allTypes_bodiless, List.foldl_map]
  simp only [TypeDecl.fullName_bodiless, TypeDecl.baseType_bodiless, TypeDecl.interfaces_bodiless]
  rfl

lemma addUnit_congr (h : Hierarchy) {u v : CompiledUnit} (huv : u.bodiless = v.bodiless) :
    h.addUnit u = h.addUnit v := by
  rw [← addUnit_bodiless, huv, addUnit_bodiless]

end Hierarchy

/-! ### Weaving changes bodies only -/

variable {rules : List Rule} {c : WeaveContext}

namespace TypeDecl

/-- A tree keeps its outline, when what is nested in it is known to do so. -/
lemma bodiless_weaveTree {t : TypeDecl}
    (hn : ∀ parent, bodilessAll (weaveForest rules c parent t.nestedTypes).value =
      bodilessAll t.nestedTypes) (parent : Option TypeDecl) :
    (weaveTree rules c parent t).value.bodiless = t.bodiless := by
  have hm : (weaveMethods rules c t t.methods).value.map MethodDecl.bodiless =
      t.methods.map MethodDecl.bodiless := weaveMethods_bodiless t t.methods
  rw [weaveTree_eq]
  split
  · rw [Woven.after_followed, Woven.value_after]
    rcases h : (weaveMethods rules c t t.methods).run.outcome with e | changed
    · have hkept := bodiless_congr hm (rfl : bodilessAll t.nestedTypes = _)
      rw [Woven.followed, h]
      exact hkept
    · rw [Woven.followed, h]
      exact bodiless_congr hm (hn (some t))
  · rfl

lemma bodilessAll_weaveForest (ts : List TypeDecl) :
    ∀ parent, bodilessAll (weaveForest rules c parent ts).value = bodilessAll ts := by
  induction ts using forest_induction with
  | nil => exact fun _ => rfl
  | cons t ts ihn iht =>
    intro parent
    have ht : (weaveTree rules c parent t).value.bodiless = t.bodiless :=
      bodiless_weaveTree ihn parent
    rw [weaveForest]
    rcases h : (weaveTree rules c parent t).run.outcome with e | changed
    · rw [Woven.followed, h, bodilessAll, ht, bodilessAll]
    · rw [Woven.followed, h, Woven.value_after, Woven.value_map, bodilessAll, ht, iht, bodilessAll]

end TypeDecl

/-- **Bodies only**: weaving keeps everything of a unit but the bodies of its methods, whether it
goes through or fails. -/
theorem CompiledUnit.bodiless_weave (u : CompiledUnit) :
    (u.weave rules c).value.bodiless = u.bodiless := by
  rw [weave_eq_weaveForest]
  exact congrArg (fun ts => { u with types := ts }) (TypeDecl.bodilessAll_weaveForest u.types none)

/-! ### The weavers of the network -/

namespace WeaverList

/-- The weavers change bodies only. -/
def KeepsOutline (l : WeaverList) : Prop :=
  ∀ (c : WeaveContext) (u : CompiledUnit), (l.weave c u).value.bodiless = u.bodiless

/-- The weavers find nothing to change in a unit that they have gone through. -/
def Settles (l : WeaverList) : Prop :=
  ∀ (c : WeaveContext) (u : CompiledUnit) (changed : Bool),
    (l.weave c u).run.outcome = .ok changed →
      (l.weave c (l.weave c u).value).run.outcome = .ok false

/-- The one weaver is at work. -/
lemma weave_ofOptions (o : CaptureOptions) (c : WeaveContext) (u : CompiledUnit) :
    ((ofOptions o).weave c u).value = (u.weave (NetworkCapture.rules o) c).value ∧
      ∀ changed, ((ofOptions o).weave c u).run.outcome = .ok changed ↔
        (u.weave (NetworkCapture.rules o) c).run.outcome = .ok changed := by
  have hone : (ofOptions o).weave c u = weaveAll c [.networkCapture o] u := rfl
  have hweave : (Weaver.networkCapture o).weave c u = u.weave (NetworkCapture.rules o) c := rfl
  rw [hone, weaveAll, hweave]
  rcases h : (u.weave (NetworkCapture.rules o) c).run.outcome with e | b
  · simp
  · simp [weaveAll, Except.map]

lemma keepsOutline_ofOptions (o : CaptureOptions) : (ofOptions o).KeepsOutline := fun c u => by
  rw [(weave_ofOptions o c u).1, CompiledUnit.bodiless_weave]

lemma settles_ofOptions (o : CaptureOptions) : (ofOptions o).Settles := fun c u changed h => by
  have hsecond := CompiledUnit.weave_weave (fun r hr => NetworkCapture.asksCondition_of_mem hr)
    (NetworkCapture.settled_rules o) (((weave_ofOptions o c u).2 changed).1 h)
  rw [(weave_ofOptions o c u).1]
  exact ((weave_ofOptions o c _).2 false).2 hsecond.2

end WeaverList

end Interpose
