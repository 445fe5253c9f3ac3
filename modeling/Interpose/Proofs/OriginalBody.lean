import Interpose.Proofs.Redirection

/-!
Decisions on the original body.

The walk decides every call on a body whose front is woven already. When replacements read as the
calls they replace, the type flow does not see the difference. Main statement: the walk then decides
every call as on the original body.
-/

namespace Interpose.MethodDecl

variable {rules : List Rule} {c : WeaveContext} {T : String}

/-- Where a rule is chosen for a call, its replacement reads as the call does. -/
def ReplacesAlike (rules : List Rule) (c : WeaveContext) (T : String) (m : MethodDecl) : Prop :=
  ∀ i r a, m.choice rules c T i = .ok (some r) → m.instructions[i]? = some a →
    TypeFlow.reading (r.redirect a) = TypeFlow.reading a

/-- The method `w` is `m` woven up to an index by replacements that read alike. -/
structure HalfWoven (m w : MethodDecl) (i : Nat) : Prop where
  declared : w.bodiless = m.bodiless
  reads : ∀ j, TypeFlow.readingAt w.instructions j = TypeFlow.readingAt m.instructions j
  ahead : ∀ j, i ≤ j → w.instructions[j]? = m.instructions[j]?

lemma HalfWoven.choice_eq (hc : ∀ r ∈ rules, r.AsksCondition) {m w : MethodDecl} {i : Nat}
    (h : HalfWoven m w i) : w.choice rules c T i = m.choice rules c T i :=
  choice_congr hc h.declared (h.ahead i (Nat.le_refl i)) fun k _ => h.reads k

lemma HalfWoven.step {m w : MethodDecl} (ha : ReplacesAlike rules c T m) {i : Nat}
    {o : Option Rule} (h : HalfWoven m w i) (ho : m.choice rules c T i = .ok o) :
    HalfWoven m (w.decideAt i o) (i + 1) := by
  refine ⟨h.declared, fun j => ?_, fun j hj => ?_⟩
  · by_cases hij : i = j
    · subst hij
      have hi := h.ahead i (Nat.le_refl i)
      rw [TypeFlow.readingAt, instructions_decideAt, List.getElem?_modify_eq, hi,
        TypeFlow.readingAt]
      rcases hm : m.instructions[i]? with _ | a
      · rfl
      · rcases o with _ | r
        · rfl
        · exact congrArg some (ha i r a ho hm)
    · rw [← h.reads j, TypeFlow.readingAt, instructions_decideAt,
        List.getElem?_modify_ne _ _ hij, TypeFlow.readingAt]
  · rw [instructions_decideAt, List.getElem?_modify_ne _ _ (by omega)]
    exact h.ahead j (by omega)

lemma weaveFrom_decisions (hc : ∀ r ∈ rules, r.AsksCondition) {m : MethodDecl}
    (ha : ReplacesAlike rules c T m) {w : MethodDecl} {n i : Nat} (h : HalfWoven m w i) :
    (∀ e, (weaveFrom rules c T n i w).run.outcome = .error e →
      ∃ j, m.choice rules c T j = .error e ∧
        ∀ k, i ≤ k → k < j → ∃ o, m.choice rules c T k = .ok o) ∧
    ∀ changed, (weaveFrom rules c T n i w).run.outcome = .ok changed →
      ∀ j, i ≤ j → j < i + n → ∃ o, m.choice rules c T j = .ok o ∧
        (weaveFrom rules c T n i w).value.instructions[j]? =
          (m.instructions[j]?).map (Instruction.sentBy o) := by
  induction n generalizing i w with
  | zero => exact ⟨fun e he => (by cases he), fun _ _ j h1 h2 => (by omega)⟩
  | succ n ih =>
    have hw := h.choice_eq hc (c := c) (T := T)
    rcases ho : m.choice rules c T i with e | o
    · obtain ⟨-, hout⟩ := weaveFrom_succ_of_error (n := n) (hw.trans ho)
      rw [hout]
      refine ⟨fun e' he => ⟨i, ?_, fun k h1 h2 => (by omega)⟩, fun changed hch => (by cases hch)⟩
      cases he
      exact ho
    · obtain ⟨hval, hout⟩ := weaveFrom_succ_of_ok (n := n) (hw.trans ho)
      obtain ⟨ihe, iho⟩ := ih (h.step ha ho)
      rw [hval, hout]
      rcases hrest : (weaveFrom rules c T n (i + 1) (w.decideAt i o)).run.outcome with e | b
      · refine ⟨fun e' he => ?_, fun changed hch => (by cases hch)⟩
        cases he
        obtain ⟨j, hj, hk⟩ := ihe _ hrest
        refine ⟨j, hj, fun k h1 h2 => ?_⟩
        by_cases hik : i = k
        · exact ⟨o, hik ▸ ho⟩
        · exact hk k (by omega) h2
      · refine ⟨fun e' he => (by cases he), fun changed _ j h1 h2 => ?_⟩
        by_cases hij : i = j
        · subst hij
          refine ⟨o, ho, ?_⟩
          rw [getElem?_weaveFrom_of_lt _ (by omega), instructions_decideAt,
            List.getElem?_modify_eq, h.ahead i (Nat.le_refl i)]
          rfl
        · exact iho b hrest j (by omega) (by omega)

/-- **Decisions on the original**: when replacements read as the calls they replace, weaving fails
with the first failure of a decision on the original body, and otherwise treats every instruction as
decided on the original body. -/
theorem weave_decisions (hc : ∀ r ∈ rules, r.AsksCondition) {m : MethodDecl}
    (ha : ReplacesAlike rules c T m) :
    (∀ e, (m.weave rules c T).run.outcome = .error e → ∃ j, m.choice rules c T j = .error e ∧
      ∀ k < j, ∃ o, m.choice rules c T k = .ok o) ∧
    ∀ changed, (m.weave rules c T).run.outcome = .ok changed →
      ∀ j, ∃ o, m.choice rules c T j = .ok o ∧
        (m.weave rules c T).value.instructions[j]? =
          (m.instructions[j]?).map (Instruction.sentBy o) := by
  have hstart : HalfWoven m m 0 := ⟨rfl, fun _ => rfl, fun _ _ => rfl⟩
  obtain ⟨he, ho⟩ := weaveFrom_decisions (n := m.instructions.length) hc ha hstart
  refine ⟨fun e hout => ?_, fun changed hch j => ?_⟩
  · obtain ⟨j, hj, hk⟩ := he e hout
    exact ⟨j, hj, fun k => hk k (Nat.zero_le k)⟩
  rcases Nat.lt_or_ge j m.instructions.length with hj | hj
  · exact ho changed hch j (by omega) (by omega)
  · refine ⟨none, choice_of_length_le hj, ?_⟩
    rw [List.getElem?_eq_none hj, List.getElem?_eq_none (by rw [length_weave]; exact hj)]
    rfl

/-- Replacements that read as the calls they replace leave what is inferred as it was. -/
lemma infer_weave_of_replacesAlike (hc : ∀ r ∈ rules, r.AsksCondition) {m : MethodDecl}
    (ha : ReplacesAlike rules c T m) {changed : Bool}
    (hout : (m.weave rules c T).run.outcome = .ok changed) (h : Hierarchy) (target : String)
    (k : Nat) : (m.weave rules c T).value.infer h T target k = m.infer h T target k := by
  refine TypeFlow.infer_congr (bodiless_weave m) (fun j _ => ?_) false
  obtain ⟨d, hd, hj⟩ := (weave_decisions hc ha).2 changed hout j
  rw [TypeFlow.readingAt, hj, TypeFlow.readingAt]
  rcases hm : m.instructions[j]? with _ | a
  · rfl
  · rcases d with _ | r
    · rfl
    · exact congrArg some (ha j r a hd hm)

end Interpose.MethodDecl
