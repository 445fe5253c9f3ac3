import Interpose.Proofs.Reading
import Interpose.Weaving

/-!
What weaving does to the body of one method.

The walk decides one instruction after the other, and a step either keeps an instruction or sends a
call to the wrapper of a rule. Main statement: every instruction is kept or sent by a rule that
applies, whether the walk goes through or fails.
-/

namespace Interpose

/-! ### Rules -/

namespace Rule

/-- The rule asks a condition and nothing else. -/
def AsksCondition (r : Rule) : Prop := ∃ k : Condition, ∀ s, r.applies s = k.holds s

/-- No rule applies to a call of a replacement of one of the rules. -/
def Settled (rules : List Rule) : Prop :=
  ∀ s : CallSite, (∃ r ∈ rules, s.callee? = some r.replacement) →
    ∀ r ∈ rules, (r.applies s).outcome = .ok false

/-- An instruction and what the rules may make of it. -/
inductive Sends (rules : List Rule) : Instruction → Instruction → Prop
  | kept (a : Instruction) : Sends rules a a
  | sent {r : Rule} {s : CallSite} {callee : MethodRef} {kind : CallKind} (mem : r ∈ rules)
      (site : s.callee? = some callee) (applies : (r.applies s).outcome = .ok true) :
      Sends rules (.call callee kind) (.call r.replacement (r.callKind.getD kind))

variable {rules : List Rule} {s s' : CallSite}

lemma first?_cons_outcome (r : Rule) (rest : List Rule) (s : CallSite) :
    (first? (r :: rest) s).outcome =
      match (r.applies s).outcome with
      | .error e => .error (.rule r.name (s.method.displayName s.declaringType) e.message)
      | .ok true => .ok (some r)
      | .ok false => (first? rest s).outcome := by
  rw [first?, Traced.bind_eq]
  rcases h : (r.applies s).outcome with e | _ | _ <;> simp [Traced.mapFault, h]

lemma first?_eq_none_iff :
    (first? rules s).outcome = .ok none ↔ ∀ r ∈ rules, (r.applies s).outcome = .ok false := by
  induction rules with
  | nil => simp [first?]
  | cons r rest ih =>
    rw [first?_cons_outcome, List.forall_mem_cons]
    rcases h : (r.applies s).outcome with e | _ | _ <;> simp [ih]

lemma of_first?_eq_some {r : Rule} (h : (first? rules s).outcome = .ok (some r)) :
    r ∈ rules ∧ (r.applies s).outcome = .ok true := by
  induction rules with
  | nil => simp [first?] at h
  | cons q rest ih =>
    rw [first?_cons_outcome] at h
    rcases hq : (q.applies s).outcome with e | _ | _ <;> simp only [hq] at h
    · cases h
    · exact (ih h).imp_left (List.mem_cons_of_mem _)
    · cases h
      exact ⟨List.mem_cons_self, hq⟩

lemma of_first?_eq_error {e : Fault} (h : (first? rules s).outcome = .error e) :
    ∃ r ∈ rules, ∃ cause, (r.applies s).outcome = .error cause ∧
      e = .rule r.name (s.method.displayName s.declaringType) cause.message := by
  induction rules with
  | nil => simp [first?] at h
  | cons q rest ih =>
    rw [first?_cons_outcome] at h
    rcases hq : (q.applies s).outcome with cause | _ | _ <;> simp only [hq] at h
    · cases h
      exact ⟨q, List.mem_cons_self, cause, hq, rfl⟩
    · obtain ⟨r, hr, cause, hcause⟩ := ih h
      exact ⟨r, List.mem_cons_of_mem _ hr, cause, hcause⟩
    · cases h

/-- Rules that ask conditions decide alike at sites that are alike. -/
lemma first?_congr (hc : ∀ r ∈ rules, r.AsksCondition) (h : s.Alike s') :
    (first? rules s).outcome = (first? rules s').outcome := by
  induction rules with
  | nil => rfl
  | cons r rest ih =>
    obtain ⟨hr, hrest⟩ := List.forall_mem_cons.1 hc
    obtain ⟨k, hk⟩ := hr
    have hm : s.method.displayName s.declaringType = s'.method.displayName s'.declaringType := by
      rw [h.owner, MethodDecl.displayName_congr h.method]
    rw [first?_cons_outcome, first?_cons_outcome, hk, hk, Condition.holds_congr h, ih hrest, hm]

end Rule

/-! ### What was woven, after a step -/

namespace Woven

variable {α β : Type}

@[simp] lemma value_unchanged (a : α) : (unchanged a).value = a := rfl
@[simp] lemma outcome_unchanged (a : α) : (unchanged a).run.outcome = .ok false := rfl
@[simp] lemma value_after (log : Log) (changed : Bool) (w : Woven α) :
    (w.after log changed).value = w.value := rfl
@[simp] lemma outcome_after (log : Log) (changed : Bool) (w : Woven α) :
    (w.after log changed).run.outcome = w.run.outcome.map (changed || ·) := by
  rcases h : w.run.outcome with e | b <;> simp [after, h, Except.map]
@[simp] lemma value_map (f : α → β) (w : Woven α) : (w.map f).value = f w.value := rfl
@[simp] lemma outcome_map (f : α → β) (w : Woven α) : (w.map f).run.outcome = w.run.outcome := rfl

end Woven

/-! ### One step of the walk -/

namespace MethodDecl

/-- What the rules decide on the instruction at an index: a failure, a rule, or to keep it. -/
def choice (rules : List Rule) (c : WeaveContext) (T : String) (m : MethodDecl) (i : Nat) :
    Except Fault (Option Rule) :=
  if (m.instructions[i]?).any Instruction.isCall then (Rule.first? rules ⟨m, T, i, c⟩).outcome
  else .ok none

end MethodDecl

/-- What an instruction becomes by a decision. -/
def Instruction.sentBy : Option Rule → Instruction → Instruction
  | none, a => a
  | some r, a => r.redirect a

lemma Instruction.exists_of_any_isCall {x : Option Instruction}
    (h : x.any Instruction.isCall = true) : ∃ callee kind, x = some (.call callee kind) := by
  rcases x with _ | ⟨_ | _ | ⟨callee, kind⟩ | _⟩
  · cases h
  · cases h
  · cases h
  · exact ⟨callee, kind, rfl⟩
  · cases h

@[simp] lemma Instruction.sentBy_none : Instruction.sentBy none = id := rfl

namespace MethodDecl

variable {rules : List Rule} {c : WeaveContext} {T : String}

/-- The method with the instruction at an index treated as decided. -/
def decideAt (m : MethodDecl) (i : Nat) (o : Option Rule) : MethodDecl :=
  { m with body := m.body.map (·.modify i (Instruction.sentBy o)) }

@[simp] lemma bodiless_decideAt (m : MethodDecl) (i : Nat) (o : Option Rule) :
    (m.decideAt i o).bodiless = m.bodiless := rfl

lemma instructions_decideAt (m : MethodDecl) (i : Nat) (o : Option Rule) :
    (m.decideAt i o).instructions = m.instructions.modify i (Instruction.sentBy o) := by
  rcases h : m.body with _ | b <;> simp [decideAt, instructions, h]

lemma decideAt_none (m : MethodDecl) (i : Nat) : m.decideAt i none = m := by
  obtain ⟨_, _, _, _, _, _, _ | b⟩ := m <;> simp [decideAt]

lemma decideAt_some (m : MethodDecl) (i : Nat) (r : Rule) :
    m.decideAt i (some r) = m.redirectAt i r := rfl

/-- The step ends the walk if the decision fails. -/
lemma weaveFrom_succ_of_error {m : MethodDecl} {n i : Nat} {e : Fault}
    (h : m.choice rules c T i = .error e) :
    (weaveFrom rules c T (n + 1) i m).value = m ∧
      (weaveFrom rules c T (n + 1) i m).run.outcome = .error e := by
  unfold choice at h
  rw [weaveFrom]
  split at h
  · next hcall => simp [hcall, h]
  · cases h

/-- The step otherwise treats one instruction as decided and goes on behind it. -/
lemma weaveFrom_succ_of_ok {m : MethodDecl} {n i : Nat} {o : Option Rule}
    (h : m.choice rules c T i = .ok o) :
    (weaveFrom rules c T (n + 1) i m).value =
        (weaveFrom rules c T n (i + 1) (m.decideAt i o)).value ∧
      (weaveFrom rules c T (n + 1) i m).run.outcome =
        (weaveFrom rules c T n (i + 1) (m.decideAt i o)).run.outcome.map (o.isSome || ·) := by
  unfold choice at h
  rw [weaveFrom]
  split at h
  · next hcall => rcases o with _ | r <;> simp [hcall, h, decideAt_none, decideAt_some]
  · next hcall =>
    cases h
    rw [decideAt_none, if_neg hcall]
    refine ⟨rfl, ?_⟩
    rcases (weaveFrom rules c T n (i + 1) m).run.outcome with e | changed <;> rfl

/-! ### Every instruction is kept or sent -/

lemma of_choice_eq_some {m : MethodDecl} {i : Nat} {r : Rule}
    (h : m.choice rules c T i = .ok (some r)) :
    ∃ callee kind, m.instructions[i]? = some (.call callee kind) ∧ r ∈ rules ∧
      (r.applies ⟨m, T, i, c⟩).outcome = .ok true := by
  unfold choice at h
  split at h
  · next hcall =>
    obtain ⟨callee, kind, hi⟩ := Instruction.exists_of_any_isCall hcall
    exact ⟨callee, kind, hi, Rule.of_first?_eq_some h⟩
  · cases h

lemma bodiless_weaveFrom (m : MethodDecl) (n i : Nat) :
    (weaveFrom rules c T n i m).value.bodiless = m.bodiless := by
  induction n generalizing i m with
  | zero => rfl
  | succ n ih =>
    rcases h : m.choice rules c T i with e | o
    · rw [(weaveFrom_succ_of_error h).1]
    · rw [(weaveFrom_succ_of_ok h).1, ih, bodiless_decideAt]

lemma length_weaveFrom (m : MethodDecl) (n i : Nat) :
    (weaveFrom rules c T n i m).value.instructions.length = m.instructions.length := by
  induction n generalizing i m with
  | zero => rfl
  | succ n ih =>
    rcases h : m.choice rules c T i with e | o
    · rw [(weaveFrom_succ_of_error h).1]
    · rw [(weaveFrom_succ_of_ok h).1, ih, instructions_decideAt, List.length_modify]

/-- The walk does not come back to what lies behind it. -/
lemma getElem?_weaveFrom_of_lt (m : MethodDecl) {n i j : Nat} (hj : j < i) :
    (weaveFrom rules c T n i m).value.instructions[j]? = m.instructions[j]? := by
  induction n generalizing i m with
  | zero => rfl
  | succ n ih =>
    rcases h : m.choice rules c T i with e | o
    · rw [(weaveFrom_succ_of_error h).1]
    · rw [(weaveFrom_succ_of_ok h).1, ih _ (by omega), instructions_decideAt,
        List.getElem?_modify_ne _ _ (by omega)]

lemma sends_refl (o : Option Instruction) : Option.Rel (Rule.Sends rules) o o := by
  rcases o with _ | a
  · exact .none
  · exact .some (.kept a)

lemma weaveFrom_sends (m : MethodDecl) (n i j : Nat) :
    Option.Rel (Rule.Sends rules) m.instructions[j]?
      (weaveFrom rules c T n i m).value.instructions[j]? := by
  induction n generalizing i m with
  | zero => exact sends_refl _
  | succ n ih =>
    rcases h : m.choice rules c T i with e | o
    · rw [(weaveFrom_succ_of_error h).1]
      exact sends_refl _
    · rw [(weaveFrom_succ_of_ok h).1]
      by_cases hij : i = j
      · -- the instruction that this step decides; later steps leave it alone
        subst hij
        rw [getElem?_weaveFrom_of_lt _ (by omega), instructions_decideAt, List.getElem?_modify_eq]
        rcases o with _ | r
        · simpa using sends_refl m.instructions[i]?
        · obtain ⟨callee, kind, hi, hr, happ⟩ := of_choice_eq_some h
          rw [hi]
          exact .some (.sent hr (by simp [CallSite.callee?, hi, Instruction.callee?]) happ)
      · have hj : (m.decideAt i o).instructions[j]? = m.instructions[j]? := by
          rw [instructions_decideAt, List.getElem?_modify_ne _ _ hij]
        rw [← hj]
        exact ih _ _

/-- **Kept or sent**: weaving keeps an instruction or sends a call by a rule that applies. -/
theorem weave_sends (m : MethodDecl) (j : Nat) :
    Option.Rel (Rule.Sends rules) m.instructions[j]?
      (m.weave rules c T).value.instructions[j]? :=
  weaveFrom_sends m _ 0 j

lemma length_weave (m : MethodDecl) :
    (m.weave rules c T).value.instructions.length = m.instructions.length :=
  length_weaveFrom m _ 0

lemma bodiless_weave (m : MethodDecl) : (m.weave rules c T).value.bodiless = m.bodiless :=
  bodiless_weaveFrom m _ 0

/-! ### What a decision depends on -/

/-- Decisions depend on the declaration, the instruction and what is read before it. -/
lemma choice_congr (hc : ∀ r ∈ rules, r.AsksCondition) {m m' : MethodDecl} {j : Nat}
    (hm : m.bodiless = m'.bodiless) (hj : m.instructions[j]? = m'.instructions[j]?)
    (hr : ∀ k < j, TypeFlow.readingAt m.instructions k = TypeFlow.readingAt m'.instructions k) :
    m.choice rules c T j = m'.choice rules c T j := by
  have halike : CallSite.Alike ⟨m, T, j, c⟩ ⟨m', T, j, c⟩ :=
    ⟨hm, rfl, rfl, rfl, by simp [CallSite.callee?, hj], hr⟩
  rw [choice, choice, hj, Rule.first?_congr hc halike]

/-- An instruction is decided on a body that is woven up to it and not beyond. -/
lemma exists_choice_of_weaveFrom {m : MethodDecl} {n i j : Nat} {changed : Bool}
    (hout : (weaveFrom rules c T n i m).run.outcome = .ok changed) (h1 : i ≤ j) (h2 : j < i + n) :
    ∃ (b : MethodDecl) (d : Option Rule), b.bodiless = m.bodiless ∧
      (∀ k < j, b.instructions[k]? = (weaveFrom rules c T n i m).value.instructions[k]?) ∧
      b.instructions[j]? = m.instructions[j]? ∧ b.choice rules c T j = .ok d ∧
      (weaveFrom rules c T n i m).value.instructions[j]? =
        (m.instructions[j]?).map (Instruction.sentBy d) := by
  induction n generalizing i m changed with
  | zero => omega
  | succ n ih =>
    rcases ho : m.choice rules c T i with e | o
    · rw [(weaveFrom_succ_of_error ho).2] at hout
      cases hout
    · obtain ⟨hvalue, hrest⟩ := weaveFrom_succ_of_ok (n := n) ho
      rw [hvalue]
      rw [hrest] at hout
      by_cases hij : i = j
      · subst hij
        refine ⟨m, o, rfl, fun k hk => ?_, rfl, ho, ?_⟩
        · rw [getElem?_weaveFrom_of_lt _ (by omega), instructions_decideAt,
            List.getElem?_modify_ne _ _ (by omega)]
        · rw [getElem?_weaveFrom_of_lt _ (by omega), instructions_decideAt,
            List.getElem?_modify_eq]
          rfl
      · have hj : (m.decideAt i o).instructions[j]? = m.instructions[j]? := by
          rw [instructions_decideAt, List.getElem?_modify_ne _ _ hij]
        rcases hb : (weaveFrom rules c T n (i + 1) (m.decideAt i o)).run.outcome with e | changed
        · rw [hb] at hout
          cases hout
        · rw [← hj]
          exact ih hb (by omega) (by omega)

/-- Behind the end there is nothing to decide. -/
lemma choice_of_length_le {m : MethodDecl} {j : Nat} (h : m.instructions.length ≤ j) :
    m.choice rules c T j = .ok none := by
  simp [choice, List.getElem?_eq_none h]

end MethodDecl

end Interpose
