import Interpose.Proofs.Address
import Interpose.Proofs.CallsSent
import Interpose.Proofs.ScopedWeaving

/-!
Where a weaving stops.

A weaving that fails does so at a call, asked of a rule in the body as woven so far. What comes before
may have been sent; from that call on the method is as it was, and so are the methods and the types
that come behind, where types come in the order of their index paths.
-/

namespace Interpose

variable {rules : List Rule} {c : WeaveContext} {e : Fault}

/-! ### In a method -/

/-- The weaving of a method, which has come to the second one, fails at a call: a rule does on the
body as woven so far, and from the call on the body is as it was. -/
structure MethodDecl.StopsAt (rules : List Rule) (c : WeaveContext) (e : Fault) (T : String)
    (m m' : MethodDecl) (i : Nat) : Prop where
  atCall : (m'.instructions[i]?).any Instruction.isCall = true
  raised : ∃ r ∈ rules, ∃ cause, (r.applies ⟨m', T, i, c⟩).outcome = .error cause ∧
    e = .rule r.name (m'.displayName T) cause.message
  later : ∀ k, i ≤ k → m'.instructions[k]? = m.instructions[k]?

namespace MethodDecl

variable {T : String}

lemma stopsAt_self {m : MethodDecl} {i : Nat} (h : m.choice rules c T i = .error e) :
    StopsAt rules c e T m m i := by
  unfold choice at h
  split at h
  · next hcall => exact ⟨hcall, Rule.of_first?_eq_error h, fun _ _ => rfl⟩
  · cases h

lemma weaveFrom_stopsAt {m : MethodDecl} {n i : Nat}
    (h : (weaveFrom rules c T n i m).run.outcome = .error e) :
    ∃ j, i ≤ j ∧ StopsAt rules c e T m (weaveFrom rules c T n i m).value j := by
  induction n generalizing i m with
  | zero => cases h
  | succ n ih =>
    rcases ho : m.choice rules c T i with e' | o
    · obtain ⟨hvalue, hout⟩ := weaveFrom_succ_of_error (n := n) ho
      rw [hout] at h
      cases h
      rw [hvalue]
      exact ⟨i, Nat.le_refl i, stopsAt_self ho⟩
    · obtain ⟨hvalue, hout⟩ := weaveFrom_succ_of_ok (n := n) ho
      have hrest : (weaveFrom rules c T n (i + 1) (m.decideAt i o)).run.outcome = .error e := by
        rw [hout] at h
        rcases hb : (weaveFrom rules c T n (i + 1) (m.decideAt i o)).run.outcome with e' | b <;>
          rw [hb] at h <;> cases h
        rfl
      obtain ⟨j, hj, hstop⟩ := ih hrest
      rw [hvalue]
      refine ⟨j, by omega, hstop.atCall, hstop.raised, fun k hk => ?_⟩
      rw [hstop.later k hk, instructions_decideAt, List.getElem?_modify_ne _ _ (by omega)]

end MethodDecl

/-! ### In types -/

namespace TypeDecl

/-- The weaving of the methods of a type fails in the one at an index. -/
structure StopsIn (rules : List Rule) (c : WeaveContext) (e : Fault) (T : String)
    (ms ms' : List MethodDecl) (j i : Nat) : Prop where
  inMethod : ∃ m m', ms[j]? = some m ∧ ms'[j]? = some m' ∧ m.StopsAt rules c e T m' i
  later : ∀ k, j < k → ms'[k]? = ms[k]?

lemma weaveMethods_stopsIn {owner : TypeDecl} {ms : List MethodDecl}
    (h : (weaveMethods rules c owner ms).run.outcome = .error e) :
    ∃ j i, StopsIn rules c e owner.fullName ms (weaveMethods rules c owner ms).value j i := by
  induction ms with
  | nil => cases h
  | cons m ms ih =>
    have hlater (m' : MethodDecl) (hms : (weaveMethods rules c owner ms).run.outcome = .error e) :
        ∃ j i, StopsIn rules c e owner.fullName (m :: ms)
          (m' :: (weaveMethods rules c owner ms).value) j i := by
      obtain ⟨j, i, hin, hrest⟩ := ih hms
      refine ⟨j + 1, i, hin, fun k hk => ?_⟩
      obtain ⟨k, rfl⟩ : ∃ k', k = k' + 1 := ⟨k - 1, by omega⟩
      exact hrest k (by omega)
    rw [weaveMethods_cons] at h ⊢
    split at h
    · next hscope =>
      rw [if_pos hscope]
      rcases Woven.outcome_followed (m.weave rules c owner.fullName) (· :: ms)
          (fun m' => (weaveMethods rules c owner ms).map (m' :: ·)) with
        ⟨e', hm, hvalue, hout⟩ | ⟨changed, -, hvalue, hout⟩
      · rw [hout] at h
        cases h
        obtain ⟨i, -, hstop⟩ := MethodDecl.weaveFrom_stopsAt hm
        rw [hvalue]
        refine ⟨0, i, ⟨m, _, rfl, rfl, hstop⟩, fun k hk => ?_⟩
        obtain ⟨k, rfl⟩ : ∃ k', k = k' + 1 := ⟨k - 1, by omega⟩
        rfl
      · rw [hvalue]
        exact hlater _ ((hout e).1 h)
    · next hscope =>
      rw [if_neg hscope]
      exact hlater m h

/-- The weaving of types fails in the one at an index path, where the types before and after are given
by their paths. -/
structure StopsAt (rules : List Rule) (c : WeaveContext) (e : Fault)
    (before after : List Nat → Option TypeDecl) (path : List Nat) (j i : Nat) : Prop where
  inType : ∃ t t', before path = some t ∧ after path = some t' ∧
    StopsIn rules c e t.fullName t.methods t'.methods j i
  later : ∀ q, path < q → after q = before q

/-- The type at an index path into a forest. -/
def inForest? (ts : List TypeDecl) : List Nat → Option TypeDecl
  | [] => none
  | k :: path => (ts[k]?).bind (·.nestedAt? path)

variable {t t' : TypeDecl} {ts ts' : List TypeDecl} {path : List Nat} {j i : Nat}

/-- A failure in the first tree of a forest, whose other trees are left. -/
lemma StopsAt.head (h : StopsAt rules c e t.nestedAt? t'.nestedAt? path j i) :
    StopsAt rules c e (inForest? (t :: ts)) (inForest? (t' :: ts)) (0 :: path) j i where
  inType := h.inType
  later q hq := by
    rcases q with _ | ⟨_ | k, q⟩
    · cases hq
    · have hpath : path < q := by simpa using hq
      exact h.later q hpath
    · rfl

/-- A failure in one of the other trees of a forest. -/
lemma StopsAt.tail {k : Nat}
    (h : StopsAt rules c e (inForest? ts) (inForest? ts') (k :: path) j i) (t t' : TypeDecl) :
    StopsAt rules c e (inForest? (t :: ts)) (inForest? (t' :: ts')) ((k + 1) :: path) j i where
  inType := h.inType
  later q hq := by
    rcases q with _ | ⟨_ | k', q⟩
    · cases hq
    · rcases List.cons_lt_cons_iff.1 hq with hk | ⟨hk, -⟩ <;> omega
    · have hpath : k :: path < k' :: q := by
        simpa [List.cons_lt_cons_iff] using hq
      exact h.later _ hpath

/-- A failure in what is nested in a tree. -/
lemma StopsAt.nested {k : Nat} {s s' : TypeDecl}
    (h : StopsAt rules c e (inForest? s.nestedTypes) (inForest? s'.nestedTypes) (k :: path) j i) :
    StopsAt rules c e s.nestedAt? s'.nestedAt? (k :: path) j i where
  inType := h.inType
  later q hq := by
    rcases q with _ | ⟨k', q⟩
    · cases hq
    · exact h.later _ hq

/-- The path into a forest is not empty. -/
lemma StopsAt.exists_cons (h : StopsAt rules c e (inForest? ts) (inForest? ts') path j i) :
    ∃ k path', path = k :: path' := by
  obtain ⟨t, -, ht, -⟩ := h.inType
  rcases path with _ | ⟨k, path⟩
  · cases ht
  · exact ⟨k, path, rfl⟩

lemma weaveTree_stopsAt {parent : Option TypeDecl}
    (hn : ∀ parent, (weaveForest rules c parent t.nestedTypes).run.outcome = .error e →
      ∃ path j i, StopsAt rules c e (inForest? t.nestedTypes)
        (inForest? (weaveForest rules c parent t.nestedTypes).value) path j i)
    (h : (weaveTree rules c parent t).run.outcome = .error e) :
    ∃ path j i, StopsAt rules c e t.nestedAt? (weaveTree rules c parent t).value.nestedAt?
      path j i := by
  rw [weaveTree_eq] at h ⊢
  split at h
  · next hscope =>
    rw [if_pos hscope, Woven.after_followed, Woven.value_after]
    rw [Woven.after_followed, Woven.failure_after] at h
    rcases Woven.outcome_followed (weaveMethods rules c t t.methods) (withMethods · t)
        (fun ms => (weaveForest rules c (some t) t.nestedTypes).map
          (withNested · (t.withMethods ms))) with
      ⟨e', hm, hvalue, hout⟩ | ⟨changed, -, hvalue, hout⟩
    · rw [hout] at h
      cases h
      obtain ⟨j, i, hstop⟩ := weaveMethods_stopsIn hm
      rw [hvalue]
      refine ⟨[], j, i, ⟨t, _, rfl, rfl, hstop⟩, fun q hq => ?_⟩
      rcases q with _ | ⟨k, q⟩
      · cases hq
      · rfl
    · obtain ⟨path, j, i, hstop⟩ := hn (some t) ((hout e).1 h)
      obtain ⟨k, path, rfl⟩ := hstop.exists_cons
      rw [hvalue]
      exact ⟨k :: path, j, i, hstop.nested⟩
  · cases h

lemma weaveForest_stopsAt (ts : List TypeDecl) : ∀ parent,
    (weaveForest rules c parent ts).run.outcome = .error e →
      ∃ path j i, StopsAt rules c e (inForest? ts)
        (inForest? (weaveForest rules c parent ts).value) path j i := by
  induction ts using forest_induction with
  | nil => exact fun _ h => nomatch h
  | cons t ts ihn iht =>
    intro parent h
    rw [weaveForest] at h ⊢
    rcases Woven.outcome_followed (weaveTree rules c parent t) (· :: ts)
        (fun t' => (weaveForest rules c parent ts).map (t' :: ·)) with
      ⟨e', hm, hvalue, hout⟩ | ⟨changed, -, hvalue, hout⟩
    · rw [hout] at h
      cases h
      obtain ⟨path, j, i, hstop⟩ := weaveTree_stopsAt ihn hm
      rw [hvalue]
      exact ⟨0 :: path, j, i, hstop.head⟩
    · obtain ⟨path, j, i, hstop⟩ := iht parent ((hout e).1 h)
      obtain ⟨k, path, rfl⟩ := hstop.exists_cons
      rw [hvalue]
      exact ⟨(k + 1) :: path, j, i, hstop.tail t _⟩

end TypeDecl

namespace CompiledUnit

lemma typeAt?_eq_inForest? (u : CompiledUnit) : u.typeAt? = TypeDecl.inForest? u.types := by
  funext path
  cases path <;> rfl

/-- **Frame**: whether it goes through or fails, a weaving changes callees and kinds of calls only,
as the rules say, so that a unit declares what it did. Where it reports no change there is none. Where
it fails, it does so at a call, and from there on all is as it was. With the rules of the network a
change is reported exactly if the weaving goes through and there is one. -/
theorem weave_frame :
    (∀ (rules : List Rule) (c : WeaveContext) (u : CompiledUnit),
      u.CallsSent rules (u.weave rules c).value ∧
      (∀ h : Hierarchy, h.addUnit (u.weave rules c).value = h.addUnit u) ∧
      ((u.weave rules c).run.outcome = .ok false → (u.weave rules c).value = u) ∧
      ∀ e, (u.weave rules c).run.outcome = .error e →
        ∃ path j i, TypeDecl.StopsAt rules c e u.typeAt? (u.weave rules c).value.typeAt? path j i) ∧
    ∀ (o : CaptureOptions) (c : WeaveContext) (u : CompiledUnit),
      (u.weave (NetworkCapture.rules o) c).run.outcome = .ok true ↔
        (∃ changed, (u.weave (NetworkCapture.rules o) c).run.outcome = .ok changed) ∧
          (u.weave (NetworkCapture.rules o) c).value ≠ u := by
  refine ⟨fun rules c u => ⟨u.callsSent_weave, fun h => ?_, u.reports_weave.1, fun e he => ?_⟩,
    fun o c u => ⟨fun h => ?_, ?_⟩⟩
  · exact h.addUnit_congr u.bodiless_weave
  · rw [weave_eq_weaveForest] at he
    rw [typeAt?_eq_inForest?, typeAt?_eq_inForest?, weave_eq_weaveForest]
    exact TypeDecl.weaveForest_stopsAt u.types none he
  · exact ⟨⟨true, h⟩, u.reports_weave.2 (NetworkCapture.settled_rules o) h⟩
  · rintro ⟨⟨_ | _, h⟩, hne⟩
    · exact absurd (u.reports_weave.1 h) hne
    · exact h

/-- Makes a client, and disposes of what is in a local that the method does not have. -/
def halfWoven : CompiledUnit :=
  { CompiledUnit.ofName "Game" with
    types := [{ TypeDecl.ofName "Game" "Net" with
      methods := [{ MethodDecl.ofName "Open" voidType with
        body := some
          [.call (NetworkCapture.clientConstructor []) .construct, .load (.local 0),
            .call NetworkCapture.interfaceDisposeMethod .virtual] }] }] }

lemma exists_fault_halfWoven : ∃ e,
    (halfWoven.weave (NetworkCapture.rules .default) ⟨.empty, false⟩).run.outcome = .error e := by
  have hfails : (halfWoven.weave (NetworkCapture.rules .default)
      ⟨.empty, false⟩).run.outcome.isOk = false := by
    rw [weave_eq_weaveForest]
    decide +kernel
  rcases h : (halfWoven.weave (NetworkCapture.rules .default) ⟨.empty, false⟩).run.outcome
    with e | changed
  · exact ⟨e, rfl⟩
  · rw [h] at hfails
    cases hfails

lemma weave_halfWoven_ne :
    (halfWoven.weave (NetworkCapture.rules .default) ⟨.empty, false⟩).value ≠ halfWoven := by
  intro h
  have hcall := congrArg (·.instructionAt? ⟨[0], 0, 0⟩) h
  rw [weave_eq_weaveForest] at hcall
  revert hcall
  decide +kernel

/-- The client of `halfWoven` is sent before the disposal fails. -/
theorem weave_frame_halfWoven :
    halfWoven.CallsSent (NetworkCapture.rules .default)
      (halfWoven.weave (NetworkCapture.rules .default) ⟨.empty, false⟩).value ∧
    (∃ e path j i, TypeDecl.StopsAt (NetworkCapture.rules .default) ⟨.empty, false⟩ e
      halfWoven.typeAt?
      (halfWoven.weave (NetworkCapture.rules .default) ⟨.empty, false⟩).value.typeAt? path j i) ∧
    (halfWoven.weave (NetworkCapture.rules .default) ⟨.empty, false⟩).value ≠ halfWoven ∧
    (halfWoven.weave (NetworkCapture.rules .default) ⟨.empty, false⟩).run.outcome ≠ .ok true := by
  obtain ⟨e, he⟩ := exists_fault_halfWoven
  obtain ⟨hsent, -, -, hstops⟩ :=
    weave_frame.1 (NetworkCapture.rules .default) ⟨.empty, false⟩ halfWoven
  refine ⟨hsent, ⟨e, hstops e he⟩, weave_halfWoven_ne, fun htrue => ?_⟩
  obtain ⟨⟨changed, hok⟩, -⟩ := (weave_frame.2 .default ⟨.empty, false⟩ halfWoven).1 htrue
  rw [he] at hok
  cases hok

/-- A unit can differ from what it was although no change is reported: then its weaving has failed. -/
theorem reported_change_halfWoven :
    ¬∀ (o : CaptureOptions) (c : WeaveContext) (u : CompiledUnit),
      (u.weave (NetworkCapture.rules o) c).run.outcome = .ok true ↔
        (u.weave (NetworkCapture.rules o) c).value ≠ u := by
  intro h
  obtain ⟨e, he⟩ := exists_fault_halfWoven
  have htrue := (h .default ⟨.empty, false⟩ halfWoven).2 weave_halfWoven_ne
  rw [he] at htrue
  cases htrue

end CompiledUnit

end Interpose
