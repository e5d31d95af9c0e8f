import ClauseLearning.Proofs.Moments

/-!
# Decision variables are not lost

Variables leave the heap when they are decided on or when the search for a candidate passes over them. They come back
when they become unassigned or when decisions on them are allowed again.

* `Solver.IsCandidate` : the variables on which decisions may be made;
* `Solver.KeepsCandidates` : the heap is sound, and all unassigned candidates wait in it. The invariant implies it
  (`Solver.Inv.keepsCandidates`);
* `Solver.Inv.makeDecision_eq_false_iff` : a decision is made just if an unassigned candidate is left;
* `Solver.Action`, `Interleaved` : what changes values, the heap or the candidates, and the states that any sequence of
  such changes leads to;
* `candidates_throughout` : no candidate is lost in any of these states.
-/

namespace ClauseLearning

/-- Each variable has one position, so it is not in the heap twice. -/
theorem DecisionHeap.Valid.nodup {h : DecisionHeap} {n : Nat} (hv : h.Valid n) : h.heap.toList.Nodup := by
  rw [List.nodup_iff_injective_get]
  intro i j hij
  have hpos (k : Fin h.heap.toList.length) : h.position? (h.heap.toList.get k) = some k.val := by
    rw [hv.position_iff, at?, ← Array.getElem?_toList]
    exact List.getElem?_eq_getElem k.isLt
  exact Fin.ext (Option.some.inj ((hpos i).symm.trans (hij ▸ hpos j)))

namespace Solver

variable {s t : Solver} {v : Var}

/-! ## Candidates -/

/-- A variable on which decisions may be made. -/
def IsCandidate (s : Solver) (v : Var) : Prop :=
  v.index < s.varCount ∧ (infoOf s.vars v).decision = true ∧ s.hasEliminated v = false

/-- The heap and its positions are inverse to each other, just the candidates are enabled, and those that are
unassigned wait in the heap. -/
structure KeepsCandidates (s : Solver) : Prop where
  position_iff {v : Var} {q : Nat} : s.heap.position? v = some q ↔ s.heap.heap[q]? = some v
  nodup : s.heap.heap.toList.Nodup
  isEnabled_iff {v : Var} : s.heap.isEnabled v = true ↔ s.IsCandidate v
  mem {v : Var} : s.heap.isEnabled v = true → ¬ s.prop.trail.isAssigned v → v ∈ s.heap.heap

theorem Inv.isEnabled_iff (h : s.Inv) : s.heap.isEnabled v = true ↔ s.IsCandidate v := by
  constructor
  · intro he
    have hx := h.candidates.valid.index_lt_of_isEnabled he
    rw [h.candidates.enabled hx, Bool.and_eq_true, Bool.not_eq_true'] at he
    exact ⟨hx, he⟩
  · rintro ⟨hx, hd, he⟩
    rw [h.candidates.enabled hx, hd, show (infoOf s.vars v).eliminated = false from he]
    rfl

theorem Inv.keepsCandidates (h : s.Inv) : s.KeepsCandidates where
  position_iff := h.candidates.valid.position_iff
  nodup := h.candidates.valid.nodup
  isEnabled_iff := h.isEnabled_iff
  mem he hu := by
    obtain ⟨q, hq⟩ := h.candidates.waits he hu
    exact Array.mem_of_getElem? (h.candidates.valid.position_iff.1 hq)

theorem makeDecision_fst (s : Solver) :
    s.makeDecision.1 = (s.heap.find? fun v => !s.prop.trail.isAssigned v).1.isSome := by
  rw [makeDecision]
  generalize s.heap.find? _ = out
  obtain ⟨_ | v, heap⟩ := out <;> rfl

/-- No decision is made just if all candidates are assigned. -/
theorem Inv.makeDecision_eq_false_iff (h : s.Inv) :
    s.makeDecision.1 = false ↔ ∀ v, s.IsCandidate v → s.prop.trail.isAssigned v := by
  have hf := DecisionHeap.find?_found h.candidates.valid fun v => !s.prop.trail.isAssigned v
  rw [makeDecision_fst, Option.isSome_eq_false_iff, Option.isNone_iff_eq_none]
  constructor
  · intro hn v hv
    have he := h.isEnabled_iff.2 hv
    by_contra hu
    have hbad := hf.waits_none hn (h.candidates.waits he hu) he
    simp [hu] at hbad
  · intro hall
    cases hfound : (s.heap.find? fun v => !s.prop.trail.isAssigned v).1 with
    | none => rfl
    | some v =>
      obtain ⟨-, he, hgood⟩ := hf.found_good hfound
      have ha := hall v (h.isEnabled_iff.1 he)
      simp [ha] at hgood

/-! ## Interleaved changes -/

/-- What changes values, the heap or the candidates: calls that allocate variables, allow decisions on them or add
clauses, and the parts of search and simplification. Decisions are made after propagation, and so facts are applied. -/
inductive Action (s : Solver) : Solver → Prop
  | newVar (polarity : Option Bool) (decision : Bool) : Action s (s.newVar polarity decision).2
  | setDecision (v : Var) (decision : Bool) : Action s (s.setDecision v decision).2
  | configure (u : ConfigUpdate) : Action s (s.configure u).2
  | addClause (ls : List Lit) : Action s (s.addClause ls).2
  | propagate : Action s s.propagate.2
  | tidy : s.prop.watches.enabled = true → s.prop.Complete → Action s s.tidyOnLevelZero
  | decide : s.prop.watches.enabled = true → s.prop.Complete → Action s s.makeDecision.2
  | learn {r : ClauseRef} : s.prop.watches.enabled = true → s.prop.Conflict r → Action s (s.learn r)
  | backtrack (m : Nat) : Action s (s.backtrack m)
  | restart : Action s s.restartIfDue
  | reduce : Action s s.reduceIfDue
  | simplify (eliminate : Bool) : Action s (s.rewind.simplifyFormula eliminate)

theorem Action.inv (ha : s.Action t) (h : s.Inv) : t.Inv := by
  cases ha with
  | newVar polarity decision => exact (allocate_called h _ rfl).1.inv
  | setDecision v decision => exact (setDecision_called h v decision).inv
  | configure u => exact (configure_called h u).inv
  | addClause ls =>
    cases hok : s.addClause ls with
    | mk answer t =>
      cases answer with
      | error e => exact addClause_error hok ▸ h
      | ok b => exact (addClause_ok h hok).2.1.inv
  | propagate => exact (propagate_searched h).1.inv
  | tidy he hc => exact (tidyOnLevelZero_spec h he hc).1.inv
  | decide he hc =>
    cases hd : s.makeDecision with
    | mk found t =>
      cases found with
      | false => exact (makeDecision_false h hd).1.inv
      | true => exact (makeDecision_true h he hc hd).1.inv
  | learn he hc => exact (learn_spec h he hc).searched.inv
  | backtrack m => exact (backtrack_searched h m).inv
  | restart => exact (restartIfDue_spec h).1.inv
  | reduce => exact (reduceIfDue_bumped h).1.searched.inv
  | simplify eliminate =>
    exact (simplifyFormula_spec (rewind_searched h).inv (currentLevel_rewind s) eliminate).1

end Solver

/-- The states that any sequence of actions leads to from a moment of a run. -/
inductive Interleaved (counting : Counting) : Solver → Prop
  | moment {s : Solver} : Moment counting s → Interleaved counting s
  | action {s t : Solver} : Interleaved counting s → s.Action t → Interleaved counting t

variable {counting : Counting} {s : Solver}

theorem Interleaved.inv (h : Interleaved counting s) : s.Inv := by
  induction h with
  | moment h => exact h.inv
  | action _ ha ih => exact ha.inv ih

/-- **No decision variable is lost.** However decisions, conflicts, restarts, calls and simplification follow each
other: heap and positions are inverse to each other, a variable is enabled just if decisions on it are allowed and it is
not eliminated, and all enabled variables that are unassigned wait in the heap. So a decision fails just if all those
variables are assigned. -/
theorem candidates_throughout (h : Interleaved counting s) :
    s.KeepsCandidates ∧ (s.makeDecision.1 = false ↔ ∀ v, s.IsCandidate v → s.prop.trail.isAssigned v) :=
  ⟨h.inv.keepsCandidates, h.inv.makeDecision_eq_false_iff⟩

/-- Decisions on a variable are allowed while it is assigned. It comes back to the heap when the search is undone. -/
theorem candidates_throughout_equivalence : ∃ s, Interleaved .words s ∧ s.KeepsCandidates ∧ s.IsCandidate ⟨0⟩ ∧
    ⟨0⟩ ∈ s.heap.heap ∧ s.makeDecision.1 = true := by
  have hr := reachable_equivalence.runAll [.solve, .setDecision ⟨0⟩ true]
  have hi : Interleaved .words ((Call.runAll equivalenceSolver [.solve, .setDecision ⟨0⟩ true]).backtrack 0) :=
    .action (.moment (.call hr)) (.backtrack 0)
  obtain ⟨hk, hd⟩ := candidates_throughout hi
  have he : ((Call.runAll equivalenceSolver [.solve, .setDecision ⟨0⟩ true]).backtrack 0).heap.isEnabled ⟨0⟩ =
      true := by decide +kernel
  have hu : ¬ ((Call.runAll equivalenceSolver [.solve, .setDecision ⟨0⟩ true]).backtrack 0).prop.trail.isAssigned
      ⟨0⟩ := by decide +kernel
  refine ⟨_, hi, hk, hk.isEnabled_iff.1 he, hk.mem he hu, ?_⟩
  rw [← Bool.not_eq_false, hd]
  exact fun hall => hu (hall _ (hk.isEnabled_iff.1 he))

end ClauseLearning
