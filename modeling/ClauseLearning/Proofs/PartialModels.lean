import ClauseLearning.Proofs.Extension
import ClauseLearning.Proofs.Session

/-!
# Models that leave variables without values

A search ends when no decision is left, and variables that decisions are not made on can be without values then. No
clause of the formula is false at that point, but the witnesses of eliminated variables treat literals without values
like false ones.

* `PartialAssignment.ofValues` : an array of values as a partial assignment;
* `Decided` : a clause with a true literal, or all of whose literals are false;
* `ofValues_extendModel` : if the clauses of all witnesses are decided, a model is extended as a partial assignment is;
* `Solver.admits_trail` : at the end of a search no stored clause is false;
* `contradicted_clause_cause` : a clause that a model contradicts has an eliminated variable, and the clauses of a
  witness are undecided. `contradicted_clause` is such a clause.
-/

namespace ClauseLearning

variable {n : Nat} {m m' : Array (Option Bool)} {w : Witness} {ws : List Witness} {l : Lit} {ls : List Lit}

/-! ## Values -/

theorem not_trueIn_neg (h : l.TrueIn m) : ¬ (-l).TrueIn m := by
  unfold Lit.TrueIn at h ⊢
  rw [Lit.var_neg, h, Lit.isPositive_neg]
  simp

/-- An array of values as a partial assignment, which allows both literals of a variable without a value. -/
def PartialAssignment.ofValues (m : Array (Option Bool)) : PartialAssignment where
  Allows l := ¬ (-l).TrueIn m
  allows_or l := by
    by_cases h : l.TrueIn m
    · exact Or.inl (not_trueIn_neg h)
    · exact Or.inr ((Lit.neg_neg l).symm ▸ h)

/-- A clause with a true literal, or all of whose literals are false. -/
def Decided (m : Array (Option Bool)) (ls : List Lit) : Prop := (∃ l ∈ ls, l.TrueIn m) ∨ ∀ l ∈ ls, (-l).TrueIn m

theorem trueIn_congr (h : m'.getD l.var.index none = m.getD l.var.index none) : l.TrueIn m' ↔ l.TrueIn m := by
  unfold Lit.TrueIn
  rw [h]

theorem decided_congr (h : ∀ l ∈ ls, m'.getD l.var.index none = m.getD l.var.index none) :
    Decided m' ls ↔ Decided m ls := by
  have hneg {l : Lit} (hl : l ∈ ls) : (-l).TrueIn m' ↔ (-l).TrueIn m :=
    trueIn_congr ((Lit.var_neg l).symm ▸ h l hl)
  exact or_congr (exists_congr fun l => and_congr_right fun hl => trueIn_congr (h l hl))
    (forall₂_congr fun l hl => hneg hl)

theorem Decided.exists_trueIn (h : Decided m ls) (hm : (PartialAssignment.ofValues m).Meets ls) :
    ∃ l ∈ ls, l.TrueIn m := by
  obtain ⟨l, hl, ha⟩ := hm
  exact h.resolve_right fun hall => ha (hall l hl)

/-! ## Extension -/

theorem ofValues_setIfInBounds (hi : l.var.index < m.size) :
    PartialAssignment.ofValues (m.setIfInBounds l.var.index (some l.isPositive)) =
      (PartialAssignment.ofValues m).set l := by
  apply PartialAssignment.ext_allows
  intro k
  have hself : l.TrueIn (m.setIfInBounds l.var.index (some l.isPositive)) := by
    unfold Lit.TrueIn
    rw [getD_setIfInBounds hi, if_pos rfl]
  by_cases hk : k.var = l.var
  · rcases Lit.eq_of_var_eq hk with rfl | rfl
    · exact iff_of_true (not_trueIn_neg hself) (PartialAssignment.allows_set_self _ k)
    · refine iff_of_false (fun h => h ((Lit.neg_neg l).symm ▸ hself)) ?_
      rintro (h | ⟨h, -⟩)
      · exact Lit.neg_ne l h
      · exact h hk
  · rw [PartialAssignment.allows_set_of_ne hk]
    refine not_congr (trueIn_congr (getD_setIfInBounds_ne ?_))
    rw [Lit.var_neg]
    exact fun h => hk (Var.ext_index h)

/-- A witness treats literals without values like false ones, and so does not differ from a partial assignment if its
clauses are decided. -/
theorem ofValues_extend (hi : w.lit.var.index < m.size) (hd : ∀ c ∈ w.clauses, Decided m c) :
    PartialAssignment.ofValues (w.extend m) = w.extendPartial (.ofValues m) := by
  have hall : (∀ c ∈ w.clauses, ∃ l ∈ c, l.TrueIn m) ↔ ∀ c ∈ w.clauses, (PartialAssignment.ofValues m).Meets c := by
    refine forall₂_congr fun c hc => ⟨?_, (hd c hc).exists_trueIn⟩
    rintro ⟨l, hl, ht⟩
    exact ⟨l, hl, not_trueIn_neg ht⟩
  unfold Witness.extendPartial
  rw [extend_eq m w rfl, ofValues_setIfInBounds]
  · by_cases h : ∀ c ∈ w.clauses, ∃ l ∈ c, l.TrueIn m
    · rw [if_pos h, if_pos (hall.1 h)]
    · rw [if_neg h, if_neg fun h' => h (hall.2 h')]
  · split
    · rwa [Lit.var_neg]
    · exact hi

theorem ofValues_extendModel (hm : m.size = n) (ho : WitnessesOrdered n ws)
    (hd : ∀ w ∈ ws, ∀ c ∈ w.clauses, Decided (extendModel ws m) c) :
    PartialAssignment.ofValues (extendModel ws m) = (PartialAssignment.ofValues m).extendBy ws := by
  induction ws generalizing m with
  | nil => rfl
  | cons w ws ih =>
    obtain ⟨h1, h2, h3⟩ := ho
    have hd' (c : List Lit) (hc : c ∈ w.clauses) : Decided m c := by
      -- the variables of its clauses get no other values, neither from this witness nor from older ones
      refine (decided_congr fun l hl => ?_).1 (hd w List.mem_cons_self c hc)
      obtain ⟨-, hne, hold⟩ := h2 c hc l hl
      exact (getD_extendModel hold).trans (getD_extend_ne hne)
    apply (ih ((size_extend m w).trans hm) h3 fun w' hw' => hd w' (List.mem_cons_of_mem w hw')).trans
    rw [ofValues_extend (hm.symm ▸ h1) hd']
    rfl

/-! ## Answers -/

namespace Solver

variable {s t : Solver} {f : List (List Lit)}

/-- After propagation no stored clause is false. -/
theorem admits_trail (h : t.Inv) (hs : t.status ≠ .unsat) (he : t.prop.watches.enabled = true)
    (hc : t.prop.Complete) : t.Admits (.ofValues t.prop.trail.values) := by
  refine ⟨hs, fun hl => not_trueIn_neg (Trail.isTrue_iff.1 hl.1), ?_⟩
  intro r hr _
  obtain ⟨l, hl, hn⟩ := h.prop.exists_not_isFalse he hc hr
  exact ⟨l, hl, fun ht => hn (Trail.isFalse_iff_neg.2 (Trail.isTrue_iff.2 ht))⟩

theorem witnesses_conclude (s : Solver) : s.conclude.2.witnesses = s.witnesses := by
  unfold conclude
  dsimp only
  split <;> rfl

theorem modelValue_eq_ok {b : Option Bool} :
    s.modelValue l = .ok b ↔ l.var.index < s.varCount ∧ s.lastVerdict = some .sat ∧ s.modelLit l = b := by
  unfold modelValue checkVar
  by_cases hx : l.var.index < s.varCount <;> by_cases hv : s.lastVerdict = some .sat <;> simp [hx, hv]

theorem modelLit_eq_true : s.modelLit l = some true ↔ l.TrueIn s.model := by
  unfold modelLit Lit.TrueIn
  cases s.model.getD l.var.index none <;> simp

theorem modelLit_eq_false : s.modelLit l = some false ↔ (-l).TrueIn s.model := by
  unfold modelLit Lit.TrueIn
  rw [Lit.var_neg, Lit.isPositive_neg]
  cases s.model.getD l.var.index none <;> cases l.isPositive <;> simp

end Solver

variable {counting : Counting} {s t : Solver} {f : List (List Lit)} {c d : List Lit}

theorem Represents.exists_not_decided (hr : Represents t f) (hi : t.Inv) (hsize : m.size = t.varCount)
    (hm : t.Admits (.ofValues m)) (hc : c ∈ f) (hfalse : ∀ l ∈ c, (-l).TrueIn (extendModel t.witnesses m)) :
    (∃ l ∈ c, t.hasEliminated l.var) ∧ ∃ w ∈ t.witnesses, ∃ d ∈ w.clauses, ¬ Decided (extendModel t.witnesses m) d := by
  obtain ⟨l, hl, ha⟩ := hr.admits hm c hc
  refine ⟨⟨l, hl, hi.eliminations.witnessed.2 (Classical.byContradiction fun hne => ?_)⟩,
    Classical.byContradiction fun hall => ?_⟩
  · -- the values of other variables are those of the model itself
    have hnone : ∀ w ∈ t.witnesses, w.lit.var ≠ l.var := fun w hw hwl => hne ⟨w, hw, hwl⟩
    have hself := (trueIn_congr (getD_extendModel (Lit.var_neg l ▸ hnone))).1 (hfalse l hl)
    exact (PartialAssignment.allows_extendBy hnone).1 ha hself
  · have hd : ∀ w ∈ t.witnesses, ∀ d ∈ w.clauses, Decided (extendModel t.witnesses m) d := fun w hw d hd =>
      Classical.byContradiction fun hn => hall ⟨w, hw, d, hd, hn⟩
    rw [← ofValues_extendModel hsize hi.eliminations.ordered hd] at ha
    exact ha (hfalse l hl)

/-- A model contradicts a clause just if it leaves variables of a witness without values: the clause has an eliminated
variable, and a witness has a clause without a true literal not all of whose literals are false. -/
theorem contradicted_clause_cause (h : Reachable counting s f) (simplifyFirst turnOff : Bool)
    (hsat : (s.solveWith simplifyFirst turnOff).1 = .sat) (hc : c ∈ f)
    (hfalse : ∀ l ∈ c, (s.solveWith simplifyFirst turnOff).2.modelValue l = .ok (some false)) :
    (∃ l ∈ c, (s.solveWith simplifyFirst turnOff).2.hasEliminated l.var) ∧
      ∃ w ∈ (s.solveWith simplifyFirst turnOff).2.witnesses, ∃ d ∈ w.clauses,
        (∀ l ∈ d, (s.solveWith simplifyFirst turnOff).2.modelValue l ≠ .ok (some true)) ∧
          ∃ l ∈ d, (s.solveWith simplifyFirst turnOff).2.modelValue l = .ok none := by
  obtain ⟨hcalled, hset⟩ := Solver.search_called h.inv simplifyFirst turnOff
  have hr := h.represents.called hcalled
  rw [Solver.solveWith_eq] at hsat hfalse ⊢
  generalize (s.searchStart simplifyFirst turnOff).search = t at hcalled hset hr hsat hfalse
  have hst : t.status = .sat := Solver.verdict_eq_sat.1 hsat
  obtain ⟨hvars, hlast, hmodel⟩ := Solver.conclude_sat hst
  have hw := t.witnesses_conclude
  generalize t.conclude.2 = u at hvars hlast hmodel hw hfalse
  have hcount : u.varCount = t.varCount := congrArg Array.size hvars
  -- the model of the search itself makes no stored clause false
  obtain ⟨he, hcomp, -⟩ := hset hst
  have hm := Solver.admits_trail hcalled.inv (fun hu => nomatch hst.symm.trans hu) he hcomp
  obtain ⟨⟨l, hl, hel⟩, w, hwt, d, hd, hn⟩ :=
    hr.exists_not_decided hcalled.inv hcalled.inv.prop.trail.values_size hm hc fun l hl => by
      rw [← hmodel, ← Solver.modelLit_eq_false]
      exact (Solver.modelValue_eq_ok.1 (hfalse l hl)).2.2
  rw [← hmodel] at hn
  obtain ⟨hntrue, hnfalse⟩ := not_or.1 hn
  have hnot (l : Lit) (hl : l ∈ d) : u.modelLit l ≠ some true := fun ht =>
    hntrue ⟨l, hl, Solver.modelLit_eq_true.1 ht⟩
  refine ⟨⟨l, hl, ?_⟩, w, hw.symm ▸ hwt, d, hd, fun l hl ht => ?_, ?_⟩
  · rw [Solver.hasEliminated, hvars]
    exact hel
  · exact hnot l hl (Solver.modelValue_eq_ok.1 ht).2.2
  · obtain ⟨l, hnf⟩ := Classical.not_forall.1 hnfalse
    obtain ⟨hl, hlf⟩ := Classical.not_imp.1 hnf
    have hx := hcalled.inv.eliminations.ordered.index_lt hwt hd hl
    refine ⟨l, hl, Solver.modelValue_eq_ok.2 ⟨hcount.symm ▸ hx, hlast, ?_⟩⟩
    cases hv : u.modelLit l with
    | none => rfl
    | some b =>
      cases b with
      | true => exact absurd hv (hnot l hl)
      | false => exact absurd (Solver.modelLit_eq_false.1 hv) hlf

/-- Four variables, of which the first is in a clause with two that decisions are not made on. -/
def undecidedCalls : List Call :=
  [.newVar none true, .newVar none false, .newVar none false, .newVar none true, .setFrozen ⟨1⟩ true,
    .setFrozen ⟨2⟩ true, .setFrozen ⟨3⟩ true, .addClause [⟨0⟩, ⟨2⟩, ⟨4⟩], .addClause [⟨1⟩, ⟨6⟩]]

/-- A solver that eliminates the first variable, and finds values neither for the second nor for the third one. -/
def undecidedSolver : Solver := Call.runAll (Solver.start .words .stable) undecidedCalls

theorem reachable_undecided : Reachable .words undecidedSolver [[⟨0⟩, ⟨2⟩, ⟨4⟩], [⟨1⟩, ⟨6⟩]] :=
  (Reachable.start .stable).runAll undecidedCalls

theorem modelValue_undecided : ∀ l ∈ [⟨1⟩, ⟨6⟩],
    (undecidedSolver.solveWith true false).2.modelValue l = .ok (some false) := by
  simp only [Solver.modelValue_eq_ok]
  decide +kernel

/-- The second clause is contradicted, and the first one is a witness without values. -/
theorem contradicted_clause_cause_undecided :
    (∀ l ∈ [⟨1⟩, ⟨6⟩], (undecidedSolver.solveWith true false).2.modelValue l = .ok (some false)) ∧
      ∃ w ∈ (undecidedSolver.solveWith true false).2.witnesses, ∃ d ∈ w.clauses,
        (∀ l ∈ d, (undecidedSolver.solveWith true false).2.modelValue l ≠ .ok (some true)) ∧
          ∃ l ∈ d, (undecidedSolver.solveWith true false).2.modelValue l = .ok none := by
  have hsat : (undecidedSolver.solveWith true false).1 = .sat := by decide +kernel
  exact ⟨modelValue_undecided,
    (contradicted_clause_cause reachable_undecided true false hsat (by decide) modelValue_undecided).2⟩

/-- Models that leave variables without values can contradict a clause. -/
theorem contradicted_clause : ¬ ∀ (s : Solver) (f : List (List Lit)), Reachable .words s f →
    ∀ simplifyFirst turnOff, (s.solveWith simplifyFirst turnOff).1 = .sat →
      ∀ c ∈ f, ¬ ∀ l ∈ c, (s.solveWith simplifyFirst turnOff).2.modelValue l = .ok (some false) := by
  intro h
  exact h undecidedSolver _ reachable_undecided true false (by decide +kernel) [⟨1⟩, ⟨6⟩] (by decide)
    modelValue_undecided

end ClauseLearning
