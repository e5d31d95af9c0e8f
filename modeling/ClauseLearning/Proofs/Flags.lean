import ClauseLearning.Proofs.Eliminated

/-!
# What users say about variables is kept

* `Solver.SameFlags` : the same variables, on which decisions are made and which are frozen as before;
* `Solver.addClause_sameFlags`, `Solver.simplifyFormula_sameFlags`, `Solver.solveWith_sameFlags` : clauses,
  simplification and search keep the flags;
* `Solver.hasEliminated_solveWith` : frozen variables are not eliminated.
-/

namespace ClauseLearning.Solver

variable {s s' s'' : Solver} {v : Var} {o : Occurrences}

/-- The same variables, with the flags that users set. -/
structure SameFlags (s s' : Solver) : Prop where
  varCount_eq : s'.varCount = s.varCount
  decision_eq (v : Var) : (infoOf s'.vars v).decision = (infoOf s.vars v).decision
  frozen_eq (v : Var) : (infoOf s'.vars v).frozen = (infoOf s.vars v).frozen

namespace SameFlags

theorem of_vars (h : s'.vars = s.vars) : SameFlags s s' :=
  ⟨congrArg Array.size h, fun v => by rw [h], fun v => by rw [h]⟩

theorem refl (s : Solver) : SameFlags s s := of_vars rfl

theorem trans (h : SameFlags s s') (h' : SameFlags s' s'') : SameFlags s s'' where
  varCount_eq := h'.varCount_eq.trans h.varCount_eq
  decision_eq v := (h'.decision_eq v).trans (h.decision_eq v)
  frozen_eq v := (h'.frozen_eq v).trans (h.frozen_eq v)

end SameFlags

theorem addClause_sameFlags (h : s.Inv) (ls : List Lit) : SameFlags s (s.addClause ls).2 := by
  cases hok : s.addClause ls with
  | mk answer t =>
    cases answer with
    | error e => exact .of_vars (congrArg Solver.vars (addClause_error hok))
    | ok b => exact .of_vars (addClause_ok h hok).2.1.vars_eq

/-! ## Elimination -/

theorem eliminateVar_sameFlags (s : Solver) (o : Occurrences) (v : Var) : SameFlags s (s.eliminateVar? o v).2.2 := by
  have hvars := (eliminateVar_frame s o v).1
  by_cases hd : (s.eliminateVar? o v).1 = true
  · rw [if_pos hd] at hvars
    have hinfo (w : Var) : infoOf (s.eliminateVar? o v).2.2.vars w = infoOf s.vars w ∨
        infoOf (s.eliminateVar? o v).2.2.vars w = { infoOf s.vars w with eliminated := true } := by
      rw [hvars, infoOf, infoOf, Array.getD_eq_getD_getElem?, Array.getD_eq_getD_getElem?, Array.getElem?_modify]
      split
      · cases s.vars[w.index]? with
        | none => exact Or.inl rfl
        | some info => exact Or.inr rfl
      · exact Or.inl rfl
    refine ⟨?_, fun w => ?_, fun w => ?_⟩
    · show (s.eliminateVar? o v).2.2.vars.size = s.vars.size
      rw [hvars, Array.size_modify]
    all_goals rcases hinfo w with he | he <;> rw [he]
  · rw [if_neg hd] at hvars
    exact .of_vars hvars

theorem eliminateList_sameFlags (vs : List Var) (count : Nat) : SameFlags s (eliminateList vs count o s).2 := by
  induction vs generalizing count o s with
  | nil => exact .refl s
  | cons v vs ih =>
    rw [eliminateList]
    split
    · exact .refl s
    · split
      · exact ih count
      · exact (eliminateVar_sameFlags s o v).trans (ih _)

theorem eliminateVars_sameFlags (s : Solver) : SameFlags s s.eliminateVars := by
  have h1 : SameFlags s s.buildOccurrences.2 := .of_vars rfl
  have h2 (vs : List Var) : SameFlags s (eliminateList vs 0 s.buildOccurrences.1 s.buildOccurrences.2).2 :=
    h1.trans (eliminateList_sameFlags vs 0)
  exact (h2 (s.buildOccurrences.2.eliminationCandidates s.buildOccurrences.1)).trans (.of_vars rfl)

theorem simplifyFormula_sameFlags (h : s.Inv) (h0 : s.prop.trail.currentLevel = 0) (eliminate : Bool) :
    SameFlags s (s.simplifyFormula eliminate) := by
  have hv := (settleFacts_kept h h0).2
  unfold simplifyFormula
  cases h1 : s.settleFacts with
  | mk goOn s₁ =>
    rw [h1] at hv
    cases goOn with
    | false => exact .of_vars hv
    | true =>
      dsimp only
      obtain ⟨hi, hw⟩ := subsumed_spec h h0 h1
      have hv' := (settleFacts_kept hi (hw.currentLevel h0)).2.trans (kept_subsumed h h0 h1).2
      cases h2 : s₁.subsume.settleFacts with
      | mk goOn s₂ =>
        rw [h2] at hv'
        cases goOn with
        | false => exact .of_vars hv'
        | true =>
          dsimp only
          split
          · obtain ⟨hi₂, -, hidle⟩ := resettled_spec h h0 h1 h2
            obtain ⟨hi₃, hw₃, -⟩ := eliminateVars_spec hi₂ hidle
            have hv₃ := (settleFacts_kept hi₃ (hw₃.currentLevel hidle.currentLevel_eq)).2
            exact (SameFlags.of_vars hv').trans ((eliminateVars_sameFlags s₂).trans (.of_vars hv₃))
          · exact .of_vars hv'

theorem eliminate_sameFlags (h : s.Inv) (turnOff : Bool) : SameFlags s (s.eliminate turnOff).2 := by
  have h1 : SameFlags s s.rewind := .of_vars rfl
  have h2 := h1.trans (simplifyFormula_sameFlags (rewind_searched h).inv (currentLevel_rewind s) true)
  cases turnOff with
  | false => exact h2
  | true => exact h2.trans (.of_vars rfl)

/-! ## Solve calls -/

theorem vars_conclude (s : Solver) : s.conclude.2.vars = s.vars := by
  unfold conclude
  dsimp only
  split <;> rfl

theorem solveWith_sameFlags (h : s.Inv) (simplifyFirst turnOff : Bool) :
    SameFlags s (s.solveWith simplifyFirst turnOff).2 := by
  have h1 : SameFlags s (s.searchStart simplifyFirst turnOff) := by
    cases simplifyFirst with
    | false => exact .of_vars rfl
    | true => exact (eliminate_sameFlags h turnOff).trans (.of_vars rfl)
  obtain ⟨h2, hst⟩ := searchStart_called h simplifyFirst turnOff
  have h3 := (search_searched h2.inv fun hs => absurd hs hst).1
  rw [solveWith_eq]
  exact h1.trans (.of_vars ((vars_conclude _).trans h3.vars_eq))

/-- No variable is eliminated that is frozen, nor any by a solve call that does not simplify first. -/
theorem hasEliminated_solveWith (h : s.Inv) {simplifyFirst : Bool} (turnOff : Bool)
    (hv : simplifyFirst = true → (infoOf s.vars v).frozen = true) :
    (s.solveWith simplifyFirst turnOff).2.hasEliminated v = s.hasEliminated v := by
  cases he : s.hasEliminated v with
  | true => exact (solveWith_called h simplifyFirst turnOff).hasEliminated h he
  | false =>
    refine Bool.eq_false_iff.2 fun he' => ?_
    obtain ⟨⟨off, hc⟩, hel⟩ := Call.eliminates (.solveWith simplifyFirst turnOff) h he he'
    have hfirst : simplifyFirst = true := by
      rcases hc with hc | hc
      · cases hc
      · exact (Call.solveWith.inj hc).1
    have hf : (infoOf s.vars v).frozen = false := hel.frozen_eq
    exact Bool.false_ne_true (hf.symm.trans (hv hfirst))

end ClauseLearning.Solver
