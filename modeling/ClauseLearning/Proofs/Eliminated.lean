import ClauseLearning.Proofs.Moments

/-!
# Eliminated variables are gone for good

* `Solver.Kept` : what all parts of a run but elimination have in common. They eliminate no variable, and eliminated
  ones stay retired;
* `Solver.Comes`, `Solver.Turn` : the states in which elimination comes to a variable;
* `Moment.retired` : at no moment of a run is an eliminated variable assigned or in a clause;
* `Call.eliminates` : just calls that simplify by elimination eliminate variables, and just those that were allocated
  and not frozen, when they are unassigned;
* `Solver.Purged` : what is known of eliminated variables between the steps of a run;
* `eliminated_for_good` : all of this for a run, in which eliminated variables stay eliminated.
-/

namespace ClauseLearning

namespace Solver

variable {s s' s'' s₁ s₂ t : Solver} {v w : Var} {ls : List Lit} {o o' : Occurrences}

/-! ## What eliminates no variable -/

/-- No variable is eliminated, and those that are stay retired. -/
structure Kept (s s' : Solver) : Prop where
  eliminated_eq (v : Var) : s'.hasEliminated v = s.hasEliminated v
  eliminationOff_eq : s'.eliminationOff = s.eliminationOff
  retired : s.Retired → s'.Retired

namespace Kept

theorem refl (s : Solver) : Kept s s := ⟨fun _ => rfl, rfl, id⟩

theorem trans (h : Kept s s') (h' : Kept s' s'') : Kept s s'' :=
  ⟨fun v => (h'.eliminated_eq v).trans (h.eliminated_eq v), h'.eliminationOff_eq.trans h.eliminationOff_eq,
    fun hr => h'.retired (h.retired hr)⟩

theorem of_vars (hv : s'.vars = s.vars) (ho : s'.eliminationOff = s.eliminationOff) (hr : s.Retired → s'.Retired) :
    Kept s s' := ⟨hasEliminated_congr hv, ho, hr⟩

theorem of_searched (h : Searched s s') : Kept s s' := of_vars h.vars_eq h.eliminationOff_eq h.retired

theorem of_stored {f : List (List Lit)} (h : Stored f s s') (hf : ∀ ls ∈ f, ∀ l ∈ ls, s.hasEliminated l.var = false) :
    Kept s s' := by
  obtain ⟨p, st, he⟩ := h.frame
  refine of_vars (by rw [he]) (by rw [he]) fun hr v hv hm => ?_
  rw [he] at hv
  rcases h.mentions hm with hm | ⟨ls, hls, l, hl, rfl⟩
  · exact hr v hv hm
  · exact Bool.false_ne_true ((hf ls hls l hl).symm.trans hv)

end Kept

theorem allocate_kept (s : Solver) {info : Variable} (he : info.eliminated = false) : Kept s (s.allocate info).2 := by
  have hel (v : Var) : (s.allocate info).2.hasEliminated v = s.hasEliminated v := by
    show (infoOf (s.vars.push info) v).eliminated = (infoOf s.vars v).eliminated
    rw [infoOf_push]
    split
    · next hv => rw [he, infoOf, getD_of_size_le (Nat.le_of_eq hv.symm)]
    · rfl
  refine ⟨hel, rfl, fun hr v hv hm => hr v ((hel v).symm.trans hv) (hm.imp_left fun ha => ?_)⟩
  change s.prop.trail.addVar.isAssigned v = true at ha
  rwa [Trail.isAssigned, Trail.value_addVar] at ha

theorem ensureVarCount_kept (s : Solver) (count : Nat) : Kept s (s.ensureVarCount count) :=
  ensureVarCount_keeps (Kept.refl s) (fun t ht => ht.trans (allocate_kept t rfl)) count

theorem modifyVariable_kept (hx : v.index < s.varCount) {f : Variable → Variable}
    (hf : ∀ i, (f i).eliminated = i.eliminated) : Kept s (s.modifyVariable v f) :=
  ⟨eliminated_infoOf_modify hx hf, rfl, fun hr w hw => hr w ((eliminated_infoOf_modify hx hf w).symm.trans hw)⟩

theorem setDecision_kept (s : Solver) (v : Var) (decision : Bool) : Kept s (s.setDecision v decision).2 := by
  unfold setDecision
  split
  · exact Kept.refl s
  · next hc =>
    have h1 := modifyVariable_kept (f := ({ · with decision := decision })) (checkVar_eq_ok.1 hc) fun _ => rfl
    exact h1.trans (Kept.of_vars rfl rfl id)

theorem setFrozen_kept (s : Solver) (v : Var) (frozen : Bool) : Kept s (s.setFrozen v frozen).2 := by
  unfold setFrozen
  split
  · exact Kept.refl s
  · next hc => exact modifyVariable_kept (f := ({ · with frozen := frozen })) (checkVar_eq_ok.1 hc) fun _ => rfl

theorem configure_kept (s : Solver) (u : ConfigUpdate) : Kept s (s.configure u).2 := by
  unfold configure
  split
  · exact Kept.refl s
  · exact Kept.of_vars rfl rfl id

theorem load_kept (h : s.Inv) (hc : s.checkClause ls = .ok ()) : Kept s (s.load ls) := by
  by_cases hs : s.status = .unsat
  · rw [load_of_unsat hs]
    exact Kept.refl s
  · have hl := checkClause_eq_ok.1 hc
    refine (Kept.of_searched (rewind_searched h)).trans (Kept.of_stored (load_stored h hs hl) ?_)
    intro ks hks l hm
    obtain rfl := List.mem_singleton.1 hks
    exact (hl l (Lit.mem_distinct.1 hm)).2

theorem propagateFacts_kept (h : s.Inv) : Kept s s.propagateFacts := by
  unfold propagateFacts
  split
  · exact Kept.refl s
  · have h1 := Kept.of_searched (propagate_searched h).1
    generalize s.propagate = out at h1
    obtain ⟨conflict, s₁⟩ := out
    cases conflict with
    | none => exact h1
    | some r => exact h1.trans (Kept.of_vars rfl rfl id)

theorem addClause_kept (h : s.Inv) (ls : List Lit) : Kept s (s.addClause ls).2 := by
  unfold addClause
  split
  · exact Kept.refl s
  · next hc => exact (load_kept h hc).trans (propagateFacts_kept (load_added h (checkClause_eq_ok.1 hc)).inv)

theorem addClauses_kept (cs : List (List Lit)) (h : s.Inv) : Kept s (addClauses cs s).2 := by
  induction cs generalizing s with
  | nil => exact Kept.refl s
  | cons c cs ih =>
    have h1 := addClause_kept h c
    rw [addClauses]
    cases hc : s.addClause c with
    | mk answer s₁ =>
      rw [hc] at h1
      cases answer with
      | error e => exact h1
      | ok b => exact h1.trans (ih (addClause_ok h hc).2.1.inv)

/-! ## Simplification -/

theorem settleFacts_kept (h : s.Inv) (h0 : s.prop.trail.currentLevel = 0) :
    Kept s s.settleFacts.2 ∧ s.settleFacts.2.vars = s.vars := by
  unfold settleFacts
  split
  · exact ⟨Kept.refl s, rfl⟩
  · obtain ⟨h1, hp⟩ := propagate_searched h
    generalize s.propagate = out at h1 hp
    obtain ⟨conflict, s₁⟩ := out
    cases conflict with
    | some r => exact ⟨(Kept.of_searched h1).trans (Kept.of_vars rfl rfl id), h1.vars_eq⟩
    | none =>
      have ht := tidy_spec h1.inv hp.enabled (hp.complete rfl) (hp.advance.currentLevel_eq.trans h0)
      exact ⟨Kept.of_searched (h1.trans ht.searched), (h1.trans ht.searched).vars_eq⟩

section

variable (h : s.Inv) (h0 : s.prop.trail.currentLevel = 0) (h1 : s.settleFacts = (true, s₁))
include h h0 h1

theorem kept_settled : Kept s s₁ ∧ s₁.vars = s.vars := by
  have hk := settleFacts_kept h h0
  rwa [h1] at hk

theorem kept_subsumed : Kept s s₁.subsume ∧ s₁.subsume.vars = s.vars := by
  obtain ⟨hi, -, hidle⟩ := settled_spec h h0 h1
  obtain ⟨hk, hv⟩ := kept_settled h h0 h1
  obtain ⟨-, hw, hv', hm⟩ := subsume_spec hi hidle
  exact ⟨hk.trans (Kept.of_vars hv' hw.eliminationOff_eq fun hr => hr.of_mentions hv' hm), hv'.trans hv⟩

theorem kept_resettled (h2 : s₁.subsume.settleFacts = (true, s₂)) : Kept s s₂ ∧ s₂.vars = s.vars := by
  obtain ⟨hi, hw⟩ := subsumed_spec h h0 h1
  obtain ⟨hk, hv⟩ := kept_subsumed h h0 h1
  obtain ⟨hk', hv'⟩ := kept_settled hi (hw.currentLevel h0) h2
  exact ⟨hk.trans hk', hv'.trans hv⟩

end

theorem simplifyFormula_cases (h : s.Inv) (h0 : s.prop.trail.currentLevel = 0) (eliminate : Bool) :
    Kept s (s.simplifyFormula eliminate) ∨ eliminate = true ∧ ∃ s₁ s₂, s.settleFacts = (true, s₁) ∧
      s₁.subsume.settleFacts = (true, s₂) ∧ s₂.eliminationOff = false ∧
        s.simplifyFormula eliminate = s₂.eliminateVars.settleFacts.2 := by
  unfold simplifyFormula
  cases h1 : s.settleFacts with
  | mk goOn s₁ =>
    have hk := (settleFacts_kept h h0).1
    rw [h1] at hk
    cases goOn with
    | false => exact Or.inl hk
    | true =>
      dsimp only
      obtain ⟨hi, hw⟩ := subsumed_spec h h0 h1
      have hk' := (kept_subsumed h h0 h1).1.trans (settleFacts_kept hi (hw.currentLevel h0)).1
      cases h2 : s₁.subsume.settleFacts with
      | mk goOn s₂ =>
        rw [h2] at hk'
        cases goOn with
        | false => exact Or.inl hk'
        | true =>
          dsimp only
          split
          · next hgo =>
            rw [Bool.and_eq_true, Bool.not_eq_true'] at hgo
            exact Or.inr ⟨hgo.1, s₁, s₂, rfl, h2, hgo.2, rfl⟩
          · exact Or.inl hk'

theorem simplifyFormula_retired (h : s.Inv) (h0 : s.prop.trail.currentLevel = 0) (eliminate : Bool)
    (hr : s.Retired) : (s.simplifyFormula eliminate).Retired := by
  rcases simplifyFormula_cases h h0 eliminate with hk | ⟨-, s₁, s₂, h1, h2, -, he⟩
  · exact hk.retired hr
  · obtain ⟨hi, -, hidle⟩ := resettled_spec h h0 h1 h2
    obtain ⟨hi', hw, hret⟩ := eliminateVars_spec hi hidle
    have hk := (settleFacts_kept hi' (hw.currentLevel hidle.currentLevel_eq)).1
    rw [he]
    exact hk.retired (hret ((kept_resettled h h0 h1 h2).1.retired hr))

/-! ## Elimination -/

/-- The states in which a pass over some candidates comes to a variable. -/
inductive Comes (v : Var) : List Var → Occurrences → Solver → Occurrences → Solver → Prop
  | here {vs : List Var} {o : Occurrences} {s : Solver} : Comes v (v :: vs) o s o s
  | skip {w : Var} {vs : List Var} {o o' : Occurrences} {s t : Solver} : s.status ≠ .unsat →
    s.prop.trail.isAssigned w = true → Comes v vs o s o' t → Comes v (w :: vs) o s o' t
  | next {w : Var} {vs : List Var} {o o' : Occurrences} {s t : Solver} : s.status ≠ .unsat →
    s.prop.trail.isAssigned w = false → Comes v vs (s.eliminateVar? o w).2.1 (s.eliminateVar? o w).2.2 o' t →
      Comes v (w :: vs) o s o' t

/-- The states in which simplification tries to eliminate a variable. -/
inductive Turn (s : Solver) (v : Var) (o : Occurrences) (t : Solver) : Prop
  | mk {s₁ s₂ : Solver} : s.settleFacts = (true, s₁) → s₁.subsume.settleFacts = (true, s₂) →
    Comes v (s₂.buildOccurrences.2.eliminationCandidates s₂.buildOccurrences.1) s₂.buildOccurrences.1
      s₂.buildOccurrences.2 o t → Turn s v o t

theorem addDerived_frame (s : Solver) (o : Occurrences) (ls : List Lit) :
    ∃ p st, (s.addDerived o ls).2 = { s with prop := p, status := st } := by
  unfold addDerived
  split
  · exact ⟨s.prop, s.status, rfl⟩
  · split <;> exact ⟨_, _, rfl⟩

theorem foldl_addDerived_frame (f : List (List Lit)) (o : Occurrences) (s : Solver) :
    ∃ p st, (f.foldl (fun (os : Occurrences × Solver) ls => os.2.addDerived os.1 ls) (o, s)).2 =
      { s with prop := p, status := st } := by
  induction f generalizing o s with
  | nil => exact ⟨s.prop, s.status, rfl⟩
  | cons ls f ih =>
    obtain ⟨p, st, he⟩ := addDerived_frame s o ls
    obtain ⟨p', st', he'⟩ := ih (s.addDerived o ls).1 (s.addDerived o ls).2
    refine ⟨p', st', ?_⟩
    rw [List.foldl_cons, he', he]

/-- How many clauses an elimination of a variable would replace. -/
def occurrenceCount (s : Solver) (o : Occurrences) (v : Var) : Nat :=
  (s.occurrencesOf o v.positive).length + (s.occurrencesOf o v.negative).length

/-- Elimination of a variable that is done marks the variable, and no other. It looks for resolvents unless the variable
occurs too often or not at all, and their number is limited by a sum that may overflow. -/
theorem eliminateVar_frame (s : Solver) (o : Occurrences) (v : Var) :
    (s.eliminateVar? o v).2.2.vars = (if (s.eliminateVar? o v).1 then
        s.vars.modify v.index ({ · with eliminated := true }) else s.vars) ∧
      (s.eliminateVar? o v).2.2.overflowed = (s.overflowed ||
        decide (0 < s.occurrenceCount o v ∧ s.occurrenceCount o v ≤ s.config.elimOccurrenceLimit.toNat) &&
          Counting.words.overflows (s.occurrenceCount o v + s.config.elimGrowLimit.toNat)) := by
  unfold eliminateVar? occurrenceCount
  dsimp only
  generalize s.occurrencesOf o v.positive = pos
  generalize s.occurrencesOf o v.negative = neg
  split
  · next hocc =>
    rw [decide_eq_false (by omega), Bool.false_and, Bool.or_false]
    exact ⟨rfl, rfl⟩
  · next hocc =>
    rw [decide_eq_true (by omega), Bool.true_and]
    have hvars : (s.resolvents? v pos neg).2.vars = s.vars := rfl
    have hsum : (s.resolvents? v pos neg).2.overflowed = (s.overflowed ||
        Counting.words.overflows (pos.length + neg.length + s.config.elimGrowLimit.toNat)) := rfl
    generalize s.resolvents? v pos neg = out at hvars hsum
    obtain ⟨found, s₁⟩ := out
    cases found with
    | none => exact ⟨hvars, hsum⟩
    | some found =>
      dsimp only
      generalize hfold : found.foldl _ _ = os
      obtain ⟨p, st, he⟩ := foldl_addDerived_frame found o
        ({ s₁ with witnesses := s₁.witness v pos neg :: s₁.witnesses }.withClauses
          ((pos ++ neg).foldl Database.delete s₁.prop.clauses))
      rw [hfold] at he
      have hvars' : os.2.vars = s.vars := by
        rw [he]
        exact hvars
      have hsum' : os.2.overflowed = s₁.overflowed := by
        rw [he]
        rfl
      rw [if_pos rfl, ← hvars']
      exact ⟨rfl, hsum'.trans hsum⟩

theorem hasEliminated_eliminateVar_ne (h : v ≠ w) :
    (s.eliminateVar? o w).2.2.hasEliminated v = s.hasEliminated v := by
  unfold hasEliminated
  rw [(eliminateVar_frame s o w).1]
  split
  · rw [getD_modify_ne fun hi => h (Var.ext_index hi)]
  · rfl

theorem comes_of_eliminateList (vs : List Var) (count : Nat) (h0 : s.hasEliminated v = false)
    (h1 : (eliminateList vs count o s).2.hasEliminated v = true) : v ∈ vs ∧ ∃ o' t, Comes v vs o s o' t ∧
      t.prop.trail.isAssigned v = false ∧ t.hasEliminated v = false ∧ (t.eliminateVar? o' v).1 = true := by
  induction vs generalizing count o s with
  | nil => exact absurd (h0.symm.trans h1) Bool.false_ne_true
  | cons w vs ih =>
    rw [eliminateList] at h1
    split at h1
    · exact absurd (h0.symm.trans h1) Bool.false_ne_true
    · next hs =>
      split at h1
      · next ha =>
        obtain ⟨hm, o', t, hc, ht⟩ := ih count h0 h1
        exact ⟨List.mem_cons_of_mem w hm, o', t, .skip hs ha hc, ht⟩
      · next ha =>
        have ha' := Bool.eq_false_iff.2 ha
        by_cases hd : v = w ∧ (s.eliminateVar? o w).1 = true
        · obtain ⟨rfl, hd⟩ := hd
          exact ⟨List.mem_cons_self, o, s, .here, ha', h0, hd⟩
        · have hsame : (s.eliminateVar? o w).2.2.hasEliminated v = false := by
            by_cases hv : v = w
            · unfold hasEliminated
              rw [(eliminateVar_frame s o w).1, if_neg fun hdone => hd ⟨hv, hdone⟩]
              exact h0
            · exact (hasEliminated_eliminateVar_ne hv).trans h0
          obtain ⟨hm, o', t, hc, ht⟩ := ih _ hsame h1
          exact ⟨List.mem_cons_of_mem w hm, o', t, .next hs ha' hc, ht⟩

theorem hasEliminated_eliminateVars (s : Solver) (v : Var) : s.eliminateVars.hasEliminated v =
    (eliminateList (s.buildOccurrences.2.eliminationCandidates s.buildOccurrences.1) 0 s.buildOccurrences.1
      s.buildOccurrences.2).2.hasEliminated v := rfl

theorem mem_eliminationCandidates (hv : v ∈ s.eliminationCandidates o) :
    v.index < s.varCount ∧ (infoOf s.vars v).frozen = false := by
  unfold eliminationCandidates at hv
  dsimp only at hv
  obtain ⟨hm, hp⟩ := List.mem_filter.1 (mem_sortBy.1 hv)
  obtain ⟨i, hi, rfl⟩ := List.mem_map.1 hm
  rw [Bool.and_eq_true, Bool.and_eq_true, Bool.not_eq_true'] at hp
  exact ⟨List.mem_range.1 hi, hp.1.1⟩

/-- What is known about a variable that simplification eliminates. -/
structure Eliminates (s : Solver) (v : Var) : Prop where
  eliminationOff_eq : s.eliminationOff = false
  index_lt : v.index < s.varCount
  frozen_eq : (infoOf s.vars v).frozen = false
  turn : ∃ o t, Turn s v o t ∧ t.prop.trail.isAssigned v = false ∧ t.hasEliminated v = false ∧
    (t.eliminateVar? o v).1 = true

theorem simplifyFormula_eliminates (h : s.Inv) (hc : s.prop.trail.currentLevel = 0) (eliminate : Bool)
    (h0 : s.hasEliminated v = false) (h1 : (s.simplifyFormula eliminate).hasEliminated v = true) :
    eliminate = true ∧ Eliminates s v := by
  rcases simplifyFormula_cases h hc eliminate with hk | ⟨rfl, s₁, s₂, hs₁, hs₂, hoff, he⟩
  · exact absurd (h0.symm.trans ((hk.eliminated_eq v).symm.trans h1)) Bool.false_ne_true
  · obtain ⟨hi, -, hidle⟩ := resettled_spec h hc hs₁ hs₂
    obtain ⟨hk, hv⟩ := kept_resettled h hc hs₁ hs₂
    obtain ⟨hi', hw, -⟩ := eliminateVars_spec hi hidle
    rw [he, (settleFacts_kept hi' (hw.currentLevel hidle.currentLevel_eq)).1.eliminated_eq v,
      hasEliminated_eliminateVars] at h1
    obtain ⟨hm, o, t, hcomes, ht⟩ := comes_of_eliminateList (o := s₂.buildOccurrences.1)
      (s := s₂.buildOccurrences.2) _ 0 ((hk.eliminated_eq v).trans h0) h1
    obtain ⟨hx, hf⟩ := mem_eliminationCandidates hm
    have hvars : s₂.buildOccurrences.2.vars = s.vars := hv
    rw [varCount, hvars] at hx
    rw [hvars] at hf
    exact ⟨rfl, hk.eliminationOff_eq.symm.trans hoff, hx, hf, o, t, ⟨hs₁, hs₂, hcomes⟩, ht⟩

theorem eliminationOff_eliminate (h : s.Inv) (turnOff : Bool) :
    (s.eliminate turnOff).2.eliminationOff = (s.eliminationOff || turnOff) := by
  have h1 := (simplifyFormula_spec (rewind_searched h).inv (currentLevel_rewind s) true).2.eliminationOff_eq
  cases turnOff with
  | false => exact h1.trans (Bool.or_false _).symm
  | true => exact (Bool.or_true _).symm

theorem eliminate_retired (h : s.Inv) (turnOff : Bool) (hr : s.Retired) : (s.eliminate turnOff).2.Retired := by
  have h1 := rewind_searched h
  have h2 := simplifyFormula_retired h1.inv (currentLevel_rewind s) true (h1.retired hr)
  cases turnOff <;> exact h2

theorem eliminate_eliminates (h : s.Inv) {turnOff : Bool} (h0 : s.hasEliminated v = false)
    (h1 : (s.eliminate turnOff).2.hasEliminated v = true) : Eliminates s.rewind v := by
  refine (simplifyFormula_eliminates (rewind_searched h).inv (currentLevel_rewind s) true h0 ?_).2
  cases turnOff <;> exact h1

/-! ## Solve calls -/

theorem conclude_kept (s : Solver) : Kept s s.conclude.2 := by
  unfold conclude
  dsimp only
  split <;> exact Kept.of_vars rfl rfl id

theorem solveWith_kept (h : s.Inv) (simplifyFirst turnOff : Bool) :
    Kept (if simplifyFirst then (s.eliminate turnOff).2 else s) (s.solveWith simplifyFirst turnOff).2 := by
  have h1 : (if simplifyFirst then (s.eliminate turnOff).2 else s).Inv := by
    cases simplifyFirst with
    | false => exact h
    | true => exact (eliminate_called h turnOff).inv
  obtain ⟨h2, hst⟩ := searchStart_called h simplifyFirst turnOff
  have h3 := (search_searched h2.inv fun hs => absurd hs hst).1
  have h4 : Kept (if simplifyFirst then (s.eliminate turnOff).2 else s) (s.searchStart simplifyFirst turnOff) :=
    (Kept.of_searched (rewind_searched h1)).trans (Kept.of_vars rfl rfl id)
  rw [solveWith_eq]
  exact (h4.trans (Kept.of_searched h3)).trans (conclude_kept _)

theorem Called.hasEliminated (h : Called s s') (hs : s.Inv) (hv : s.hasEliminated v = true) :
    s'.hasEliminated v = true := by
  obtain ⟨w, hw, hwv⟩ := hs.eliminations.witnessed.1 hv
  obtain ⟨ws, he, -⟩ := h.faithful.admits
  exact h.inv.eliminations.witnessed.2 ⟨w, he ▸ List.mem_append_right ws hw, hwv⟩

/-! ## Moments -/

theorem Simplifying.retired {eliminate : Bool} (h : s.Inv) (h0 : s.prop.trail.currentLevel = 0) (hr : s.Retired)
    (ht : Simplifying eliminate s t) : t.Retired := by
  cases ht with
  | start => exact hr
  | subsumed h1 => exact (kept_subsumed h h0 h1).1.retired hr
  | eliminated h1 h2 _ =>
    obtain ⟨hi, -, hidle⟩ := resettled_spec h h0 h1 h2
    exact (eliminateVars_spec hi hidle).2.2 ((kept_resettled h h0 h1 h2).1.retired hr)

theorem searchStart_retired (h : s.Inv) (simplifyFirst turnOff : Bool) (hr : s.Retired) :
    (s.searchStart simplifyFirst turnOff).Retired := by
  cases simplifyFirst with
  | false => exact (rewind_searched h).retired hr
  | true => exact (rewind_searched (eliminate_called h turnOff).inv).retired (eliminate_retired h turnOff hr)

end Solver

open Solver (Kept)

variable {counting : Counting} {s : Solver} {f : List (List Lit)} {v : Var}

theorem Call.run_cases (c : Call) (h : s.Inv) : Kept s (c.run s) ∨
    ∃ turnOff, (c = .eliminate turnOff ∨ c = .solveWith true turnOff) ∧ Kept (s.eliminate turnOff).2 (c.run s) := by
  cases c with
  | newVar polarity decision => exact Or.inl (Solver.allocate_kept s rfl)
  | setDecision v decision => exact Or.inl (Solver.setDecision_kept s v decision)
  | setFrozen v frozen => exact Or.inl (Solver.setFrozen_kept s v frozen)
  | addClause ls => exact Or.inl (Solver.addClause_kept h ls)
  | addFormula fml =>
    have h1 := Solver.ensureVarCount_called h fml.varCount
    exact Or.inl ((Solver.ensureVarCount_kept s fml.varCount).trans (Solver.addClauses_kept _ h1.inv))
  | configure u => exact Or.inl (Solver.configure_kept s u)
  | setDecisionLimit limit => exact Or.inl (Kept.of_vars rfl rfl id)
  | setConflictLimit limit => exact Or.inl (Kept.of_vars rfl rfl id)
  | simplify =>
    have h1 := Solver.rewind_searched h
    have h2 := Solver.simplifyFormula_cases h1.inv (Solver.currentLevel_rewind s) false
    exact Or.inl ((Kept.of_searched h1).trans (h2.resolve_right fun he => Bool.false_ne_true he.1))
  | eliminate turnOff => exact Or.inr ⟨turnOff, Or.inl rfl, Kept.refl _⟩
  | solve => exact Or.inl (Solver.solveWith_kept h false false)
  | solveWith simplifyFirst turnOff =>
    cases simplifyFirst with
    | false => exact Or.inl (Solver.solveWith_kept h false turnOff)
    | true => exact Or.inr ⟨turnOff, Or.inr rfl, Solver.solveWith_kept h true turnOff⟩

theorem Call.run_retired (c : Call) (h : s.Inv) (hr : s.Retired) : (c.run s).Retired := by
  rcases c.run_cases h with hk | ⟨turnOff, -, hk⟩
  · exact hk.retired hr
  · exact hk.retired (Solver.eliminate_retired h turnOff hr)

theorem Reachable.retired (h : Reachable counting s f) : s.Retired := by
  have hempty {s : Solver} (hp : s.vars = #[]) : s.Retired := by
    intro v hv
    rw [Solver.hasEliminated, hp] at hv
    cases hv
  induction h with
  | start => exact hempty rfl
  | call c h ih => exact c.run_retired h.inv ih
  | reset _ _ => exact hempty rfl

/-- At no moment of a run is an eliminated variable assigned or in a clause. -/
theorem Moment.retired (h : Moment counting s) : s.Retired := by
  cases h with
  | call h => exact h.retired
  | @load _ _ _ cs n _ h ht hc =>
    have h1 := Solver.ensureVarCount_called h.inv n
    have h2 := ((h.represents.called h1).addClauses cs h1.inv).1
    have h3 := (Solver.ensureVarCount_kept _ n).trans (Solver.addClauses_kept cs h1.inv)
    rw [ht] at h2 h3
    exact (h3.trans (Solver.load_kept h2 hc)).retired h.retired
  | simplify h ht =>
    have h1 := Solver.rewind_searched h.inv
    exact ht.retired h1.inv (Solver.currentLevel_rewind _) (h1.retired h.retired)
  | search h ht =>
    exact (ht.searched (Solver.searchStart_called h.inv _ _).1.inv).retired
      (Solver.searchStart_retired h.inv _ _ h.retired)
  | decide h ht _ hu =>
    have h1 := ht.searched (Solver.searchStart_called h.inv _ _).1.inv
    have h2 := Solver.reduceIfDue_restartIfDue_searched h1.inv
    exact ((h1.trans h2).trans (hu.searched h2.inv)).retired (Solver.searchStart_retired h.inv _ _ h.retired)

/-! ## Calls that eliminate -/

/-- Just calls that simplify by elimination eliminate variables. -/
theorem Call.eliminates (c : Call) (h : s.Inv) (h0 : s.hasEliminated v = false)
    (h1 : (c.run s).hasEliminated v = true) :
    (∃ turnOff, c = .eliminate turnOff ∨ c = .solveWith true turnOff) ∧ s.rewind.Eliminates v := by
  rcases c.run_cases h with hk | ⟨turnOff, hc, hk⟩
  · exact absurd (h0.symm.trans ((hk.eliminated_eq v).symm.trans h1)) Bool.false_ne_true
  · exact ⟨⟨turnOff, hc⟩, Solver.eliminate_eliminates h h0 ((hk.eliminated_eq v).symm.trans h1)⟩

theorem Call.hasEliminated_run (c : Call) (h : s.Inv) (hv : s.hasEliminated v = true) :
    (c.run s).hasEliminated v = true := by
  rcases c.run_cases h with hk | ⟨turnOff, -, hk⟩
  · exact (hk.eliminated_eq v).trans hv
  · exact (hk.eliminated_eq v).trans ((Solver.eliminate_called h turnOff).hasEliminated h hv)

theorem Call.run_of_eliminationOff (c : Call) (h : s.Inv) (ho : s.eliminationOff = true) :
    (c.run s).eliminationOff = true ∧ ∀ v, (c.run s).hasEliminated v = s.hasEliminated v := by
  refine ⟨?_, fun v => ?_⟩
  · rcases c.run_cases h with hk | ⟨turnOff, -, hk⟩
    · exact hk.eliminationOff_eq.trans ho
    · rw [hk.eliminationOff_eq, Solver.eliminationOff_eliminate h, ho, Bool.true_or]
  · cases hv : s.hasEliminated v with
    | true => exact c.hasEliminated_run h hv
    | false =>
      refine Bool.eq_false_iff.2 fun hv' => ?_
      have hon := (c.eliminates h hv hv').2.eliminationOff_eq
      exact Bool.false_ne_true (hon.symm.trans ho)

theorem Reachable.hasEliminated_runAll (h : Reachable counting s f) (cs : List Call) (hv : s.hasEliminated v = true) :
    (Call.runAll s cs).hasEliminated v = true := by
  induction cs generalizing s f with
  | nil => exact hv
  | cons c cs ih => exact ih (h.call c) (c.hasEliminated_run h.inv hv)

theorem Reachable.runAll_of_eliminationOff (h : Reachable counting s f) (cs : List Call)
    (ho : s.eliminationOff = true) (v : Var) : (Call.runAll s cs).hasEliminated v = s.hasEliminated v := by
  induction cs generalizing s f with
  | nil => rfl
  | cons c cs ih =>
    obtain ⟨ho', hv⟩ := c.run_of_eliminationOff h.inv ho
    exact (ih (h.call c) ho').trans (hv v)

/-! ## The life of an eliminated variable -/

/-- Eliminated variables are in no clause, have no value and are not decided on. They have one witness each. -/
structure Solver.Purged (s : Solver) : Prop where
  unmentioned {r : ClauseRef} {l : Lit} : s.prop.clauses.isLive r → l ∈ (s.prop.clauses.get r).lits →
    s.hasEliminated l.var = false
  unassigned {v : Var} : s.hasEliminated v = true → s.prop.trail.isAssigned v = false
  disabled {v : Var} : s.hasEliminated v = true → s.heap.isEnabled v = false
  witnessed (v : Var) : (s.witnesses.map fun w => w.lit.var).count v = if s.hasEliminated v then 1 else 0

theorem Solver.index_lt_of_hasEliminated (hv : s.hasEliminated v = true) : v.index < s.varCount := by
  by_contra hx
  rw [Solver.hasEliminated, getD_of_size_le (Nat.le_of_not_lt hx)] at hv
  cases hv

theorem Moment.purged (h : Moment counting s) : s.Purged where
  unmentioned {r l} hr hl := Bool.eq_false_iff.2 fun he => h.retired l.var he (Or.inr ⟨r, hr, l, hl, rfl⟩)
  unassigned {v} he := Bool.eq_false_iff.2 (h.retired.dormant v he)
  disabled {v} he := by
    have h1 := h.inv.candidates.enabled (Solver.index_lt_of_hasEliminated he)
    rw [h1, show (infoOf s.vars v).eliminated = true from he, Bool.not_true, Bool.and_false]
  witnessed v := by
    have hm : v ∈ (s.witnesses.map fun w => w.lit.var) ↔ s.hasEliminated v = true :=
      List.mem_map.trans h.inv.eliminations.witnessed.symm
    rw [h.inv.eliminations.distinct.count]
    simp only [hm]

/-- **Eliminated variables are gone for good.** At no moment of a run is one assigned, decided on or in a clause, and
each has one witness. Just calls that simplify by elimination eliminate variables. Those were allocated and not frozen
when the call began, and they are unassigned when they are eliminated. They stay eliminated until a reset, and there are
no further ones when elimination was turned off. -/
theorem eliminated_for_good (counting : Counting) :
    (∀ s, Moment counting s → s.Purged) ∧ ∀ s f, Reachable counting s f →
      (∀ (c : Call) v, s.hasEliminated v = false → (c.run s).hasEliminated v = true →
        (∃ turnOff, c = .eliminate turnOff ∨ c = .solveWith true turnOff) ∧
          v.index < s.varCount ∧ (infoOf s.vars v).frozen = false ∧
            ∃ o t, s.rewind.Turn v o t ∧ t.prop.trail.isAssigned v = false ∧ t.hasEliminated v = false ∧
              (t.eliminateVar? o v).1 = true) ∧
      (∀ cs v, s.hasEliminated v = true → (Call.runAll s cs).hasEliminated v = true) ∧
      (∀ c ∈ [Call.eliminate true, Call.solveWith true true], (c.run s).eliminationOff = true) ∧
      (s.eliminationOff = true → ∀ cs v, (Call.runAll s cs).hasEliminated v = s.hasEliminated v) := by
  refine ⟨fun s h => h.purged, fun s f h => ⟨fun c v h0 h1 => ?_, fun cs v => h.hasEliminated_runAll cs, ?_,
    fun ho cs v => h.runAll_of_eliminationOff cs ho v⟩⟩
  · obtain ⟨hc, he⟩ := c.eliminates h.inv h0 h1
    exact ⟨hc, he.index_lt, he.frozen_eq, he.turn⟩
  · have hoff : (s.eliminate true).2.eliminationOff = true := by
      rw [Solver.eliminationOff_eliminate h.inv, Bool.or_true]
    simp only [List.forall_mem_cons, List.not_mem_nil, false_imp_iff, implies_true, and_true]
    exact ⟨hoff, (Solver.solveWith_kept h.inv true true).eliminationOff_eq.trans hoff⟩

/-- One of two equivalent variables is eliminated. It is not decided on even when that is allowed for it, and the other
variable is not eliminated by a later call. -/
theorem eliminated_for_good_equivalence :
    equivalenceSolver.hasEliminated ⟨0⟩ = false ∧ (infoOf equivalenceSolver.vars ⟨0⟩).frozen = false ∧
      ((Call.eliminate true).run equivalenceSolver).hasEliminated ⟨0⟩ = true ∧
      ((Call.eliminate true).run equivalenceSolver).Purged ∧
      (Call.runAll ((Call.eliminate true).run equivalenceSolver) [.setDecision ⟨0⟩ true]).heap.isEnabled ⟨0⟩ = false ∧
      (Call.runAll ((Call.eliminate true).run equivalenceSolver)
        [.setDecision ⟨0⟩ true, .eliminate false]).hasEliminated ⟨1⟩ = false := by
  have h0 : equivalenceSolver.hasEliminated ⟨0⟩ = false := by decide +kernel
  have h1 : ((Call.eliminate true).run equivalenceSolver).hasEliminated ⟨0⟩ = true := by decide +kernel
  have h2 : ((Call.eliminate true).run equivalenceSolver).hasEliminated ⟨1⟩ = false := by decide +kernel
  have hr := reachable_equivalence.call (.eliminate true)
  obtain ⟨hp, hg⟩ := eliminated_for_good .words
  obtain ⟨he, -, hoff, -⟩ := hg _ _ reachable_equivalence
  obtain ⟨-, hkeep, -, hstop⟩ := hg _ _ hr
  have hd := hp _ (.call (hr.runAll [.setDecision ⟨0⟩ true]))
  refine ⟨h0, (he _ _ h0 h1).2.2.1, h1, hp _ (.call hr), hd.disabled (hkeep _ _ h1), ?_⟩
  exact (hstop (hoff _ List.mem_cons_self) _ _).trans h2

end ClauseLearning
