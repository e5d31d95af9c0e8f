import ClauseLearning.Proofs.Eliminated
import ClauseLearning.Proofs.Stock

/-!
# The steps of propagation and simplification

What the parts of a run do to the stock of clauses.

* `Propagator.propagate_steps` : propagation permutes the literals of clauses;
* `Solver.tidy_steps` : facts shorten and delete clauses, and the storage is compacted;
* `Solver.subsume_steps`, `Solver.eliminateVars_steps` : the passes of simplification delete clauses and add derived
  ones (`Solver.simplifyFormula_steps`).
-/

namespace ClauseLearning

open Stock (Steps)

/-! ## Propagation -/

namespace Propagator

theorem visit_steps (a : ActivityScale) (p : Propagator) (l : Lit) (w : Watch) :
    Steps ⟨p.clauses, a⟩ ⟨(p.visit l w).2.clauses, a⟩ := by
  have hedit {c : Clause} (hc : (p.clauses.get w.ref).Permuted c) :
      Steps ⟨p.clauses, a⟩ ⟨p.clauses.modify w.ref fun _ => c, a⟩ := .edit (.permute hc)
  have hturn : (p.clauses.get w.ref).Permuted (if (p.clauses.get w.ref).first = -l then
      (p.clauses.get w.ref).swapWatched else p.clauses.get w.ref) := by
    split
    · exact Clause.swapWatched_permuted _
    · exact Clause.Permuted.refl _
  unfold visit
  dsimp only
  generalize (if (p.clauses.get w.ref).first = -l then _ else _) = c at hturn
  split
  · exact .refl _
  · split
    · exact .refl _
    · split
      · exact hedit hturn
      · split
        · next hc => exact hedit (hturn.trans (Clause.replaceSecond?_permuted hc))
        · split <;> exact hedit hturn

theorem scan_steps (a : ActivityScale) (l : Lit) (ws : List Watch) (kept : Array Watch) (p : Propagator) :
    Steps ⟨p.clauses, a⟩ ⟨(scan l ws kept p).2.2.clauses, a⟩ := by
  induction ws generalizing kept p with
  | nil => exact .refl _
  | cons w ws ih =>
    have h1 := visit_steps a p l w
    rw [scan]
    generalize p.visit l w = out at h1
    obtain ⟨answer, q⟩ := out
    cases answer with
    | keep w' => exact h1.trans (ih _ q)
    | drop => exact h1.trans (ih _ q)
    | conflict w' => exact h1

theorem propagateFuel_steps (a : ActivityScale) (fuel : Nat) (p : Propagator) :
    Steps ⟨p.clauses, a⟩ ⟨(propagateFuel fuel p).2.clauses, a⟩ := by
  induction fuel generalizing p with
  | zero => exact .refl _
  | succ fuel ih =>
    rw [propagateFuel]
    split
    · exact .refl _
    · next l _ =>
      have h1 : Steps ⟨p.clauses, a⟩ ⟨(p.propagateLit l).2.clauses, a⟩ :=
        scan_steps a l (p.watches.list l).toList #[] { p with watches := p.watches.setList l #[] }
      generalize p.propagateLit l = out at h1
      obtain ⟨conflict, q⟩ := out
      cases conflict with
      | some r => exact h1
      | none => exact h1.trans (ih { q with trail := q.trail.advance })

theorem enableWatches_steps (a : ActivityScale) (p : Propagator) :
    Steps ⟨p.clauses, a⟩ ⟨p.enableWatches.clauses, a⟩ := by
  have hall (rs : List ClauseRef) (q : Propagator) : Steps ⟨q.clauses, a⟩ ⟨(rs.foldl watchAnew q).clauses, a⟩ := by
    induction rs generalizing q with
    | nil => exact .refl _
    | cons r rs ih => exact (Steps.edit (.permute (Clause.watchBest_permuted _ _))).trans (ih (q.watchAnew r))
  unfold enableWatches
  split
  · exact .refl _
  · exact hall p.clauses.live { p with watches := p.watches.cleared }

theorem propagate_steps (a : ActivityScale) (p : Propagator) : Steps ⟨p.clauses, a⟩ ⟨p.propagate.2.clauses, a⟩ :=
  (enableWatches_steps a p).trans (propagateFuel_steps a _ p.enableWatches)

/-! ## Facts -/

theorem withLits?_same {c c' : Clause} {ls : List Lit} (h : c.withLits? ls = some c') : c.SameEntry c' := by
  match ls, h with
  | [], h => cases h
  | [_], h => cases h
  | a :: b :: rest, h =>
    cases h
    rfl

theorem remainder_shortened {t : Trail} {c c' : Clause} (h : t.remainder c = some c') : c.Shortened c' := by
  unfold Trail.remainder at h
  split at h
  · cases h
  · obtain rfl := Option.some.inj h
    cases hw : c.withLits? (c.lits.filter fun l => !t.isAssigned l.var) with
    | none => exact ⟨List.Sublist.refl _, rfl⟩
    | some c'' =>
      have hl : c''.lits = _ := (withLits?_some hw).1
      exact ⟨hl ▸ List.filter_sublist, withLits?_same hw⟩

theorem applyFacts_steps (a : ActivityScale) (p : Propagator) : Steps ⟨p.clauses, a⟩ ⟨p.applyFacts.clauses, a⟩ :=
  .edit (.sweep fun _ _ => remainder_shortened)

end Propagator

namespace Solver

variable {s s' : Solver} {o : Occurrences} {v : Var}

theorem propagate_steps (s : Solver) : s.stock.Steps s.propagate.2.stock :=
  s.prop.propagate_steps s.clauseScale

theorem collectGarbage_steps (s : Solver) : s.stock.Steps s.collectGarbage.stock := by
  unfold collectGarbage Database.collect?
  by_cases hw : s.prop.clauses.garbage * 2 ≤ s.prop.clauses.words
  · rw [if_pos hw]
    exact .refl _
  · rw [if_neg hw]
    exact .compact _ _

theorem tidy_steps (s : Solver) : s.stock.Steps s.tidy.stock := by
  unfold tidy
  split
  · exact collectGarbage_steps s
  · exact (s.prop.applyFacts_steps s.clauseScale).trans (collectGarbage_steps { s with prop := s.prop.applyFacts })

theorem settleFacts_steps (s : Solver) : s.stock.Steps s.settleFacts.2.stock := by
  unfold settleFacts
  split
  · exact .refl _
  · have h1 := propagate_steps s
    generalize s.propagate = out at h1
    obtain ⟨conflict, t⟩ := out
    cases conflict with
    | some r => exact h1
    | none => exact h1.trans (tidy_steps t)

/-! ## Simplification -/

theorem addDerived_steps (s : Solver) (o : Occurrences) (ls : List Lit) :
    s.stock.Steps (s.addDerived o ls).2.stock := by
  unfold addDerived
  split
  · exact .refl _
  · split
    · exact .refl _
    · exact .refl _
    · exact .edit (.add ⟨rfl, rfl, rfl, Or.inl rfl, Nat.zero_le _⟩)

theorem addAll_steps (f : List (List Lit)) (o : Occurrences) (s : Solver) :
    s.stock.Steps (addAll o s f).2.stock := by
  induction f generalizing o s with
  | nil => exact .refl _
  | cons ls f ih => exact (addDerived_steps s o ls).trans (ih _ _)

end Solver

namespace SubsumptionPass

theorem apply_steps (size : Nat) (ref other : ClauseRef) (p : SubsumptionPass) :
    p.solver.stock.Steps (p.apply size ref other).solver.stock := by
  unfold apply
  dsimp only
  split
  · exact .refl _
  · next hgo =>
    simp only [not_or, Bool.not_eq_true] at hgo
    have hdelete : p.solver.stock.Steps ⟨p.solver.prop.clauses.delete other, p.solver.clauseScale⟩ :=
      .edit (.delete (Database.isLive_iff.2 hgo.2.2.1))
    split
    · exact .refl _
    · exact hdelete
    · exact hdelete.trans (Solver.addDerived_steps (p.solver.withClauses _) _ _)

theorem foldl_apply_steps (size : Nat) (ref : ClauseRef) (rs : List ClauseRef) (p : SubsumptionPass) :
    p.solver.stock.Steps (rs.foldl (apply size ref) p).solver.stock := by
  induction rs generalizing p with
  | nil => exact .refl _
  | cons r rs ih => exact (apply_steps size ref r p).trans (ih _)

theorem useClause_steps (p : SubsumptionPass) (ref : ClauseRef) :
    p.solver.stock.Steps (p.useClause ref).solver.stock := by
  unfold useClause
  dsimp only
  split
  · exact .refl _
  · exact foldl_apply_steps (p.solver.prop.clauses.get ref).size ref
      (partners p.occurrences (p.solver.prop.clauses.get ref).lits)
      { p with solver := { p.solver with
          litMarks := p.solver.litMarks.markAll ((p.solver.prop.clauses.get ref).lits.map Lit.code) } }

theorem foldl_useClause_steps (rs : List ClauseRef) (p : SubsumptionPass) :
    p.solver.stock.Steps (rs.foldl useClause p).solver.stock := by
  induction rs generalizing p with
  | nil => exact .refl _
  | cons r rs ih => exact (useClause_steps p r).trans (ih _)

end SubsumptionPass

namespace Solver

variable {s s' : Solver} {o : Occurrences} {v : Var}

theorem subsume_steps (s : Solver) : s.stock.Steps s.subsume.stock :=
  SubsumptionPass.foldl_useClause_steps s.buildOccurrences.2.subsumptionCandidates
    { solver := s.buildOccurrences.2, occurrences := s.buildOccurrences.1 }

theorem nodup_sides (h : s.Inv) (ho : o.Exact s.varCount s.prop.clauses) :
    (s.occurrencesOf o v.positive ++ s.occurrencesOf o v.negative).Nodup := by
  refine List.nodup_append.2 ⟨(ho.nodup _).filter _, (ho.nodup _).filter _, fun r hr q hq he => ?_⟩
  subst he
  obtain ⟨hlive, -, hp⟩ := (mem_occurrencesOf ho).1 hr
  obtain ⟨-, -, hn⟩ := (mem_occurrencesOf ho).1 hq
  have hvar : v.positive.var = v.negative.var := (Lit.var_lit v true).trans (Lit.var_lit v false).symm
  have hpn : v.positive = v.negative := List.inj_on_of_nodup_map (h.prop.fits hlive).nodup hp hn hvar
  rw [Lit.positive_eq_neg_negative] at hpn
  exact Lit.neg_ne _ hpn

theorem isLive_of_mem_sides {r : ClauseRef} (ho : o.Exact s.varCount s.prop.clauses)
    (hr : r ∈ s.occurrencesOf o v.positive ++ s.occurrencesOf o v.negative) : s.prop.clauses.isLive r := by
  rcases List.mem_append.1 hr with hr | hr
  · exact ((mem_occurrencesOf ho).1 hr).1
  · exact ((mem_occurrencesOf ho).1 hr).1

theorem eliminateVar_steps (h : s.Inv) (ho : o.Exact s.varCount s.prop.clauses) (v : Var) :
    s.stock.Steps (s.eliminateVar? o v).2.2.stock := by
  have hn := nodup_sides (v := v) h ho
  have hl : ∀ r ∈ s.occurrencesOf o v.positive ++ s.occurrencesOf o v.negative, s.prop.clauses.isLive r := fun _ =>
    isLive_of_mem_sides ho
  unfold eliminateVar?
  dsimp only
  generalize s.occurrencesOf o v.positive = pos at hn hl
  generalize s.occurrencesOf o v.negative = neg at hn hl
  split
  · exact .refl _
  · have hr : (s.resolvents? v pos neg).2.stock = s.stock := rfl
    generalize s.resolvents? v pos neg = out at hr
    obtain ⟨found, t⟩ := out
    change ∀ r ∈ pos ++ neg, s.stock.clauses.isLive r at hl
    change t.stock = s.stock at hr
    rw [← hr] at hl ⊢
    cases found with
    | none => exact .refl _
    | some found =>
      have h1 : t.stock.Steps ⟨(pos ++ neg).foldl Database.delete t.prop.clauses, t.clauseScale⟩ :=
        .foldl_delete _ _ hn hl
      have h2 := addAll_steps found o ({ t with witnesses := t.witness v pos neg :: t.witnesses }.withClauses
        ((pos ++ neg).foldl Database.delete t.prop.clauses))
      exact h1.trans h2

theorem eliminateList_steps (vs : List Var) (count : Nat) (h : Eliminating s o s')
    (hv : ∀ v ∈ vs, v.index < s'.varCount) :
    s'.stock.Steps (eliminateList vs count o s').2.stock := by
  induction vs generalizing count o s' with
  | nil => exact .refl _
  | cons v vs ih =>
    have hvs : ∀ u ∈ vs, u.index < s'.varCount := fun u hu => hv u (List.mem_cons_of_mem v hu)
    rw [eliminateList]
    split
    · exact .refl _
    · split
      · exact ih count h hvs
      · next hu =>
        have h1 := eliminateVar_steps h.inv h.exact v
        have hs := eliminateVar_spec h.inv h.disabled h.exact (hv v List.mem_cons_self) hu
        generalize s'.eliminateVar? o v = out at h1 hs
        obtain ⟨done, o', t⟩ := out
        exact h1.trans (ih _ (h.trans hs) fun u hu => hs.rewritten.varCount_eq ▸ hvs u hu)

theorem dropLearnedWithEliminated_steps (h : s.prop.clauses.Listed) :
    s.stock.Steps s.dropLearnedWithEliminated.stock :=
  .foldl_delete _ _ (h.live_nodup.filter _) fun _ hr => h.mem_live.1 (List.mem_filter.1 hr).1

theorem eliminateVars_steps (h : s.Inv) (hi : s.prop.trail.Idle) :
    s.stock.Steps s.eliminateVars.stock := by
  obtain ⟨h1, h2, h3, h4⟩ := buildOccurrences_spec h hi
  rw [← h2.varCount_eq] at h4
  have hstart : Eliminating s.buildOccurrences.2 s.buildOccurrences.1 s.buildOccurrences.2 :=
    ⟨h1, h3, h4, Rewritten.refl _, id⟩
  have hv : ∀ v ∈ s.buildOccurrences.2.eliminationCandidates s.buildOccurrences.1,
      v.index < s.buildOccurrences.2.varCount := fun v hv => (mem_eliminationCandidates hv).1
  obtain ⟨_, h5⟩ := eliminateList_spec _ 0 hstart hv
  exact (eliminateList_steps _ 0 hstart hv).trans (dropLearnedWithEliminated_steps h5.inv.prop.listed)

theorem simplifyFormula_steps (h : s.Inv) (h0 : s.prop.trail.currentLevel = 0) (eliminate : Bool) :
    s.stock.Steps (s.simplifyFormula eliminate).stock := by
  have hc1 := settleFacts_steps s
  unfold simplifyFormula
  cases h1 : s.settleFacts with
  | mk goOn s₁ =>
    rw [h1] at hc1
    cases goOn with
    | false => exact hc1
    | true =>
      have hc2 := (hc1.trans (subsume_steps s₁)).trans (settleFacts_steps s₁.subsume)
      dsimp only
      cases h2 : s₁.subsume.settleFacts with
      | mk goOn s₂ =>
        rw [h2] at hc2
        cases goOn with
        | false => exact hc2
        | true =>
          obtain ⟨hi, -, hidle⟩ := resettled_spec h h0 h1 h2
          dsimp only
          split
          · exact (hc2.trans (eliminateVars_steps hi hidle)).trans (settleFacts_steps s₂.eliminateVars)
          · exact hc2

end Solver

end ClauseLearning
