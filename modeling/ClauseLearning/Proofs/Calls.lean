import ClauseLearning.Solver
import ClauseLearning.Proofs.Elimination
import ClauseLearning.Proofs.Search

/-!
# Calls keep the invariant

* `Solver.Called` : what calls have in common that add no clause. They are faithful, and an unsatisfiable solver stays
  so;
* `Solver.allocate_called`, `Solver.setDecision_called`, `Solver.configure_called`, … : each of them;
* `Solver.Added` : what adding a clause comes to (`Solver.addClause_ok`);
* `Solver.solveWith_called` : a solve call, which is backed by an assignment if it finds a model
  (`Solver.Settled`).
-/

namespace ClauseLearning

namespace Solver

variable {s s' s'' : Solver} {v : Var} {ls : List Lit} {a : Assignment}

/-- What calls have in common that add no clause. -/
structure Called (s s' : Solver) : Prop where
  inv : s'.Inv
  faithful : Faithful s s'
  varCount_le : s.varCount ≤ s'.varCount
  unsat : s.status = .unsat → s'.status = .unsat

namespace Called

theorem refl (h : s.Inv) : Called s s := ⟨h, Faithful.refl s, Nat.le_refl _, id⟩

theorem trans (h : Called s s') (h' : Called s' s'') : Called s s'' :=
  ⟨h'.inv, h.faithful.trans h'.faithful, Nat.le_trans h.varCount_le h'.varCount_le, fun hs => h'.unsat (h.unsat hs)⟩

theorem of_searched (h : Searched s s') (hs : s.status = .unsat → s'.status = .unsat) : Called s s' :=
  ⟨h.inv, h.faithful, Nat.le_of_eq h.varCount_eq.symm, hs⟩

theorem of_rewritten (hi : s'.Inv) (h : Rewritten s s') : Called s s' :=
  ⟨hi, h.faithful, Nat.le_of_eq h.varCount_eq.symm, h.unsat⟩

end Called

theorem called_of_core (h : s.Inv) (hc : s'.core = s.core) (hs : s'.status = s.status) : Called s s' where
  inv := h.of_core hc
  faithful := Faithful.of_prop (prop_of_core hc ▸ Propagator.Faithful.refl _) (witnesses_of_core hc) (by rw [hs])
  varCount_le := Nat.le_of_eq (congrArg Array.size (vars_of_core hc).symm)
  unsat hu := hs.trans hu

/-! ## Variables -/

theorem allocate_called (h : s.Inv) (info : Variable) (he : info.eliminated = false) :
    Called s (s.allocate info).2 ∧ (s.allocate info).2.varCount = s.varCount + 1 := by
  have hsize : (s.vars.push info).size = s.varCount + 1 := Array.size_push ..
  refine ⟨⟨⟨⟨?_, h.candidates.addVar he, ?_, h.eliminations.addVar he⟩, ?_⟩, ?_, ?_, id⟩, hsize⟩
  · show s.prop.addVar.Inv (s.vars.push info).size
    rw [hsize]
    exact h.prop.addVar
  · show (s.varMarks.extend 1).Clear (s.vars.push info).size
    rw [hsize]
    exact h.varMarks.extend 1
  · show (s.litMarks.extend 2).Clear (2 * (s.vars.push info).size + 1)
    have h2 : 2 * (s.vars.push info).size + 1 = 2 * s.varCount + 1 + 2 := by omega
    rw [h2]
    exact h.litMarks.extend 2
  · refine Faithful.of_prop (Propagator.Faithful.of_fact (fun l => ?_) rfl) rfl Iff.rfl
    show s.prop.trail.addVar.Fact l ↔ _
    rw [Trail.Fact, Trail.isTrue_addVar, Trail.level_addVar, Trail.Fact]
  · exact Nat.le_trans (Nat.le_succ _) (Nat.le_of_eq hsize.symm)

theorem ensureVarCount_keeps {P : Solver → Prop} (hs : P s) (hstep : ∀ t, P t → P (t.allocate {}).2) (count : Nat) :
    P (s.ensureVarCount count) := by
  unfold ensureVarCount
  induction count - s.varCount generalizing s with
  | zero => exact hs
  | succ k ih => exact ih (hstep s hs)

theorem ensureVarCount_called (h : s.Inv) (count : Nat) : Called s (s.ensureVarCount count) :=
  ensureVarCount_keeps (Called.refl h) (fun _ ht => ht.trans (allocate_called ht.inv {} rfl).1) count

theorem modifyVariable_called (h : s.Inv) (hx : v.index < s.varCount) {f : Variable → Variable}
    (hf : ∀ i, (f i).eliminated = i.eliminated) (heap : DecisionHeap)
    (hc : Candidates (s.vars.modify v.index f) s.prop.trail heap) :
    Called s { s.modifyVariable v f with heap := heap } := by
  have hsize : (s.vars.modify v.index f).size = s.varCount := Array.size_modify
  have hel := eliminated_infoOf_modify hx hf
  refine ⟨⟨⟨?_, hc, ?_, ⟨?_, h.eliminations.distinct, ?_, ?_⟩⟩, ?_⟩,
    Faithful.of_prop (Propagator.Faithful.refl _) rfl Iff.rfl, Nat.le_of_eq hsize.symm, id⟩
  · show s.prop.Inv (s.vars.modify v.index f).size
    rw [hsize]
    exact h.prop
  · show s.varMarks.Clear (s.vars.modify v.index f).size
    rw [hsize]
    exact h.varMarks
  · intro w
    exact (hel w).symm ▸ h.eliminations.witnessed
  · intro r l hr hn hl
    exact (hel _).trans (h.eliminations.purged hr hn hl)
  · show WitnessesOrdered (s.vars.modify v.index f).size s.witnesses
    rw [hsize]
    exact h.eliminations.ordered
  · show s.litMarks.Clear (2 * (s.vars.modify v.index f).size + 1)
    rw [hsize]
    exact h.litMarks

theorem checkVar_eq_ok : s.checkVar v = .ok () ↔ v.index < s.varCount := by
  unfold checkVar
  by_cases hx : v.index < s.varCount
  · rw [if_pos hx]
    exact iff_of_true rfl hx
  · rw [if_neg hx]
    exact iff_of_false (fun h => nomatch h) hx

theorem setDecision_called (h : s.Inv) (v : Var) (decision : Bool) : Called s (s.setDecision v decision).2 := by
  unfold setDecision
  split
  · exact Called.refl h
  · next hc =>
    have hx := checkVar_eq_ok.1 hc
    have hel : (s.modifyVariable v ({ · with decision := decision })).hasEliminated v =
        (infoOf s.vars v).eliminated :=
      eliminated_infoOf_modify (f := ({ · with decision := decision })) hx (fun _ => rfl) v
    dsimp only
    rw [hel]
    apply modifyVariable_called (f := ({ · with decision := decision })) h hx (fun _ => rfl) _
    obtain ⟨h1, h2, h3⟩ := h.candidates.valid.setEnabled hx (decision && !(infoOf s.vars v).eliminated)
    refine ⟨by rw [Array.size_modify]; exact h1, ?_, fun {w} hw hu => (h3 w).2 ?_⟩
    · intro w hw
      rw [Array.size_modify] at hw
      show (s.heap.setEnabled v _).isEnabled w = _
      rw [h2, infoOf_modify hx]
      split
      · rfl
      · exact h.candidates.enabled hw
    · change (s.heap.setEnabled v _).isEnabled w = true at hw
      rw [h2] at hw
      split at hw
      · next hwv => exact Or.inr ⟨hwv, hw⟩
      · exact Or.inl (h.candidates.waits hw hu)

theorem setFrozen_called (h : s.Inv) (v : Var) (frozen : Bool) : Called s (s.setFrozen v frozen).2 := by
  unfold setFrozen
  split
  · exact Called.refl h
  · next hc =>
    have hx := checkVar_eq_ok.1 hc
    refine modifyVariable_called (f := ({ · with frozen := frozen })) h hx (fun _ => rfl) s.heap
      ⟨by rw [Array.size_modify]; exact h.candidates.valid, ?_, h.candidates.waits⟩
    intro w hw
    rw [Array.size_modify] at hw
    rw [infoOf_modify hx]
    split
    · next hwv =>
      rw [h.candidates.enabled hw, hwv]
    · exact h.candidates.enabled hw

/-! ## Settings -/

theorem configure_called (h : s.Inv) (u : ConfigUpdate) : Called s (s.configure u).2 := by
  unfold configure
  split
  · exact Called.refl h
  · exact ⟨⟨⟨h.prop, h.candidates.same (h.candidates.valid.withDecay _), h.varMarks, h.eliminations⟩, h.litMarks⟩,
      Faithful.of_prop (Propagator.Faithful.refl _) rfl Iff.rfl, Nat.le_refl _, id⟩

/-! ## Clauses -/

theorem checkClause_eq_ok : s.checkClause ls = .ok () ↔
    ∀ l ∈ ls, l.var.index < s.varCount ∧ (infoOf s.vars l.var).eliminated = false := by
  induction ls with
  | nil => exact iff_of_true rfl fun l hl => nomatch hl
  | cons l ls ih =>
    have hlit : s.checkLit l = .ok () ↔ l.var.index < s.varCount ∧ (infoOf s.vars l.var).eliminated = false := by
      rw [← checkVar_eq_ok, ← Bool.not_eq_true]
      unfold checkLit
      split
      · next hc => exact iff_of_false (fun h => nomatch h) fun h => nomatch hc.symm.trans h.1
      · next hc =>
        rw [and_iff_right hc]
        split
        · next he => exact iff_of_false (fun h => nomatch h) fun h => h he
        · next he => exact iff_of_true rfl he
    rw [checkClause, List.forall_mem_cons, ← hlit, ← ih]
    cases s.checkLit l with
    | error e => exact iff_of_false (fun h => by cases h) fun h => by cases h.1
    | ok u => exact (and_iff_right rfl).symm

theorem addClause_eq_ok (h : ∀ l ∈ ls, l.var.index < s.varCount ∧ s.hasEliminated l.var = false) :
    (s.addClause ls).1 = .ok (s.addClause ls).2.okay := by
  rw [addClause, checkClause_eq_ok.2 h]

/-- The literal because of which a clause is refused. -/
theorem checkClause_eq_error {e : SolverError} (h : s.checkClause ls = .error e) : ∃ l ∈ ls,
    e = .unknownVariable l.var ∧ s.varCount ≤ l.var.index ∨
      e = .eliminatedVariable l.var ∧ s.hasEliminated l.var = true := by
  induction ls with
  | nil => cases h
  | cons l ls ih =>
    rw [checkClause] at h
    cases hl : s.checkLit l with
    | ok u =>
      rw [hl] at h
      obtain ⟨k, hk, hcause⟩ := ih h
      exact ⟨k, List.mem_cons_of_mem l hk, hcause⟩
    | error err =>
      rw [hl] at h
      obtain rfl := Except.error.inj h
      refine ⟨l, List.mem_cons_self, ?_⟩
      unfold checkLit checkVar at hl
      by_cases hx : l.var.index < s.varCount
      · rw [if_pos hx] at hl
        dsimp only at hl
        split at hl
        · next he => exact Or.inr ⟨(Except.error.inj hl).symm, he⟩
        · cases hl
      · rw [if_neg hx] at hl
        exact Or.inl ⟨(Except.error.inj hl).symm, Nat.le_of_not_lt hx⟩

/-- What adding a clause comes to. -/
structure Added (ls : List Lit) (s s' : Solver) : Prop where
  inv : s'.Inv
  modelsAll {a : Assignment} : s.ModelsAll a → Satisfies a ls → s'.ModelsAll a
  admits {m : PartialAssignment} : s'.Admits m → s.Admits m ∧ m.Meets ls
  vars_eq : s'.vars = s.vars
  witnesses_eq : s'.witnesses = s.witnesses
  unsat : s.status = .unsat → s'.status = .unsat

theorem added_of_unsat (h : s.Inv) (hs : s.status = .unsat) : Added ls s s :=
  ⟨h, fun ha => absurd hs ha.1, fun ha => absurd hs ha.1, rfl, rfl, id⟩

theorem satisfies_distinct : Satisfies a (Lit.distinct ls) ↔ Satisfies a ls := by
  unfold Satisfies
  simp only [Lit.mem_distinct]

theorem not_isTrue_and_nodup {t : Trail}
    (hc : ¬ (Lit.hasOpposites (Lit.distinct ls) || (Lit.distinct ls).any t.isTrue) = true) :
    (∀ l ∈ Lit.distinct ls, ¬ t.isTrue l) ∧ ((Lit.distinct ls).map Lit.var).Nodup := by
  rw [Bool.or_eq_true, not_or] at hc
  exact ⟨fun l hm ht => hc.2 (List.any_eq_true.2 ⟨l, hm, ht⟩),
    Lit.distinct_vars (Lit.distinct_ascending ls) (Bool.eq_false_iff.2 hc.1)⟩

theorem load_stored (h : s.Inv) (hs : s.status ≠ .unsat)
    (hl : ∀ l ∈ ls, l.var.index < s.varCount ∧ (infoOf s.vars l.var).eliminated = false) :
    Stored [Lit.distinct ls] s.rewind (s.load ls) := by
  have h1 := rewind_searched h
  have h0 := currentLevel_rewind s
  have hvars : s.rewind.vars = s.vars := h1.vars_eq
  have hi : ∀ l ∈ Lit.distinct ls, l.var.index < s.rewind.varCount := fun l hm =>
    h1.varCount_eq ▸ (hl l (Lit.mem_distinct.1 hm)).1
  have hel : ∀ l ∈ Lit.distinct ls, (infoOf s.rewind.vars l.var).eliminated = false := fun l hm =>
    hvars ▸ (hl l (Lit.mem_distinct.1 hm)).2
  unfold load
  rw [if_neg hs]
  dsimp only
  split
  · next hc =>
    refine Stored.of_admits h1.inv.toSound fun m ha => PartialAssignment.meetsAll_singleton.2 ?_
    rcases Bool.or_eq_true_iff.1 hc with ho | ht
    · obtain ⟨l, hm, hn⟩ := Lit.exists_opposites ho
      exact PartialAssignment.meets_of_mem_of_neg_mem hm hn
    · obtain ⟨l, hm, ht⟩ := List.any_eq_true.1 ht
      exact ⟨l, hm, ha.2.fact ((h1.inv.prop.trail.fact_iff h0).2 ht)⟩
  · next hc =>
    obtain ⟨hn, hv⟩ := not_isTrue_and_nodup hc
    split
    · next hks => exact stored_empty h1.inv.toSound h0 hks rfl
    · next l hks => exact stored_fact h1.inv.toSound h0 hks hn hi rfl
    · next l k rest hks =>
      exact stored_clause h1.inv.toSound h0 hks hn hi hv hel (c := { first := l, second := k, others := rest }) rfl rfl
        rfl

theorem load_of_unsat (hs : s.status = .unsat) : s.load ls = s := by
  unfold load
  rw [if_pos hs]

theorem load_added (h : s.Inv)
    (hl : ∀ l ∈ ls, l.var.index < s.varCount ∧ (infoOf s.vars l.var).eliminated = false) : Added ls s (s.load ls) := by
  by_cases hs : s.status = .unsat
  · rw [load_of_unsat hs]
    exact added_of_unsat h hs
  · have h1 := rewind_searched h
    have hst := load_stored h hs hl
    obtain ⟨p, st, he⟩ := hst.frame
    refine ⟨⟨hst.sound, ?_⟩, fun ha hs => ?_, fun {a} ha => ?_, ?_, ?_, fun hs' => absurd hs' hs⟩
    · rw [he]
      exact h1.inv.litMarks
    · exact hst.modelsAll (h1.faithful.modelsAll ha) (satisfiesAll_singleton.2 (satisfies_distinct.2 hs))
    · obtain ⟨h2, h3⟩ := hst.admits ha
      exact ⟨h1.admits h2, (PartialAssignment.meetsAll_singleton.1 h3).mono fun _ => Lit.mem_distinct.1⟩
    · rw [he]
      exact h1.vars_eq
    · rw [he]
      exact h1.witnesses_eq

theorem currentLevel_load (hs : s.status ≠ .unsat) : (s.load ls).prop.trail.currentLevel = 0 := by
  have h0 := currentLevel_rewind s
  unfold load
  rw [if_neg hs]
  dsimp only
  split
  · exact h0
  · split <;> exact h0

theorem propagateFacts_called (h : s.Inv) (h0 : s.status ≠ .unsat → s.prop.trail.currentLevel = 0) :
    Called s s.propagateFacts ∧ s.propagateFacts.vars = s.vars ∧ s.propagateFacts.witnesses = s.witnesses := by
  unfold propagateFacts
  split
  · exact ⟨Called.refl h, rfl, rfl⟩
  · next hs =>
    obtain ⟨h1, hp⟩ := propagate_searched h
    have hst : s.propagate.2.status = s.status := rfl
    generalize s.propagate = out at h1 hp hst
    obtain ⟨conflict, s₁⟩ := out
    cases conflict with
    | none => exact ⟨Called.of_searched h1 fun h => hst.trans h, h1.vars_eq, h1.witnesses_eq⟩
    | some r =>
      refine ⟨⟨⟨⟨h1.inv.prop, h1.inv.candidates, h1.inv.varMarks, h1.inv.eliminations⟩, h1.inv.litMarks⟩, ?_,
        Nat.le_of_eq h1.varCount_eq.symm, fun _ => rfl⟩, h1.vars_eq, h1.witnesses_eq⟩
      refine h1.faithful.trans (Faithful.of_unsat ?_ rfl rfl)
      intro a ha
      exact (hp.conflict rfl).not_modelsAll h1.inv.prop.toLinked (hp.advance.currentLevel_eq.trans (h0 hs)) ha.2

/-- A clause that is accepted is added, and nothing else happens. -/
theorem addClause_ok (h : s.Inv) {b : Bool} (hok : s.addClause ls = (.ok b, s')) :
    (∀ l ∈ ls, l.var.index < s.varCount ∧ (infoOf s.vars l.var).eliminated = false) ∧ Added ls s s' ∧ b = s'.okay := by
  unfold addClause at hok
  split at hok
  · cases (Prod.mk.inj hok).1
  · next hc =>
    have hl := checkClause_eq_ok.1 hc
    have h1 := load_added h hl
    have h0 : (s.load ls).status ≠ .unsat → (s.load ls).prop.trail.currentLevel = 0 := fun hs =>
      currentLevel_load fun hu => hs (h1.unsat hu)
    obtain ⟨h2, h3, h4⟩ := propagateFacts_called h1.inv h0
    obtain ⟨hb, rfl⟩ := Prod.mk.inj hok
    refine ⟨hl, ⟨h2.inv, fun ha hs => h2.faithful.modelsAll (h1.modelsAll ha hs), fun {m} ha => h1.admits ?_,
      h3.trans h1.vars_eq, h4.trans h1.witnesses_eq, fun hs => h2.unsat (h1.unsat hs)⟩, (Except.ok.inj hb).symm⟩
    obtain ⟨ws, hw, hm⟩ := h2.faithful.admits
    rw [h4] at hw
    obtain rfl := List.self_eq_append_left.1 hw
    exact hm m ha

theorem addClause_error {e : SolverError} (he : s.addClause ls = (.error e, s')) : s' = s := by
  unfold addClause at he
  split at he
  · exact (Prod.mk.inj he).2.symm
  · cases (Prod.mk.inj he).1

/-! ## Simplification and search -/

theorem simplify_called (h : s.Inv) : Called s s.simplify.2 := by
  have h1 := rewind_searched h
  obtain ⟨h2, h3⟩ := simplifyFormula_spec h1.inv (currentLevel_rewind s) false
  refine (Called.of_searched h1 ?_).trans (Called.of_rewritten h2 h3)
  intro hs
  rw [status_rewind, hs]
  rfl

theorem eliminate_called (h : s.Inv) (turnOff : Bool) : Called s (s.eliminate turnOff).2 := by
  have h1 := rewind_searched h
  obtain ⟨h2, h3⟩ := simplifyFormula_spec h1.inv (currentLevel_rewind s) true
  have h4 : Called s (s.rewind.simplifyFormula true) := by
    refine (Called.of_searched h1 ?_).trans (Called.of_rewritten h2 h3)
    intro hs
    rw [status_rewind, hs]
    rfl
  unfold eliminate
  cases turnOff with
  | false => exact h4
  | true => exact h4.trans (called_of_core h4.inv rfl rfl)

/-- The state in which a solve call begins to search. -/
def searchStart (s : Solver) (simplifyFirst turnOff : Bool) : Solver :=
  let s := if simplifyFirst then (s.eliminate turnOff).2 else s
  { s.rewind with schedule := s.rewind.schedule.startSearch }

theorem searchStart_called (h : s.Inv) (simplifyFirst turnOff : Bool) :
    Called s (s.searchStart simplifyFirst turnOff) ∧ (s.searchStart simplifyFirst turnOff).status ≠ .sat := by
  have h1 : Called s (if simplifyFirst then (s.eliminate turnOff).2 else s) := by
    cases simplifyFirst with
    | false => exact Called.refl h
    | true => exact eliminate_called h turnOff
  unfold searchStart
  generalize (if simplifyFirst = true then (s.eliminate turnOff).2 else s) = s₁ at h1
  have h2 := rewind_searched h1.inv
  have h3 : Called s₁ s₁.rewind := Called.of_searched h2 fun hs => by
    rw [status_rewind, hs]
    rfl
  refine ⟨(h1.trans h3).trans (called_of_core h2.inv rfl rfl), ?_⟩
  show (if s₁.status = .sat then Status.unknown else s₁.status) ≠ .sat
  split
  · exact fun h => by cases h
  · next hs => exact hs

theorem searchFuel_of_unsat {fuel : Nat} (hs : s.status = .unsat) : searchFuel fuel s = s := by
  cases fuel with
  | zero => rfl
  | succ fuel =>
    have hstep : s.step = (false, s) := by
      unfold step
      rw [if_pos (Or.inl (by rw [hs]; exact fun h => by cases h))]
    rw [searchFuel, hstep]

theorem search_called (h : s.Inv) (simplifyFirst turnOff : Bool) :
    Called s (s.searchStart simplifyFirst turnOff).search ∧ (s.searchStart simplifyFirst turnOff).search.Settled := by
  obtain ⟨h1, h2⟩ := searchStart_called h simplifyFirst turnOff
  obtain ⟨h3, h4⟩ := search_searched h1.inv fun hs => absurd hs h2
  refine ⟨h1.trans (Called.of_searched h3 ?_), h4⟩
  intro hs
  rw [search, searchFuel_of_unsat hs]
  exact hs

theorem solveWith_eq (s : Solver) (simplifyFirst turnOff : Bool) :
    s.solveWith simplifyFirst turnOff = (s.searchStart simplifyFirst turnOff).search.conclude := rfl

theorem conclude_called (h : s.Inv) : Called s s.conclude.2 := by
  unfold conclude
  dsimp only
  split
  · exact called_of_core h rfl rfl
  · exact called_of_core h rfl rfl

theorem solveWith_called (h : s.Inv) (simplifyFirst turnOff : Bool) :
    Called s (s.solveWith simplifyFirst turnOff).2 := by
  have h1 := (search_called h simplifyFirst turnOff).1
  exact h1.trans (conclude_called h1.inv)

theorem verdict_eq_unsat : s.verdict = .unsat ↔ s.status = .unsat := by
  unfold verdict
  cases s.status <;> simp

theorem verdict_eq_sat : s.verdict = .sat ↔ s.status = .sat := by
  unfold verdict
  cases s.status <;> simp

theorem conclude_sat (hs : s.status = .sat) : s.conclude.2.vars = s.vars ∧ s.conclude.2.lastVerdict = some .sat ∧
    s.conclude.2.model = extendModel s.witnesses s.prop.trail.values := by
  have hv := verdict_eq_sat.2 hs
  unfold conclude
  dsimp only
  rw [if_pos hv, hv]
  exact ⟨rfl, rfl, rfl⟩

theorem okay_eq_false : s.okay = false ↔ s.status = .unsat := by
  unfold okay
  rw [bne_eq_false_iff_eq]

theorem inv_of_empty (hp : s.prop = {}) (hv : s.vars = #[]) (hw : s.witnesses = []) (hl : s.litMarks = ⟨#[false]⟩)
    (hm : s.varMarks = {}) (hh : DecisionHeap.Same 0 {} s.heap) : s.Inv where
  prop := by
    rw [hp, varCount, hv]
    exact Propagator.inv_empty
  candidates := by
    rw [hp, hv]
    refine ⟨hh.valid, fun hx => absurd hx (Nat.not_lt_zero _), fun he _ => ?_⟩
    rw [hh.isEnabled_eq, DecisionHeap.isEnabled, getD_of_size_le (Nat.zero_le _)] at he
    cases he
  varMarks := by
    rw [hm, varCount, hv]
    exact VarMarks.clear_empty
  eliminations := by
    rw [hp, hv, hw]
    refine ⟨?_, List.nodup_nil, fun hr => absurd (Database.lt_of_isLive hr) (Nat.not_lt_zero _), trivial⟩
    intro v
    rw [infoOf, getD_of_size_le (Nat.zero_le _)]
    apply iff_of_false (fun h => by cases h)
    rintro ⟨w, hw, -⟩
    cases hw
  litMarks := by
    rw [hl, varCount, hv]
    exact Marks.clear_one

theorem start_inv (counting : Counting) (ties : TieOrder) : (start counting ties).Inv :=
  inv_of_empty rfl rfl rfl rfl rfl (DecisionHeap.Same.refl DecisionHeap.valid_empty)

theorem reset_inv (s : Solver) : s.reset.Inv :=
  inv_of_empty rfl rfl rfl rfl rfl (DecisionHeap.valid_empty.withDecay _)

end Solver

end ClauseLearning
