import ClauseLearning.Proofs.Propagation

/-!
# Models of the stored clauses

* `Propagator.Admits` : a partial assignment under which no fact and no irredundant clause is false;
* `Propagator.Models` : an assignment that agrees with all facts and satisfies all irredundant clauses;
* `Propagator.ModelsAll` : the same with learned clauses;
* `Propagator.Linked.holds_fact` : facts follow from the clauses and from the facts without reasons, so propagation
  changes no models (`Propagator.Advance.modelsAll`, `Propagator.Advance.admits`).
-/

namespace ClauseLearning.Propagator

variable {p q : Propagator} {n : Nat} {a : Assignment} {m : PartialAssignment} {l x : Lit} {r : ClauseRef}

/-- A partial assignment under which no fact and no irredundant clause is false. -/
structure Admits (p : Propagator) (m : PartialAssignment) : Prop where
  fact {l : Lit} : p.trail.Fact l → m.Allows l
  clause {r : ClauseRef} : p.clauses.isLive r → (p.clauses.get r).learned = false → m.Meets (p.clauses.get r).lits

/-- An assignment that agrees with all facts and satisfies all irredundant clauses. -/
abbrev Models (p : Propagator) (a : Assignment) : Prop := p.Admits a.toPartial

/-- An assignment that agrees with all facts and satisfies all clauses. -/
structure ModelsAll (p : Propagator) (a : Assignment) : Prop where
  fact {l : Lit} : p.trail.Fact l → l.Holds a
  clause {r : ClauseRef} : p.clauses.isLive r → Satisfies a (p.clauses.get r).lits

theorem ModelsAll.not_holds (h : p.ModelsAll a) (hf : p.trail.isFalse l) (h0 : p.trail.level l.var = 0) :
    ¬ l.Holds a := by
  rw [← Lit.holds_neg]
  exact h.fact ⟨Trail.isFalse_iff_neg.1 hf, (Lit.var_neg l).symm ▸ h0⟩

theorem holds_first {c : Clause} (h : Satisfies a c.lits) (hf : ∀ x ∈ c.lits.drop 1, ¬ x.Holds a) :
    c.first.Holds a := by
  obtain ⟨x, hx, ha⟩ := h
  rcases List.mem_cons.1 hx with rfl | hx
  · exact ha
  · exact absurd ha (hf x hx)

/-- Facts with reasons follow from the clauses and the facts without reasons. -/
theorem Linked.holds_fact (h : p.Linked n) (hc : ∀ r, p.clauses.isLive r → Satisfies a (p.clauses.get r).lits)
    (hu : ∀ l, p.trail.Fact l → p.trail.reason l.var = .unit → l.Holds a) (hl : p.trail.Fact l) : l.Holds a := by
  -- by induction on positions, as the other literals of a reason became false before
  have hat (i : Nat) : ∀ l, p.trail.At i l → p.trail.level l.var = 0 → l.Holds a := by
    induction i using Nat.strongRecOn with
    | ind i ih =>
      intro l hi h0
      cases hr : p.trail.reason l.var with
      | unit => exact hu l ⟨h.trail.isTrue hi, h0⟩ hr
      | clause r =>
        obtain ⟨h1, h2, h3⟩ := h.clause_reason hi hr
        rw [← h2]
        apply holds_first (hc r h1)
        intro x hx
        obtain ⟨j, hj, hj'⟩ := h3 x hx
        rw [← Lit.holds_neg]
        exact ih j hj _ hj' (Nat.le_zero.1 (h0 ▸ h.trail.level_mono hj' hi (Nat.le_of_lt hj)))
  rcases h.trail.placed hl.1 with ⟨i, hi⟩ | ⟨-, hr⟩
  · exact hat i l hi hl.2
  · exact hu l hl hr

namespace Advance

theorem fact (h : Advance p q) (hl : p.trail.Fact l) : q.trail.Fact l :=
  ⟨h.isTrue_mono hl.1, (h.level_eq (Trail.isAssigned_of_isTrue hl.1)).trans hl.2⟩

theorem satisfies_iff (h : Advance p q) (r : ClauseRef) :
    Satisfies a (q.clauses.get r).lits ↔ Satisfies a (p.clauses.get r).lits := by
  unfold Satisfies
  simp only [(h.reordered r).mem_iff]

/-- What propagation assigns on level 0 follows. -/
theorem modelsAll (h : Advance p q) (hq : q.Linked n) (ha : p.ModelsAll a) : q.ModelsAll a := by
  have hc (r : ClauseRef) (hr : q.clauses.isLive r) : Satisfies a (q.clauses.get r).lits :=
    (h.satisfies_iff r).2 (ha.clause (h.isLive_eq r ▸ hr))
  refine ⟨fun {l} hl => hq.holds_fact hc ?_ hl, fun {r} hr => hc r hr⟩
  intro l hl hu
  rcases h.new hl.1 with hp | ⟨r, hr⟩
  · exact ha.fact ⟨hp, (h.level_eq (Trail.isAssigned_of_isTrue hp)).symm.trans hl.2⟩
  · rw [hu] at hr
    cases hr

theorem admits (h : Advance p q) (hm : q.Admits m) : p.Admits m where
  fact hl := hm.fact (h.fact hl)
  clause {r} hr hn :=
    (hm.clause ((h.isLive_eq r).symm ▸ hr) ((h.reordered r).learned_eq.trans hn)).mono fun _ =>
      (h.reordered r).mem_iff.1

end Advance

theorem Conflict.not_modelsAll (hc : p.Conflict r) (h : p.Linked n) (h0 : p.trail.currentLevel = 0) :
    ¬ p.ModelsAll a := by
  intro ha
  obtain ⟨x, hx, hh⟩ := ha.clause hc.isLive
  refine ha.not_holds (hc.isFalse hx) ?_ hh
  have := h.trail.level_le_of_isTrue (Trail.isFalse_iff_neg.1 (hc.isFalse hx))
  rw [Lit.var_neg] at this
  omega

end ClauseLearning.Propagator
