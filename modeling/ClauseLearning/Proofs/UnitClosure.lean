import ClauseLearning.Proofs.Moments

/-!
# Propagation computes the unit closure

* `Propagator.UnitClosure` : the least set of literals that holds all true ones and, with the opposites of all other
  literals of a clause, the one that is left;
* `Propagator.Propagated.unitClosure` : propagation makes no other literals true;
* `Propagator.Inv.isTrue_of_unit` : after propagation no clause asks for more;
* `propagate_eq_unitClosure` : at every moment of a run, propagation ends with the closure, or finds a clause that the
  closure falsifies.
-/

namespace ClauseLearning

namespace Propagator

variable {p : Propagator} {n : Nat} {l x : Lit} {r : ClauseRef} {out : Option ClauseRef × Propagator}

/-- What unit propagation makes true, clause by clause and in any order. -/
inductive UnitClosure (p : Propagator) : Lit → Prop
  | start {l : Lit} : p.trail.isTrue l → UnitClosure p l
  | unit {r : ClauseRef} {l : Lit} : p.clauses.isLive r → l ∈ (p.clauses.get r).lits →
    (∀ k ∈ (p.clauses.get r).lits, k ≠ l → UnitClosure p (-k)) → UnitClosure p l

/-! ## Nothing more becomes true -/

theorem Propagated.unitClosure_of_at (h : Propagated n p out) (i : Nat) :
    ∀ l, out.2.trail.At i l → p.UnitClosure l := by
  -- by induction on positions, as the other literals of a reason became false before
  induction i using Nat.strongRecOn with
  | ind i ih =>
    intro l hi
    rcases h.advance.new (h.inv.trail.isTrue hi) with hl | ⟨r, hr⟩
    · exact .start hl
    · obtain ⟨h1, h2, h3⟩ := h.inv.clause_reason hi hr
      have hmem {k : Lit} : k ∈ (out.2.clauses.get r).lits ↔ k ∈ (p.clauses.get r).lits :=
        (h.advance.reordered r).mem_iff
      refine .unit (r := r) (h.advance.isLive_eq r ▸ h1) (hmem.1 (h2 ▸ Clause.first_mem _)) ?_
      intro k hk hkl
      rcases List.mem_cons.1 (hmem.2 hk) with hkf | hk
      · exact absurd (hkf.trans h2) hkl
      · obtain ⟨j, hj, hj'⟩ := h3 k hk
        exact ih j hj _ hj'

/-- True literals were true before or follow by the unit rule. -/
theorem Propagated.unitClosure (h : Propagated n p out) (hl : out.2.trail.isTrue l) : p.UnitClosure l := by
  rcases h.inv.trail.placed hl with ⟨i, hi⟩ | ⟨-, hu⟩
  · exact h.unitClosure_of_at i l hi
  · rcases h.advance.new hl with hp | ⟨r, hr⟩
    · exact .start hp
    · rw [hu] at hr
      cases hr

theorem Propagated.unitClosure_neg (h : Propagated n p out) (hl : out.2.trail.isFalse l) : p.UnitClosure (-l) :=
  h.unitClosure (Trail.isFalse_iff_neg.1 hl)

/-! ## Nothing is missing -/

section Complete

variable (h : p.Inv n) (he : p.watches.enabled = true) (hc : p.Complete) (hr : p.clauses.isLive r)
include h he hc hr

/-- After propagation a literal is true if all other literals of a clause are false. -/
theorem Inv.isTrue_of_unit (hf : ∀ k ∈ (p.clauses.get r).lits, k ≠ x → p.trail.isFalse k) : p.trail.isTrue x := by
  refine Classical.byContradiction fun hnx => ?_
  have hn : ∀ l ∈ (p.clauses.get r).lits, ¬ p.trail.isTrue l := by
    intro l hl ht
    by_cases hlx : l = x
    · exact hnx (hlx ▸ ht)
    · exact Trail.not_isFalse_of_isTrue ht (hf l hl hlx)
  -- one of the two watched literals is not `x`
  have hwatched {l : Lit} (hl : l = (p.clauses.get r).first ∨ l = (p.clauses.get r).second)
      (hm : l ∈ (p.clauses.get r).lits) (hlx : l ≠ x) : False :=
    h.not_isAssigned_watched he hc hr hn hl hm (Trail.isAssigned_of_isFalse (hf l hm hlx))
  by_cases hfx : (p.clauses.get r).first = x
  · exact hwatched (Or.inr rfl) (Clause.second_mem _) fun hsx =>
      (h.fits hr).first_ne_second (hfx.trans hsx.symm)
  · exact hwatched (Or.inl rfl) (Clause.first_mem _) hfx

end Complete

theorem Propagated.isTrue_of_unitClosure (h : Propagated n p out) (hn : out.1 = none) (hl : p.UnitClosure l) :
    out.2.trail.isTrue l := by
  induction hl with
  | start hl => exact h.advance.isTrue_mono hl
  | @unit r l hr _ _ ih =>
    have hmem {k : Lit} : k ∈ (out.2.clauses.get r).lits ↔ k ∈ (p.clauses.get r).lits :=
      (h.advance.reordered r).mem_iff
    refine h.inv.isTrue_of_unit h.enabled (h.complete hn) ((h.advance.isLive_eq r).symm ▸ hr) ?_
    intro k hk hkl
    exact Trail.isFalse_iff_neg.2 (ih k (hmem.1 hk) hkl)

end Propagator

/-! ## The moments of a run -/

variable {counting : Counting} {s : Solver}

/-- Propagation is unit propagation: it leaves the clauses as they are but for the order of their literals. If it finds
no conflict, all true literals are propagated, they are the unit closure, and no clause is false. If it finds one, all
literals of that clause are false, and false in the unit closure too. -/
theorem propagate_eq_unitClosure (h : Moment counting s) :
    (∀ r, s.propagate.2.prop.clauses.isLive r = s.prop.clauses.isLive r ∧
      (s.propagate.2.prop.clauses.get r).lits.Perm (s.prop.clauses.get r).lits) ∧
      (s.propagate.1 = none → (∀ l, s.propagate.2.prop.trail.isTrue l = true ↔ s.prop.UnitClosure l) ∧
        s.propagate.2.prop.trail.pending? = none ∧
          ∀ r, s.prop.clauses.isLive r → ∃ l ∈ (s.prop.clauses.get r).lits, ¬ s.propagate.2.prop.trail.isFalse l) ∧
      ∀ r, s.propagate.1 = some r → s.prop.clauses.isLive r ∧
        (∀ l ∈ (s.prop.clauses.get r).lits, s.propagate.2.prop.trail.isFalse l) ∧
          ∀ l ∈ (s.prop.clauses.get r).lits, s.prop.UnitClosure (-l) := by
  have hp : Propagator.Propagated s.varCount s.prop (s.propagate.1, s.propagate.2.prop) :=
    (Solver.propagate_searched h.inv).2
  generalize s.propagate.1 = conflict at hp ⊢
  generalize s.propagate.2.prop = q at hp ⊢
  have hlive (r : ClauseRef) : q.clauses.isLive r = s.prop.clauses.isLive r := hp.advance.isLive_eq r
  have hmem (r : ClauseRef) {l : Lit} : l ∈ (q.clauses.get r).lits ↔ l ∈ (s.prop.clauses.get r).lits :=
    (hp.advance.reordered r).mem_iff
  refine ⟨fun r => ⟨hlive r, (hp.advance.reordered r).perm⟩, fun hn => ⟨fun l => ?_, ?_, fun r hr => ?_⟩,
    fun r hr => ?_⟩
  · exact ⟨hp.unitClosure, hp.isTrue_of_unitClosure hn⟩
  · exact Array.getElem?_eq_none_iff.2 (Nat.le_of_eq (hp.complete hn).symm)
  · obtain ⟨l, hl, hnf⟩ := hp.inv.exists_not_isFalse hp.enabled (hp.complete hn) ((hlive r).symm ▸ hr)
    exact ⟨l, (hmem r).1 hl, hnf⟩
  · have hc := hp.conflict hr
    have hfalse : ∀ l ∈ (s.prop.clauses.get r).lits, q.trail.isFalse l := fun l hl => hc.isFalse ((hmem r).2 hl)
    exact ⟨hlive r ▸ hc.isLive, hfalse, fun l hl => hp.unitClosure_neg (hfalse l hl)⟩

/-- A fact about one of two equivalent variables is propagated to the other one. -/
theorem propagate_eq_unitClosure_equivalence :
    (equivalenceSolver.load [⟨0⟩]).prop.trail.isTrue ⟨2⟩ = false ∧
      (equivalenceSolver.load [⟨0⟩]).prop.UnitClosure ⟨2⟩ := by
  have hc : equivalenceSolver.checkClause [⟨0⟩] = .ok () := Solver.checkClause_eq_ok.2 (by decide +kernel)
  obtain ⟨-, h, -⟩ := propagate_eq_unitClosure (@Moment.load _ _ _ _ [] 0 _ reachable_equivalence rfl hc)
  refine ⟨by decide +kernel, ((h ?_).1 ⟨2⟩).1 ?_⟩
  · decide +kernel
  · decide +kernel

end ClauseLearning
