import ClauseLearning.Proofs.Moments

/-!
# Two watched literals

* `Propagator.TwoWatched` : each clause is watched through its first two literals, and a watched literal that is false
  and propagated was preceded by a true one, level by level;
* `Propagator.TwoWatched.thinned`, `Propagator.Inv.twoWatched` : deletions keep it, and the invariant implies it;
* `twoWatched_throughout` : it holds at every moment of a run in which the watch lists are in use, and stays true
  whatever is undone, learned or deleted, and when the lists are built anew.
-/

namespace ClauseLearning

namespace Propagator

variable {p : Propagator} {n : Nat} {d : Database}

/-- Each clause is watched through its first two literals. -/
structure TwoWatched (p : Propagator) : Prop where
  /-- There is one watch in each of the two lists, and none in the others. -/
  count {r : ClauseRef} (q : Lit) : p.clauses.isLive r →
    countRef r (p.watching q) = if q = -(p.clauses.get r).first ∨ q = -(p.clauses.get r).second then 1 else 0
  /-- The blocking literal of a watch is another literal of the clause. -/
  blocking {q : Lit} {w : Watch} : w ∈ p.watching q → p.clauses.isLive w.ref →
    w.blocking ∈ (p.clauses.get w.ref).lits ∧ w.blocking ≠ -q
  /-- A watched literal is not false once that is propagated, unless a literal of no higher level is true. -/
  guarded {r : ClauseRef} {x : Lit} : p.clauses.isLive r →
    x = (p.clauses.get r).first ∨ x = (p.clauses.get r).second → p.trail.isFalse x →
      (∀ i, p.trail.At i (-x) → i < p.trail.head) →
        ∃ y ∈ (p.clauses.get r).lits, p.trail.isTrue y ∧ p.trail.level y.var ≤ p.trail.level x.var

/-- Watches on deleted clauses do not matter. -/
theorem TwoWatched.thinned (h : p.TwoWatched) (ht : Database.Thinned p.clauses d) :
    TwoWatched { p with clauses := d } where
  count {r} q hr := by
    have he := ht.lits_eq hr
    show countRef r (p.watching q) = if q = -(d.get r).first ∨ q = -(d.get r).second then 1 else 0
    rw [first_eq_of_lits_eq he, second_eq_of_lits_eq he]
    exact h.count q (ht.isLive hr)
  blocking {q w} hw hr := by
    show w.blocking ∈ (d.get w.ref).lits ∧ w.blocking ≠ -q
    rw [ht.lits_eq hr]
    exact h.blocking hw (ht.isLive hr)
  guarded {r x} hr hx hf hp := by
    have he := ht.lits_eq hr
    change x = (d.get r).first ∨ x = (d.get r).second at hx
    rw [first_eq_of_lits_eq he, second_eq_of_lits_eq he] at hx
    show ∃ y ∈ (d.get r).lits, _
    rw [he]
    exact h.guarded (ht.isLive hr) hx hf hp

theorem Inv.twoWatched (h : p.Inv n) (he : p.watches.enabled = true) : p.TwoWatched where
  count {r} q hr := by
    rw [(h.watched he).count q hr]
    simp only [List.not_mem_nil, not_false_eq_true, true_and, Clause.WatchedBy]
  blocking hw hr := (h.watched he).blocking hw hr
  guarded {r x} hr hx hf hp := by
    have hm : x ∈ (p.clauses.get r).lits := by
      rcases hx with rfl | rfl
      · exact Clause.first_mem _
      · exact Clause.second_mem _
    obtain ⟨i, hi⟩ := (h.fits hr).at_of_isFalse h.trail hm hf
    exact h.guarded he hr x i hx hi (hp i hi)

end Propagator

/-! ## The moments of a run -/

variable {counting : Counting} {s : Solver}

/-- At every moment of a run in which the watch lists are in use, each clause is watched through its first two literals.
That outlasts backtracking to any level and the deletion of any clauses. It is so after propagation and after learning
from a conflict that propagation finds, and whenever the lists are built anew. -/
theorem twoWatched_throughout (h : Moment counting s) :
    (s.prop.watches.enabled = true → s.prop.TwoWatched ∧ (∀ m, (s.backtrack m).prop.TwoWatched) ∧
      ∀ d, Database.Thinned s.prop.clauses d → (s.withClauses d).prop.TwoWatched) ∧
      s.prop.enableWatches.TwoWatched ∧ s.propagate.2.prop.TwoWatched ∧
        ∀ r, s.propagate.1 = some r → (s.propagate.2.learn r).prop.TwoWatched := by
  have hi := h.inv
  obtain ⟨hb, -, heb⟩ := Propagator.enableWatches_spec hi.prop
  obtain ⟨hs, hp⟩ := Solver.propagate_searched hi
  refine ⟨fun he => ⟨hi.prop.twoWatched he, fun m => ?_, fun d ht => ?_⟩, hb.twoWatched heb,
    hp.inv.twoWatched hp.enabled, fun r hr => ?_⟩
  · exact (hi.prop.backtrack m).twoWatched he
  · exact (hi.prop.twoWatched he).thinned ht
  · have hl := Solver.learn_spec hs.inv hp.enabled (hp.conflict hr)
    exact hl.searched.inv.prop.twoWatched (hl.enabled_eq.trans hp.enabled)

/-- The watch lists are in use after a clause was added, and still after the search decided. -/
theorem twoWatched_throughout_equivalence :
    equivalenceSolver.prop.watches.enabled = true ∧ equivalenceSolver.prop.TwoWatched ∧
      (equivalenceSolver.solve.2.backtrack 0).prop.TwoWatched := by
  have h1 := (twoWatched_throughout (.call reachable_equivalence)).1 (by decide +kernel)
  have h2 := (twoWatched_throughout (.call (reachable_equivalence.call .solve))).1 (by decide +kernel)
  exact ⟨by decide +kernel, h1.1, h2.2.1 0⟩

end ClauseLearning
