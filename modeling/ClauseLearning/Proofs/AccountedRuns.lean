import ClauseLearning.Proofs.StockRuns

/-!
# The accounts are right throughout

* `Moment.changes` : the clauses at every moment of a run come from the empty database by `Database.Changes`;
* `accounted_throughout` : so their accounts are right.
-/

namespace ClauseLearning

variable {counting : Counting} {s : Solver}

/-- The clauses of a run come from the empty database by the operations on it. -/
theorem Moment.changes (h : Moment counting s) : ({} : Database).Changes s.prop.clauses := h.steps.changes

/-- **The accounts of the clause database are right throughout.** Between calls and at every other moment of a run, the
clauses that are not deleted are listed once, in the list of all and in that of their tier, their words do not overlap
and with the garbage add up to those in use, the counts are those of the tiers, and no clause is marked. The clauses of
a run come from the empty database by adding, deleting, reordering, shortening, moving to other tiers, reductions,
rescaling of activities and compaction, and each of these keeps the accounts. -/
theorem accounted_throughout (counting : Counting) :
    (∀ s, Moment counting s → ({} : Database).Changes s.prop.clauses ∧ s.prop.clauses.Accounted) ∧
      ∀ d e : Database, d.Accounted → d.Change e → e.Accounted :=
  ⟨fun _ h => ⟨h.changes, h.changes.accounted Database.accounted_empty⟩, fun _ _ h hc => hc.accounted h⟩

/-- Two clauses of three literals and a learned one of two take 17 words. When the learned clause is deleted, its five
words are garbage. -/
theorem accounted_throughout_fork : ∃ s, Moment .words s ∧ s.prop.clauses.Accounted ∧ s.prop.clauses.words = 17 ∧
    s.prop.clauses.isLive 2 ∧ (s.prop.clauses.delete 2).Accounted ∧ (s.prop.clauses.delete 2).garbage = 5 := by
  have hgo : (forkSolver.searchStart false false).step.1 = true := by decide +kernel
  have hwords : (forkSolver.searchStart false false).step.2.prop.clauses.words = 17 := by decide +kernel
  have hlive : (forkSolver.searchStart false false).step.2.prop.clauses.isLive 2 = true := by decide +kernel
  have hgarbage : ((forkSolver.searchStart false false).step.2.prop.clauses.delete 2).garbage = 5 := by
    decide +kernel
  generalize hs : (forkSolver.searchStart false false).step = out at hgo hwords hlive hgarbage
  obtain ⟨goOn, s⟩ := out
  obtain rfl : goOn = true := hgo
  have hm : Moment .words s := .search reachable_fork (.step .start hs)
  obtain ⟨hruns, hchange⟩ := accounted_throughout .words
  have ha := (hruns s hm).2
  exact ⟨s, hm, ha, hwords, hlive, hchange _ _ ha (.delete hlive), hgarbage⟩

end ClauseLearning
