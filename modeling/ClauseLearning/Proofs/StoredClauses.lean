import ClauseLearning.Proofs.ImplicationGraph

/-!
# Stored clauses are free of facts

A literal of level 0 that left the trail is not propagated again, so no stored clause may mention it. The watch lists
can be built anew at any time for the same reason: whatever is assigned in a clause is still to be propagated.

* `Propagator.FactFree` : the stored clauses are well formed, and their assigned literals are on the trail;
* `Propagator.Queued` : nothing but facts is assigned, and those in clauses are still to be propagated;
* `Propagator.Cleaned` : just the unassigned parts of clauses are left, and at least two literals of each;
* `storedClauses_throughout` : the first holds at every instant of a run, the second whenever the watch lists are off
  and so when they are built, and the third after facts were applied.
-/

namespace ClauseLearning

namespace Propagator

variable {p q : Propagator} {n : Nat} {l : Lit} {r : ClauseRef} {c : Clause}

/-! ## Clauses and the trail -/

/-- The stored clauses have two literals or more and no variable twice, and mention no fact that left the trail. -/
structure FactFree (p : Propagator) : Prop where
  two_le {r : ClauseRef} : p.clauses.isLive r → 2 ≤ (p.clauses.get r).lits.length
  nodup {r : ClauseRef} : p.clauses.isLive r → ((p.clauses.get r).lits.map Lit.var).Nodup
  onTrail {r : ClauseRef} {l : Lit} : p.clauses.isLive r → l ∈ (p.clauses.get r).lits → p.trail.isAssigned l.var →
    l.var ∈ p.trail.lits.toList.map Lit.var

/-- No decision is in force, and the literals of clauses that are assigned are still to be propagated. -/
structure Queued (p : Propagator) : Prop where
  currentLevel_eq : p.trail.currentLevel = 0
  queued {r : ClauseRef} {l : Lit} : p.clauses.isLive r → l ∈ (p.clauses.get r).lits → p.trail.isAssigned l.var →
    ∃ i k, p.trail.At i k ∧ k.var = l.var ∧ p.trail.head ≤ i

theorem Inv.factFree (h : p.Inv n) : p.FactFree where
  two_le _ := by simp [Clause.lits]
  nodup hr := (h.fits hr).nodup
  onTrail hr hl ha := by
    obtain ⟨i, k, hi, hk⟩ := (h.fits hr).placed hl ha
    exact List.mem_map.2 ⟨k, mem_lits.2 ⟨i, hi⟩, hk⟩

theorem Inv.queued (h : p.Inv n) (he : p.watches.enabled = false) : p.Queued where
  currentLevel_eq := (h.idle he).currentLevel_eq
  queued hr hl ha := by
    obtain ⟨i, k, hi, hk⟩ := (h.fits hr).placed hl ha
    exact ⟨i, k, hi, hk, (h.idle he).head_eq ▸ Nat.zero_le i⟩

/-! ## Facts -/

/-- What is left of the clauses of `p` when its facts were applied. -/
structure Cleaned (p q : Propagator) : Prop where
  /-- Satisfied clauses go. -/
  isLive_iff {r : ClauseRef} : q.clauses.isLive r ↔
    p.clauses.isLive r ∧ ∀ l ∈ (p.clauses.get r).lits, ¬ p.trail.isTrue l
  /-- False literals go. -/
  lits_eq {r : ClauseRef} : q.clauses.isLive r →
    (q.clauses.get r).lits = (p.clauses.get r).lits.filter fun l => !p.trail.isAssigned l.var
  two_le {r : ClauseRef} : q.clauses.isLive r → 2 ≤ (q.clauses.get r).lits.length
  unassigned {r : ClauseRef} {l : Lit} : q.clauses.isLive r → l ∈ (q.clauses.get r).lits → ¬ q.trail.isAssigned l.var
  lits_eq_empty : q.trail.lits = #[]
  isTrue_eq {l : Lit} : q.trail.isTrue l = p.trail.isTrue l

section Complete

variable (h : p.Inv n) (hc : p.Complete)
include h hc

theorem Inv.not_isAssigned_of_disabled (he : p.watches.enabled = false) (hr : p.clauses.isLive r)
    (hl : l ∈ (p.clauses.get r).lits) : ¬ p.trail.isAssigned l.var := by
  intro ha
  obtain ⟨i, k, hi, -, hle⟩ := (h.queued he).queued hr hl ha
  have hlt := hi.lt
  rw [← show p.trail.head = p.trail.lits.size from hc] at hlt
  omega

theorem Inv.remainder_eq_some (hr : p.clauses.isLive r) (hn : ∀ l ∈ (p.clauses.get r).lits, ¬ p.trail.isTrue l) :
    ∃ c, p.trail.remainder (p.clauses.get r) = some c ∧ c.deleted = false ∧
      c.lits = (p.clauses.get r).lits.filter fun l => !p.trail.isAssigned l.var := by
  have hany : (p.clauses.get r).lits.any p.trail.isTrue = false := by simpa using hn
  cases he : p.watches.enabled with
  | true =>
    cases hs : p.trail.remainder (p.clauses.get r) with
    | none =>
      obtain ⟨l, hl, ht⟩ := remainder_none hs
      exact absurd ht (hn l hl)
    | some c =>
      obtain ⟨h1, -, h2, -⟩ := remainder_some h he hc hr hs
      exact ⟨c, rfl, h2, h1⟩
  | false =>
    have hall : (p.clauses.get r).lits.filter (fun l => !p.trail.isAssigned l.var) = (p.clauses.get r).lits := by
      rw [List.filter_eq_self]
      intro l hl
      simpa using h.not_isAssigned_of_disabled hc he hr hl
    have hrem : p.trail.remainder (p.clauses.get r) = some (p.clauses.get r) := by
      rw [Trail.remainder, hany, hall]
      rfl
    exact ⟨_, hrem, Database.isLive_iff.1 hr, hall.symm⟩

theorem Inv.cleaned : p.Cleaned p.applyFacts := by
  have hiff {r : ClauseRef} : p.applyFacts.clauses.isLive r ↔
      p.clauses.isLive r ∧ ∀ l ∈ (p.clauses.get r).lits, ¬ p.trail.isTrue l := by
    constructor
    · intro hr
      obtain ⟨hlive, hs⟩ := isLive_applyFacts h hr
      refine ⟨hlive, fun l hl ht => ?_⟩
      have hany : (p.clauses.get r).lits.any p.trail.isTrue = true := List.any_eq_true.2 ⟨l, hl, ht⟩
      simp [Trail.remainder, hany] at hs
    · rintro ⟨hlive, hn⟩
      obtain ⟨c, hs, hd, -⟩ := h.remainder_eq_some hc hlive hn
      rw [Database.isLive_iff, get_applyFacts h, if_pos hlive, Database.swept, hs]
      exact hd
  have hlits {r : ClauseRef} (hr : p.applyFacts.clauses.isLive r) : (p.applyFacts.clauses.get r).lits =
      (p.clauses.get r).lits.filter fun l => !p.trail.isAssigned l.var := by
    obtain ⟨hlive, hn⟩ := hiff.1 hr
    obtain ⟨c, hs, -, hl⟩ := h.remainder_eq_some hc hlive hn
    have hget := (isLive_applyFacts h hr).2
    rw [hs] at hget
    rw [← Option.some.inj hget, hl]
  refine
    { isLive_iff := hiff
      lits_eq := hlits
      two_le := fun _ => by simp [Clause.lits]
      unassigned := fun {r l} hr hl ha => ?_
      lits_eq_empty := rfl
      isTrue_eq := Trail.isTrue_settle }
  rw [hlits hr, List.mem_filter] at hl
  have ha' : p.trail.isAssigned l.var = true := isAssigned_settle.symm.trans ha
  simp [ha'] at hl

end Complete

end Propagator

/-! ## The instants of a run -/

/-- **Stored clauses are free of facts.** At every instant of a run the clauses have two literals or more with distinct
variables, and what is assigned in them is on the trail. Whenever the watch lists are off, which is when they are built,
no decision is in force and what is assigned in a clause is still to be propagated. Facts that are applied when nothing
is left to propagate leave of each clause its unassigned literals, two or more of them. At the moments of a run no
clause mentions an eliminated variable, and a search that begins anew builds its watch lists from such clauses. -/
theorem storedClauses_throughout (counting : Counting) :
    (∀ p, Instant counting p → p.FactFree ∧ (p.watches.enabled = false → p.Queued) ∧
      (p.Complete → p.trail.currentLevel = 0 → p.Cleaned p.applyFacts)) ∧
    ∀ s, Moment counting s →
      (∀ r l, s.prop.clauses.isLive r → l ∈ (s.prop.clauses.get r).lits → s.hasEliminated l.var = false) ∧
      (s.propagate.1 = none → s.propagate.2.currentLevel = 0 →
        s.propagate.2.tidy.prop.FactFree ∧
          (s.propagate.2.tidy.prop.watches.enabled = false → s.propagate.2.tidy.prop.Queued)) := by
  refine ⟨fun p h => ?_, fun s h => ⟨fun r l hr hl => h.purged.unmentioned hr hl, fun hn h0 => ?_⟩⟩
  · obtain ⟨n, hn⟩ := h.inv
    exact ⟨hn.factFree, hn.queued, fun hc _ => hn.cleaned hc⟩
  · obtain ⟨hs, hp⟩ := Solver.propagate_searched h.inv
    have ht := (Solver.tidy_spec hs.inv hp.enabled (hp.complete hn) h0).searched.inv.prop
    exact ⟨ht.factFree, ht.queued⟩

/-- When one of three variables is false for good, two literals of each clause are left. -/
theorem storedClauses_throughout_fork :
    ∃ p, Instant .words p ∧ p.Complete ∧ p.trail.currentLevel = 0 ∧ p.Cleaned p.applyFacts ∧
      p.applyFacts.clauses.isLive 1 ∧ (p.applyFacts.clauses.get 1).lits = [⟨2⟩, ⟨5⟩] ∧ p.applyFacts.Queued := by
  have hi : Instant .words ((Call.addClause [⟨1⟩]).run forkSolver).prop := .moment (.call (reachable_fork.call _))
  have hen : ((Call.addClause [⟨1⟩]).run forkSolver).prop.watches.enabled = true := by decide +kernel
  have hc : ((Call.addClause [⟨1⟩]).run forkSolver).prop.Complete := by
    unfold Propagator.Complete
    decide +kernel
  have h0 : ((Call.addClause [⟨1⟩]).run forkSolver).prop.trail.currentLevel = 0 := by decide +kernel
  obtain ⟨hall, -⟩ := storedClauses_throughout .words
  have hcl := (hall _ hi).2.2 hc h0
  have hq := (hall _ (hi.operation (.applyFacts hen hc h0))).2.1 rfl
  have hlive : ((Call.addClause [⟨1⟩]).run forkSolver).prop.applyFacts.clauses.isLive 1 = true := by decide +kernel
  refine ⟨_, hi, hc, h0, hcl, hlive, ?_, hq⟩
  rw [hcl.lits_eq hlive]
  decide +kernel

end ClauseLearning
