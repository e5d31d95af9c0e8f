import Mathlib.Data.Set.Card
import ClauseLearning.Proofs.Activity
import ClauseLearning.Proofs.ClauseLives

/-!
# Reductions delete what they may

* `Stock.Sane`, `Stock.Steps.sane` : no activity is ever negative, so the bits of activities give their order;
* `Propagator.Eligible` : the local clauses that a reduction may delete;
* `Propagator.LocalsReduced`, `Propagator.MidsReduced` : what the two reductions do;
* `reductions_exact` : so it is throughout a run.
-/

namespace ClauseLearning

open SinglePrecision

/-! ## Activities of clauses -/

theorem ActivityScale.Leads.isMagnitude {a : ActivityScale} {x y : Float32} (h : a.Leads x y) (ha : a.Sane)
    (hx : IsMagnitude x) : IsMagnitude y := by
  induction h with
  | refl => exact hx
  | bump _ ih => exact ih.add ha.bump
  | rescale _ ih => exact ih.mul isFactor_rescaleFactor

namespace Stock

variable {σ τ : Stock} {r : ClauseRef}

/-- The activities of all clauses and the bump are not negative. -/
structure Sane (σ : Stock) : Prop where
  scale : σ.scale.Sane
  activity {r : ClauseRef} : σ.clauses.isLive r → IsMagnitude (σ.clauses.get r).activity

theorem Edit.scale_sane (h : σ.Edit τ) (hs : σ.scale.Sane) : τ.scale.Sane := by
  cases h with
  | @bump d a r =>
    change (d.bumpActivity a r).2.Sane
    dsimp only [Database.bumpActivity]
    split
    · exact hs.rescaled
    · exact hs
  | @decay d a =>
    change (d.decayActivities a).2.Sane
    dsimp only [Database.decayActivities]
    split
    · exact ActivityScale.Sane.rescaled (ActivityScale.Sane.grown hs)
    · exact ActivityScale.Sane.grown hs
  | configure hx => exact ActivityScale.Sane.withDecay hs hx
  | _ => exact hs

theorem Step.sane (h : σ.Step τ) (ha : σ.clauses.Accounted) (hs : σ.Sane) : τ.Sane where
  scale := by
    cases h with
    | edit h => exact h.scale_sane hs.scale
    | compact => exact hs.scale
  activity hr := by
    rcases h.origin ha hr with ⟨q, hq, hage, -⟩ | hfresh
    · exact hage.activity.isMagnitude hs.scale (hs.activity hq)
    · rw [hfresh.activity_eq]
      decide +kernel

theorem Steps.sane (h : Steps {} τ) : τ.Sane := by
  induction h with
  | refl => exact ⟨ActivityScale.sane_default, fun hr => absurd (Database.lt_of_isLive hr) (Nat.not_lt_zero _)⟩
  | tail h hstep ih => exact hstep.sane (Steps.accounted h Database.accounted_empty) ih

end Stock

/-! ## The two reductions -/

namespace Database

variable {d e : Database} {rs gone : List ClauseRef}

/-- The clauses that are deleted on the way from one database to another. -/
def Lost (d e : Database) : Set ClauseRef := {r | d.isLive r ∧ ¬ e.isLive r}

theorem Culled.lost_eq (h : Culled rs gone d e) (hl : ∀ r ∈ rs, d.isLive r) (hg : gone ⊆ rs) :
    d.Lost e = {r | r ∈ gone} := by
  ext r
  by_cases hr : r ∈ rs
  · have hiff := h.isLive_iff hr
    exact ⟨fun hq => by_contra fun hn => hq.2 (hiff.2 hn), fun hq => ⟨hl r hr, fun he => hiff.1 he hq⟩⟩
  · refine iff_of_false (fun hq => hq.2 ?_) fun hq => hr (hg hq)
    rw [isLive, h.get_eq hr]
    exact hq.1

theorem ncard_mem (h : rs.Nodup) : Set.ncard {r | r ∈ rs} = rs.length := by
  rw [← List.toFinset_card_of_nodup h, ← Set.ncard_coe_finset, List.coe_toFinset]

end Database

namespace Propagator

variable {p q : Propagator} {n : Nat} {r x : ClauseRef}

theorem Linked.isLocked_iff (h : p.Linked n) : p.isLocked r ↔ p.IsReason r := by
  refine ⟨fun hl => ?_, fun hr => isLocked_of_isReason h rfl (.refl _) hr⟩
  obtain ⟨htrue, hreason⟩ := Bool.and_eq_true_iff.1 hl
  rcases h.trail.placed htrue with ⟨i, hi⟩ | ⟨-, hunit⟩
  · exact ⟨i, _, hi, eq_of_beq hreason⟩
  · rw [hunit] at hreason
    cases hreason

/-- Local clauses that a reduction may delete. They took part in no conflict since the last one, and are not the reason
of a current assignment. -/
structure Eligible (p : Propagator) (r : ClauseRef) : Prop where
  isLive : p.clauses.isLive r
  tier_eq : (p.clauses.get r).tier = .loc
  inactive : (p.clauses.get r).active = false
  not_isReason : ¬ p.IsReason r

/-- The reduction of the local clauses. Half of them are deleted, or all that are eligible if these are fewer. They are
eligible ones of least activity. Other clauses stay as they are, and of the remaining local ones just the active flag
may change. -/
structure LocalsReduced (p q : Propagator) : Prop where
  ncard_lost : (p.clauses.Lost q.clauses).ncard = min ((p.clauses.ofTier .loc).card / 2) (Set.ncard p.Eligible)
  eligible {r : ClauseRef} : r ∈ p.clauses.Lost q.clauses → p.Eligible r
  least {r x : ClauseRef} : r ∈ p.clauses.Lost q.clauses → p.Eligible x → q.clauses.isLive x →
    ¬ (p.clauses.get x).activity < (p.clauses.get r).activity
  others {r : ClauseRef} : (p.clauses.get r).tier ≠ .loc → q.clauses.get r = p.clauses.get r
  stays {r : ClauseRef} : q.clauses.isLive r →
    { q.clauses.get r with active := (p.clauses.get r).active } = p.clauses.get r

/-- The reduction of the mid tier. Just its inactive clauses move to the local tier, and the flag of the others is
cleared. -/
def MidsReduced (p q : Propagator) : Prop :=
  ∀ r, q.clauses.get r =
    if p.clauses.isLive r ∧ (p.clauses.get r).tier = .mid then
      if (p.clauses.get r).active then { p.clauses.get r with active := false }
      else { p.clauses.get r with tier := .loc }
    else p.clauses.get r

theorem Linked.eligible_iff (h : p.Linked n) :
    p.Eligible r ↔ (p.clauses.isLive r ∧ (p.clauses.get r).tier = .loc) ∧ p.mayDelete r := by
  rw [mayDelete, Bool.and_eq_true, Bool.not_eq_true', Bool.not_eq_true', Bool.eq_false_iff, Bool.eq_false_iff, Ne, Ne,
    h.isLocked_iff]
  exact ⟨fun he => ⟨⟨he.isLive, he.tier_eq⟩, Bool.eq_false_iff.1 he.inactive, he.not_isReason⟩,
    fun he => ⟨he.1.1, he.1.2, Bool.eq_false_iff.2 he.2.1, he.2.2⟩⟩

theorem reduceLocals_reduced (ties : TieOrder) (ha : p.clauses.Accounted) (hp : p.Linked n)
    (hm : ∀ {r}, p.clauses.isLive r → IsMagnitude (p.clauses.get r).activity) :
    LocalsReduced p (p.reduceLocals ties).2 := by
  obtain ⟨locals, hnodup, hmem, hsorted, hc⟩ := reduceLocals_culled ties ha
  have hunmarked (r : ClauseRef) := (reduceLocals_accounted ties ha).unmarked r
  generalize (p.reduceLocals ties).2 = q at hc hunmarked
  have heligible {r : ClauseRef} : r ∈ locals.filter p.mayDelete ↔ p.Eligible r := by
    rw [List.mem_filter, hmem, hp.eligible_iff]
  have hfilter : (locals.filter p.mayDelete).Nodup := hnodup.filter _
  have hcandidates : {r | p.Eligible r} = {r | r ∈ locals.filter p.mayDelete} := Set.ext fun r => heligible.symm
  -- the clauses that the pass deletes are the first ones of those that it may delete
  have hsub := List.take_subset (locals.length / 2) (locals.filter p.mayDelete)
  have hlost := hc.lost_eq (fun r hr => ((hmem r).1 hr).1) fun r hr => List.mem_of_mem_filter (hsub hr)
  refine ⟨?_, fun {r} hr => ?_, fun {r x} hr hx hlive => ?_, fun {r} hr => ?_, fun {r} hr => ?_⟩
  · show _ = min _ (Set.ncard {r | p.Eligible r})
    rw [hlost, hcandidates, Database.ncard_mem hfilter, Database.ncard_mem (hfilter.sublist (List.take_sublist _ _)),
      List.length_take, Database.card_ofTier_eq_length hnodup hmem]
  · rw [hlost] at hr
    exact heligible.1 (hsub hr)
  · rw [hlost] at hr
    have hxl := heligible.2 hx
    have hkept := (hc.isLive_iff (List.mem_of_mem_filter hxl)).1 hlive
    have hle := SortedBy.le_of_mem_take (hsorted.sublist List.filter_sublist) hr hxl hkept
    rw [lt_iff (hm hx.isLive) (hm (heligible.1 (hsub hr)).isLive)]
    exact Nat.not_lt.2 hle
  · exact hc.get_eq fun hm => hr ((hmem r).1 hm).2
  · refine Clause.eq_of_plain (hc.plain_eq r) ?_ ((hunmarked r).trans (ha.unmarked r).symm)
    by_cases hrl : r ∈ locals
    · exact (Database.isLive_iff.1 hr).trans (Database.isLive_iff.1 ((hmem r).1 hrl).1).symm
    · rw [hc.get_eq hrl]

theorem reduceMids_reduced (ha : p.clauses.Accounted) : MidsReduced p p.reduceMids.2 := get_reduceMids ha

end Propagator

/-! ## Runs -/

variable {counting : Counting} {s : Solver} {p : Propagator} {n : Nat}

theorem Stock.Steps.reduced {a : ActivityScale} (h : Steps {} ⟨p.clauses, a⟩) (ties : TieOrder) (hp : p.Linked n) :
    p.LocalsReduced (p.reduceLocals ties).2 ∧ p.MidsReduced p.reduceMids.2 :=
  have ha := h.accounted Database.accounted_empty
  ⟨Propagator.reduceLocals_reduced ties ha hp h.sane.activity, Propagator.reduceMids_reduced ha⟩

/-- **Reductions delete what they may, and nothing else.** Let `n` clauses be in the local tier. A reduction of it
deletes `n / 2` clauses, or as many as are eligible if these are fewer. They are eligible ones, and no eligible clause
that stays has less activity, whatever the order of clauses of equal activity is. A reduction of the mid tier moves its
inactive clauses to the local tier and deletes none.
So it is at every moment of a run, after the restart at the beginning of a step, and when the local tier was reduced
before. -/
theorem reductions_exact (counting : Counting) : ∀ s, Moment counting s → ∀ ties : TieOrder,
    ∀ p ∈ [s.prop, s.restartIfDue.prop, (s.restartIfDue.prop.reduceLocals ties).2],
      p.LocalsReduced (p.reduceLocals ties).2 ∧ p.MidsReduced p.reduceMids.2 := by
  intro s h ties p hp
  have hrestarted := (Solver.restartIfDue_spec h.inv).1.inv.prop
  have hsteps : Stock.Steps {} s.restartIfDue.stock := Solver.stock_restartIfDue s ▸ h.steps
  simp only [List.mem_cons, List.not_mem_nil, or_false] at hp
  rcases hp with rfl | rfl | rfl
  · exact h.steps.reduced ties h.inv.prop.toLinked
  · exact hsteps.reduced ties hrestarted.toLinked
  · obtain ⟨d, he, hd⟩ := Propagator.reduceLocals_pruned ties hrestarted.toLinked
    have hinv : (s.restartIfDue.prop.reduceLocals ties).2.Inv s.restartIfDue.varCount := he ▸ hrestarted.prune hd
    exact (hsteps.trans (.edit (.reduceLocals ties))).reduced ties hinv.toLinked

/-- Two pairs of clauses that leave one variable no value if eight others are false, and a search. -/
def wideFork : List Call :=
  List.replicate 12 (.newVar none true) ++
    ([[14, 16], [14, 17], [18, 20], [18, 21]].map fun is => .addClause (([0, 2, 4, 6, 8, 10, 12] ++ is).map Lit.mk)) ++
    [.solveWith false false]

/-- The beginning of another search. -/
def wideSolver : Solver := (Call.runAll (.start .words .stable) wideFork).searchStart false false

/-- The first search has learned two clauses. They are no reasons any more, and a reduction would delete one of them. -/
theorem reductions_exact_wideFork : Moment .words wideSolver ∧ (wideSolver.prop.clauses.ofTier .loc).card = 2 ∧
    wideSolver.prop.Eligible 4 ∧
      (wideSolver.prop.clauses.Lost (wideSolver.prop.reduceLocals .stable).2.clauses).ncard = 1 := by
  have hcard : (wideSolver.prop.clauses.ofTier .loc).card = 2 := by decide +kernel
  have hlive : wideSolver.prop.clauses.isLive 4 = true := by decide +kernel
  have hdeleted : (wideSolver.prop.reduceLocals .stable).2.clauses.isLive 4 = false := by decide +kernel
  have hm : Moment .words wideSolver := .search ((Reachable.start .stable).runAll wideFork) .start
  have hreduced := (reductions_exact .words wideSolver hm .stable wideSolver.prop List.mem_cons_self).1
  have hlost : 4 ∈ wideSolver.prop.clauses.Lost (wideSolver.prop.reduceLocals .stable).2.clauses :=
    ⟨hlive, Bool.eq_false_iff.1 hdeleted⟩
  refine ⟨hm, hcard, hreduced.eligible hlost, Nat.le_antisymm ?_ ?_⟩
  · rw [hreduced.ncard_lost, hcard]
    exact Nat.min_le_left _ _
  · exact (Set.ncard_pos ((Set.finite_lt_nat _).subset fun r hr => Database.lt_of_isLive hr.1)).2 ⟨4, hlost⟩

end ClauseLearning
