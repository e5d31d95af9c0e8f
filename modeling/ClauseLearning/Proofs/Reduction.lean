import ClauseLearning.Proofs.Facts
import ClauseLearning.Proofs.TierLists

/-!
# Reductions give up learned clauses only

* `Propagator.reduceLocals_pruned` : deleted clauses were learned and are no reasons;
* `Propagator.reduceMids_pruned` : moving clauses between the tiers of learned clauses deletes none.
-/

namespace ClauseLearning

open Database (Pruned)

namespace Database

variable {d e : Database} {r : ClauseRef} {keep : ClauseRef → Prop}

theorem pruned_unmark (d : Database) (r : ClauseRef) : Pruned keep d (d.unmark r) := Pruned.modify d r ⟨rfl, rfl, rfl⟩

theorem pruned_setTierList (d : Database) (t : Tier) (rs : List ClauseRef) : Pruned keep d (d.setTierList t rs) :=
  Pruned.of_get rfl rfl fun _ => ⟨rfl, rfl, rfl⟩

/-- Learned clauses stay learned, deleted or not. -/
def LearnedStay (d e : Database) : Prop := ∀ r, (d.get r).learned → (e.get r).learned

theorem LearnedStay.modify (d : Database) (r : ClauseRef) {f : Clause → Clause}
    (hf : (d.get r).learned → (f (d.get r)).learned) : LearnedStay d (d.modify r f) := by
  intro q hq
  rw [get_modify]
  split
  · next h => exact hf (h.1 ▸ hq)
  · exact hq

theorem firstEntries_spec (keep : ClauseRef → Prop) (t : Tier) (rs : List ClauseRef) (d : Database) :
    Pruned keep d (firstEntries t rs d).2 ∧ (∀ r, ((firstEntries t rs d).2.get r).tier = (d.get r).tier) ∧
      ∀ r ∈ (firstEntries t rs d).1, (d.get r).tier = t := by
  induction rs generalizing d with
  | nil => exact ⟨Pruned.refl d, fun _ => rfl, fun r hr => by cases hr⟩
  | cons r rs ih =>
    rw [firstEntries]
    dsimp only
    split
    · exact ih d
    · next hc =>
      obtain ⟨h1, h2, h3⟩ := ih (d.modify r ({ · with marked := true }))
      have htier (q : ClauseRef) : ((d.modify r ({ · with marked := true })).get q).tier = (d.get q).tier := by
        rw [get_modify]
        split
        · next h => rw [h.1]
        · rfl
      refine ⟨(Pruned.modify d r ⟨rfl, rfl, rfl⟩).trans h1, fun q => (h2 q).trans (htier q), ?_⟩
      intro q hq
      rcases List.mem_cons.1 hq with rfl | hq
      · rw [Bool.or_eq_true, not_or] at hc
        simpa using hc.2
      · exact (htier q).symm.trans (h3 q hq)

end Database

namespace Propagator

variable {p q : Propagator} {n : Nat} {r : ClauseRef}

theorem isLocked_of_isReason (hp : p.Linked n) (ht : q.trail = p.trail)
    (hd : Pruned p.IsReason p.clauses q.clauses) (hr : p.IsReason r) : q.isLocked r := by
  obtain ⟨i, l, hi, hre⟩ := hr
  obtain ⟨h1, h2, -⟩ := hp.clause_reason hi hre
  have hl := hd.kept h1 (Or.inr ⟨i, l, hi, hre⟩)
  have hf : (q.clauses.get r).first = l := (first_eq_of_lits_eq (hd.lits_eq hl)).trans h2
  dsimp only [isLocked]
  rw [hf, ht, hre, hp.trail.isTrue hi]
  simp

theorem cull_spec (hp : p.Linked n) (rs : List ClauseRef) (quota : Nat) (q : Propagator) (ht : q.trail = p.trail)
    (hw : q.watches = p.watches) (hd : Pruned p.IsReason p.clauses q.clauses)
    (hl : ∀ r ∈ rs, (q.clauses.get r).learned) :
    (cull rs quota q).2.trail = p.trail ∧ (cull rs quota q).2.watches = p.watches ∧
      Pruned p.IsReason p.clauses (cull rs quota q).2.clauses := by
  induction rs generalizing quota q with
  | nil => exact ⟨ht, hw, hd⟩
  | cons r rs ih =>
    have hlr := hl r List.mem_cons_self
    have hls : ∀ r' ∈ rs, (q.clauses.get r').learned := fun r' hr' => hl r' (List.mem_cons_of_mem r hr')
    have hu := hd.trans (Database.pruned_unmark q.clauses r)
    have hul : Database.LearnedStay q.clauses (q.clauses.unmark r) := Database.LearnedStay.modify _ r id
    rw [cull]
    dsimp only
    split
    · exact ih 0 { q with clauses := q.clauses.unmark r } ht hw hu fun r' hr' => hul r' (hls r' hr')
    · split
      · refine ih quota { q with clauses := _ } ht hw (hu.trans (Pruned.modify _ r ⟨rfl, rfl, rfl⟩)) ?_
        intro r' hr'
        exact Database.LearnedStay.modify _ r id r' (hul r' (hls r' hr'))
      · split
        · exact ih quota { q with clauses := q.clauses.unmark r } ht hw hu fun r' hr' => hul r' (hls r' hr')
        · next hlock =>
          refine ih (quota - 1) { q with clauses := _ } ht hw (hu.trans (Pruned.delete (hul r hlr) ?_)) ?_
          · intro hr
            exact hlock (isLocked_of_isReason (q := { q with clauses := q.clauses.unmark r }) hp ht hu hr)
          · intro r' hr'
            exact Database.LearnedStay.modify (q.clauses.unmark r) r id r' (hul r' (hls r' hr'))

theorem reduceLocals_pruned (ties : TieOrder) (hp : p.Linked n) :
    ∃ e, (p.reduceLocals ties).2 = { p with clauses := e } ∧ Pruned p.IsReason p.clauses e := by
  obtain ⟨h1, h2, h3⟩ :=
    Database.firstEntries_spec p.IsReason .loc p.clauses.byTier.loc.toList p.clauses
  unfold reduceLocals
  generalize p.clauses.firstEntries .loc p.clauses.byTier.loc.toList = entries at h1 h2 h3
  obtain ⟨locals, clauses⟩ := entries
  have hl : ∀ r ∈ ties.sort (fun r => (clauses.get r).activity.toBits.toNat) locals, (clauses.get r).learned := by
    intro r hr
    rw [Clause.learned, h2 r, h3 r (ties.mem_sort.1 hr)]
    rfl
  obtain ⟨h4, h5, h6⟩ := cull_spec hp _
    ((ties.sort (fun r => (clauses.get r).activity.toBits.toNat) locals).length / 2) { p with clauses := clauses } rfl
    rfl h1 hl
  dsimp only
  generalize cull _ _ _ = out at h4 h5 h6
  obtain ⟨kept, q⟩ := out
  refine ⟨q.clauses.setTierList .loc kept, ?_, h6.trans (Database.pruned_setTierList _ _ _)⟩
  show ({ q with clauses := _ } : Propagator) = { p with clauses := _ }
  rw [show q.trail = p.trail from h4, show q.watches = p.watches from h5]

theorem demote_spec (keep : ClauseRef → Prop) (rs : List ClauseRef) (d : Database)
    (hl : ∀ r ∈ rs, (d.get r).learned) : Pruned keep d (demote rs d).2 := by
  induction rs generalizing d with
  | nil => exact Pruned.refl d
  | cons r rs ih =>
    have hlr := hl r List.mem_cons_self
    have hls : ∀ r' ∈ rs, (d.get r').learned := fun r' hr' => hl r' (List.mem_cons_of_mem r hr')
    have hu : Pruned keep d (d.unmark r) := Database.pruned_unmark d r
    have hul : Database.LearnedStay d (d.unmark r) := Database.LearnedStay.modify _ r id
    rw [demote]
    dsimp only
    split
    · refine (hu.trans (Pruned.modify _ r ⟨rfl, rfl, rfl⟩)).trans (ih _ ?_)
      intro r' hr'
      exact Database.LearnedStay.modify _ r id r' (hul r' (hls r' hr'))
    · refine (hu.trans (Pruned.setTier (hul r hlr) (by decide))).trans (ih _ ?_)
      intro r' hr'
      have h := hul r' (hls r' hr')
      unfold Database.setTier
      dsimp only
      split
      · exact h
      · exact Database.LearnedStay.modify (d.unmark r) r (f := ({ · with tier := .loc })) (fun _ => rfl) r' h

theorem reduceMids_pruned (p : Propagator) :
    ∃ e, p.reduceMids.2 = { p with clauses := e } ∧ Pruned p.IsReason p.clauses e := by
  obtain ⟨h1, h2, h3⟩ :=
    Database.firstEntries_spec p.IsReason .mid p.clauses.byTier.mid.toList p.clauses
  unfold reduceMids
  generalize p.clauses.firstEntries .mid p.clauses.byTier.mid.toList = entries at h1 h2 h3
  obtain ⟨mids, clauses⟩ := entries
  have hd := demote_spec p.IsReason mids clauses fun r hr => by
    rw [Clause.learned, h2 r, h3 r hr]
    rfl
  dsimp only
  generalize demote mids clauses = out at hd
  obtain ⟨kept, clauses'⟩ := out
  exact ⟨clauses'.setTierList .mid kept, rfl, (h1.trans hd).trans (Database.pruned_setTierList _ _ _)⟩

end Propagator

end ClauseLearning
