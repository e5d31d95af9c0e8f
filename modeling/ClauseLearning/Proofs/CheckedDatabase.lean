import ClauseLearning.Proofs.Changes
import ClauseLearning.Proofs.CheckedPropagation
import ClauseLearning.Proofs.Reduction

/-!
# The clause database within its bounds

The clause database follows the references in its lists, counts down when a clause goes, and takes what is left from
what there was.

* `Database.deleteChecked`, `Database.sweepChecked`, `Database.compactChecked` and so on : the operations with their
  bounds, assertions and differences checked;
* `Propagator.reduceLocalsChecked`, `Propagator.reduceMidsChecked` : reductions;
* `Database.TiersStored` : the lists of the tiers refer to the storage, through all changes;
* `Database.Kept` : the accounts are right and the lists of the tiers refer to the storage, so no check fails.
-/

namespace ClauseLearning

/-! ## The lists of the tiers -/

namespace Database

/-- All tiers. -/
def tiers : List Tier := [.irredundant, .core, .mid, .loc]

/-- The lists of the tiers refer to the storage. -/
def TiersStored (d : Database) : Prop := ∀ t ∈ tiers, ∀ r ∈ (d.byTier.get t).toList, d.Stores r

instance (d : Database) : Decidable d.TiersStored :=
  inferInstanceAs (Decidable (∀ t ∈ tiers, ∀ r ∈ (d.byTier.get t).toList, d.Stores r))

variable {d e : Database} {r q : ClauseRef} {t u : Tier}

theorem mem_tiers (t : Tier) : t ∈ tiers := by cases t <;> decide

theorem TiersStored.lt (h : d.TiersStored) (hr : r ∈ (d.byTier.get t).toList) : r < d.slots.size :=
  h t (mem_tiers t) r hr

theorem TiersStored.of_mem (h : d.TiersStored) (hs : d.slots.size ≤ e.slots.size)
    (hm : ∀ t, ∀ r ∈ (e.byTier.get t).toList, r ∈ (d.byTier.get t).toList ∨ r < e.slots.size) : e.TiersStored :=
  fun t _ r hr => (hm t r hr).elim (fun hr => Nat.lt_of_lt_of_le (h.lt hr) hs) id

theorem mem_modify_push {ts : PerTier (Array ClauseRef)} (h : r ∈ ((ts.modify t (·.push q)).get u).toList) :
    r ∈ (ts.get u).toList ∨ r = q := by
  rw [PerTier.get_modify] at h
  split at h
  · rw [Array.toList_push, List.mem_append] at h
    exact h.imp_right List.mem_singleton.1
  · exact Or.inl h

theorem sweepList_frame (keep? : Clause → Option Clause) (rs : List ClauseRef) (kept : Array ClauseRef)
    (d : Database) : (sweepList keep? rs kept d).2.byTier = d.byTier ∧
      (sweepList keep? rs kept d).2.slots.size = d.slots.size := by
  induction rs generalizing kept d with
  | nil => exact ⟨rfl, rfl⟩
  | cons r rs ih =>
    rw [sweepList]
    split
    · exact ih kept d
    · split
      · exact (ih _ _).imp_right fun h => h.trans size_modify
      · exact (ih _ _).imp_right fun h => h.trans size_delete

theorem foldl_modify_frame (f : Clause → Clause) (rs : List ClauseRef) (d : Database) :
    (rs.foldl (fun d r => d.modify r f) d).byTier = d.byTier ∧
      (rs.foldl (fun d r => d.modify r f) d).slots.size = d.slots.size := by
  induction rs generalizing d with
  | nil => exact ⟨rfl, rfl⟩
  | cons r rs ih => exact (ih _).imp_right fun h => h.trans size_modify

theorem TiersStored.setTierList (h : d.TiersStored) {rs : List ClauseRef} (hr : ∀ r ∈ rs, r < d.slots.size) :
    (d.setTierList t rs).TiersStored := by
  refine h.of_mem (Nat.le_refl _) fun u r hm => ?_
  change r ∈ ((d.byTier.modify t fun _ => rs.toArray).get u).toList at hm
  rw [PerTier.get_modify] at hm
  split at hm
  · exact Or.inr (hr r hm)
  · exact Or.inl hm

theorem TiersStored.setTier (h : d.TiersStored) (hr : r < d.slots.size) : (d.setTier r t).TiersStored := by
  dsimp only [Database.setTier]
  split
  · exact h
  · refine h.of_mem (Nat.le_of_eq Array.size_modify.symm) fun u q hm => ?_
    rcases mem_modify_push hm with hm | rfl
    · exact Or.inl hm
    · exact Or.inr (Nat.lt_of_lt_of_eq hr Array.size_modify.symm)

theorem TiersStored.sweep (h : d.TiersStored) (keep? : Clause → Option Clause) : (d.sweep keep?).TiersStored := by
  obtain ⟨h1, h2⟩ := sweepList_frame keep? d.listed.toList #[] d
  refine h.of_mem (Nat.le_of_eq h2.symm) fun t r hr => Or.inl ?_
  dsimp only [Database.sweep] at hr
  split at hr
  · rw [PerTier.get_map, Array.toList_filter, h1] at hr
    exact (List.mem_filter.1 hr).1
  · rwa [h1] at hr

theorem TiersStored.compact (d : Database) : d.compact.2.TiersStored := by
  intro t _ r hr
  rw [byTier_compact, Array.toList_filter, List.mem_filter, Array.toList_range, List.mem_range] at hr
  exact hr.1

theorem size_firstEntries (t : Tier) (rs : List ClauseRef) (d : Database) :
    (firstEntries t rs d).2.slots.size = d.slots.size := (firstEntries_spec (fun _ => True) t rs d).1.size_eq

end Database

namespace Propagator

open Database (TiersStored FirstEntries firstEntries_marks size_firstEntries)

theorem cull_frame (rs : List ClauseRef) (quota : Nat) (p : Propagator) :
    (cull rs quota p).2.clauses.byTier = p.clauses.byTier ∧
      (cull rs quota p).2.clauses.slots.size = p.clauses.slots.size ∧ (cull rs quota p).1.Sublist rs := by
  have hsize {d : Database} {r : ClauseRef} : (d.unmark r).slots.size = d.slots.size := Database.size_modify
  induction rs generalizing quota p with
  | nil => exact ⟨rfl, rfl, List.Sublist.refl _⟩
  | cons r rs ih =>
    rw [cull]
    dsimp only
    split
    · obtain ⟨h1, h2, h3⟩ := ih 0 { p with clauses := p.clauses.unmark r }
      exact ⟨h1, h2.trans hsize, h3.cons_cons r⟩
    · split
      · obtain ⟨h1, h2, h3⟩ :=
          ih quota { p with clauses := (p.clauses.unmark r).modify r ({ · with active := false }) }
        exact ⟨h1, (h2.trans Database.size_modify).trans hsize, h3.cons_cons r⟩
      · split
        · obtain ⟨h1, h2, h3⟩ := ih quota { p with clauses := p.clauses.unmark r }
          exact ⟨h1, h2.trans hsize, h3.cons_cons r⟩
        · obtain ⟨h1, h2, h3⟩ := ih (quota - 1) { p with clauses := (p.clauses.unmark r).delete r }
          exact ⟨h1, (h2.trans Database.size_delete).trans hsize, h3.cons r⟩

theorem demote_frame (rs : List ClauseRef) {d : Database} (h : d.TiersStored) (hr : ∀ r ∈ rs, r < d.slots.size) :
    (demote rs d).2.TiersStored ∧ (demote rs d).2.slots.size = d.slots.size ∧ (demote rs d).1.Sublist rs := by
  induction rs generalizing d with
  | nil => exact ⟨h, rfl, List.Sublist.refl _⟩
  | cons r rs ih =>
    have hsize : (d.unmark r).slots.size = d.slots.size := Database.size_modify
    have hrs := fun q hq => hr q (List.mem_cons_of_mem r hq)
    rw [demote]
    dsimp only
    split
    · have hsize' : ((d.unmark r).modify r ({ · with active := false })).slots.size = d.slots.size :=
        Database.size_modify.trans hsize
      obtain ⟨h1, h2, h3⟩ := ih (d := (d.unmark r).modify r ({ · with active := false }))
        (h.of_mem (Nat.le_of_eq hsize'.symm) fun _ _ => Or.inl) (hsize'.symm ▸ hrs)
      exact ⟨h1, h2.trans hsize', h3.cons_cons r⟩
    · have hunmark : (d.unmark r).TiersStored := h.of_mem (Nat.le_of_eq hsize.symm) fun _ _ => Or.inl
      have hsize' : ((d.unmark r).setTier r .loc).slots.size = d.slots.size := by
        refine Eq.trans ?_ hsize
        dsimp only [Database.setTier]
        split
        · rfl
        · exact Array.size_modify
      obtain ⟨h1, h2, h3⟩ := ih (d := (d.unmark r).setTier r .loc)
        (hunmark.setTier (hsize.symm ▸ hr r List.mem_cons_self)) (hsize'.symm ▸ hrs)
      exact ⟨h1, h2.trans hsize', h3.cons r⟩

end Propagator

namespace Database

variable {d e : Database} {r q : ClauseRef} {t u : Tier}

theorem TiersStored.entries (h : d.TiersStored) (t : Tier) :
    (firstEntries t (d.byTier.get t).toList d).2.TiersStored ∧
      ∀ r ∈ (firstEntries t (d.byTier.get t).toList d).1,
        r < (firstEntries t (d.byTier.get t).toList d).2.slots.size := by
  have hf := firstEntries_marks t (d.byTier.get t).toList d
  have hs := size_firstEntries t (d.byTier.get t).toList d
  refine ⟨h.of_mem (Nat.le_of_eq hs.symm) fun u r hr => Or.inl ?_, fun r hr => ?_⟩
  · rwa [hf.byTier_eq] at hr
  · exact hs.symm ▸ h.lt (hf.mem_iff.1 hr).1

theorem TiersStored.reduceLocals {p : Propagator} (ties : TieOrder) (h : p.clauses.TiersStored) :
    (p.reduceLocals ties).2.clauses.TiersStored := by
  obtain ⟨h1, h2⟩ := h.entries .loc
  rw [Propagator.reduceLocals]
  change (firstEntries .loc p.clauses.byTier.loc.toList p.clauses).2.TiersStored at h1
  change ∀ r ∈ (firstEntries .loc p.clauses.byTier.loc.toList p.clauses).1,
    r < (firstEntries .loc p.clauses.byTier.loc.toList p.clauses).2.slots.size at h2
  generalize firstEntries .loc p.clauses.byTier.loc.toList p.clauses = out at h1 h2
  obtain ⟨locals, clauses⟩ := out
  dsimp only at h1 h2 ⊢
  have hperm := ties.sort_perm (fun r => (clauses.get r).activity.toBits.toNat) locals
  generalize ties.sort (fun r => (clauses.get r).activity.toBits.toNat) locals = rs at hperm
  obtain ⟨h3, h4, h5⟩ := Propagator.cull_frame rs (rs.length / 2) { p with clauses := clauses }
  refine TiersStored.setTierList (h1.of_mem (Nat.le_of_eq h4.symm) fun t r hr => Or.inl ?_) fun r hr => ?_
  · rwa [h3] at hr
  · exact h4.symm ▸ h2 r (hperm.mem_iff.1 (h5.subset hr))

theorem TiersStored.reduceMids {p : Propagator} (h : p.clauses.TiersStored) :
    p.reduceMids.2.clauses.TiersStored := by
  obtain ⟨h1, h2⟩ := h.entries .mid
  obtain ⟨h3, h4, h5⟩ := Propagator.demote_frame _ h1 h2
  exact h3.setTierList fun r hr => h4.symm ▸ h2 r (h5.subset hr)

theorem Change.tiersStored (hc : d.Change e) (h : d.TiersStored) : e.TiersStored := by
  cases hc with
  | @add c hd hm =>
    have hsize : (d.add c).2.slots.size = d.slots.size + 1 := Array.size_push _
    refine h.of_mem (hsize ▸ Nat.le_succ _) fun u r hr => ?_
    rcases mem_modify_push hr with hr | rfl
    · exact Or.inl hr
    · exact Or.inr (hsize ▸ Nat.lt_succ_self _)
  | delete hr => exact h.of_mem (Nat.le_of_eq size_delete.symm) fun _ _ => Or.inl
  | edit hf => exact h.of_mem (Nat.le_of_eq size_modify.symm) fun _ _ => Or.inl
  | sweep hk => exact h.sweep _
  | setTier hr => exact h.setTier (lt_of_isLive hr)
  | reduceLocals ties hp => exact TiersStored.reduceLocals ties (hp ▸ h)
  | reduceMids hp => exact TiersStored.reduceMids (hp ▸ h)
  | rescale =>
    obtain ⟨h1, h2⟩ := foldl_modify_frame (fun c => { c with activity := c.activity * rescaleFactor }) d.live
      { d with listed := d.live.toArray }
    refine h.of_mem (Nat.le_of_eq h2.symm) fun t r hr => Or.inl ?_
    rwa [Database.rescale, h1] at hr
  | compact => exact .compact d

/-- The accounts are right, and the lists of the tiers refer to the storage. -/
structure Kept (d : Database) : Prop extends Accounted d where
  tiersStored : d.TiersStored

theorem kept_empty : ({} : Database).Kept := ⟨accounted_empty, by decide⟩

theorem Changes.kept (hc : d.Changes e) (h : d.Kept) : e.Kept := by
  induction hc with
  | refl => exact h
  | tail _ hc ih => exact ⟨hc.accounted ih.toAccounted, hc.tiersStored ih.tiersStored⟩

end Database

/-! ## Operations that check their bounds -/

variable [Build]

namespace Database

def deleteChecked (d : Database) (r : ClauseRef) : Fallible Database := do
  let c ← d.getChecked r
  require (c.deleted = false) .assertion
  require (0 < d.counts.get c.tier) .underflow
  return d.delete r

def setTierChecked (d : Database) (r : ClauseRef) (t : Tier) : Fallible Database := do
  let c ← d.getChecked r
  require (c.tier ≠ t → 0 < d.counts.get c.tier) .underflow
  return d.setTier r t

def sweepListChecked (keep? : Clause → Fallible (Option Clause)) :
    List ClauseRef → Array ClauseRef → Database → Fallible (Array ClauseRef × Database)
  | [], kept, d => return (kept, d)
  | r :: rs, kept, d => do
    let c ← d.getChecked r
    if c.deleted then sweepListChecked keep? rs kept d
    else
      match ← keep? c with
      | some c' =>
        require (c'.size ≤ c.size) .underflow
        let d := d.modify r fun _ => c'
        sweepListChecked keep? rs (kept.push r) { d with garbage := d.garbage + (c.size - c'.size) }
      | none =>
        let d ← d.deleteChecked r
        sweepListChecked keep? rs kept d

def sweepChecked (d : Database) (keep? : Clause → Fallible (Option Clause)) : Fallible Database := do
  let (kept, e) ← sweepListChecked keep? d.listed.toList #[] d
  require (kept.size < d.live.length → e.TiersStored) .outOfRange
  let byTier := if kept.size < d.live.length then e.byTier.map (·.filter e.isLive) else e.byTier
  return { e with listed := kept, byTier := byTier }

def compactChecked (d : Database) : Fallible (Nat × Database) := do
  let _ ← d.liveChecked
  require (d.compact.2.words ≤ d.words) .underflow
  require (∀ r ∈ d.compact.2.listed.toList, d.compact.2.Stores r) .outOfRange
  return d.compact

def collect?Checked (d : Database) : Fallible (Option (Event × Database)) :=
  if d.garbage * 2 ≤ d.words then return none
  else do
    let (freed, e) ← d.compactChecked
    return some (.garbageCollected freed d.words, e)

def rescaleChecked (d : Database) : Fallible Database := do
  let _ ← d.liveChecked
  return d.rescale

def bumpActivityChecked (d : Database) (a : ActivityScale) (r : ClauseRef) : Fallible (Database × ActivityScale) := do
  let c ← d.getChecked r
  let activity := c.activity + a.bump
  let d := d.modify r ({ · with activity := activity })
  if rescaleLimit < activity then
    let d ← d.rescaleChecked
    return (d, a.rescaled)
  else return (d, a)

def decayActivitiesChecked (d : Database) (a : ActivityScale) : Fallible (Database × ActivityScale) :=
  let a := a.grown
  if rescaleLimit ≤ a.bump then do
    let d ← d.rescaleChecked
    return (d, a.rescaled)
  else return (d, a)

/-- The first entries in the list of a tier. -/
def tierEntriesChecked (d : Database) (t : Tier) : Fallible (List ClauseRef × Database) := do
  require (∀ r ∈ (d.byTier.get t).toList, d.Stores r) .outOfRange
  return firstEntries t (d.byTier.get t).toList d

end Database

namespace Propagator

def cullChecked : List ClauseRef → Nat → Propagator → Fallible (List ClauseRef × Propagator)
  | [], _, p => return ([], p)
  | r :: rs, quota, p => do
    let c ← p.clauses.getChecked r
    let p := { p with clauses := p.clauses.unmark r }
    if quota = 0 then
      let (kept, p) ← cullChecked rs 0 p
      return (r :: kept, p)
    else if c.active then
      let (kept, p) ← cullChecked rs quota { p with clauses := p.clauses.modify r ({ · with active := false }) }
      return (r :: kept, p)
    else
      require (p.trail.Knows c.first.var) .outOfRange
      if p.isLocked r then
        let (kept, p) ← cullChecked rs quota p
        return (r :: kept, p)
      else
        let clauses ← p.clauses.deleteChecked r
        cullChecked rs (quota - 1) { p with clauses := clauses }

def reduceLocalsChecked (p : Propagator) (ties : TieOrder) : Fallible (Event × Propagator) := do
  let (locals, clauses) ← p.clauses.tierEntriesChecked .loc
  let locals := ties.sort (fun r => (clauses.get r).activity.toBits.toNat) locals
  let (kept, p) ← cullChecked locals (locals.length / 2) { p with clauses := clauses }
  return (.localsReduced (locals.length - kept.length) kept.length,
    { p with clauses := p.clauses.setTierList .loc kept })

def demoteChecked : List ClauseRef → Database → Fallible (List ClauseRef × Database)
  | [], d => return ([], d)
  | r :: rs, d => do
    let c ← d.getChecked r
    let d := d.unmark r
    if c.active then
      let (kept, d) ← demoteChecked rs (d.modify r ({ · with active := false }))
      return (r :: kept, d)
    else
      let d ← d.setTierChecked r .loc
      demoteChecked rs d

def reduceMidsChecked (p : Propagator) : Fallible (Event × Propagator) := do
  let (mids, clauses) ← p.clauses.tierEntriesChecked .mid
  let (kept, clauses) ← demoteChecked mids clauses
  require (kept.length ≤ mids.length) .underflow
  return (.midsReduced (mids.length - kept.length) mids.length,
    { p with clauses := clauses.setTierList .mid kept })

end Propagator

/-! ## The checks succeed -/

namespace Database

variable {d : Database} {r : ClauseRef}

variable {keep? : Clause → Option Clause} {keepChecked? : Clause → Fallible (Option Clause)}

theorem Balanced.deleteChecked (h : d.Balanced) (hr : d.isLive r) : d.deleteChecked r = .ok (d.delete r) := by
  rw [Database.deleteChecked, getChecked_eq (lt_of_isLive hr), ok_bind, require_bind (isLive_iff.1 hr),
    require_bind (h.counts_pos hr)]
  rfl

theorem Balanced.foldlM_deleteChecked (rs : List ClauseRef) (h : d.Balanced) (hn : rs.Nodup)
    (hl : ∀ r ∈ rs, d.isLive r) : rs.foldlM Database.deleteChecked d = .ok (rs.foldl Database.delete d) := by
  induction rs generalizing d with
  | nil => rfl
  | cons r rs ih =>
    obtain ⟨hr, hn⟩ := List.nodup_cons.1 hn
    have hlive := hl r List.mem_cons_self
    rw [List.foldlM_cons, h.deleteChecked hlive, ok_bind]
    refine ih (h.delete hlive) hn fun q hq => ?_
    exact isLive_delete.2 ⟨hl q (List.mem_cons_of_mem r hq), fun he => hr (he ▸ hq)⟩

theorem Balanced.setTierChecked (h : d.Balanced) (hr : d.isLive r) (t : Tier) :
    d.setTierChecked r t = .ok (d.setTier r t) := by
  rw [Database.setTierChecked, getChecked_eq (lt_of_isLive hr), ok_bind, require_bind fun _ => h.counts_pos hr]
  rfl

theorem Balanced.sweepListChecked (hk : ∀ c c', keep? c = some c' → c.Trimmed c') (rs : List ClauseRef)
    (kept : Array ClauseRef) (h : d.Balanced) (hn : rs.Nodup) (hl : ∀ r ∈ rs, r < d.slots.size)
    (hc : ∀ r ∈ rs, d.isLive r → keepChecked? (d.get r) = .ok (keep? (d.get r))) :
    sweepListChecked keepChecked? rs kept d = .ok (sweepList keep? rs kept d) := by
  induction rs generalizing kept d with
  | nil => rfl
  | cons r rs ih =>
    obtain ⟨hr, hn⟩ := List.nodup_cons.1 hn
    have hlr := hl r List.mem_cons_self
    have hrest {e : Database} (he : e.Balanced) (hs : e.slots.size = d.slots.size)
        (hg : ∀ q, q ≠ r → e.get q = d.get q) (kept : Array ClauseRef) :
        Database.sweepListChecked keepChecked? rs kept e = .ok (sweepList keep? rs kept e) := by
      refine ih kept he hn (fun q hq => hs.symm ▸ hl q (List.mem_cons_of_mem r hq)) fun q hq hlq => ?_
      have hget := hg q fun he => hr (he ▸ hq)
      rw [hget]
      rw [isLive, hget] at hlq
      exact hc q (List.mem_cons_of_mem r hq) hlq
    rw [Database.sweepListChecked, getChecked_eq hlr, ok_bind, sweepList]
    by_cases hd : (d.get r).deleted
    · rw [if_pos hd]
      dsimp only
      rw [if_pos hd]
      exact hrest h rfl (fun _ _ => rfl) kept
    · have hlive : d.isLive r := isLive_iff.2 (Bool.eq_false_iff.2 hd)
      rw [if_neg hd, hc r List.mem_cons_self hlive, ok_bind]
      dsimp only
      rw [if_neg hd]
      cases hkr : keep? (d.get r) with
      | none =>
        dsimp only
        rw [h.deleteChecked hlive, ok_bind]
        exact hrest (h.delete hlive) size_delete (fun q hq => get_delete_ne hq) kept
      | some c' =>
        have ht := hk _ _ hkr
        dsimp only
        rw [require_bind ht.size_le]
        exact hrest (h.shorten hlive ht) size_modify (fun q hq => get_modify_ne hq) _

theorem Kept.sweepChecked (h : d.Kept) (hk : ∀ c c', keep? c = some c' → c.Trimmed c')
    (hc : ∀ r, d.isLive r → keepChecked? (d.get r) = .ok (keep? (d.get r))) :
    d.sweepChecked keepChecked? = .ok (d.sweep keep?) := by
  obtain ⟨h1, h2⟩ := sweepList_frame keep? d.listed.toList #[] d
  have htiers : (sweepList keep? d.listed.toList #[] d).2.TiersStored :=
    h.tiersStored.of_mem (Nat.le_of_eq h2.symm) fun t r hr => Or.inl (by rwa [h1] at hr)
  have hsweep := h.toBalanced.sweepListChecked hk _ #[] h.nodup (fun _ hr => h.lt hr) fun r _ => hc r
  rw [Database.sweepChecked, hsweep, ok_bind]
  generalize hout : sweepList keep? d.listed.toList #[] d = out at htiers
  obtain ⟨kept, e⟩ := out
  dsimp only
  rw [require_bind fun _ => htiers, Database.sweep, hout]
  rfl

theorem Balanced.compactChecked (h : d.Balanced) : d.compactChecked = .ok d.compact := by
  have hc := h.compact
  have hwords : d.compact.2.words ≤ d.words := by
    have h1 := h.words
    have h2 := hc.words
    have h3 := compact_total (w := Clause.words) h.toListed
    have h4 : d.compact.2.garbage = 0 := rfl
    omega
  have hlisted : ∀ r ∈ d.compact.2.listed.toList, d.compact.2.Stores r := fun _ hr => hc.lt hr
  rw [Database.compactChecked, h.liveChecked, ok_bind, require_bind hwords, require_bind hlisted]
  rfl

theorem Balanced.collect?Checked (h : d.Balanced) : d.collect?Checked = .ok d.collect? := by
  unfold Database.collect?Checked Database.collect?
  split
  · rfl
  · rw [h.compactChecked]
    rfl

theorem TiersStored.tierEntriesChecked (h : d.TiersStored) (t : Tier) :
    d.tierEntriesChecked t = .ok (firstEntries t (d.byTier.get t).toList d) := by
  have hstored : ∀ r ∈ (d.byTier.get t).toList, d.Stores r := fun _ hr => h.lt hr
  exact require_bind hstored _

theorem Listed.rescaleChecked (h : d.Listed) : d.rescaleChecked = .ok d.rescale := by
  rw [Database.rescaleChecked, h.liveChecked]
  rfl

theorem Listed.bumpActivityChecked (h : d.Listed) (a : ActivityScale) (hr : r < d.slots.size) :
    d.bumpActivityChecked a r = .ok (d.bumpActivity a r) := by
  have hm : (d.modify r ({ · with activity := (d.get r).activity + a.bump })).Listed :=
    (show Pruned (fun _ => True) d _ from .modify d r ⟨rfl, rfl, rfl⟩).listed h
  rw [Database.bumpActivityChecked, getChecked_eq hr, ok_bind, bumpActivity]
  dsimp only
  split
  · rw [hm.rescaleChecked]
    rfl
  · rfl

theorem Listed.decayActivitiesChecked (h : d.Listed) (a : ActivityScale) :
    d.decayActivitiesChecked a = .ok (d.decayActivities a) := by
  unfold Database.decayActivitiesChecked decayActivities
  dsimp only
  split
  · rw [h.rescaleChecked]
    rfl
  · rfl

end Database

namespace Propagator

open Database (handled_unmark isLive_unmark)

variable {p : Propagator}

theorem cullChecked_eq (rs : List ClauseRef) (hn : rs.Nodup) (quota : Nat) (p : Propagator) (hb : p.clauses.Balanced)
    (hl : ∀ r ∈ rs, p.clauses.isLive r ∧ (p.clauses.get r).tier = .loc)
    (hk : ∀ r ∈ rs, p.trail.Knows (p.clauses.get r).first.var) :
    cullChecked rs quota p = .ok (cull rs quota p) := by
  induction rs generalizing quota p with
  | nil => rfl
  | cons r rs ih =>
    obtain ⟨hr, hn⟩ := List.nodup_cons.1 hn
    have hlr := (hl r List.mem_cons_self).1
    have hd := handled_unmark hlr
    have hlr' := isLive_unmark hlr
    have hrest {e : Database} (he : Database.Handled r p.clauses e) (quota : Nat) :
        cullChecked rs quota { p with clauses := e } = .ok (cull rs quota { p with clauses := e }) := by
      refine ih hn quota { p with clauses := e } (he.balanced hb) (he.rest hr hl) fun q hq => ?_
      show p.trail.Knows (e.get q).first.var
      rw [he.get_ne fun h => hr (h ▸ hq)]
      exact hk q (List.mem_cons_of_mem r hq)
    rw [cullChecked, Database.getChecked_eq (Database.lt_of_isLive hlr), ok_bind, cull]
    dsimp only
    by_cases hq : quota = 0
    · rw [if_pos hq, if_pos hq, hrest hd]
      rfl
    · rw [if_neg hq, if_neg hq]
      by_cases ha : (p.clauses.get r).active
      · rw [if_pos ha, if_pos ha, hrest (hd.deactivate hlr')]
        rfl
      · rw [if_neg ha, if_neg ha, require_bind (hk r List.mem_cons_self)]
        by_cases hlock : Propagator.isLocked { p with clauses := p.clauses.unmark r } r
        · rw [if_pos hlock, if_pos hlock, hrest hd]
          rfl
        · rw [if_neg hlock, if_neg hlock, (hd.balanced hb).deleteChecked hlr', ok_bind, hrest (hd.delete hlr')]

theorem demoteChecked_eq (rs : List ClauseRef) (hn : rs.Nodup) (d : Database) (hb : d.Balanced)
    (hl : ∀ r ∈ rs, d.isLive r ∧ (d.get r).tier = .mid) : demoteChecked rs d = .ok (demote rs d) := by
  induction rs generalizing d with
  | nil => rfl
  | cons r rs ih =>
    obtain ⟨hr, hn⟩ := List.nodup_cons.1 hn
    have hlr := (hl r List.mem_cons_self).1
    have hd := handled_unmark hlr
    have hlr' := isLive_unmark hlr
    have hrest {e : Database} (he : Database.Handled r d e) : demoteChecked rs e = .ok (demote rs e) :=
      ih hn e (he.balanced hb) (he.rest hr hl)
    rw [demoteChecked, Database.getChecked_eq (Database.lt_of_isLive hlr), ok_bind, demote]
    dsimp only
    by_cases ha : (d.get r).active
    · rw [if_pos ha, if_pos ha, hrest (hd.deactivate hlr')]
      rfl
    · rw [if_neg ha, if_neg ha, (hd.balanced hb).setTierChecked hlr', ok_bind, hrest (hd.setTier hlr')]

theorem reduceLocalsChecked_eq {n : Nat} (ties : TieOrder) (hp : p.Linked n) (h : p.clauses.Kept) :
    p.reduceLocalsChecked ties = .ok (p.reduceLocals ties) := by
  have he := Database.firstEntries_marks .loc p.clauses.byTier.loc.toList p.clauses
  have hentries : p.clauses.tierEntriesChecked .loc =
      .ok (Database.firstEntries .loc p.clauses.byTier.loc.toList p.clauses) := h.tiersStored.tierEntriesChecked .loc
  rw [reduceLocalsChecked, hentries, ok_bind, reduceLocals]
  have hknown : ∀ r ∈ (Database.firstEntries .loc p.clauses.byTier.loc.toList p.clauses).1,
      p.trail.Knows ((Database.firstEntries .loc p.clauses.byTier.loc.toList p.clauses).2.get r).first.var := by
    intro r hr
    rw [he.get_eq, if_pos hr]
    exact (hp.fits (he.mem_iff.1 hr).2.1).knowsAll hp.trail _ (Clause.first_mem _)
  generalize Database.firstEntries .loc p.clauses.byTier.loc.toList p.clauses = out at he hknown
  obtain ⟨locals, clauses⟩ := out
  dsimp only at he hknown ⊢
  have hperm := ties.sort_perm (fun r => (clauses.get r).activity.toBits.toNat) locals
  generalize ties.sort (fun r => (clauses.get r).activity.toBits.toNat) locals = rs at hperm
  rw [cullChecked_eq rs (hperm.nodup_iff.2 he.nodup) _ _ (he.balanced h.toBalanced)
    (fun r hr => he.entries r (hperm.mem_iff.1 hr)) fun r hr => hknown r (hperm.mem_iff.1 hr), ok_bind]
  rfl

theorem reduceMidsChecked_eq (h : p.clauses.Kept) : p.reduceMidsChecked = .ok p.reduceMids := by
  have he := Database.firstEntries_marks .mid p.clauses.byTier.mid.toList p.clauses
  have hentries : p.clauses.tierEntriesChecked .mid =
      .ok (Database.firstEntries .mid p.clauses.byTier.mid.toList p.clauses) := h.tiersStored.tierEntriesChecked .mid
  rw [reduceMidsChecked, hentries, ok_bind, reduceMids]
  generalize Database.firstEntries .mid p.clauses.byTier.mid.toList p.clauses = out at he
  obtain ⟨mids, clauses⟩ := out
  dsimp only at he ⊢
  have hlength := (demote_reduced mids he.nodup clauses he.entries).sublist.length_le
  rw [demoteChecked_eq mids he.nodup clauses (he.balanced h.toBalanced) he.entries, ok_bind]
  exact require_bind hlength _

end Propagator

end ClauseLearning
