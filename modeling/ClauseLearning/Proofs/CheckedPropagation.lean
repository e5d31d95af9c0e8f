import ClauseLearning.Proofs.Faults
import ClauseLearning.Proofs.Propagation

/-!
# Propagation within its bounds

Propagation reads the trail by variable, the watch lists by literal and clauses by reference. It assigns what has no
value yet, and passes over no more literals than there are.

* `Trail.Knows`, `Watches.Knows`, `Database.Stores` : what is within bounds;
* `Propagator.propagateChecked` and its parts : propagation with its bounds and assertions checked;
* `Watches.Within` : blocking literals are within bounds, those of deleted clauses included;
* `Propagator.Inv.propagate` : no check of propagation fails.
-/

namespace ClauseLearning

/-! ## Bounds -/

/-- There are entries for the variable. -/
def Trail.Knows (t : Trail) (v : Var) : Prop :=
  v.index < t.values.size ∧ v.index < t.phases.size ∧ v.index < t.reasons.size ∧ v.index < t.levels.size

instance (t : Trail) (v : Var) : Decidable (t.Knows v) := inferInstanceAs (Decidable (_ ∧ _ ∧ _ ∧ _))

/-- There are entries for the variables of some literals. -/
def Trail.KnowsAll (t : Trail) (ls : List Lit) : Prop := ∀ l ∈ ls, t.Knows l.var

instance (t : Trail) (ls : List Lit) : Decidable (t.KnowsAll ls) :=
  inferInstanceAs (Decidable (∀ l ∈ ls, t.Knows l.var))

/-- There is a list of the watches that the literal triggers. -/
def Watches.Knows (w : Watches) (l : Lit) : Prop := l.code < w.lists.size

instance (w : Watches) (l : Lit) : Decidable (w.Knows l) := inferInstanceAs (Decidable (_ < _))

/-- The reference belongs to the storage. -/
def Database.Stores (d : Database) (r : ClauseRef) : Prop := r < d.slots.size

instance (d : Database) (r : ClauseRef) : Decidable (d.Stores r) := inferInstanceAs (Decidable (_ < _))

theorem Trail.Consistent.knows {t : Trail} {n : Nat} {v : Var} (h : t.Consistent n) (hx : v.index < n) : t.Knows v :=
  ⟨h.values_size.symm ▸ hx, h.phases_size.symm ▸ hx, h.reasons_size.symm ▸ hx, h.levels_size.symm ▸ hx⟩

theorem Clause.Fits.knowsAll {c : Clause} {t u : Trail} {n : Nat} (h : c.Fits n u) (ht : t.Consistent n) :
    t.KnowsAll c.lits := fun _ hl => ht.knows (h.index_lt hl)

theorem Watches.knows_neg {v : Watches} {n : Nat} {x : Lit} (hs : v.lists.size = 2 * n) (hx : x.var.index < n) :
    v.Knows (-x) := by
  rw [Watches.Knows, hs]
  apply Lit.code_lt
  rwa [Lit.var_neg]

/-! ## Blocking literals -/

/-- Every blocking literal is one of a variable below `n`. -/
def Watches.Within (n : Nat) (v : Watches) : Prop := ∀ q, ∀ w ∈ (v.list q).toList, w.blocking.var.index < n

namespace Watches.Within

variable {n m : Nat} {v : Watches} {w : Watch} {l a b : Lit} {r : ClauseRef}

theorem mono (h : v.Within n) (hnm : n ≤ m) : v.Within m := fun q w hw => Nat.lt_of_lt_of_le (h q w hw) hnm

theorem of_lists (h : v.Within n) {v' : Watches} (hl : v'.lists = v.lists) : v'.Within n := by
  intro q w hw
  rw [Watches.list, hl] at hw
  exact h q w hw

theorem empty : ({} : Watches).Within 0 := by
  intro q w hw
  rw [Watches.list, getD_of_size_le (Nat.zero_le _)] at hw
  cases hw

theorem cleared (v : Watches) : v.cleared.Within n := by
  intro q w hw
  rw [Watches.list, Watches.cleared, Array.getD_eq_getD_getElem?, Array.getElem?_map] at hw
  cases hl : v.lists[q.code]? <;> rw [hl] at hw <;> cases hw

theorem addVar (h : v.Within n) : v.addVar.Within n := by
  intro q w hw
  rw [Propagator.Inv.list_addVar] at hw
  exact h q w hw

theorem setList (h : v.Within n) {us : Array Watch} (hu : ∀ w ∈ us.toList, w.blocking.var.index < n) :
    (v.setList l us).Within n := by
  intro q w hw
  by_cases hl : l.code < v.lists.size
  · rw [Watches.list_setList hl] at hw
    split at hw
    · exact hu w hw
    · exact h q w hw
  · rw [Watches.setList, Array.setIfInBounds_eq_of_size_le (Nat.le_of_not_lt hl)] at hw
    exact h q w hw

theorem add (h : v.Within n) (hw : w.blocking.var.index < n) : (v.add l w).Within n := by
  intro q u hu
  by_cases hl : l.code < v.lists.size
  · rw [Watches.toList_list_add hl, List.mem_append] at hu
    rcases hu with hu | hu
    · exact h q u hu
    · split at hu
      · exact List.mem_singleton.1 hu ▸ hw
      · cases hu
  · by_cases hq : q.code = l.code
    · rw [Watches.list, hq, getD_of_size_le (Nat.le_of_not_lt (Watches.size_add.symm ▸ hl))] at hu
      cases hu
    · rw [Watches.list, Watches.add, getD_modify_ne hq] at hu
      exact h q u hu

theorem watchPair (h : v.Within n) (ha : a.var.index < n) (hb : b.var.index < n) : (v.watchPair r a b).Within n :=
  (h.add hb).add ha

theorem watch (h : v.Within n) (ha : a.var.index < n) (hb : b.var.index < n) : (v.watch r a b).Within n := by
  unfold Watches.watch
  split
  · exact h.watchPair ha hb
  · exact h

end Watches.Within

/-! ## Propagation that checks its bounds -/

variable [Build]

/-- The clause of a reference. -/
def Database.getChecked (d : Database) (r : ClauseRef) : Fallible Clause := do
  require (d.Stores r) .outOfRange
  return d.get r

/-- The references to all clauses that are not deleted. -/
def Database.liveChecked (d : Database) : Fallible (List ClauseRef) := do
  require (∀ r ∈ d.listed.toList, d.Stores r) .outOfRange
  return d.live

namespace Propagator

/-- Makes a literal true that has no value. -/
def assignChecked (p : Propagator) (l : Lit) (r : Reason) : Fallible Propagator := do
  require (p.trail.Knows l.var) .outOfRange
  require (¬ p.trail.isAssigned l.var) .assertion
  return p.assign l r

def watchAnewChecked (p : Propagator) (r : ClauseRef) : Fallible Propagator := do
  let c ← p.clauses.getChecked r
  require (p.trail.KnowsAll c.lits) .outOfRange
  let c := c.watchBest p.trail.watchRank
  require (p.watches.Knows (-c.first) ∧ p.watches.Knows (-c.second)) .outOfRange
  return p.watchAnew r

def enableWatchesChecked (p : Propagator) : Fallible Propagator := do
  if p.watches.enabled then return p
  else
    let live ← p.clauses.liveChecked
    live.foldlM watchAnewChecked { p with watches := p.watches.cleared }

/-- A visit to a clause, which has to be one that the literal triggers. A reference into another storage would be
found that way. -/
def visitChecked (p : Propagator) (l : Lit) (w : Watch) : Fallible (Visit × Propagator) := do
  require (p.trail.Knows w.blocking.var) .outOfRange
  if p.trail.isTrue w.blocking then return (.keep w, p)
  else
    let c ← p.clauses.getChecked w.ref
    if c.deleted then return (.drop, p)
    else
      require (c.WatchedBy l) .assertion
      require (p.trail.KnowsAll c.lits) .outOfRange
      let c := if c.first = -l then c.swapWatched else c
      let w' : Watch := ⟨w.ref, c.first⟩
      if c.first ≠ w.blocking ∧ p.trail.isTrue c.first then
        return (.keep w', { p with clauses := p.clauses.modify w.ref fun _ => c })
      else
        match c.replaceSecond? fun x => !p.trail.isFalse x with
        | some c =>
          require (p.watches.Knows (-c.second)) .outOfRange
          return (.drop,
            { p with
              clauses := p.clauses.modify w.ref fun _ => c
              watches := p.watches.add (-c.second) w' })
        | none =>
          let p := { p with clauses := p.clauses.modify w.ref fun _ => c }
          if p.trail.isFalse c.first then return (.conflict w', p)
          else
            let p ← p.assignChecked c.first (.clause w.ref)
            return (.keep w', p)

def scanChecked (l : Lit) :
    List Watch → Array Watch → Propagator → Fallible (Option ClauseRef × Array Watch × Propagator)
  | [], kept, p => return (none, kept, p)
  | w :: ws, kept, p => do
    match ← p.visitChecked l w with
    | (.keep w', p) => scanChecked l ws (kept.push w') p
    | (.drop, p) => scanChecked l ws kept p
    | (.conflict w', p) => return (some w.ref, kept.push w' ++ ws, p)

def propagateLitChecked (p : Propagator) (l : Lit) : Fallible (Option ClauseRef × Propagator) := do
  require (p.watches.Knows l) .outOfRange
  let ws := p.watches.list l
  let (conflict, kept, p) ← scanChecked l ws.toList #[] { p with watches := p.watches.setList l #[] }
  return (conflict, { p with watches := p.watches.setList l kept })

def propagateFuelChecked : Nat → Propagator → Fallible (Option ClauseRef × Propagator)
  | 0, p => return (none, p)
  | fuel + 1, p =>
    match p.trail.pending? with
    | none => return (none, p)
    | some l => do
      match ← p.propagateLitChecked l with
      | (some conflict, p) => return (some conflict, p)
      | (none, p) =>
        require (p.trail.head < p.trail.lits.size) .assertion
        propagateFuelChecked fuel { p with trail := p.trail.advance }

/-- Propagates all pending literals. -/
def propagateChecked (p : Propagator) : Fallible (Option ClauseRef × Propagator) := do
  let p ← p.enableWatchesChecked
  propagateFuelChecked (p.trail.values.size + 1) p

end Propagator

/-! ## The checks succeed -/

theorem Database.getChecked_eq {d : Database} {r : ClauseRef} (h : r < d.slots.size) :
    d.getChecked r = .ok (d.get r) := require_bind h _

theorem Database.Listed.liveChecked {d : Database} (h : d.Listed) : d.liveChecked = .ok d.live :=
  require_bind (fun _ hr => h.lt hr) _

namespace Propagator

variable {p q : Propagator} {n : Nat} {l : Lit} {r : ClauseRef} {w : Watch} {ks ws : List Watch}

theorem assignChecked_eq {t : Reason} (h : p.trail.Knows l.var) (hu : ¬ p.trail.isAssigned l.var) :
    p.assignChecked l t = .ok (p.assign l t) := by
  rw [assignChecked, require_bind h, require_bind hu]
  rfl

/-- What a visit keeps within bounds. -/
def VisitWithin (n : Nat) : Visit × Propagator → Prop
  | (.keep w', p) => w'.blocking.var.index < n ∧ p.watches.Within n
  | (.drop, p) => p.watches.Within n
  | (.conflict w', p) => w'.blocking.var.index < n ∧ p.watches.Within n

theorem Scanning.visit (h : p.Scanning n l ks (w :: ws)) (hp : p.watches.Within n) (hw : w.blocking.var.index < n) :
    p.visitChecked l w = .ok (p.visit l w) ∧ VisitWithin n (p.visit l w) := by
  have hmem : w ∈ withList p.watching l (ks ++ w :: ws) l :=
    mem_withList.2 (Or.inl ⟨rfl, List.mem_append_right _ List.mem_cons_self⟩)
  unfold visitChecked Propagator.visit
  rw [require_bind (h.trail.knows hw)]
  by_cases hb : p.trail.isTrue w.blocking
  · rw [if_pos hb, if_pos hb]
    exact ⟨rfl, hw, hp⟩
  · rw [if_neg hb, if_neg hb, Database.getChecked_eq (h.watched.ref_lt hmem), ok_bind]
    by_cases hd : (p.clauses.get w.ref).deleted
    · rw [if_pos hd]
      dsimp only
      rw [if_pos hd]
      exact ⟨rfl, hp⟩
    · have hlive := Database.isLive_iff.2 (Bool.eq_false_iff.2 hd)
      have hfit := h.fits hlive
      have hwatched := h.watchedBy (List.mem_append_right ks List.mem_cons_self) hlive
      rw [if_neg hd, require_bind hwatched, require_bind (hfit.knowsAll h.trail)]
      dsimp only
      rw [if_neg hd]
      have hturn : (p.clauses.get w.ref).Reordered
          (if (p.clauses.get w.ref).first = -l then (p.clauses.get w.ref).swapWatched else p.clauses.get w.ref) := by
        split
        · exact Clause.swapWatched_reordered _
        · exact Clause.Reordered.refl _
      revert hturn
      generalize (if (p.clauses.get w.ref).first = -l then (p.clauses.get w.ref).swapWatched
        else p.clauses.get w.ref) = c
      intro hturn
      have hfirst := (hfit.of_perm hturn.perm).index_lt c.first_mem
      by_cases ht : c.first ≠ w.blocking ∧ p.trail.isTrue c.first
      · rw [if_pos ht, if_pos ht]
        exact ⟨rfl, hfirst, hp⟩
      · rw [if_neg ht, if_neg ht]
        cases hr : c.replaceSecond? fun x => !p.trail.isFalse x with
        | some c' =>
          have hsecond := (hfit.of_perm (hturn.trans (Clause.replaceSecond?_some hr).1).perm).index_lt c'.second_mem
          dsimp only
          rw [require_bind (Watches.knows_neg h.lists_size hsecond)]
          exact ⟨rfl, hp.add hfirst⟩
        | none =>
          dsimp only
          by_cases hf : p.trail.isFalse c.first
          · rw [if_pos hf, if_pos hf]
            exact ⟨rfl, hfirst, hp⟩
          · have hu : ¬ p.trail.isAssigned c.first.var := by
              intro ha
              refine (Trail.isAssigned_iff.1 ha).elim (fun htrue => ?_) hf
              exact ht ⟨fun he => hb (he ▸ htrue), htrue⟩
            rw [if_neg hf, if_neg hf,
              assignChecked_eq (p := { p with clauses := p.clauses.modify w.ref fun _ => c }) (h.trail.knows hfirst) hu,
              ok_bind]
            exact ⟨rfl, hfirst, hp⟩

theorem Scanning.scan (kept : Array Watch) (h : p.Scanning n l kept.toList ws) (hp : p.watches.Within n)
    (hk : ∀ w ∈ kept.toList, w.blocking.var.index < n) (hw : ∀ w ∈ ws, w.blocking.var.index < n) :
    scanChecked l ws kept p = .ok (Propagator.scan l ws kept p) ∧
      (∀ w ∈ (Propagator.scan l ws kept p).2.1.toList, w.blocking.var.index < n) ∧
        (Propagator.scan l ws kept p).2.2.watches.Within n := by
  induction ws generalizing kept p with
  | nil => exact ⟨rfl, hk, hp⟩
  | cons w ws ih =>
    obtain ⟨h1, h2⟩ := h.visit hp (hw w List.mem_cons_self)
    have h3 := (visit_spec h).1
    have hws := fun u hu => hw u (List.mem_cons_of_mem w hu)
    have hpush {w' : Watch} (hw' : w'.blocking.var.index < n) :
        ∀ u ∈ (kept.push w').toList, u.blocking.var.index < n := by
      intro u hu
      rw [Array.toList_push, List.mem_append] at hu
      exact hu.elim (hk u) fun hu => List.mem_singleton.1 hu ▸ hw'
    rw [scanChecked, h1, ok_bind, Propagator.scan]
    generalize p.visit l w = out at h2 h3
    obtain ⟨answer, q⟩ := out
    cases answer with
    | keep w' => exact ih (kept.push w') (by rw [Array.toList_push]; exact h3) h2.2 (hpush h2.1) hws
    | drop => exact ih kept h3 h2 hk hws
    | conflict w' =>
      refine ⟨rfl, fun u hu => ?_, h2.2⟩
      have hl : (kept.push w' ++ ws).toList = (kept.push w').toList ++ ws := by simp
      rw [hl, List.mem_append] at hu
      exact hu.elim (hpush h2.1 u) (hws u)

theorem Inv.propagateLit (h : p.Inv n) (he : p.watches.enabled = true) (hh : p.trail.At p.trail.head l)
    (hp : p.watches.Within n) :
    p.propagateLitChecked l = .ok (p.propagateLit l) ∧ (p.propagateLit l).2.watches.Within n := by
  obtain ⟨h1, h2, h3⟩ := (h.scanning he hh).scan #[] (hp.setList fun w hw => by cases hw)
    (fun w hw => by cases hw) (hp l)
  have hk : p.watches.Knows l := h.code_lt_of_at hh
  unfold propagateLitChecked Propagator.propagateLit
  rw [require_bind hk]
  dsimp only
  rw [h1, ok_bind]
  exact ⟨rfl, h3.setList h2⟩

theorem Inv.propagateFuel (fuel : Nat) (h : p.Inv n) (he : p.watches.enabled = true) (hp : p.watches.Within n) :
    propagateFuelChecked fuel p = .ok (Propagator.propagateFuel fuel p) ∧
      (Propagator.propagateFuel fuel p).2.watches.Within n := by
  induction fuel generalizing p with
  | zero => exact ⟨rfl, hp⟩
  | succ fuel ih =>
    rw [propagateFuelChecked, Propagator.propagateFuel]
    cases hl : p.trail.pending? with
    | none => exact ⟨rfl, hp⟩
    | some l =>
      obtain ⟨h1, h2⟩ := h.propagateLit he hl hp
      dsimp only
      rw [h1, ok_bind]
      cases hq : p.propagateLit l with
      | mk conflict q =>
        rw [hq] at h2
        cases conflict with
        | some r => exact ⟨rfl, h2⟩
        | none =>
          obtain ⟨hi, ha, hen, hhead⟩ := propagateLit_none h he hl hq
          have hlt : q.trail.head < q.trail.lits.size := hhead.symm ▸ (ha.at_mono hl).lt
          dsimp only
          rw [require_bind hlt]
          exact ih hi hen h2

theorem Building.watchAnewChecked {todo : List ClauseRef} (h : p.Building n (r :: todo)) (hl : p.clauses.isLive r)
    (hp : p.watches.Within n) :
    p.watchAnewChecked r = .ok (p.watchAnew r) ∧ (p.watchAnew r).watches.Within n := by
  have hfit := (h.fits hl).of_perm (Clause.watchBest_reordered (p.clauses.get r) p.trail.watchRank).perm
  have h1 := hfit.index_lt (Clause.first_mem _)
  have h2 := hfit.index_lt (Clause.second_mem _)
  have hcode {x : Lit} (hx : x.var.index < n) := Watches.knows_neg h.lists_size hx
  unfold Propagator.watchAnewChecked
  rw [Database.getChecked_eq (Database.lt_of_isLive hl), ok_bind, require_bind ((h.fits hl).knowsAll h.trail)]
  exact ⟨require_bind ⟨hcode h1, hcode h2⟩ _, hp.watchPair h1 h2⟩

theorem Building.foldlM_watchAnew {todo : List ClauseRef} (h : p.Building n todo) (hn : todo.Nodup)
    (hl : ∀ r ∈ todo, p.clauses.isLive r) (hp : p.watches.Within n) :
    todo.foldlM Propagator.watchAnewChecked p = .ok (todo.foldl Propagator.watchAnew p) ∧
      (todo.foldl Propagator.watchAnew p).watches.Within n := by
  induction todo generalizing p with
  | nil => exact ⟨rfl, hp⟩
  | cons r todo ih =>
    obtain ⟨hr, hn⟩ := List.nodup_cons.1 hn
    obtain ⟨h1, h2⟩ := h.watchAnew hr (hl r List.mem_cons_self)
    obtain ⟨h3, h4⟩ := h.watchAnewChecked (hl r List.mem_cons_self) hp
    rw [List.foldlM_cons, h3, ok_bind]
    exact ih h1 hn (fun r' hr' => h2.isLive_eq r' ▸ hl r' (List.mem_cons_of_mem r hr')) h4

theorem Inv.enableWatches (h : p.Inv n) (hp : p.watches.Within n) :
    p.enableWatchesChecked = .ok p.enableWatches ∧ p.enableWatches.watches.Within n := by
  unfold enableWatchesChecked Propagator.enableWatches
  by_cases he : p.watches.enabled
  · rw [if_pos he, if_pos he]
    exact ⟨rfl, hp⟩
  · rw [if_neg he, if_neg he, h.listed.liveChecked, ok_bind]
    exact (h.building (Bool.eq_false_iff.2 he)).foldlM_watchAnew h.listed.live_nodup
      (fun r hr => h.listed.mem_live.1 hr) (.cleared _)

/-- No check of propagation fails. -/
theorem Inv.propagate (h : p.Inv n) (hp : p.watches.Within n) :
    p.propagateChecked = .ok p.propagate ∧ p.propagate.2.watches.Within n := by
  obtain ⟨h1, h2⟩ := h.enableWatches hp
  obtain ⟨hi, -, hen⟩ := enableWatches_spec h
  unfold propagateChecked
  rw [h1, ok_bind]
  exact hi.propagateFuel _ hen h2

end Propagator

end ClauseLearning
