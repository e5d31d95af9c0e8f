import ClauseLearning.Proofs.Propagator

/-!
# Propagation

* `Propagator.Advance` : propagation reorders clauses and adds literals that clauses imply, on the current level;
* `Propagator.Paused`, `Propagator.Scanning` : the invariant while the watch list of a literal is scanned;
* `Propagator.Conflict` : a clause all of whose literals are false, one of them on the current level;
* `Propagator.propagate_spec` : propagation keeps the invariant, and ends with all literals propagated or with a
  conflict.
-/

namespace ClauseLearning.Propagator

variable {p q s : Propagator} {n i : Nat} {l x : Lit} {r : ClauseRef} {c : Clause} {w w' : Watch} {ks ws : List Watch}

/-! ## What propagation changes -/

/-- Clauses are reordered, and literals were added to the trail that have reason clauses. -/
structure Advance (p q : Propagator) : Prop where
  size_eq : q.clauses.slots.size = p.clauses.slots.size
  reordered (r : ClauseRef) : (p.clauses.get r).Reordered (q.clauses.get r)
  at_mono {i : Nat} {l : Lit} : p.trail.At i l → q.trail.At i l
  isTrue_mono {l : Lit} : p.trail.isTrue l → q.trail.isTrue l
  level_eq {v : Var} : p.trail.isAssigned v → q.trail.level v = p.trail.level v
  reason_eq {v : Var} : p.trail.isAssigned v → q.trail.reason v = p.trail.reason v
  currentLevel_eq : q.trail.currentLevel = p.trail.currentLevel
  new {l : Lit} : q.trail.isTrue l → p.trail.isTrue l ∨ ∃ r, q.trail.reason l.var = .clause r

namespace Advance

theorem refl (p : Propagator) : Advance p p where
  size_eq := rfl
  reordered _ := Clause.Reordered.refl _
  at_mono := id
  isTrue_mono := id
  level_eq _ := rfl
  reason_eq _ := rfl
  currentLevel_eq := rfl
  new := Or.inl

theorem isAssigned_mono (h : Advance p q) {v : Var} (hv : p.trail.isAssigned v) : q.trail.isAssigned v := by
  obtain ⟨l, rfl, hl⟩ := Trail.exists_isTrue_of_isAssigned hv
  exact Trail.isAssigned_of_isTrue (h.isTrue_mono hl)

theorem trans (h : Advance p q) (h' : Advance q s) : Advance p s where
  size_eq := h'.size_eq.trans h.size_eq
  reordered r := (h.reordered r).trans (h'.reordered r)
  at_mono hi := h'.at_mono (h.at_mono hi)
  isTrue_mono hl := h'.isTrue_mono (h.isTrue_mono hl)
  level_eq hv := (h'.level_eq (h.isAssigned_mono hv)).trans (h.level_eq hv)
  reason_eq hv := (h'.reason_eq (h.isAssigned_mono hv)).trans (h.reason_eq hv)
  currentLevel_eq := h'.currentLevel_eq.trans h.currentLevel_eq
  new hl := by
    rcases h'.new hl with hl | hr
    · rcases h.new hl with hl' | ⟨r, hr⟩
      · exact Or.inl hl'
      · exact Or.inr ⟨r, (h'.reason_eq (Trail.isAssigned_of_isTrue hl)).trans hr⟩
    · exact Or.inr hr

theorem isLive_eq (h : Advance p q) (r : ClauseRef) : q.clauses.isLive r = p.clauses.isLive r := by
  rw [Database.isLive, Database.isLive, (h.reordered r).deleted_eq]

theorem withWatches (p : Propagator) (v : Watches) : Advance p { p with watches := v } :=
  ⟨rfl, fun _ => Clause.Reordered.refl _, id, id, fun _ => rfl, fun _ => rfl, rfl, Or.inl⟩

theorem modify (p : Propagator) {r : ClauseRef} (hc : (p.clauses.get r).Reordered c) :
    Advance p { p with clauses := p.clauses.modify r fun _ => c } where
  size_eq := Database.size_modify
  reordered r' := by
    show Clause.Reordered _ ((p.clauses.modify r fun _ => c).get r')
    rw [Database.get_modify]
    split
    · next h =>
      rw [h.1]
      exact hc
    · exact Clause.Reordered.refl _
  at_mono := id
  isTrue_mono := id
  level_eq _ := rfl
  reason_eq _ := rfl
  currentLevel_eq := rfl
  new := Or.inl

theorem assign (ht : p.trail.Consistent n) (hx : l.var.index < n) (hu : ¬ p.trail.isAssigned l.var) :
    Advance p (p.assign l (.clause r)) := by
  have g := ht.grows_assign (r := .clause r) hx hu
  refine
    { size_eq := rfl
      reordered := fun _ => Clause.Reordered.refl _
      at_mono := fun hi => g.at_iff.2 (Or.inl hi)
      isTrue_mono := g.isTrue_of
      level_eq := g.level_eq_of_isAssigned
      reason_eq := g.reason_eq_of_isAssigned
      currentLevel_eq := rfl
      new := fun {k} hk => ?_ }
  rcases g.isTrue_iff.1 hk with rfl | hk
  · refine Or.inr ⟨r, ?_⟩
    show (p.trail.assign _ _).reason _ = _
    rw [Trail.reason_assign (ht.reasons_size.symm ▸ hx), if_pos rfl]
  · exact Or.inl hk

end Advance

/-! ## The invariant of a scan -/

/-- The invariant while the watch list of the pending literal `l` is taken out and `ls` is what it holds. -/
structure Paused (p : Propagator) (n : Nat) (l : Lit) (ls : List Watch) : Prop extends Linked p n where
  lists_size : p.watches.lists.size = 2 * n
  enabled : p.watches.enabled = true
  watched : Watched [] p.clauses (withList p.watching l ls)
  guarded {r : ClauseRef} : p.clauses.isLive r → p.Guarded r
  head : p.trail.At p.trail.head l

/-- A clause that `l` triggers has a true literal. -/
def Visited (p : Propagator) (l : Lit) (r : ClauseRef) : Prop :=
  (p.clauses.get r).WatchedBy l → ∃ y ∈ (p.clauses.get r).lits, p.trail.isTrue y

/-- The invariant of a scan: the clauses in `ks` were visited, those in `ws` not yet. -/
structure Scanning (p : Propagator) (n : Nat) (l : Lit) (ks ws : List Watch) : Prop
    extends Paused p n l (ks ++ ws) where
  visited {r : ClauseRef} : p.clauses.isLive r → (∀ w ∈ ws, w.ref ≠ r) → p.Visited l r

/-- All literals of a clause are false, one of them on the current level. -/
structure Conflict (p : Propagator) (r : ClauseRef) : Prop where
  isLive : p.clauses.isLive r
  isFalse {x : Lit} : x ∈ (p.clauses.get r).lits → p.trail.isFalse x
  current : ∃ x ∈ (p.clauses.get r).lits, p.trail.level x.var = p.trail.currentLevel

namespace Paused

variable {ls : List Watch}

theorem watchedBy (h : p.Paused n l ls) (hm : w ∈ ls) (hl : p.clauses.isLive w.ref) :
    (p.clauses.get w.ref).WatchedBy l := by
  have hc := h.watched.count l hl
  rw [withList_self] at hc
  by_cases hw : (p.clauses.get w.ref).WatchedBy l
  · exact hw
  · rw [if_neg fun hn => hw hn.2, countRef_eq_zero] at hc
    exact absurd rfl (hc w hm)

theorem isTrue_head (h : p.Paused n l ls) : p.trail.isTrue l := h.trail.isTrue h.head

theorem level_head (h : p.Paused n l ls) : p.trail.level l.var = p.trail.currentLevel :=
  h.trail.level_eq_of_head_le h.head (Nat.le_refl _)

end Paused

theorem Linked.modify (h : p.Linked n) (hc : (p.clauses.get r).Reordered c)
    (hr : p.IsReason r → c = p.clauses.get r) :
    { p with clauses := p.clauses.modify r fun _ => c }.Linked n where
  trail := h.trail
  listed := by
    apply h.listed.of_isLive Database.size_modify rfl
    intro r' hl
    rw [Database.isLive_iff, Database.get_modify] at hl
    split at hl
    · next he =>
      rw [hc.deleted_eq, ← he.1] at hl
      exact Database.isLive_iff.2 hl
    · exact Database.isLive_iff.2 hl
  fits {r'} hl := by
    rw [Database.isLive_iff] at hl
    change ((p.clauses.modify r fun _ => c).get r').deleted = false at hl
    show Clause.Fits n p.trail ((p.clauses.modify r fun _ => c).get r')
    rw [Database.get_modify] at hl ⊢
    split
    · next he =>
      rw [if_pos he, hc.deleted_eq] at hl
      exact (h.fits (Database.isLive_iff.2 hl)).of_perm hc.perm
    · next he =>
      rw [if_neg he] at hl
      exact h.fits (Database.isLive_iff.2 hl)
  unit_reason := h.unit_reason
  clause_reason {i l r'} hi hr' := by
    obtain ⟨h1, h2⟩ := h.clause_reason hi hr'
    have hg : (p.clauses.modify r fun _ => c).get r' = p.clauses.get r' := by
      rw [Database.get_modify]
      split
      · next he =>
        have hre : p.IsReason r := ⟨i, l, hi, he.1 ▸ hr'⟩
        rw [he.1, hr hre]
      · rfl
    refine ⟨?_, ?_⟩
    · show (p.clauses.modify r fun _ => c).isLive r'
      rw [Database.isLive, hg]
      exact h1
    · show ((p.clauses.modify r fun _ => c).get r').first = l ∧
        ∀ x ∈ ((p.clauses.modify r fun _ => c).get r').lits.drop 1, ∃ j < i, p.trail.At j (-x)
      rw [hg]
      exact h2

theorem WatchedBy.mem_iff {c d : Clause} (hw : ∀ q, c.WatchedBy q ↔ d.WatchedBy q) (x : Lit) :
    x = c.first ∨ x = c.second ↔ x = d.first ∨ x = d.second := by
  have h := hw (-x)
  rw [Clause.WatchedBy, Clause.WatchedBy, Lit.neg_inj, Lit.neg_inj, Lit.neg_inj, Lit.neg_inj] at h
  exact h

/-- The guard of a clause does not depend on the order of its literals, as long as the same ones are watched. -/
theorem Guarded.modify {r' : ClauseRef} (h : p.Guarded r') (hc : (p.clauses.get r).Reordered c)
    (hw : ∀ q, c.WatchedBy q ↔ (p.clauses.get r).WatchedBy q) :
    { p with clauses := p.clauses.modify r fun _ => c }.Guarded r' := by
  intro x i
  show (x = ((p.clauses.modify r fun _ => c).get r').first ∨ x = ((p.clauses.modify r fun _ => c).get r').second) →
    p.trail.At i (-x) → i < p.trail.head →
      ∃ y ∈ ((p.clauses.modify r fun _ => c).get r').lits, p.trail.isTrue y ∧ p.trail.level y.var ≤ p.trail.level x.var
  rw [Database.get_modify]
  split
  · next he =>
    rw [WatchedBy.mem_iff hw]
    simp only [hc.mem_iff]
    rw [← he.1]
    exact h x i
  · exact h x i

theorem isLive_of_modify {r' : ClauseRef} (hc : (p.clauses.get r).Reordered c)
    (hl : (p.clauses.modify r fun _ => c).isLive r') : p.clauses.isLive r' := by
  rw [Database.isLive_iff, Database.get_modify] at hl
  split at hl
  · next he =>
    rw [hc.deleted_eq, ← he.1] at hl
    exact Database.isLive_iff.2 hl
  · exact Database.isLive_iff.2 hl

namespace Scanning

theorem modify (h : p.Scanning n l ks ws) (hc : (p.clauses.get r).Reordered c)
    (hw : ∀ q, c.WatchedBy q ↔ (p.clauses.get r).WatchedBy q) (hr : p.IsReason r → c = p.clauses.get r) :
    { p with clauses := p.clauses.modify r fun _ => c }.Scanning n l ks ws where
  toLinked := h.toLinked.modify hc hr
  lists_size := h.lists_size
  enabled := h.enabled
  watched := h.watched.modify hc fun _ => hw
  guarded hl := (h.guarded (isLive_of_modify hc hl)).modify hc hw
  head := h.head
  visited {r'} hl hn := by
    have hv := h.visited (isLive_of_modify hc hl) hn
    show ((p.clauses.modify r fun _ => c).get r').WatchedBy l →
      ∃ y ∈ ((p.clauses.modify r fun _ => c).get r').lits, p.trail.isTrue y
    rw [Database.get_modify]
    split
    · next he =>
      rw [hw]
      simp only [hc.mem_iff]
      rw [← he.1]
      exact hv
    · exact hv

/-- The clause of the next watch has a true literal, so the watch stays. -/
theorem keep (h : p.Scanning n l ks (w :: ws)) (hr : w'.ref = w.ref)
    (hb : p.clauses.isLive w.ref → (p.clauses.get w.ref).Blocks l w'.blocking)
    (hv : p.clauses.isLive w.ref → p.Visited l w.ref) : p.Scanning n l (ks ++ [w']) ws where
  toLinked := h.toLinked
  lists_size := h.lists_size
  enabled := h.enabled
  watched := by
    rw [List.append_assoc, List.singleton_append]
    exact h.watched.replace hr (by rw [hr]; exact hb)
  guarded := h.guarded
  head := h.head
  visited {r} hl hn := by
    by_cases he : r = w.ref
    · rw [he] at hl ⊢
      exact hv hl
    · apply h.visited hl
      intro v hv
      rcases List.mem_cons.1 hv with rfl | hv
      · exact fun h => he h.symm
      · exact hn v hv

/-- The clause of the next watch is deleted, so the watch goes. -/
theorem drop (h : p.Scanning n l ks (w :: ws)) (hd : ¬ p.clauses.isLive w.ref) : p.Scanning n l ks ws where
  toLinked := h.toLinked
  lists_size := h.lists_size
  enabled := h.enabled
  watched := h.watched.drop hd
  guarded := h.guarded
  head := h.head
  visited {r} hl hn := by
    apply h.visited hl
    intro v hv
    rcases List.mem_cons.1 hv with rfl | hv
    · rintro rfl
      exact hd hl
    · exact hn v hv

/-- The first literal of a clause becomes true, as all others are false. -/
theorem assign (h : p.Scanning n l ks ws) (hl : p.clauses.isLive r)
    (hu : ¬ p.trail.isAssigned (p.clauses.get r).first.var)
    (hf : ∀ x ∈ (p.clauses.get r).lits.drop 1, p.trail.isFalse x) :
    (p.assign (p.clauses.get r).first (.clause r)).Scanning n l ks ws := by
  have hfit := h.fits hl
  have hx := hfit.index_lt (Clause.first_mem _)
  have g := h.trail.grows_assign (r := .clause r) hx hu
  refine
    { toLinked := h.toLinked.grow (h.trail.assign hx hu) g ?_ ?_
      lists_size := h.lists_size
      enabled := h.enabled
      watched := h.watched
      guarded := fun hl => (h.guarded hl).grow h.trail g
      head := g.at_iff.2 (Or.inl h.head)
      visited := fun {r'} hl' hn hw => ?_ }
  · intro hr
    rw [Trail.reason_assign (h.trail.reasons_size.symm ▸ hx), if_pos rfl] at hr
    cases hr
  · intro r' hr
    rw [Trail.reason_assign (h.trail.reasons_size.symm ▸ hx), if_pos rfl] at hr
    obtain rfl := Reason.clause.inj hr
    exact ⟨hl, rfl, fun x hx => hfit.at_of_isFalse h.trail (List.mem_of_mem_drop hx) (hf x hx)⟩
  · obtain ⟨y, hy, hyt⟩ := h.visited hl' hn hw
    exact ⟨y, hy, g.isTrue_of hyt⟩

theorem withList_watching_add (p : Propagator) (d : Database) (us : List Watch) (hx : x.code < p.watches.lists.size) :
    withList (watching { p with clauses := d, watches := p.watches.add x w' }) l us =
      Watched.afterMove p.watching l x us w' := by
  funext q
  unfold Watched.afterMove
  by_cases hq : q = l
  · rw [hq, withList_self, withList_self]
  · rw [withList_ne hq, withList_ne hq, watching, Watches.toList_list_add hx]
    split
    · next he => rw [he, withList_self, watching]
    · next he => rw [withList_ne he, watching, List.append_nil]

theorem guarded_of_not_isFalse {q : Propagator} (h : p.Guarded r) (hc : (p.clauses.get r).Reordered c)
    (hf : c.first = (p.clauses.get r).first) (hns : ¬ p.trail.isFalse c.second) (ht : p.trail.Consistent n)
    (hq : q.clauses.get r = c) (hqt : q.trail = p.trail) : q.Guarded r := by
  intro x i hx hi hlt
  rw [hq] at hx ⊢
  rw [hqt] at hi hlt ⊢
  rcases hx with rfl | rfl
  · obtain ⟨y, hy, hyt⟩ := h c.first i (Or.inl hf) hi hlt
    exact ⟨y, hc.mem_iff.2 hy, hyt⟩
  · exact absurd (Trail.isFalse_iff_neg.2 (ht.isTrue hi)) hns

theorem move (h : p.Scanning n l ks (w :: ws)) (hl : p.clauses.isLive w.ref) (hs : (p.clauses.get w.ref).second = -l)
    (hc : (p.clauses.get w.ref).Reordered c) (hf : c.first = (p.clauses.get w.ref).first)
    (hns : ¬ p.trail.isFalse c.second) (hnt : ¬ p.trail.isTrue (p.clauses.get w.ref).first) (hr : w'.ref = w.ref)
    (hb : w'.blocking = c.first) :
    { p with
      clauses := p.clauses.modify w.ref fun _ => c
      watches := p.watches.add (-c.second) w' }.Scanning n l ks ws := by
  have hfit := h.fits hl
  have hfit' := hfit.of_perm hc.perm
  have hnr : p.IsReason w.ref → c = p.clauses.get w.ref := by
    rintro ⟨i, k, hi, hk⟩
    have hfirst := (h.clause_reason hi hk).2.1
    exact absurd (hfirst ▸ h.trail.isTrue hi) hnt
  have hfalse : p.trail.isFalse (-l) := by
    rw [Trail.isFalse_iff_neg, Lit.neg_neg]
    exact h.isTrue_head
  have hne : l ≠ -c.second := by
    intro he
    rw [← Lit.neg_eq_comm] at he
    exact hns (he ▸ hfalse)
  have hself : (p.clauses.modify w.ref fun _ => c).get w.ref = c := Database.get_modify_self hl
  have hm := h.toLinked.modify hc hnr
  refine
    { toLinked := ⟨hm.trail, hm.listed, hm.fits, hm.unit_reason, hm.clause_reason⟩
      lists_size := Watches.size_add.trans h.lists_size
      enabled := h.enabled
      watched := ?_
      guarded := fun {r} hlr => ?_
      head := h.head
      visited := fun {r} hlr hn => ?_ }
  · have hcode : (-c.second).code < p.watches.lists.size := by
      rw [h.lists_size]
      apply Lit.code_lt
      rw [Lit.var_neg]
      exact hfit'.index_lt c.second_mem
    rw [withList_watching_add p _ _ hcode]
    exact h.watched.move hl (Lit.neg_eq_comm.1 hs.symm ▸ rfl) hc hf hne hfit.first_ne_second hfit'.first_ne_second hr
      (hb ▸ Clause.first_blocks hfit'.first_ne_second)
  · have hlr' := isLive_of_modify hc hlr
    by_cases he : r = w.ref
    · subst he
      exact guarded_of_not_isFalse (h.guarded hlr') hc hf hns h.trail hself rfl
    · have hget : (p.clauses.modify w.ref fun _ => c).get r = p.clauses.get r := Database.get_modify_ne he
      intro x i
      show (x = ((p.clauses.modify w.ref fun _ => c).get r).first ∨ _) → _ → _ → ∃ y ∈ (Database.get _ r).lits, _
      rw [hget]
      exact h.guarded hlr' x i
  · have hlr' := isLive_of_modify hc hlr
    show ((p.clauses.modify w.ref fun _ => c).get r).WatchedBy l →
      ∃ y ∈ ((p.clauses.modify w.ref fun _ => c).get r).lits, p.trail.isTrue y
    by_cases he : r = w.ref
    · subst he
      rw [hself]
      rintro (hw | hw)
      · rw [hf] at hw
        refine absurd ?_ hfit.first_ne_second
        rw [hs, hw, Lit.neg_neg]
      · exact absurd hw hne
    · rw [Database.get_modify_ne he]
      apply h.visited hlr'
      intro v hv
      rcases List.mem_cons.1 hv with rfl | hv
      · exact fun h => he h.symm
      · exact hn v hv

/-- All literals of the clause of the next watch are false, so the scan stops. -/
theorem stop (h : p.Scanning n l ks (w :: ws)) (hl : p.clauses.isLive w.ref) (hs : (p.clauses.get w.ref).second = -l)
    (hf : p.trail.isFalse (p.clauses.get w.ref).first)
    (hothers : ∀ x ∈ (p.clauses.get w.ref).lits.drop 1, p.trail.isFalse x) :
    p.Paused n l (ks ++ ⟨w.ref, (p.clauses.get w.ref).first⟩ :: ws) ∧ p.Conflict w.ref := by
  refine ⟨⟨h.toLinked, h.lists_size, h.enabled, ?_, h.guarded, h.head⟩, hl, ?_, ?_⟩
  · exact h.watched.replace rfl fun hl => (h.fits hl).first_blocks hs
  · intro x hx
    rcases List.mem_cons.1 hx with rfl | hx
    · exact hf
    · exact hothers x hx
  · refine ⟨(p.clauses.get w.ref).second, Clause.second_mem _, ?_⟩
    rw [hs, Lit.var_neg]
    exact h.level_head

end Scanning

/-! ## Visits -/

theorem modify_modify (d : Database) (r : ClauseRef) (a b : Clause) :
    ((d.modify r fun _ => a).modify r fun _ => b) = d.modify r fun _ => b := by
  unfold Database.modify
  congr 1
  apply Array.ext_getElem?
  intro i
  rw [Array.getElem?_modify, Array.getElem?_modify, Array.getElem?_modify]
  split
  · rw [Option.map_map]
    rfl
  · rfl

/-- What a visit ends with, while the watches in `ks` stay and those in `ws` are left. -/
def VisitEnds (n : Nat) (l : Lit) (ks ws : List Watch) (r : ClauseRef) : Visit × Propagator → Prop
  | (.keep w', p) => p.Scanning n l (ks ++ [w']) ws
  | (.drop, p) => p.Scanning n l ks ws
  | (.conflict w', p) => p.Paused n l (ks ++ w' :: ws) ∧ p.Conflict r

theorem turned_spec (hw : c.WatchedBy l) : (c.Reordered (if c.first = -l then c.swapWatched else c)) ∧
    (if c.first = -l then c.swapWatched else c).second = -l ∧
    ∀ q, (if c.first = -l then c.swapWatched else c).WatchedBy q ↔ c.WatchedBy q := by
  split
  · next hf => exact ⟨c.swapWatched_reordered, hf, fun q => or_comm⟩
  · next hf =>
    refine ⟨Clause.Reordered.refl c, ?_, fun q => Iff.rfl⟩
    rcases hw with hw | hw
    · exact absurd (Lit.neg_eq_comm.1 hw.symm) hf
    · exact Lit.neg_eq_comm.1 hw.symm

theorem visit_turned (h : p.Scanning n l ks (w :: ws)) (hl : p.clauses.isLive w.ref) (hc : p.clauses.get w.ref = c)
    (hs : c.second = -l) (hb : ¬ p.trail.isTrue w.blocking) {out : Visit × Propagator}
    (ho : out =
      if c.first ≠ w.blocking ∧ p.trail.isTrue c.first then (.keep ⟨w.ref, c.first⟩, p)
      else
        match c.replaceSecond? fun x => !p.trail.isFalse x with
        | some c' =>
          (.drop,
            { p with
              clauses := p.clauses.modify w.ref fun _ => c'
              watches := p.watches.add (-c'.second) ⟨w.ref, c.first⟩ })
        | none =>
          if p.trail.isFalse c.first then (.conflict ⟨w.ref, c.first⟩, p)
          else (.keep ⟨w.ref, c.first⟩, p.assign c.first (.clause w.ref))) :
    VisitEnds n l ks ws w.ref out ∧ Advance p out.2 := by
  have hfit := h.fits hl
  rw [hc] at hfit
  split at ho
  · next ht =>
    subst ho
    refine ⟨h.keep rfl ?_ fun _ _ => ⟨c.first, ?_, ht.2⟩, Advance.refl p⟩
    · intro _
      exact hc.symm ▸ hfit.first_blocks hs
    · exact hc ▸ c.first_mem
  · next ht =>
    have hnt : ¬ p.trail.isTrue c.first := fun h1 => ht ⟨fun he => hb (he ▸ h1), h1⟩
    split at ho
    · next c' hr =>
      subst ho
      obtain ⟨hre, hf, hg⟩ := Clause.replaceSecond?_some hr
      have hg' : ¬ p.trail.isFalse c'.second := by
        rw [Bool.not_eq_true] at *
        simpa using hg
      subst hc
      refine ⟨h.move hl hs hre hf hg' hnt rfl hf.symm, ?_⟩
      exact (Advance.modify p hre).trans (Advance.withWatches _ _)
    · next hr =>
      have hothers : ∀ x ∈ c.lits.drop 1, p.trail.isFalse x := by
        intro x hx
        rcases List.mem_cons.1 hx with rfl | hx
        · rw [hs, Trail.isFalse_iff_neg, Lit.neg_neg]
          exact h.isTrue_head
        · have := Clause.replaceSecond?_none hr x hx
          simpa using this
      split at ho
      · next hf =>
        subst ho hc
        exact ⟨h.stop hl hs hf hothers, Advance.refl p⟩
      · next hf =>
        subst ho
        have hu : ¬ p.trail.isAssigned c.first.var := fun ha => (Trail.isAssigned_iff.1 ha).elim hnt hf
        have hx := hfit.index_lt c.first_mem
        subst hc
        have g := h.trail.grows_assign (r := .clause w.ref) hx hu
        refine ⟨(h.assign hl hu hothers).keep rfl (fun _ => hfit.first_blocks hs) ?_,
          Advance.assign h.trail hx hu⟩
        intro _ _
        exact ⟨_, Clause.first_mem _, g.isTrue_iff.2 (Or.inl rfl)⟩

theorem visit_spec (h : p.Scanning n l ks (w :: ws)) :
    VisitEnds n l ks ws w.ref (p.visit l w) ∧ Advance p (p.visit l w).2 := by
  unfold visit
  split
  · next hb =>
    have hblocks (hl : p.clauses.isLive w.ref) : (p.clauses.get w.ref).Blocks l w.blocking :=
      h.watched.blocking (mem_withList.2 (Or.inl ⟨rfl, List.mem_append_right _ List.mem_cons_self⟩)) hl
    exact ⟨h.keep rfl hblocks fun hl _ => ⟨w.blocking, (hblocks hl).1, hb⟩, Advance.refl p⟩
  · next hb =>
    dsimp only
    split
    · next hd =>
      refine ⟨h.drop ?_, Advance.refl p⟩
      rw [Database.isLive_iff, hd]
      exact fun h => by cases h
    · next hd =>
      have hl : p.clauses.isLive w.ref := Database.isLive_iff.2 (Bool.eq_false_iff.2 hd)
      have hwb := h.watchedBy (List.mem_append_right _ List.mem_cons_self) hl
      obtain ⟨hc, hs, hw⟩ := turned_spec hwb
      -- a reason has its true literal in front, so it is not turned
      have hr : p.IsReason w.ref →
          (if (p.clauses.get w.ref).first = -l then (p.clauses.get w.ref).swapWatched else p.clauses.get w.ref) =
            p.clauses.get w.ref := by
        rintro ⟨i, k, hi, hk⟩
        refine if_neg fun hf => Trail.not_isFalse_of_isTrue (h.trail.isTrue hi) ?_
        rw [← (h.clause_reason hi hk).2.1, hf, Trail.isFalse_iff_neg, Lit.neg_neg]
        exact h.isTrue_head
      revert hc hs hw hr
      generalize (if (p.clauses.get w.ref).first = -l then (p.clauses.get w.ref).swapWatched
        else p.clauses.get w.ref) = c
      intro hc hs hw hr
      have h1 := h.modify hc hw hr
      have hget : (p.clauses.modify w.ref fun _ => c).get w.ref = c := Database.get_modify_self hl
      have hl1 : (p.clauses.modify w.ref fun _ => c).isLive w.ref := by
        rw [Database.isLive, hget, hc.deleted_eq]
        exact hl
      obtain ⟨h2, h3⟩ := visit_turned h1 hl1 hget hs hb rfl
      simp only [modify_modify] at h2 h3
      exact ⟨h2, (Advance.modify p hc).trans h3⟩

/-! ## Scans -/

/-- What a scan ends with: all clauses of the list are visited, or one of them is in conflict. -/
def ScanEnds (n : Nat) (l : Lit) : Option ClauseRef × Array Watch × Propagator → Prop
  | (none, kept, p) => p.Scanning n l kept.toList []
  | (some r, kept, p) => p.Paused n l kept.toList ∧ p.Conflict r

theorem scan_spec (kept : Array Watch) (h : p.Scanning n l kept.toList ws) :
    ScanEnds n l (scan l ws kept p) ∧ Advance p (scan l ws kept p).2.2 := by
  induction ws generalizing kept p with
  | nil => exact ⟨h, Advance.refl p⟩
  | cons w ws ih =>
    obtain ⟨h1, h2⟩ := visit_spec h
    rw [scan]
    split
    · next w' q hq =>
      rw [hq] at h1 h2
      have h1' : q.Scanning n l (kept.push w').toList ws := by
        rw [Array.toList_push]
        exact h1
      obtain ⟨h3, h4⟩ := ih (kept.push w') h1'
      exact ⟨h3, h2.trans h4⟩
    · next q hq =>
      rw [hq] at h1 h2
      obtain ⟨h3, h4⟩ := ih kept h1
      exact ⟨h3, h2.trans h4⟩
    · next w' q hq =>
      rw [hq] at h1 h2
      refine ⟨⟨?_, h1.2⟩, h2⟩
      have hl : (kept.push w' ++ ws).toList = kept.toList ++ w' :: ws := by simp
      rw [hl]
      exact h1.1

theorem Inv.code_lt_of_at (h : p.Inv n) (hi : p.trail.At i l) : l.code < p.watches.lists.size :=
  h.code_lt (h.trail.index_lt (Trail.isAssigned_of_isTrue (h.trail.isTrue hi)))

theorem withList_watching (p : Propagator) {us : Array Watch} (hc : l.code < p.watches.lists.size) :
    watching { p with watches := p.watches.setList l us } = withList p.watching l us.toList := by
  funext q
  rw [watching, Watches.list_setList hc, withList]
  split <;> rfl

theorem Inv.scanning (h : p.Inv n) (he : p.watches.enabled = true) (hh : p.trail.At p.trail.head l) :
    { p with watches := p.watches.setList l #[] }.Scanning n l [] (p.watches.list l).toList where
  toLinked := ⟨h.trail, h.listed, h.fits, h.unit_reason, h.clause_reason⟩
  lists_size := Watches.size_setList.trans h.lists_size
  enabled := he
  watched := by
    rw [withList_watching p (h.code_lt_of_at hh), withList_withList, List.nil_append]
    exact (withList_eq_self p.watching l).symm ▸ h.watched he
  guarded hl := h.guarded he hl
  head := hh
  visited {r} hl hn hw := by
    have hc := (h.watched he).count l hl
    rw [if_pos ⟨List.not_mem_nil, hw⟩, watching, countRef_eq_zero.2 hn] at hc
    cases hc

theorem Paused.inv {kept : Array Watch} (h : p.Paused n l kept.toList) :
    { p with watches := p.watches.setList l kept }.Inv n where
  toLinked := ⟨h.trail, h.listed, h.fits, h.unit_reason, h.clause_reason⟩
  lists_size := Watches.size_setList.trans h.lists_size
  watched _ := by
    have hx := h.trail.index_lt (Trail.isAssigned_of_isTrue h.isTrue_head)
    rw [withList_watching p (h.lists_size ▸ Lit.code_lt hx)]
    exact h.watched
  guarded _ hl := h.guarded hl
  idle he := Bool.noConfusion (h.enabled.symm.trans he)

theorem Scanning.advance {kept : Array Watch} (h : p.Scanning n l kept.toList []) :
    { p with trail := p.trail.advance, watches := p.watches.setList l kept }.Inv n := by
  have hp : p.Paused n l kept.toList := by
    have := h.toPaused
    rwa [List.append_nil] at this
  have hi := hp.inv
  refine
    { trail := h.trail.advance h.head
      listed := h.listed
      fits := fun hl => (h.fits hl).of_trail fun v hv hp => hp hv
      unit_reason := h.unit_reason
      clause_reason := h.clause_reason
      lists_size := hi.lists_size
      watched := hi.watched
      guarded := fun {r} _ hl x i hx hat hlt => ?_
      idle := fun he => Bool.noConfusion (h.enabled.symm.trans he) }
  by_cases he : i = p.trail.head
  · have hxl : -x = l := Trail.At.eq hat (he ▸ h.head)
    have hw : (p.clauses.get r).WatchedBy l := by
      rw [← hxl]
      exact hx.imp (congrArg Neg.neg) (congrArg Neg.neg)
    obtain ⟨y, hy, hyt⟩ := h.visited hl (fun w hw => by cases hw) hw
    refine ⟨y, hy, hyt, ?_⟩
    have h1 := h.trail.level_le_of_isTrue hyt
    have h2 := h.toPaused.level_head
    show p.trail.level y.var ≤ p.trail.level x.var
    rw [← Lit.var_neg x, hxl, h2]
    exact h1
  · have hlt' : i < p.trail.head + 1 := hlt
    exact h.guarded hl x i hx hat (by omega)

/-! ## Propagation -/

/-- What propagation ends with. -/
structure Propagated (n : Nat) (p : Propagator) (out : Option ClauseRef × Propagator) : Prop where
  inv : out.2.Inv n
  advance : Advance p out.2
  enabled : out.2.watches.enabled = true
  complete : out.1 = none → out.2.Complete
  conflict {r : ClauseRef} : out.1 = some r → out.2.Conflict r

theorem Advance.withHead (p : Propagator) : Advance p { p with trail := p.trail.advance } :=
  ⟨rfl, fun _ => Clause.Reordered.refl _, id, id, fun _ => rfl, fun _ => rfl, rfl, Or.inl⟩

theorem propagateLit_conflict (h : p.Inv n) (he : p.watches.enabled = true) (hh : p.trail.At p.trail.head l)
    (hr : p.propagateLit l = (some r, q)) : Propagated n p (some r, q) := by
  obtain ⟨h1, h2⟩ := scan_spec #[] (h.scanning he hh)
  rw [propagateLit] at hr
  generalize scan l _ _ _ = out at hr h1 h2
  obtain ⟨conflict, kept, p'⟩ := out
  obtain ⟨rfl, rfl⟩ := Prod.mk.inj hr
  refine ⟨h1.1.inv, ?_, h1.1.enabled, fun h => (nomatch h), fun hr => ?_⟩
  · exact ((Advance.withWatches p _).trans h2).trans (Advance.withWatches p' _)
  · obtain rfl := Option.some.inj hr
    exact ⟨h1.2.isLive, h1.2.isFalse, h1.2.current⟩

theorem propagateLit_none (h : p.Inv n) (he : p.watches.enabled = true) (hh : p.trail.At p.trail.head l)
    (hr : p.propagateLit l = (none, q)) : { q with trail := q.trail.advance }.Inv n ∧
      Advance p { q with trail := q.trail.advance } ∧ q.watches.enabled = true ∧ q.trail.head = p.trail.head := by
  obtain ⟨h1, h2⟩ := scan_spec #[] (h.scanning he hh)
  rw [propagateLit] at hr
  generalize scan l _ _ _ = out at hr h1 h2
  obtain ⟨conflict, kept, p'⟩ := out
  obtain ⟨rfl, rfl⟩ := Prod.mk.inj hr
  refine ⟨h1.advance, ?_, h1.enabled, h1.trail.at_inj h1.head (h2.at_mono hh) rfl⟩
  exact (((Advance.withWatches p _).trans h2).trans (Advance.withWatches p' _)).trans (Advance.withHead _)

/-- The head moves on with each literal, so propagation comes to an end. -/
theorem propagateFuel_spec (fuel : Nat) (h : p.Inv n) (he : p.watches.enabled = true)
    (hf : n < fuel + p.trail.head) : Propagated n p (propagateFuel fuel p) := by
  induction fuel generalizing p with
  | zero =>
    have h1 := h.trail.head_le
    have h2 := h.trail.size_le
    omega
  | succ fuel ih =>
    rw [propagateFuel]
    split
    · next hp =>
      refine ⟨h, Advance.refl p, he, ?_, fun hr => (nomatch hr)⟩
      intro _
      have h1 := h.trail.head_le
      have h2 : p.trail.lits.size ≤ p.trail.head := by
        rwa [Trail.pending?, Array.getElem?_eq_none_iff] at hp
      exact Nat.le_antisymm h1 h2
    · next l hp =>
      split
      · next r q hq => exact propagateLit_conflict h he hp hq
      · next q hq =>
        obtain ⟨h1, h2, h3, h4⟩ := propagateLit_none h he hp hq
        have h5 : q.trail.advance.head = p.trail.head + 1 := congrArg (· + 1) h4
        have hout := ih h1 h3 (show n < fuel + q.trail.advance.head by omega)
        exact ⟨hout.inv, h2.trans hout.advance, hout.enabled, hout.complete, hout.conflict⟩

/-! ## Building the watch lists -/

/-- The invariant while the lists are built: the clauses in `todo` are not watched yet. -/
structure Building (p : Propagator) (n : Nat) (todo : List ClauseRef) : Prop extends Linked p n where
  lists_size : p.watches.lists.size = 2 * n
  enabled : p.watches.enabled = true
  watched : Watched todo p.clauses p.watching
  idle : p.trail.Idle

theorem not_isReason_of_idle (h : p.trail.Idle) : ¬ p.IsReason r := by
  rintro ⟨i, l, hi, hr⟩
  rw [h.reason_eq hi] at hr
  cases hr

theorem Inv.building (h : p.Inv n) (he : p.watches.enabled = false) :
    { p with watches := p.watches.cleared }.Building n p.clauses.live := by
  have hnil (q : Lit) : watching { p with watches := p.watches.cleared } q = [] := by
    rw [watching, Watches.list, Watches.cleared, Array.getD_eq_getD_getElem?, Array.getElem?_map]
    cases p.watches.lists[q.code]? <;> rfl
  refine
    { toLinked := ⟨h.trail, h.listed, h.fits, h.unit_reason, h.clause_reason⟩
      lists_size := (Array.size_map ..).trans h.lists_size
      enabled := rfl
      watched := ⟨fun {q w} hw => ?_, fun {r} q hl => ?_, fun {q w} hw => ?_⟩
      idle := h.idle he }
  · rw [hnil] at hw
    cases hw
  · rw [hnil, if_neg fun hn => hn.1 (h.listed.mem_live.2 hl)]
    rfl
  · rw [hnil] at hw
    cases hw

theorem Building.watchAnew {todo : List ClauseRef} (h : p.Building n (r :: todo)) (hr : r ∉ todo)
    (hl : p.clauses.isLive r) :
    (p.watchAnew r).Building n todo ∧ Advance p (p.watchAnew r) := by
  have hc := Clause.watchBest_reordered (p.clauses.get r) p.trail.watchRank
  have hm := h.toLinked.modify hc fun hr => absurd hr (not_isReason_of_idle h.idle)
  have hw := h.watched.modify hc fun hn => absurd List.mem_cons_self hn
  have hget := Database.get_modify_self (f := fun _ => (p.clauses.get r).watchBest p.trail.watchRank) hl
  have hl' : (p.clauses.modify r fun _ => (p.clauses.get r).watchBest p.trail.watchRank).isLive r := by
    rw [Database.isLive, hget, hc.deleted_eq]
    exact hl
  have hfit := (h.fits hl).of_perm hc.perm
  have hcode {l : Lit} (hx : l.var.index < n) : (-l).code < p.watches.lists.size := by
    rw [h.lists_size]
    apply Lit.code_lt
    rwa [Lit.var_neg]
  refine ⟨⟨⟨hm.trail, hm.listed, hm.fits, hm.unit_reason, hm.clause_reason⟩, ?_, h.enabled, ?_, h.idle⟩, ?_⟩
  · exact Watches.size_watchPair.trans h.lists_size
  · refine hw.pair hr hl' ?_ ?_
    · rw [hget]
      exact hfit.first_ne_second
    · intro q
      rw [hget]
      exact Watches.toList_list_watchPair (hcode (hfit.index_lt (Clause.first_mem _)))
        (hcode (hfit.index_lt (Clause.second_mem _)))
  · exact (Advance.modify p hc).trans (Advance.withWatches _ _)

theorem Building.foldl_watchAnew {todo : List ClauseRef} (h : p.Building n todo) (hn : todo.Nodup)
    (hl : ∀ r ∈ todo, p.clauses.isLive r) :
    (todo.foldl Propagator.watchAnew p).Building n [] ∧ Advance p (todo.foldl Propagator.watchAnew p) := by
  induction todo generalizing p with
  | nil => exact ⟨h, Advance.refl p⟩
  | cons r todo ih =>
    obtain ⟨hr, hn⟩ := List.nodup_cons.1 hn
    obtain ⟨h1, h2⟩ := h.watchAnew hr (hl r List.mem_cons_self)
    obtain ⟨h3, h4⟩ := ih h1 hn fun r' hr' => h2.isLive_eq r' ▸ hl r' (List.mem_cons_of_mem r hr')
    exact ⟨h3, h2.trans h4⟩

theorem enableWatches_spec (h : p.Inv n) :
    p.enableWatches.Inv n ∧ Advance p p.enableWatches ∧ p.enableWatches.watches.enabled = true := by
  unfold enableWatches
  split
  · next he => exact ⟨h, Advance.refl p, he⟩
  · next he =>
    obtain ⟨h1, h2⟩ := (h.building (Bool.eq_false_iff.2 he)).foldl_watchAnew h.listed.live_nodup
      fun r hr => h.listed.mem_live.1 hr
    refine ⟨⟨h1.toLinked, h1.lists_size, fun _ => h1.watched, fun _ _ => ?_, fun _ => h1.idle⟩, ?_, h1.enabled⟩
    · intro x i _ _ hlt
      rw [h1.idle.head_eq] at hlt
      exact absurd hlt (Nat.not_lt_zero i)
    · exact (Advance.withWatches p _).trans h2

theorem trail_enableWatches (p : Propagator) : p.enableWatches.trail = p.trail := by
  have hfold (rs : List ClauseRef) (q : Propagator) : (rs.foldl watchAnew q).trail = q.trail := by
    induction rs generalizing q with
    | nil => rfl
    | cons r rs ih => exact (ih _).trans rfl
  unfold enableWatches
  split
  · rfl
  · exact hfold _ _

/-- Propagation comes to an end with all literals propagated, or with a conflict. -/
theorem propagate_spec (h : p.Inv n) : Propagated n p p.propagate := by
  obtain ⟨h1, h2, h3⟩ := enableWatches_spec h
  have hout := propagateFuel_spec (p.enableWatches.trail.values.size + 1) h1 h3 (by
    have := h1.trail.values_size
    omega)
  exact ⟨hout.inv, h2.trans hout.advance, hout.enabled, hout.complete, hout.conflict⟩

end ClauseLearning.Propagator
