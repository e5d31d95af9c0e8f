import ClauseLearning.Reduction
import ClauseLearning.Proofs.Accounts
import ClauseLearning.Proofs.Sorting

/-!
# Reductions keep the accounts

* `TieOrder.sort_perm`, `TieOrder.sort_sorted` : clauses are sorted whatever the order of ties is. Every way to sort
  them is that of some order of ties (`TieOrder.exists_sort_eq`);
* `Database.FirstEntries` : of a list with repetitions, one entry for each clause of the tier is kept, and these clauses
  are marked (`Database.firstEntries_marks`);
* `Database.Reduced` : what a pass over these entries leaves. All marks are gone, and clauses that are not kept are
  deleted or in the list of another tier (`Propagator.cull_reduced`, `Propagator.demote_reduced`);
* `Accounted.setTierList` : the list of the tier can be replaced by those that are kept;
* `Propagator.reduceLocals_accounted`, `Propagator.reduceMids_accounted` : lists, counts and marks are right after each
  of the two reductions.
-/

namespace ClauseLearning

theorem PerTier.modify_get {α : Type} (p : PerTier α) (t : Tier) : (p.modify t fun _ => p.get t) = p := by
  cases t <;> rfl

/-! ## Orders of ties -/

namespace TieOrder

theorem sort_perm (ties : TieOrder) (key : ClauseRef → Nat) (rs : List ClauseRef) : (ties.sort key rs).Perm rs :=
  (sortBy_perm key _).trans (ties.perm key rs)

theorem mem_sort (ties : TieOrder) {key : ClauseRef → Nat} {rs : List ClauseRef} {r : ClauseRef} :
    r ∈ ties.sort key rs ↔ r ∈ rs := (ties.sort_perm key rs).mem_iff

theorem sort_sorted (ties : TieOrder) (key : ClauseRef → Nat) (rs : List ClauseRef) :
    SortedBy key (ties.sort key rs) := sortBy_sorted key _

theorem exists_sort_eq (f : (ClauseRef → Nat) → List ClauseRef → List ClauseRef)
    (hf : ∀ key rs, (f key rs).Perm rs ∧ SortedBy key (f key rs)) : ∃ ties : TieOrder, ties.sort = f := by
  refine ⟨⟨f, fun key rs => (hf key rs).1⟩, ?_⟩
  funext key rs
  exact (hf key rs).2.sortBy_eq

end TieOrder

namespace Database

variable {d d₁ e : Database} {r q : ClauseRef} {t u : Tier} {rs kept : List ClauseRef}

/-! ## First entries -/

/-- One entry for each clause of a tier that is not marked yet. The clauses are marked. -/
structure FirstEntries (t : Tier) (rs : List ClauseRef) (d : Database) (kept : List ClauseRef) (e : Database) :
    Prop where
  nodup : kept.Nodup
  mem_iff {r : ClauseRef} : r ∈ kept ↔ r ∈ rs ∧ d.isLive r ∧ (d.get r).tier = t ∧ (d.get r).marked = false
  get_eq (r : ClauseRef) : e.get r = if r ∈ kept then { d.get r with marked := true } else d.get r
  byTier_eq : e.byTier = d.byTier
  balanced : d.Balanced → e.Balanced

theorem firstEntries_marks (t : Tier) (rs : List ClauseRef) (d : Database) :
    FirstEntries t rs d (firstEntries t rs d).1 (firstEntries t rs d).2 := by
  induction rs generalizing d with
  | nil => exact ⟨List.nodup_nil, by simp [firstEntries], fun _ => by simp [firstEntries], rfl, id⟩
  | cons r rs ih =>
    have hguard : ((d.get r).deleted || (d.get r).marked || (d.get r).tier != t) = true ↔
        ¬ (d.isLive r ∧ (d.get r).tier = t ∧ (d.get r).marked = false) := by
      rw [isLive_iff]
      cases (d.get r).deleted <;> cases (d.get r).marked <;> simp
    rw [firstEntries]
    dsimp only
    split
    · next hskip =>
      have h := ih d
      refine ⟨h.nodup, fun {q} => ?_, h.get_eq, h.byTier_eq, h.balanced⟩
      rw [h.mem_iff, List.mem_cons]
      by_cases hq : q = r
      · subst hq
        exact iff_of_false (fun hm => hguard.1 hskip hm.2) fun hm => hguard.1 hskip hm.2
      · rw [or_iff_right hq]
    · next hgo =>
      have hr : d.isLive r ∧ (d.get r).tier = t ∧ (d.get r).marked = false :=
        Classical.not_not.1 fun hn => hgo (hguard.2 hn)
      have h := ih (d.modify r ({ · with marked := true }))
      have hnew : r ∉ (firstEntries t rs (d.modify r ({ · with marked := true }))).1 := by
        intro hm
        obtain ⟨-, -, -, hmarked⟩ := h.mem_iff.1 hm
        rw [get_modify_self hr.1] at hmarked
        cases hmarked
      refine ⟨List.nodup_cons.2 ⟨hnew, h.nodup⟩, fun {q} => ?_, fun q => ?_, h.byTier_eq, fun hb => ?_⟩
      · rw [List.mem_cons, List.mem_cons, h.mem_iff]
        by_cases hq : q = r
        · subst hq
          exact iff_of_true (Or.inl rfl) ⟨Or.inl rfl, hr⟩
        · rw [or_iff_right hq, or_iff_right hq, isLive, isLive, get_modify_ne hq]
      · rw [h.get_eq]
        by_cases hq : q = r
        · subst hq
          rw [if_neg hnew, if_pos List.mem_cons_self, get_modify_self hr.1]
        · simp only [List.mem_cons, hq, false_or, get_modify_ne hq]
      · exact h.balanced (hb.modify ⟨rfl, rfl, rfl⟩)

/-! ## Passes over the entries -/

/-- A clause is dealt with. Its mark is cleared, and the other clauses are as before. -/
structure Handled (r : ClauseRef) (d e : Database) : Prop where
  balanced : d.Balanced → e.Balanced
  get_ne {q : ClauseRef} : q ≠ r → e.get q = d.get q
  marked_eq : (e.get r).marked = false
  byTier {q : ClauseRef} {u : Tier} : q ∈ (d.byTier.get u).toList → q ∈ (e.byTier.get u).toList

theorem handled_unmark (hr : d.isLive r) : Handled r d (d.unmark r) where
  balanced := (·.modify ⟨rfl, rfl, rfl⟩)
  get_ne := get_modify_ne
  marked_eq := congrArg Clause.marked (get_modify_self hr)
  byTier := id

theorem isLive_unmark (hr : d.isLive r) : (d.unmark r).isLive r := by
  rw [isLive, unmark, get_modify_self hr]
  exact hr

theorem live_deactivate (hr : d.isLive r ∧ (d.get r).tier = t) :
    (d.modify r ({ · with active := false })).isLive r ∧
      ((d.modify r ({ · with active := false })).get r).tier = t := by
  rw [isLive, get_modify_self hr.1]
  exact hr

theorem Handled.deactivate (h : Handled r d e) (hr : e.isLive r) :
    Handled r d (e.modify r ({ · with active := false })) where
  balanced hd := (h.balanced hd).modify ⟨rfl, rfl, rfl⟩
  get_ne hq := (get_modify_ne hq).trans (h.get_ne hq)
  marked_eq := (congrArg Clause.marked (get_modify_self hr)).trans h.marked_eq
  byTier := h.byTier

theorem Handled.delete (h : Handled r d e) (hr : e.isLive r) : Handled r d (e.delete r) where
  balanced hd := (h.balanced hd).delete hr
  get_ne hq := (get_delete_ne hq).trans (h.get_ne hq)
  marked_eq := by
    rw [get_delete, if_pos ⟨rfl, lt_of_isLive hr⟩]
    exact h.marked_eq
  byTier := h.byTier

theorem Handled.setTier (h : Handled r d e) (hr : e.isLive r) : Handled r d (e.setTier r t) where
  balanced hd := (h.balanced hd).setTier hr
  get_ne hq := (get_setTier_ne hq hr).trans (h.get_ne hq)
  marked_eq := by
    rw [get_setTier hr, if_pos rfl]
    exact h.marked_eq
  byTier hq := mem_byTier_setTier (h.byTier hq)

/-- A pass over some entries of a tier. Marks are cleared, and clauses that are not kept are deleted or in the list of
another tier. -/
structure Reduced (t : Tier) (rs kept : List ClauseRef) (d e : Database) : Prop where
  balanced : d.Balanced → e.Balanced
  sublist : kept.Sublist rs
  get_eq {r : ClauseRef} : r ∉ rs → e.get r = d.get r
  unmarked {r : ClauseRef} : r ∈ rs → (e.get r).marked = false
  stays {r : ClauseRef} : r ∈ kept → e.isLive r ∧ (e.get r).tier = t
  moved {r : ClauseRef} : r ∈ rs → r ∉ kept → e.isLive r →
    (e.get r).tier ≠ t ∧ r ∈ (e.byTier.get (e.get r).tier).toList
  byTier {r : ClauseRef} {u : Tier} : r ∈ (d.byTier.get u).toList → r ∈ (e.byTier.get u).toList

namespace Reduced

theorem nil (t : Tier) (d : Database) : Reduced t [] [] d d :=
  ⟨id, .slnil, fun _ => rfl, fun h => absurd h List.not_mem_nil, fun h => absurd h List.not_mem_nil,
    fun h => absurd h List.not_mem_nil, id⟩

section Cons

variable (hd : Handled r d d₁) (h : Reduced t rs kept d₁ e)
include hd h

theorem get_of_cons (hq : q ∉ r :: rs) : e.get q = d.get q := by
  rw [List.mem_cons, not_or] at hq
  exact (h.get_eq hq.2).trans (hd.get_ne hq.1)

variable (hn : r ∉ rs)
include hn

theorem unmarked_of_cons (hq : q ∈ r :: rs) : (e.get q).marked = false := by
  rcases List.mem_cons.1 hq with rfl | hq
  · rw [h.get_eq hn]
    exact hd.marked_eq
  · exact h.unmarked hq

theorem cons_keep (hr : d₁.isLive r ∧ (d₁.get r).tier = t) : Reduced t (r :: rs) (r :: kept) d e where
  balanced hb := h.balanced (hd.balanced hb)
  sublist := h.sublist.cons_cons r
  get_eq := get_of_cons hd h
  unmarked := unmarked_of_cons hd h hn
  stays {q} hq := by
    rcases List.mem_cons.1 hq with rfl | hq
    · rw [isLive, h.get_eq hn]
      exact hr
    · exact h.stays hq
  moved {q} hq hk := by
    rw [List.mem_cons, not_or] at hk
    exact h.moved ((List.mem_cons.1 hq).resolve_left hk.1) hk.2
  byTier hq := h.byTier (hd.byTier hq)

theorem cons_drop (hr : d₁.isLive r → (d₁.get r).tier ≠ t ∧ r ∈ (d₁.byTier.get (d₁.get r).tier).toList) :
    Reduced t (r :: rs) kept d e where
  balanced hb := h.balanced (hd.balanced hb)
  sublist := h.sublist.cons r
  get_eq := get_of_cons hd h
  unmarked := unmarked_of_cons hd h hn
  stays := h.stays
  moved {q} hq hk hl := by
    rcases List.mem_cons.1 hq with rfl | hq
    · rw [isLive, h.get_eq hn] at hl
      rw [h.get_eq hn]
      exact (hr hl).imp_right h.byTier
    · exact h.moved hq hk hl
  byTier hq := h.byTier (hd.byTier hq)

end Cons

end Reduced

/-- After a pass over all first entries, the list of the tier is replaced. -/
theorem Accounted.setTierList (h : d.Accounted) {entries : List ClauseRef}
    (he : FirstEntries t (d.byTier.get t).toList d entries d₁) (hp : rs.Perm entries) (hr : Reduced t rs kept d₁ e) :
    (e.setTierList t kept).Accounted := by
  have hold {r : ClauseRef} (hrs : r ∉ rs) : e.get r = d.get r := by
    rw [hr.get_eq hrs, he.get_eq, if_neg fun hm => hrs (hp.mem_iff.2 hm)]
  have hlive {r : ClauseRef} (hrs : r ∉ rs) (hl : e.isLive r) : d.isLive r := by rwa [isLive, hold hrs] at hl
  have hmem (r : ClauseRef) : r ∈ kept ↔ e.isLive r ∧ (e.get r).tier = t := by
    refine ⟨hr.stays, fun hlt => Classical.not_not.1 fun hk => ?_⟩
    obtain ⟨hl, ht⟩ := hlt
    by_cases hrs : r ∈ rs
    · exact (hr.moved hrs hk hl).1 ht
    · -- the list of the tier mentioned the clause, so it was an entry
      have hd := hlive hrs hl
      rw [hold hrs] at ht
      exact hrs (hp.mem_iff.2 (he.mem_iff.2 ⟨ht ▸ h.byTier hd, hd, ht, h.unmarked r⟩))
  have hbal := hr.balanced (he.balanced h.toBalanced)
  have hcount : e.counts.get t = kept.length :=
    (hbal.counts t).trans (card_ofTier_eq_length (hr.sublist.nodup (hp.nodup_iff.2 he.nodup)) hmem)
  refine ⟨hbal.relist (hbal.toListed.of_isLive rfl rfl fun _ => id) rfl rfl rfl ?_ rfl, fun {r} hl => ?_, fun r => ?_⟩
  · show (e.counts.modify t fun _ => kept.length) = e.counts
    rw [← hcount, PerTier.modify_get]
  · change e.isLive r at hl
    show r ∈ ((e.byTier.modify t fun _ => kept.toArray).get (e.get r).tier).toList
    rw [PerTier.get_modify]
    split
    · next ht =>
      rw [List.toList_toArray]
      exact (hmem r).2 ⟨hl, ht⟩
    · next ht =>
      by_cases hrs : r ∈ rs
      · exact (hr.moved hrs (fun hk => ht ((hmem r).1 hk).2) hl).2
      · refine hr.byTier ?_
        rw [he.byTier_eq, hold hrs]
        exact h.byTier (hlive hrs hl)
  · show (e.get r).marked = false
    by_cases hrs : r ∈ rs
    · exact hr.unmarked hrs
    · rw [hold hrs]
      exact h.unmarked r

theorem Handled.rest (h : Handled r d e) (hn : r ∉ rs) (hl : ∀ q ∈ r :: rs, d.isLive q ∧ (d.get q).tier = t) :
    ∀ q ∈ rs, e.isLive q ∧ (e.get q).tier = t := by
  intro q hq
  have hqr : q ≠ r := fun he => hn (he ▸ hq)
  rw [isLive, h.get_ne hqr]
  exact hl q (List.mem_cons_of_mem r hq)

theorem FirstEntries.entries (h : FirstEntries t rs d kept e) : ∀ r ∈ kept, e.isLive r ∧ (e.get r).tier = t := by
  intro r hr
  obtain ⟨-, hl, ht, -⟩ := h.mem_iff.1 hr
  rw [isLive, h.get_eq, if_pos hr]
  exact ⟨hl, ht⟩

end Database

/-! ## The two reductions -/

namespace Propagator

open Database (Reduced handled_unmark isLive_unmark live_deactivate)

variable {p : Propagator}

theorem cull_reduced (rs : List ClauseRef) (hn : rs.Nodup) (quota : Nat) (p : Propagator)
    (hl : ∀ r ∈ rs, p.clauses.isLive r ∧ (p.clauses.get r).tier = .loc) :
    Reduced .loc rs (cull rs quota p).1 p.clauses (cull rs quota p).2.clauses := by
  induction rs generalizing quota p with
  | nil => exact .nil _ _
  | cons r rs ih =>
    obtain ⟨hr, hn⟩ := List.nodup_cons.1 hn
    obtain ⟨hlr, htr⟩ := hl r List.mem_cons_self
    have hd := handled_unmark hlr
    have hlr' := isLive_unmark hlr
    have htr' : ((p.clauses.unmark r).get r).tier = .loc :=
      (congrArg Clause.tier (Database.get_modify_self hlr)).trans htr
    have hkeep (quota : Nat) :=
      (ih hn quota { p with clauses := p.clauses.unmark r } (hd.rest hr hl)).cons_keep hd hr ⟨hlr', htr'⟩
    rw [cull]
    dsimp only
    split
    · exact hkeep 0
    · split
      · have hd' := hd.deactivate hlr'
        exact (ih hn quota { p with clauses := (p.clauses.unmark r).modify r ({ · with active := false }) }
          (hd'.rest hr hl)).cons_keep hd' hr (live_deactivate ⟨hlr', htr'⟩)
      · split
        · exact hkeep quota
        · have hd' := hd.delete hlr'
          exact (ih hn (quota - 1) { p with clauses := (p.clauses.unmark r).delete r } (hd'.rest hr hl)).cons_drop hd'
            hr fun hlive => absurd rfl (Database.isLive_delete.1 hlive).2

theorem demote_reduced (rs : List ClauseRef) (hn : rs.Nodup) (d : Database)
    (hl : ∀ r ∈ rs, d.isLive r ∧ (d.get r).tier = .mid) : Reduced .mid rs (demote rs d).1 d (demote rs d).2 := by
  induction rs generalizing d with
  | nil => exact .nil _ _
  | cons r rs ih =>
    obtain ⟨hr, hn⟩ := List.nodup_cons.1 hn
    obtain ⟨hlr, htr⟩ := hl r List.mem_cons_self
    have hd := handled_unmark hlr
    have hlr' := isLive_unmark hlr
    have htr' : ((d.unmark r).get r).tier = .mid := (congrArg Clause.tier (Database.get_modify_self hlr)).trans htr
    rw [demote]
    dsimp only
    split
    · have hd' := hd.deactivate hlr'
      exact (ih hn _ (hd'.rest hr hl)).cons_keep hd' hr (live_deactivate ⟨hlr', htr'⟩)
    · have hd' := hd.setTier (t := .loc) hlr'
      have hne : ((d.unmark r).get r).tier ≠ .loc := by
        rw [htr']
        decide
      have ht : (((d.unmark r).setTier r .loc).get r).tier = .loc := by rw [Database.get_setTier hlr', if_pos rfl]
      refine (ih hn ((d.unmark r).setTier r .loc) (hd'.rest hr hl)).cons_drop hd' hr fun _ => ?_
      rw [ht]
      exact ⟨by decide, Database.mem_byTier_setTier_self hne⟩

theorem reduceLocals_accounted (ties : TieOrder) (h : p.clauses.Accounted) :
    (p.reduceLocals ties).2.clauses.Accounted := by
  have he := Database.firstEntries_marks .loc p.clauses.byTier.loc.toList p.clauses
  have hperm := ties.sort_perm (fun r => ((Database.firstEntries .loc p.clauses.byTier.loc.toList p.clauses).2.get
    r).activity.toBits.toNat) (Database.firstEntries .loc p.clauses.byTier.loc.toList p.clauses).1
  exact h.setTierList he hperm (cull_reduced _ (hperm.nodup_iff.2 he.nodup) _ _
    fun r hr => he.entries r (hperm.mem_iff.1 hr))

theorem reduceMids_accounted (h : p.clauses.Accounted) : p.reduceMids.2.clauses.Accounted := by
  have he := Database.firstEntries_marks .mid p.clauses.byTier.mid.toList p.clauses
  exact h.setTierList he (List.Perm.refl _) (demote_reduced _ he.nodup _ he.entries)

end Propagator

end ClauseLearning
