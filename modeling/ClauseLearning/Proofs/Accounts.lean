import Mathlib.Algebra.BigOperators.Group.Finset.Piecewise
import Mathlib.Algebra.GroupWithZero.Nat
import ClauseLearning.Proofs.Database

/-!
# The accounts of the clause database

* `Database.total` : a total over the clauses that are not deleted, and how it changes with one clause;
* `Database.Balanced` : the lists and counts agree with the clauses, whose words do not overlap and, with the garbage,
  add up to those in use;
* `Database.Accounted` : in addition, every clause is in the list of its tier, and none is marked;
* `Balanced.update` : a change to one clause that is entered into the counts;
* `Accounted.add`, `Accounted.edit`, `Accounted.setTier`, `Accounted.delete`, `Accounted.sweep`, `Accounted.rescale`,
  `Accounted.compact` : the operations on the database.
-/

namespace ClauseLearning

namespace PerTier

variable {α β : Type} {p : PerTier α} {t u : Tier} {f : α → α}

theorem get_modify : (p.modify t f).get u = if u = t then f (p.get u) else p.get u := by
  cases t <;> cases u <;> rfl

theorem get_map {g : α → β} : (p.map g).get u = g (p.get u) := by cases u <;> rfl

theorem get_const {a : α} : (const a).get u = a := by cases u <;> rfl

end PerTier

/-- The same entry of the database, perhaps with fewer literals. -/
structure Clause.Trimmed (c c' : Clause) : Prop where
  size_le : c'.size ≤ c.size
  tier_eq : c'.tier = c.tier
  deleted_eq : c'.deleted = c.deleted
  marked_eq : c'.marked = c.marked

namespace Database

variable {d e : Database} {r q : ClauseRef} {t : Tier} {c c' : Clause} {w : Clause → Nat} {f : Clause → Clause}

/-! ## Totals -/

/-- What a reference adds to a total over the clauses that are not deleted. -/
def share (d : Database) (w : Clause → Nat) (r : ClauseRef) : Nat := if d.isLive r then w (d.get r) else 0

/-- A total over the clauses that are not deleted. -/
def total (d : Database) (w : Clause → Nat) : Nat := (Finset.range d.slots.size).sum (d.share w)

/-- The clauses of a tier. -/
def ofTier (d : Database) (t : Tier) : Finset ClauseRef :=
  (Finset.range d.slots.size).filter fun r => d.isLive r ∧ (d.get r).tier = t

/-- What a clause adds to the number of those in a tier. -/
def inTier (t : Tier) (c : Clause) : Nat := if c.tier = t then 1 else 0

theorem share_of_isLive (h : d.isLive r) : d.share w r = w (d.get r) := if_pos h

theorem share_of_not_isLive (h : ¬ d.isLive r) : d.share w r = 0 := if_neg h

theorem share_congr (h : e.get r = d.get r) : e.share w r = d.share w r := by
  rw [share, share, isLive, isLive, h]

theorem mem_ofTier : r ∈ d.ofTier t ↔ d.isLive r ∧ (d.get r).tier = t := by
  rw [ofTier, Finset.mem_filter, Finset.mem_range]
  exact ⟨And.right, fun h => ⟨lt_of_isLive h.1, h⟩⟩

theorem card_ofTier (d : Database) (t : Tier) : (d.ofTier t).card = d.total (inTier t) := by
  rw [ofTier, Finset.card_filter, total]
  refine Finset.sum_congr rfl fun r _ => ?_
  by_cases h : d.isLive r <;> simp [share, inTier, h]

theorem total_congr (hs : e.slots.size = d.slots.size) (h : ∀ r, e.share w r = d.share w r) :
    e.total w = d.total w := by
  rw [total, total, hs]
  exact Finset.sum_congr rfl fun r _ => h r

theorem total_update (hs : e.slots.size = d.slots.size) (hne : ∀ q, q ≠ r → e.get q = d.get q) :
    e.total w + d.share w r = d.total w + e.share w r := by
  by_cases hr : r < d.slots.size
  · have hmem : r ∈ Finset.range d.slots.size := Finset.mem_range.2 hr
    have hrest : ((Finset.range d.slots.size).erase r).sum (e.share w) =
        ((Finset.range d.slots.size).erase r).sum (d.share w) :=
      Finset.sum_congr rfl fun q hq => share_congr (hne q (Finset.mem_erase.1 hq).1)
    have hsplit (d' : Database) : d'.share w r + ((Finset.range d.slots.size).erase r).sum (d'.share w) =
        (Finset.range d.slots.size).sum (d'.share w) := Finset.add_sum_erase _ _ hmem
    rw [total, total, hs, ← hsplit, ← hsplit, hrest]
    omega
  · have hout {d' : Database} (hd : d'.slots.size = d.slots.size) : d'.share w r = 0 :=
      share_of_not_isLive fun h => hr (hd ▸ lt_of_isLive h)
    rw [hout rfl, hout hs, total_congr hs]
    intro q
    by_cases hq : q = r
    · rw [hq, hout rfl, hout hs]
    · exact share_congr (hne q hq)

theorem total_add : (d.add c).2.total w = d.total w + if c.deleted then 0 else w c := by
  rw [total, size_add, Finset.sum_range_succ, total]
  congr 1
  · refine Finset.sum_congr rfl fun r hr => share_congr ?_
    rw [get_add, if_neg (Nat.ne_of_lt (Finset.mem_range.1 hr))]
  · rw [share, isLive, get_add, if_pos rfl]
    cases c.deleted <;> rfl

theorem total_eq_sum {rs : List ClauseRef} (hn : rs.Nodup) (hrs : ∀ r, r ∈ rs ↔ d.isLive r) :
    d.total w = (rs.map fun r => w (d.get r)).sum := by
  have hset : (Finset.range d.slots.size).filter (fun r => d.isLive r = true) = rs.toFinset := by
    ext r
    rw [Finset.mem_filter, Finset.mem_range, List.mem_toFinset, hrs]
    exact ⟨And.right, fun h => ⟨lt_of_isLive h, h⟩⟩
  rw [total]
  unfold share
  rw [← Finset.sum_filter, hset, List.sum_toFinset _ hn]

theorem card_ofTier_eq_length {rs : List ClauseRef} (hn : rs.Nodup)
    (hrs : ∀ r, r ∈ rs ↔ d.isLive r ∧ (d.get r).tier = t) : (d.ofTier t).card = rs.length := by
  have hset : d.ofTier t = rs.toFinset := by
    ext r
    rw [mem_ofTier, List.mem_toFinset, hrs]
  rw [hset, List.toFinset_card_of_nodup hn]

/-! ## Balanced accounts -/

/-- The lists and counts agree with the clauses that are not deleted. The words of these do not overlap. -/
structure Balanced (d : Database) : Prop extends Listed d where
  size_offsets : d.offsets.size = d.slots.size
  apart {r q : ClauseRef} : d.isLive r → d.isLive q → r < q → d.offset r + (d.get r).words ≤ d.offset q
  within {r : ClauseRef} : d.isLive r → d.offset r + (d.get r).words ≤ d.words
  counts (t : Tier) : d.counts.get t = (d.ofTier t).card
  words : d.garbage + d.total Clause.words = d.words

/-- In addition, every clause is in the list of its tier, and none is marked. -/
structure Accounted (d : Database) : Prop extends Balanced d where
  byTier {r : ClauseRef} : d.isLive r → r ∈ (d.byTier.get (d.get r).tier).toList
  unmarked (r : ClauseRef) : (d.get r).marked = false

theorem accounted_empty : ({} : Database).Accounted where
  toListed := listed_empty
  size_offsets := rfl
  apart h := absurd (lt_of_isLive h) (Nat.not_lt_zero _)
  within h := absurd (lt_of_isLive h) (Nat.not_lt_zero _)
  counts t := PerTier.get_const
  words := rfl
  byTier h := absurd (lt_of_isLive h) (Nat.not_lt_zero _)
  unmarked r := by rw [get_of_size_le (Nat.zero_le r)]; rfl

theorem words_le (h : c'.size ≤ c.size) : c'.words ≤ c.words := Nat.add_le_add_left h 3

theorem Balanced.relist (h : d.Balanced) (hl : e.Listed) (hs : e.slots = d.slots) (ho : e.offsets = d.offsets)
    (hw : e.words = d.words) (hc : e.counts = d.counts) (hg : e.garbage = d.garbage) : e.Balanced := by
  have hget (r : ClauseRef) : e.get r = d.get r := by rw [get, get, hs]
  have hlive (r : ClauseRef) : e.isLive r = d.isLive r := by rw [isLive, isLive, hget]
  have hoff (r : ClauseRef) : e.offset r = d.offset r := by rw [offset, offset, ho]
  have htotal (w : Clause → Nat) : e.total w = d.total w := total_congr (by rw [hs]) fun r => share_congr (hget r)
  refine ⟨hl, by rw [ho, hs, h.size_offsets], ?_, ?_, fun t => ?_, by rw [hg, htotal, hw, h.words]⟩
  · intro r q hr hq hlt
    rw [hlive] at hr hq
    rw [hoff, hoff, hget]
    exact h.apart hr hq hlt
  · intro r hr
    rw [hlive] at hr
    rw [hoff, hget, hw]
    exact h.within hr
  · rw [hc, h.counts, card_ofTier, card_ofTier, htotal]

/-- A change to one clause, with what it means for the counts. -/
theorem Balanced.update (h : d.Balanced) (hs : e.slots.size = d.slots.size) (hl : e.listed = d.listed)
    (ho : e.offsets = d.offsets) (hw : e.words = d.words) (hne : ∀ q, q ≠ r → e.get q = d.get q)
    (hr : e.isLive r → d.isLive r ∧ (e.get r).size ≤ (d.get r).size)
    (hc : ∀ t, e.counts.get t + d.share (inTier t) r = d.counts.get t + e.share (inTier t) r)
    (hg : e.garbage + e.share Clause.words r = d.garbage + d.share Clause.words r) : e.Balanced := by
  have hlive (q : ClauseRef) (hq : e.isLive q) : d.isLive q ∧ (e.get q).words ≤ (d.get q).words := by
    by_cases hqr : q = r
    · subst hqr
      exact (hr hq).imp_right words_le
    · rw [isLive, hne q hqr] at hq
      rw [hne q hqr]
      exact ⟨hq, Nat.le_refl _⟩
  have hoff (r : ClauseRef) : e.offset r = d.offset r := by rw [offset, offset, ho]
  refine ⟨h.toListed.of_isLive hs hl fun q hq => (hlive q hq).1, by rw [ho, hs, h.size_offsets], ?_, ?_, fun t => ?_,
    ?_⟩
  · intro q q' hq hq' hlt
    have := h.apart (hlive q hq).1 (hlive q' hq').1 hlt
    have := (hlive q hq).2
    rw [hoff, hoff]
    omega
  · intro q hq
    have := h.within (hlive q hq).1
    have := (hlive q hq).2
    rw [hoff, hw]
    omega
  · have h1 := hc t
    have h2 := total_update (w := inTier t) hs hne
    rw [h.counts, card_ofTier] at h1
    rw [card_ofTier]
    omega
  · have h1 := total_update (w := Clause.words) hs hne
    have h2 := h.words
    rw [hw]
    omega

theorem Balanced.modify (h : d.Balanced) (hf : (f (d.get r)).size = (d.get r).size ∧
    (f (d.get r)).tier = (d.get r).tier ∧ (f (d.get r)).deleted = (d.get r).deleted) : (d.modify r f).Balanced := by
  have hget : ((d.modify r f).get r).size = (d.get r).size ∧ ((d.modify r f).get r).tier = (d.get r).tier ∧
      ((d.modify r f).get r).deleted = (d.get r).deleted := by
    rw [get_modify]
    split
    · exact hf
    · exact ⟨rfl, rfl, rfl⟩
  have hlive : (d.modify r f).isLive r = d.isLive r := by rw [isLive, isLive, hget.2.2]
  refine h.update size_modify rfl rfl rfl (fun q hq => get_modify_ne hq)
    (fun hr => ⟨hlive ▸ hr, Nat.le_of_eq hget.1⟩) (fun t => ?_) ?_
  · rw [share, share, hlive, inTier, inTier, hget.2.1]
    rfl
  · rw [share, share, hlive, Clause.words, Clause.words, hget.1]
    rfl

theorem Balanced.counts_pos (h : d.Balanced) (hr : d.isLive r) : 0 < d.counts.get (d.get r).tier := by
  rw [h.counts]
  exact Finset.card_pos.2 ⟨r, mem_ofTier.2 ⟨hr, rfl⟩⟩

theorem Balanced.delete (h : d.Balanced) (hr : d.isLive r) : (d.delete r).Balanced := by
  have hdead : ¬ (d.delete r).isLive r := fun hd => (isLive_delete.1 hd).2 rfl
  refine h.update size_delete rfl rfl rfl (fun q hq => get_delete_ne hq) (fun hd => absurd hd hdead) (fun t => ?_) ?_
  · have hpos := h.counts_pos hr
    rw [share_of_isLive hr, share_of_not_isLive hdead, inTier]
    show (d.counts.modify (d.get r).tier (· - 1)).get t + _ = _
    rw [PerTier.get_modify]
    by_cases ht : t = (d.get r).tier
    · subst ht
      rw [if_pos rfl, if_pos rfl]
      omega
    · rw [if_neg ht, if_neg (Ne.symm ht)]
  · rw [share_of_isLive hr, share_of_not_isLive hdead]
    rfl

theorem get_setTier (hr : d.isLive r) :
    (d.setTier r t).get q = if q = r then { d.get r with tier := t } else d.get q := by
  dsimp only [Database.setTier]
  split
  · next ht =>
    split
    · next hq =>
      subst hq ht
      rfl
    · rfl
  · show (d.modify r ({ · with tier := t })).get q = _
    rw [get_modify]
    simp only [lt_of_isLive hr, and_true]

theorem get_setTier_ne (hq : q ≠ r) (hr : d.isLive r) : (d.setTier r t).get q = d.get q := by
  rw [get_setTier hr, if_neg hq]

theorem mem_byTier_modify {ts : PerTier (Array ClauseRef)} (h : r ∈ (ts.get t).toList) (u : Tier) :
    r ∈ ((ts.modify u (·.push q)).get t).toList := by
  rw [PerTier.get_modify]
  split
  · rw [Array.toList_push]
    exact List.mem_append_left _ h
  · exact h

theorem mem_byTier_setTier {u : Tier} (hq : q ∈ (d.byTier.get u).toList) :
    q ∈ ((d.setTier r t).byTier.get u).toList := by
  dsimp only [Database.setTier]
  split
  · exact hq
  · exact mem_byTier_modify hq t

theorem mem_byTier_setTier_self (ht : (d.get r).tier ≠ t) : r ∈ ((d.setTier r t).byTier.get t).toList := by
  dsimp only [Database.setTier]
  rw [if_neg ht]
  show r ∈ ((d.byTier.modify t (·.push r)).get t).toList
  rw [PerTier.get_modify, if_pos rfl, Array.toList_push]
  exact List.mem_append_right _ (List.mem_singleton_self _)

theorem Balanced.setTier (h : d.Balanced) (hr : d.isLive r) : (d.setTier r t).Balanced := by
  by_cases ht : (d.get r).tier = t
  · have hsame : d.setTier r t = d := if_pos ht
    rwa [hsame]
  · have hget : (d.setTier r t).get r = { d.get r with tier := t } := by rw [get_setTier hr, if_pos rfl]
    have hlive : (d.setTier r t).isLive r := by
      rw [isLive, hget]
      exact hr
    have hpos := h.counts_pos hr
    have hset : d.setTier r t = { d with
        slots := d.slots.modify r ({ · with tier := t })
        byTier := d.byTier.modify t (·.push r)
        counts := (d.counts.modify (d.get r).tier (· - 1)).modify t (· + 1) } := if_neg ht
    refine h.update (by rw [hset]; exact Array.size_modify) (by rw [hset]) (by rw [hset]) (by rw [hset])
      (fun q hq => get_setTier_ne hq hr)
      (fun _ => ⟨hr, by rw [hget]; exact Nat.le_refl _⟩) (fun u => ?_) ?_
    · rw [share_of_isLive hr, share_of_isLive hlive, hget, inTier, inTier, hset]
      dsimp only
      rw [PerTier.get_modify, PerTier.get_modify]
      by_cases hu : u = t
      · subst hu
        rw [if_pos rfl, if_neg (Ne.symm ht), if_neg ht, if_pos rfl, Nat.add_zero]
      · rw [if_neg hu, if_neg (Ne.symm hu)]
        by_cases ho : u = (d.get r).tier
        · subst ho
          rw [if_pos rfl, if_pos rfl]
          omega
        · rw [if_neg ho, if_neg (Ne.symm ho)]
    · rw [share_of_isLive hr, share_of_isLive hlive, hget, hset]
      rfl

/-! ## Adding -/

theorem offset_add (h : d.Balanced) : (d.add c).2.offset q = if q = d.slots.size then d.words else d.offset q := by
  rw [← h.size_offsets]
  exact getD_push

theorem Balanced.add (h : d.Balanced) (hc : c.deleted = false) : (d.add c).2.Balanced where
  toListed := h.toListed.add c
  size_offsets := by
    show (d.offsets.push d.words).size = (d.slots.push c).size
    rw [Array.size_push, Array.size_push, h.size_offsets]
  apart {r q} hr hq hlt := by
    have hsize := lt_of_isLive hq
    rw [size_add] at hsize
    have hrs : r ≠ d.slots.size := Nat.ne_of_lt (Nat.lt_of_lt_of_le hlt (Nat.le_of_lt_succ hsize))
    rw [isLive, get_add, if_neg hrs] at hr
    rw [offset_add h, offset_add h, get_add, if_neg hrs, if_neg hrs]
    by_cases hqs : q = d.slots.size
    · rw [if_pos hqs]
      exact h.within hr
    · rw [isLive, get_add, if_neg hqs] at hq
      rw [if_neg hqs]
      exact h.apart hr hq hlt
  within {r} hr := by
    show _ ≤ d.words + c.words
    rw [offset_add h, get_add]
    by_cases hrs : r = d.slots.size
    · rw [if_pos hrs, if_pos hrs]
    · rw [isLive, get_add, if_neg hrs] at hr
      rw [if_neg hrs, if_neg hrs]
      exact Nat.le_add_right_of_le (h.within hr)
  counts t := by
    show (d.counts.modify c.tier (· + 1)).get t = _
    rw [card_ofTier, total_add, hc, ← card_ofTier, ← h.counts, PerTier.get_modify, inTier]
    by_cases ht : t = c.tier
    · rw [if_pos ht, if_pos ht.symm]
      rfl
    · rw [if_neg ht, if_neg (Ne.symm ht)]
      rfl
  words := by
    show d.garbage + _ = d.words + c.words
    rw [total_add, hc, ← Nat.add_assoc, h.words]
    rfl

theorem Accounted.add (h : d.Accounted) (hc : c.deleted = false) (hm : c.marked = false) : (d.add c).2.Accounted where
  toBalanced := h.toBalanced.add hc
  byTier {r} hr := by
    show r ∈ ((d.byTier.modify c.tier (·.push d.slots.size)).get _).toList
    rw [get_add]
    by_cases hrs : r = d.slots.size
    · rw [if_pos hrs, PerTier.get_modify, if_pos rfl, Array.toList_push, hrs]
      exact List.mem_append_right _ (List.mem_singleton_self _)
    · rw [isLive, get_add, if_neg hrs] at hr
      rw [if_neg hrs]
      exact mem_byTier_modify (h.byTier hr) _
  unmarked r := by
    rw [get_add]
    split
    · exact hm
    · exact h.unmarked r

/-! ## Changing, moving and deleting -/

theorem Accounted.of_balanced (h : d.Accounted) (he : e.Balanced) (hb : e.byTier = d.byTier)
    (hlive : ∀ r, e.isLive r → d.isLive r ∧ (e.get r).tier = (d.get r).tier)
    (hm : ∀ r, (e.get r).marked = (d.get r).marked) : e.Accounted where
  toBalanced := he
  byTier {r} hr := by
    obtain ⟨hd, ht⟩ := hlive r hr
    rw [hb, ht]
    exact h.byTier hd
  unmarked r := (hm r).trans (h.unmarked r)

theorem Accounted.edit (h : d.Accounted) (hf : (d.get r).Reordered (f (d.get r))) : (d.modify r f).Accounted := by
  have hget (q : ClauseRef) : ((d.modify r f).get q).tier = (d.get q).tier ∧
      ((d.modify r f).get q).deleted = (d.get q).deleted ∧ ((d.modify r f).get q).marked = (d.get q).marked := by
    rw [get_modify]
    split
    · next hq =>
      rw [hq.1]
      exact ⟨hf.tier_eq, hf.deleted_eq, hf.marked_eq⟩
    · exact ⟨rfl, rfl, rfl⟩
  refine h.of_balanced (h.toBalanced.modify ⟨hf.size_eq, hf.tier_eq, hf.deleted_eq⟩) rfl (fun q hq => ⟨?_, (hget q).1⟩)
    fun q => (hget q).2.2
  rwa [isLive, (hget q).2.1] at hq

theorem Accounted.delete (h : d.Accounted) (hr : d.isLive r) : (d.delete r).Accounted := by
  refine h.of_balanced (h.toBalanced.delete hr) rfl (fun q hq => ?_) fun q => ?_
  · obtain ⟨hd, hne⟩ := isLive_delete.1 hq
    exact ⟨hd, by rw [get_delete_ne hne]⟩
  · rw [get_delete]
    split
    · next hq => rw [hq.1]
    · rfl

theorem Accounted.setTier (h : d.Accounted) (hr : d.isLive r) : (d.setTier r t).Accounted where
  toBalanced := h.toBalanced.setTier hr
  byTier {q} hq := by
    by_cases hqr : q = r
    · subst hqr
      rw [get_setTier hr, if_pos rfl]
      by_cases ht : (d.get q).tier = t
      · exact mem_byTier_setTier (ht ▸ h.byTier hr)
      · exact mem_byTier_setTier_self ht
    · rw [isLive, get_setTier_ne hqr hr] at hq
      rw [get_setTier_ne hqr hr]
      exact mem_byTier_setTier (h.byTier hq)
  unmarked q := by
    rw [get_setTier hr]
    split
    · exact h.unmarked r
    · exact h.unmarked q

/-! ## Sweeps -/

theorem Balanced.shorten (h : d.Balanced) (hr : d.isLive r) (hc : (d.get r).Trimmed c) :
    { d.modify r (fun _ => c) with garbage := d.garbage + ((d.get r).size - c.size) }.Balanced := by
  have hget : (d.modify r fun _ => c).get r = c := get_modify_self hr
  have hlive : (d.modify r fun _ => c).isLive r := by
    rw [isLive, hget, hc.deleted_eq]
    exact hr
  have hshare (w : Clause → Nat) : share { d.modify r (fun _ => c) with
      garbage := d.garbage + ((d.get r).size - c.size) } w r = w c := by
    show (d.modify r fun _ => c).share w r = w c
    rw [share_of_isLive hlive, hget]
  refine h.update size_modify rfl rfl rfl (fun q hq => get_modify_ne hq) (fun _ => ⟨hr, ?_⟩) (fun t => ?_) ?_
  · show ((d.modify r fun _ => c).get r).size ≤ _
    rw [hget]
    exact hc.size_le
  · rw [hshare, share_of_isLive hr, inTier, inTier, hc.tier_eq]
    rfl
  · rw [hshare, share_of_isLive hr, Clause.words, Clause.words]
    have := hc.size_le
    show d.garbage + ((d.get r).size - c.size) + (3 + c.size) = d.garbage + (3 + (d.get r).size)
    omega

variable {keep? : Clause → Option Clause}

theorem sweepList_balanced (hk : ∀ c c', keep? c = some c' → c.Trimmed c') (rs : List ClauseRef)
    (kept : Array ClauseRef) (h : d.Balanced) :
    (sweepList keep? rs kept d).2.Balanced ∧ (sweepList keep? rs kept d).2.byTier = d.byTier := by
  induction rs generalizing kept d with
  | nil => exact ⟨h, rfl⟩
  | cons r rs ih =>
    rw [sweepList]
    dsimp only
    split
    · exact ih kept h
    · next hd =>
      have hr : d.isLive r := isLive_iff.2 (Bool.eq_false_iff.2 hd)
      split
      · next c' hc => exact ih _ (h.shorten hr (hk _ _ hc))
      · exact ih kept (h.delete hr)

theorem Accounted.sweep (h : d.Accounted) (hk : ∀ c c', keep? c = some c' → c.Trimmed c') :
    (d.sweep keep?).Accounted := by
  obtain ⟨hbal, htier⟩ := sweepList_balanced hk d.listed.toList #[] h.toBalanced
  have hget (r : ClauseRef) := get_sweep (q := r) h.toListed keep?
  have hswept (r : ClauseRef) (hr : (d.sweep keep?).isLive r) : d.isLive r ∧
      ((d.sweep keep?).get r).tier = (d.get r).tier := by
    rw [isLive_iff, hget] at hr
    rw [hget]
    by_cases hl : d.isLive r
    · rw [if_pos hl, swept] at hr ⊢
      cases hc : keep? (d.get r) with
      | none =>
        rw [hc] at hr
        cases hr
      | some c => exact ⟨hl, (hk _ _ hc).tier_eq⟩
    · rw [if_neg hl] at hr
      exact absurd (isLive_iff.2 hr) hl
  refine ⟨hbal.relist (h.toListed.sweep keep?) rfl rfl rfl rfl rfl, fun {r} hr => ?_, fun r => ?_⟩
  · obtain ⟨hd, ht⟩ := hswept r hr
    have hold : r ∈ ((sweepList keep? d.listed.toList #[] d).2.byTier.get (d.get r).tier).toList := htier ▸ h.byTier hd
    rw [ht, Database.sweep]
    dsimp only
    split
    · rw [PerTier.get_map, Array.toList_filter]
      exact List.mem_filter.2 ⟨hold, hr⟩
    · exact hold
  · rw [hget]
    split
    · rw [swept]
      cases hc : keep? (d.get r) with
      | none => exact h.unmarked r
      | some c => exact (hk _ _ hc).marked_eq.trans (h.unmarked r)
    · exact h.unmarked r

/-! ## Activities -/

theorem Accounted.rescale (h : d.Accounted) : d.rescale.Accounted := by
  have hall (rs : List ClauseRef) (e : Database) (he : e.Accounted) :
      (rs.foldl (fun d r => d.modify r fun c => { c with activity := c.activity * rescaleFactor }) e).Accounted := by
    induction rs generalizing e with
    | nil => exact he
    | cons r rs ih => exact ih _ (he.edit ⟨List.Perm.refl _, rfl, rfl, rfl⟩)
  refine hall _ _ ⟨h.toBalanced.relist h.toListed.relist rfl rfl rfl rfl rfl, h.byTier, h.unmarked⟩

/-! ## Compaction -/

theorem wordsOf_eq_sum (cs : List Clause) : wordsOf cs = (cs.map Clause.words).sum := by
  induction cs with
  | nil => rfl
  | cons c cs ih => rw [List.map_cons, List.sum_cons, ← ih, wordsOf, wordsOf, List.foldr_cons]

theorem getElem?_offsetsFrom {start i : Nat} {cs : List Clause} (h : i < cs.length) :
    (offsetsFrom start cs)[i]? = some (start + wordsOf (cs.take i)) := by
  induction cs generalizing start i with
  | nil => exact absurd h (Nat.not_lt_zero _)
  | cons c cs ih =>
    cases i with
    | zero => rfl
    | succ i =>
      rw [offsetsFrom, List.getElem?_cons_succ, ih (Nat.lt_of_succ_lt_succ h), List.take_succ_cons, Nat.add_assoc]
      rfl

theorem length_offsetsFrom (start : Nat) (cs : List Clause) : (offsetsFrom start cs).length = cs.length := by
  induction cs generalizing start with
  | nil => rfl
  | cons c cs ih => exact congrArg Nat.succ (ih _)

theorem wordsOf_take_add {i j : Nat} {cs : List Clause} (hi : i < cs.length) (hj : i < j) :
    wordsOf (cs.take i) + (cs[i]).words ≤ wordsOf (cs.take j) := by
  have hstep : wordsOf (cs.take i) + (cs[i]).words = wordsOf (cs.take (i + 1)) := by
    rw [List.take_succ_eq_append_getElem hi, wordsOf_eq_sum, wordsOf_eq_sum, List.map_append, List.sum_append]
    simp
  have hpre : cs.take (i + 1) <+: cs.take j := List.take_prefix_take_left hj
  obtain ⟨rest, hrest⟩ := hpre
  rw [hstep, ← hrest, wordsOf_eq_sum, wordsOf_eq_sum, List.map_append, List.sum_append]
  exact Nat.le_add_right _ _

theorem compact_total (h : d.Listed) : d.compact.2.total w = d.total w := by
  have hrange (r : ClauseRef) : r ∈ List.range (d.gather d.listed.toList).length ↔ d.compact.2.isLive r := by
    rw [List.mem_range, isLive_compact]
  have hget : (List.range (d.gather d.listed.toList).length).map (fun r => w (d.compact.2.get r)) =
      (d.gather d.listed.toList).map w := by
    refine List.ext_getElem (by simp) fun i h1 h2 => ?_
    rw [List.length_map] at h2
    simp [get_compact h2]
  rw [total_eq_sum List.nodup_range hrange, hget, total_eq_sum h.live_nodup fun r => h.mem_live,
    ((gather_perm d.listed.toList).map w).sum_eq, List.map_map]
  rfl

theorem offset_compact (hr : r < (d.gather d.listed.toList).length) :
    d.compact.2.offset r = wordsOf ((d.gather d.listed.toList).take r) := by
  show (offsetsFrom 0 (d.gather d.listed.toList)).toArray.getD r 0 = _
  rw [Array.getD_eq_getD_getElem?, List.getElem?_toArray, getElem?_offsetsFrom hr, Option.getD_some, Nat.zero_add]

theorem byTier_compact (d : Database) (t : Tier) : d.compact.2.byTier.get t =
    (Array.range d.compact.2.slots.size).filter fun r => (d.compact.2.get r).tier == t := by
  cases t <;> rfl

theorem Balanced.compact (h : d.Balanced) : d.compact.2.Balanced where
  toListed := (compact_moved h.toListed).listed
  size_offsets := by
    show (offsetsFrom 0 (d.gather d.listed.toList)).toArray.size = (d.gather d.listed.toList).toArray.size
    rw [List.size_toArray, List.size_toArray, length_offsetsFrom]
  apart {r q} hr hq hlt := by
    rw [isLive_compact] at hr hq
    rw [offset_compact hr, offset_compact hq, get_compact hr]
    exact wordsOf_take_add hr hlt
  within {r} hr := by
    rw [isLive_compact] at hr
    have hle := wordsOf_take_add hr hr
    rw [List.take_length] at hle
    rw [offset_compact hr, get_compact hr]
    exact hle
  counts t := by
    show d.counts.get t = _
    rw [card_ofTier, compact_total h.toListed, ← card_ofTier, h.counts]
  words := by
    show 0 + _ = wordsOf (d.gather d.listed.toList)
    rw [Nat.zero_add, compact_total h.toListed, total_eq_sum h.live_nodup fun r => h.mem_live, wordsOf_eq_sum,
      ((gather_perm d.listed.toList).map Clause.words).sum_eq, List.map_map]
    rfl

theorem Accounted.compact (h : d.Accounted) : d.compact.2.Accounted where
  toBalanced := h.toBalanced.compact
  byTier {r} hr := by
    rw [byTier_compact, Array.toList_filter, List.mem_filter, Array.toList_range, List.mem_range]
    exact ⟨lt_of_isLive hr, beq_iff_eq.2 rfl⟩
  unmarked r := by
    by_cases hr : r < (d.gather d.listed.toList).length
    · obtain ⟨q, -, -, hq⟩ := mem_gather.1 (List.getElem_mem hr)
      rw [get_compact hr, ← hq]
      exact h.unmarked q
    · rw [get_of_size_le (Nat.le_of_not_lt (size_compact ▸ hr))]
      rfl

end Database

end ClauseLearning
