import ClauseLearning.Proofs.Activity
import ClauseLearning.Proofs.CheckedHeap

/-!
# The order of the decision heap

No variable stands under one of lower activity, so the root has the highest one. Scaling down keeps this, because it
keeps the order of numbers. Among variables of equal activity the root has the lowest index as long as scaling down
keeps the activities of waiting variables apart: it may make different ones equal, and the heap stays as it was.

* `DecisionHeap.Above` : which variable may stand above which, with ties by index or without regard to it;
* `DecisionHeap.Ordered`, `DecisionHeap.OrderedAround` : the order of a heap, and that around a free place;
* `DecisionHeap.siftUp_ordered`, `DecisionHeap.siftDown_ordered` : sifting restores the order;
* `DecisionHeap.Operation`, `DecisionHeap.Accepted` : sequences of operations on a heap;
* `DecisionHeap.next_best` : the answer is the best candidate.
-/

namespace ClauseLearning.DecisionHeap

open SinglePrecision

variable {ties : Prop} {h g : DecisionHeap} {n pos fuel i : Nat} {u v w : Var}

/-! ## The order of variables -/

/-- `v` may stand above `w`: its activity is not lower and, if ties are regarded, its index is not higher among
equals. -/
def Above (ties : Prop) (h : DecisionHeap) (v w : Var) : Prop :=
  bits (h.activity w) < bits (h.activity v) ∨
    bits (h.activity w) = bits (h.activity v) ∧ (ties → v.index ≤ w.index)

theorem Above.refl (v : Var) : Above ties h v v := Or.inr ⟨rfl, fun _ => Nat.le_refl _⟩

theorem Above.trans (h₁ : Above ties h u v) (h₂ : Above ties h v w) : Above ties h u w := by
  rcases h₁ with h₁ | ⟨h₁, hi₁⟩
  · rcases h₂ with h₂ | ⟨h₂, -⟩
    · exact Or.inl (h₂.trans h₁)
    · exact Or.inl (h₂ ▸ h₁)
  · rcases h₂ with h₂ | ⟨h₂, hi₂⟩
    · exact Or.inl (h₁ ▸ h₂)
    · exact Or.inr ⟨h₂.trans h₁, fun ht => (hi₁ ht).trans (hi₂ ht)⟩

theorem Above.congr (ha : g.activities = h.activities) : Above ties g v w ↔ Above ties h v w := by
  rw [Above, Above, activity, activity, ha, activity, activity]

theorem before_iff : h.before v w = true ↔
    bits (h.activity w) < bits (h.activity v) ∨ bits (h.activity w) = bits (h.activity v) ∧ v.index < w.index := by
  rw [before, Bool.or_eq_true, Bool.and_eq_true, decide_eq_true_iff, decide_eq_true_iff, beq_iff_eq,
    UInt32.lt_iff_toNat_lt, ← UInt32.toNat_inj, eq_comm (b := (h.activity w).toBits.toNat)]
  exact Iff.rfl

theorem Above.of_before (hb : h.before v w = true) : Above ties h v w := by
  rcases before_iff.1 hb with hlt | ⟨heq, hi⟩
  · exact Or.inl hlt
  · exact Or.inr ⟨heq, fun _ => hi.le⟩

theorem Above.of_not_before (hb : ¬ h.before v w = true) : Above ties h w v := by
  rw [before_iff] at hb
  rcases Nat.lt_trichotomy (bits (h.activity w)) (bits (h.activity v)) with hlt | heq | hlt
  · exact absurd (Or.inl hlt) hb
  · exact Or.inr ⟨heq.symm, fun _ => Nat.le_of_not_lt fun hi => hb (Or.inr ⟨heq, hi⟩)⟩
  · exact Or.inl hlt

/-! ## The order of the heap -/

/-- No variable stands under one that it must stand above. -/
def Ordered (ties : Prop) (h : DecisionHeap) : Prop :=
  ∀ ⦃i u p⦄, i ≠ 0 → h.at? i = some u → h.at? ((i - 1) / 2) = some p → Above ties h p u

/-- The order of the places other than `pos`, and of those below it to the one above it. -/
structure OrderedAround (ties : Prop) (pos : Nat) (h : DecisionHeap) : Prop where
  apart {i : Nat} {u p : Var} : i ≠ 0 → i ≠ pos → (i - 1) / 2 ≠ pos → h.at? i = some u → h.at? ((i - 1) / 2) = some p →
    Above ties h p u
  across {i : Nat} {u p : Var} : i ≠ 0 → (i - 1) / 2 = pos → pos ≠ 0 → h.at? i = some u →
    h.at? ((pos - 1) / 2) = some p → Above ties h p u

/-- `v` may stand above what is below `pos`. -/
def FitsAbove (ties : Prop) (v : Var) (pos : Nat) (h : DecisionHeap) : Prop :=
  ∀ ⦃i u⦄, i ≠ 0 → (i - 1) / 2 = pos → h.at? i = some u → Above ties h v u

/-- `v` may stand below what is above `pos`. -/
def FitsBelow (ties : Prop) (v : Var) (pos : Nat) (h : DecisionHeap) : Prop :=
  ∀ ⦃p⦄, pos ≠ 0 → h.at? ((pos - 1) / 2) = some p → Above ties h p v

namespace OrderedAround

variable (ho : OrderedAround ties pos h) (hlt : pos < h.heap.size)
include ho hlt

theorem place (ha : FitsAbove ties v pos h) (hb : FitsBelow ties v pos h) : (h.place v pos).Ordered ties := by
  intro i u p hi hu hp
  rw [at?_place hlt] at hu hp
  refine (Above.congr rfl).2 ?_
  split at hu
  · next hpos =>
    subst hpos
    obtain rfl := Option.some.inj hu
    rw [if_neg (by omega)] at hp
    exact hb hi hp
  · next hpos =>
    split at hp
    · next hparent =>
      obtain rfl := Option.some.inj hp
      exact ha hi hparent hu
    · next hparent => exact ho.apart hi hpos hparent hu hp

theorem lower (h0 : pos ≠ 0) (hu : h.at? ((pos - 1) / 2) = some u) (ha : FitsAbove ties v pos h)
    (hvu : Above ties h v u) :
    OrderedAround ties ((pos - 1) / 2) (h.place u pos) ∧ FitsAbove ties v ((pos - 1) / 2) (h.place u pos) := by
  refine ⟨⟨?_, ?_⟩, ?_⟩
  · intro i w p hi hne hparent hw hp
    rw [at?_place hlt] at hw hp
    refine (Above.congr rfl).2 ?_
    have hipos : i ≠ pos := by
      rintro rfl
      exact hparent rfl
    rw [if_neg hipos] at hw
    split at hp
    · next hpos =>
      obtain rfl := Option.some.inj hp
      exact ho.across hi hpos h0 hw hu
    · next hpos => exact ho.apart hi hipos hpos hw hp
  · intro i w p hi hparent hne hw hp
    rw [at?_place hlt] at hw hp
    refine (Above.congr rfl).2 ?_
    rw [if_neg (by omega)] at hp
    have hpu : Above ties h p u := ho.apart hne (by omega) (by omega) hu hp
    split at hw
    · obtain rfl := Option.some.inj hw
      exact hpu
    · next hpos => exact hpu.trans (ho.apart hi hpos (by omega) hw (hparent ▸ hu))
  · intro i w hi hparent hw
    rw [at?_place hlt] at hw
    refine (Above.congr rfl).2 ?_
    split at hw
    · obtain rfl := Option.some.inj hw
      exact hvu
    · next hpos => exact hvu.trans (ho.apart hi hpos (by omega) hw (hparent ▸ hu))

theorem raise {q : Nat} (h0 : q ≠ 0) (hq : (q - 1) / 2 = pos) (hu : h.at? q = some u) (ha : FitsAbove ties u pos h)
    (huv : Above ties h u v) :
    OrderedAround ties q (h.place u pos) ∧ FitsBelow ties v q (h.place u pos) := by
  have hne : q ≠ pos := by omega
  refine ⟨⟨?_, ?_⟩, ?_⟩
  · intro i w p hi hiq hparent hw hp
    rw [at?_place hlt] at hw hp
    refine (Above.congr rfl).2 ?_
    split at hw
    · next hpos =>
      subst hpos
      obtain rfl := Option.some.inj hw
      rw [if_neg (by omega)] at hp
      exact ho.across h0 hq hi hu hp
    · next hpos =>
      split at hp
      · next hpp =>
        obtain rfl := Option.some.inj hp
        exact ha hi hpp hw
      · next hpp => exact ho.apart hi hpos hpp hw hp
  · intro i w p hi hparent hq0 hw hp
    rw [at?_place hlt] at hw hp
    refine (Above.congr rfl).2 ?_
    rw [if_pos hq] at hp
    obtain rfl := Option.some.inj hp
    rw [if_neg (by omega)] at hw
    exact ho.apart hi (by omega) (by omega) hw (hparent ▸ hu)
  · intro p hq0 hp
    rw [at?_place hlt, if_pos hq] at hp
    obtain rfl := Option.some.inj hp
    exact (Above.congr rfl).2 huv

end OrderedAround

/-! ## Sifting -/

theorem siftUp_ordered (hf : pos ≤ fuel) (hlt : pos < h.heap.size) (ho : OrderedAround ties pos h)
    (ha : FitsAbove ties v pos h) : (siftUp v fuel pos h).Ordered ties := by
  induction fuel generalizing pos h with
  | zero => exact ho.place hlt ha fun p h0 => absurd (Nat.le_zero.1 hf) h0
  | succ fuel ih =>
    rw [siftUp]
    split
    · next h0 => exact ho.place hlt ha fun p hne => absurd h0 hne
    · next h0 =>
      split
      · next hp =>
        refine ho.place hlt ha fun p _ hp' => ?_
        rw [hp] at hp'
        cases hp'
      · next parent hp =>
        split
        · next hb =>
          obtain ⟨ho', ha'⟩ := ho.lower hlt h0 hp ha (Above.of_before hb)
          refine ih (by omega) ?_ ho' ha'
          rw [size_place]
          omega
        · next hb =>
          refine ho.place hlt ha fun p _ hp' => ?_
          obtain rfl := Option.some.inj (hp.symm.trans hp')
          exact Above.of_not_before hb

theorem above_better (ties : Prop) (h : DecisionHeap) (best : Nat × Var) (q : Nat) :
    Above ties h (h.better best q).2 best.2 ∧ ∀ u, h.at? q = some u → Above ties h (h.better best q).2 u := by
  unfold better
  split
  · next hq =>
    refine ⟨Above.refl _, fun u hu => ?_⟩
    rw [hq] at hu
    cases hu
  · next v hv =>
    split
    · next hb =>
      refine ⟨Above.of_before hb, fun u hu => ?_⟩
      obtain rfl := Option.some.inj (hv.symm.trans hu)
      exact Above.refl _
    · next hb =>
      refine ⟨Above.refl _, fun u hu => ?_⟩
      obtain rfl := Option.some.inj (hv.symm.trans hu)
      exact Above.of_not_before hb

theorem fitsAbove_better (ties : Prop) (h : DecisionHeap) (v : Var) (pos : Nat) :
    Above ties h (h.better (h.better (pos, v) (2 * pos + 1)) (2 * pos + 2)).2 v ∧
      FitsAbove ties (h.better (h.better (pos, v) (2 * pos + 1)) (2 * pos + 2)).2 pos h := by
  obtain ⟨hv, hleft⟩ := above_better ties h (pos, v) (2 * pos + 1)
  obtain ⟨hbest, hright⟩ := above_better ties h (h.better (pos, v) (2 * pos + 1)) (2 * pos + 2)
  refine ⟨hbest.trans hv, ?_⟩
  intro i u hi hparent hu
  obtain rfl | rfl : i = 2 * pos + 1 ∨ i = 2 * pos + 2 := by omega
  · exact hbest.trans (hleft u hu)
  · exact hright u hu

theorem better_pos (h : DecisionHeap) (v : Var) (pos : Nat) :
    let child := h.better (h.better (pos, v) (2 * pos + 1)) (2 * pos + 2)
    child = (pos, v) ∨ child.1 = 2 * pos + 1 ∨ child.1 = 2 * pos + 2 := by
  dsimp only
  rcases better_cases h (h.better (pos, v) (2 * pos + 1)) (2 * pos + 2) with he | ⟨h1, -⟩
  · rcases better_cases h (pos, v) (2 * pos + 1) with he' | ⟨h1, -⟩
    · exact Or.inl (he.trans he')
    · exact Or.inr (Or.inl ((congrArg Prod.fst he).trans h1))
  · exact Or.inr (Or.inr h1)

theorem siftDown_ordered (hf : h.heap.size ≤ pos + fuel) (hlt : pos < h.heap.size) (ho : OrderedAround ties pos h)
    (hb : FitsBelow ties v pos h) : (siftDown v fuel pos h).Ordered ties := by
  induction fuel generalizing pos h with
  | zero => omega
  | succ fuel ih =>
    obtain ⟨hv, ha⟩ := fitsAbove_better ties h v pos
    have hcases := better_pos h v pos
    rw [siftDown]
    split
    next childPos child hc =>
    rw [hc] at hv ha hcases
    dsimp only at hv ha hcases
    split
    · next heq =>
      have hself : child = v := by
        rcases hcases with h | h | h
        · exact congrArg Prod.snd h
        · omega
        · omega
      exact ho.place hlt (hself ▸ ha) hb
    · next hne =>
      have hchild := at?_child hc hne
      have hpos : childPos = 2 * pos + 1 ∨ childPos = 2 * pos + 2 := by
        rcases hcases with h | h
        · exact absurd (congrArg Prod.fst h) hne
        · exact h
      obtain ⟨ho', hb'⟩ := ho.raise hlt (by omega) (by omega) hchild ha hv
      refine ih ?_ ?_ ho' hb'
      · rw [size_place]
        omega
      · rw [size_place]
        exact lt_of_at? hchild

/-! ## The root -/

theorem Ordered.root_above (ho : h.Ordered ties) (h0 : h.at? 0 = some v) (hu : h.at? i = some u) :
    Above ties h v u := by
  induction i using Nat.strongRecOn generalizing u with
  | ind i ih =>
    by_cases hi : i = 0
    · subst hi
      obtain rfl := Option.some.inj (h0.symm.trans hu)
      exact Above.refl _
    · have hlt := lt_of_at? hu
      have hparent : (i - 1) / 2 < h.heap.size := by omega
      have hp : h.at? ((i - 1) / 2) = some h.heap[(i - 1) / 2] := Array.getElem?_eq_getElem hparent
      exact (ih ((i - 1) / 2) (by omega) hp).trans (ho hi hu hp)

theorem Ordered.pop (ho : h.Ordered ties) : h.pop.2.Ordered ties := by
  unfold DecisionHeap.pop
  split
  · next root last h0 hl =>
    have hpos := lt_of_at? h0
    dsimp only
    by_cases he : h.heap.pop.isEmpty
    · rw [if_pos he]
      intro i u p hi hu
      have hlt : i < h.heap.pop.size := lt_of_at? hu
      rw [Array.isEmpty_iff_size_eq_zero] at he
      omega
    · rw [if_neg he]
      rw [Array.isEmpty_iff_size_eq_zero, Array.size_pop] at he
      have hat {j : Nat} {w : Var} (hw : (h.cut root).at? j = some w) : h.at? j = some w := by
        rw [at?_cut] at hw
        split at hw
        · exact hw
        · cases hw
      refine siftDown_ordered (h := h.cut root) (Nat.le_add_left ..) ?_ ⟨?_, ?_⟩ fun p h0 => absurd rfl h0
      · rw [cut, Array.size_pop]
        omega
      · intro i u p hi _ _ hu hp
        exact (Above.congr rfl).2 (ho hi (hat hu) (hat hp))
      · exact fun _ _ h0 => absurd rfl h0
  · exact ho

theorem scale_siftUp (v : Var) (fuel pos : Nat) (h : DecisionHeap) : (siftUp v fuel pos h).scale = h.scale := by
  induction fuel generalizing pos h with
  | zero => rfl
  | succ fuel ih =>
    rw [siftUp]
    split
    · rfl
    · split
      · rfl
      · split
        · exact ih _ _
        · rfl

theorem scale_siftDown (v : Var) (fuel pos : Nat) (h : DecisionHeap) : (siftDown v fuel pos h).scale = h.scale := by
  induction fuel generalizing pos h with
  | zero => rfl
  | succ fuel ih =>
    rw [siftDown]
    split
    split
    · rfl
    · exact ih _ _

theorem pop_numbers (h : DecisionHeap) : h.pop.2.activities = h.activities ∧ h.pop.2.scale = h.scale := by
  unfold DecisionHeap.pop
  split
  · dsimp only
    split
    · exact ⟨rfl, rfl⟩
    · exact ⟨activities_siftDown _ _ _ _, scale_siftDown _ _ _ _⟩
  · exact ⟨rfl, rfl⟩

theorem pop_fst {root : Var} (hp : h.pop.1 = some root) : h.at? 0 = some root := by
  unfold DecisionHeap.pop at hp
  split at hp
  · next h0 _ => exact h0.trans hp
  · cases hp

/-- The answer of a search stands above all candidates of the kind that was searched for. -/
structure Best (ties : Prop) (good : Var → Bool) (h : DecisionHeap) (found : Option Var) (h' : DecisionHeap) :
    Prop where
  ordered : h'.Ordered ties
  activities_eq : h'.activities = h.activities
  scale_eq : h'.scale = h.scale
  waits {v : Var} : found = some v → h.Waits v
  above {v w : Var} : found = some v → h.Waits w → h.isEnabled w → good w → Above ties h v w

theorem findFuel_best (fuel : Nat) (hv : h.Valid n) (ho : h.Ordered ties) (good : Var → Bool) :
    Best ties good h (findFuel good fuel h).1 (findFuel good fuel h).2 := by
  have hnone {v : Var} (h : none = some v) {P : Prop} : P := absurd h.symm (Option.some_ne_none v)
  induction fuel generalizing h with
  | zero => exact ⟨ho, rfl, rfl, fun h => hnone h, fun h => hnone h⟩
  | succ fuel ih =>
    have hord := ho.pop
    obtain ⟨hact, hscale⟩ := pop_numbers h
    rw [findFuel]
    split
    · next h' hp =>
      rw [hp] at hord hact hscale
      exact ⟨hord, hact, hscale, fun h => hnone h, fun h => hnone h⟩
    · next v h' hp =>
      rw [hp] at hord hact hscale
      dsimp only at hord hact hscale
      have h0 : h.at? 0 = some v := pop_fst (congrArg Prod.fst hp)
      obtain ⟨hv', -, he, hw, -⟩ := hv.pop_some hp
      split
      · refine ⟨hord, hact, hscale, ?_, ?_⟩
        · rintro u hu
          obtain rfl := Option.some.inj hu
          exact ⟨0, hv.position_iff.2 h0⟩
        · rintro u w hu ⟨q, hq⟩ - -
          obtain rfl := Option.some.inj hu
          exact ho.root_above h0 (hv.position_iff.1 hq)
      · next hc =>
        have hbest := ih hv' hord
        refine ⟨hbest.ordered, hbest.activities_eq.trans hact, hbest.scale_eq.trans hscale, ?_, ?_⟩
        · exact fun hu => ((hw _).1 (hbest.waits hu)).1
        · intro u w hu hww h1 h2
          have hne : w ≠ v := by
            rintro rfl
            rw [← he w] at h1
            exact hc (Bool.and_eq_true_iff.2 ⟨h1, h2⟩)
          exact (Above.congr hact).1 (hbest.above hu ((hw w).2 ⟨hww, hne⟩) ((he w).trans h1) h2)

/-! ## Activities -/

/-- The heap after a variable became more active, before it moves up. -/
def raised (h : DecisionHeap) (v : Var) : DecisionHeap :=
  { h with activities := h.activities.setIfInBounds v.index (h.activity v + h.scale.bump) }

/-- Scaling down leaves different activities of waiting variables different. -/
def KeepsApart (h : DecisionHeap) : Prop :=
  ∀ v ∈ h.heap, ∀ w ∈ h.heap, h.activity v ≠ h.activity w →
    h.activity v * rescaleFactor ≠ h.activity w * rescaleFactor

instance (h : DecisionHeap) : Decidable h.KeepsApart :=
  inferInstanceAs (Decidable (∀ v ∈ h.heap, ∀ w ∈ h.heap, _ ≠ _ → _ ≠ _))

/-- Neither the activities nor the bump are negative, and the bump grows by a factor. -/
structure Sane (h : DecisionHeap) : Prop where
  activity (v : Var) : IsMagnitude (h.activity v)
  scale : h.scale.Sane

theorem Sane.congr (hs : h.Sane) (ha : g.activities = h.activities) (hg : g.scale.Sane) : g.Sane where
  activity v := by
    rw [DecisionHeap.activity, ha]
    exact hs.activity v
  scale := hg

theorem activity_rescale (h : DecisionHeap) (v : Var) : h.rescale.activity v = h.activity v * rescaleFactor := by
  rw [activity, rescale, activity, Array.getD_eq_getD_getElem?, Array.getElem?_map, Array.getD_eq_getD_getElem?]
  cases h.activities[v.index]? with
  | none => exact bits_inj (by decide +kernel)
  | some x => rfl

theorem activity_raised (h : DecisionHeap) (v w : Var) :
    (h.raised v).activity w = if w = v ∧ v.index < h.activities.size then h.activity v + h.scale.bump
      else h.activity w := by
  rw [activity, raised]
  by_cases hv : v.index < h.activities.size
  · rw [getD_setIfInBounds hv]
    exact if_congr (Var.index_inj.trans (and_iff_left hv).symm) rfl rfl
  · rw [Array.setIfInBounds_eq_of_size_le (Nat.le_of_not_lt hv), if_neg fun h => hv h.2]
    rfl

theorem Sane.rescale (hs : h.Sane) : h.rescale.Sane where
  activity v := by
    rw [activity_rescale]
    exact (hs.activity v).mul isFactor_rescaleFactor
  scale := hs.scale.rescaled

theorem Sane.raised (hs : h.Sane) (v : Var) : (h.raised v).Sane where
  activity w := by
    rw [activity_raised]
    split
    · exact (hs.activity v).add hs.scale.bump
    · exact hs.activity w
  scale := hs.scale

theorem Above.rescale (hs : h.Sane) (hv : v ∈ h.heap) (hw : w ∈ h.heap) (ht : ties → h.KeepsApart)
    (ha : Above ties h v w) : Above ties h.rescale v w := by
  rw [Above, activity_rescale, activity_rescale]
  rcases ha with hlt | ⟨heq, hi⟩
  · have hle := mul_mono (hs.activity v) isFactor_rescaleFactor hlt.le
    rcases Nat.lt_or_eq_of_le hle with h | h
    · exact Or.inl h
    · refine Or.inr ⟨h, fun t => absurd (bits_inj h) (ht t w hw v hv ?_)⟩
      intro he
      rw [he] at hlt
      exact Nat.lt_irrefl _ hlt
  · rw [bits_inj heq]
    exact Or.inr ⟨rfl, hi⟩

theorem OrderedAround.map (ho : OrderedAround ties pos h) (hh : g.heap = h.heap)
    (hm : ∀ ⦃i j u w⦄, i ≠ pos → j ≠ pos → h.at? i = some u → h.at? j = some w → Above ties h u w → Above ties g u w) :
    OrderedAround ties pos g := by
  have hat (q : Nat) : g.at? q = h.at? q := by rw [at?, hh, at?]
  refine ⟨?_, ?_⟩
  · intro i u p hi hne hparent hu hp
    rw [hat] at hu hp
    exact hm hparent hne hp hu (ho.apart hi hne hparent hu hp)
  · intro i u p hi hparent hne hu hp
    rw [hat] at hu hp
    exact hm (by omega) (by omega) hp hu (ho.across hi hparent hne hu hp)

theorem Ordered.around (ho : h.Ordered ties) (hp : h.at? pos = some v) :
    OrderedAround ties pos h ∧ FitsAbove ties v pos h := by
  refine ⟨⟨?_, ?_⟩, ?_⟩
  · exact fun hi _ _ hu hp => ho hi hu hp
  · rintro i u p hi rfl hne hu hp'
    exact (ho hne hp hp').trans (ho hi hu hp)
  · rintro i u hi rfl hu
    exact ho hi hu hp

theorem Ordered.rescale (hs : h.Sane) (ho : h.Ordered ties) (ht : ties → h.KeepsApart) : h.rescale.Ordered ties :=
  fun _ _ _ hi hu hp => Above.rescale hs (Array.mem_of_getElem? hp) (Array.mem_of_getElem? hu) ht (ho hi hu hp)

theorem Above.raised (hs : h.Sane) (hv : v.index < h.activities.size) (ha : Above ties h v w) :
    Above ties (h.raised v) v w := by
  by_cases hw : w = v
  · exact hw ▸ Above.refl _
  rw [Above, activity_raised, activity_raised, if_neg fun h => hw h.1, if_pos ⟨rfl, hv⟩]
  have hle := le_add (hs.activity v) hs.scale.bump
  rcases ha with hlt | ⟨heq, hi⟩
  · exact Or.inl (hlt.trans_le hle)
  · rcases Nat.lt_or_eq_of_le hle with hlt | heq'
    · exact Or.inl (heq ▸ hlt)
    · exact Or.inr ⟨heq.trans heq', hi⟩

theorem ordered_iff_around : h.Ordered ties ↔ OrderedAround ties h.heap.size h := by
  constructor
  · refine fun ho => ⟨fun hi _ _ hu hp => ho hi hu hp, fun {i} u p hi hparent _ hu => ?_⟩
    have := lt_of_at? hu
    omega
  · intro ho i u p hi hu hp
    have := lt_of_at? hu
    exact ho.apart hi (by omega) (by omega) hu hp

/-- The heap after a variable became more active and activities were scaled down if necessary, before the variable
moves up. -/
def bumped (h : DecisionHeap) (v : Var) : DecisionHeap :=
  if rescaleLimit ≤ h.activity v + h.scale.bump then (h.raised v).rescale else h.raised v

/-- The heap that a bump scales down, if it does. -/
def bumped? (h : DecisionHeap) (v : Var) : Option DecisionHeap :=
  if rescaleLimit ≤ h.activity v + h.scale.bump then some (h.raised v) else none

/-- The heap that decay scales down, if it does. -/
def decayed? (h : DecisionHeap) : Option DecisionHeap :=
  if rescaleLimit ≤ h.scale.grown.bump then some { h with scale := h.scale.grown } else none

theorem bump_eq (h : DecisionHeap) (v : Var) :
    h.bump v = match h.position? v with
      | some pos => siftUp v pos pos (h.bumped v)
      | none => h.bumped v := by
  have hp : (h.bumped v).position? v = h.position? v := by
    unfold bumped
    split
    · rfl
    · rfl
  rw [← hp]
  rfl

theorem Sane.bumped (hs : h.Sane) (v : Var) : (h.bumped v).Sane := by
  unfold DecisionHeap.bumped
  split
  · exact (hs.raised v).rescale
  · exact hs.raised v

theorem OrderedAround.bumped (hs : h.Sane) (ho : OrderedAround ties pos h)
    (hne : ∀ ⦃q x⦄, q ≠ pos → h.at? q = some x → x ≠ v) (ht : ties → ∀ g, h.bumped? v = some g → g.KeepsApart) :
    OrderedAround ties pos (h.bumped v) := by
  have hraised : OrderedAround ties pos (h.raised v) := by
    refine ho.map rfl fun i j u w hi hj hu hw ha => ?_
    rw [Above, activity_raised, activity_raised, if_neg fun h => hne hj hw h.1, if_neg fun h => hne hi hu h.1]
    exact ha
  unfold DecisionHeap.bumped
  unfold bumped? at ht
  split
  · next hc =>
    rw [if_pos hc] at ht
    refine hraised.map rfl fun i j u w _ _ hu hw ha => ?_
    exact ha.rescale (hs.raised v) (Array.mem_of_getElem? hu) (Array.mem_of_getElem? hw) fun t => ht t _ rfl
  · exact hraised

theorem FitsAbove.bumped (hs : h.Sane) (hx : v.index < h.activities.size) (hat : h.at? pos = some v)
    (hf : FitsAbove ties v pos h) (ht : ties → ∀ g, h.bumped? v = some g → g.KeepsApart) :
    FitsAbove ties v pos (h.bumped v) := by
  unfold DecisionHeap.bumped
  unfold bumped? at ht
  split
  · next hc =>
    rw [if_pos hc] at ht
    intro i u hi hparent hu
    exact ((hf hi hparent hu).raised hs hx).rescale (hs.raised v) (Array.mem_of_getElem? hat)
      (Array.mem_of_getElem? hu) fun t => ht t _ rfl
  · exact fun i u hi hparent hu => (hf hi hparent hu).raised hs hx

/-! ## Operations -/

/-- What holds of a heap over `n` variables throughout. -/
structure Kept (ties : Prop) (n : Nat) (h : DecisionHeap) : Prop extends Sized n h where
  sane : h.Sane
  ordered : h.Ordered ties

theorem kept_empty (ties : Prop) : Kept ties 0 {} where
  toSized := ⟨valid_empty, rfl⟩
  sane := by
    refine ⟨fun v => ?_, by decide +kernel, by decide +kernel⟩
    rw [DecisionHeap.activity, getD_of_size_le (Nat.zero_le _)]
    decide +kernel
  ordered i u p _ hu := by cases hu

namespace Kept

variable (hk : Kept ties n h)
include hk

theorem sane_of_eq (ha : g.activities = h.activities) (hg : g.scale = h.scale) : g.Sane :=
  hk.sane.congr ha (hg ▸ hk.sane.scale)

theorem addVar : Kept ties (n + 1) h.addVar where
  toSized := hk.toSized.addVar
  sane := by
    refine ⟨fun v => ?_, hk.sane.scale⟩
    rw [DecisionHeap.activity, show h.addVar.activities.getD v.index 0 = h.activities.getD v.index 0 from
      getD_push_default]
    exact hk.sane.activity v
  ordered i u p hi hu hp := by
    have ha (w : Var) : h.addVar.activity w = h.activity w := getD_push_default
    rw [Above, ha, ha]
    exact hk.ordered hi hu hp

theorem withDecay {decay : Float32} (hd : ConfigUpdate.decayInRange decay) : Kept ties n (h.withDecay decay) where
  toSized := hk.toSized.withDecay decay
  sane := hk.sane.congr rfl (hk.sane.scale.withDecay hd)
  ordered _ _ _ hi hu hp := (Above.congr rfl).2 (hk.ordered hi hu hp)

theorem decay (ht : ties → ∀ g, h.decayed? = some g → g.KeepsApart) : Kept ties n h.decay := by
  have hgrown : Sane { h with scale := h.scale.grown } := hk.sane.congr rfl hk.sane.scale.grown
  have hord : Ordered ties { h with scale := h.scale.grown } :=
    fun _ _ _ hi hu hp => (Above.congr rfl).2 (hk.ordered hi hu hp)
  have hrest : h.decay.Sane ∧ h.decay.Ordered ties := by
    unfold decayed? at ht
    dsimp only [DecisionHeap.decay]
    split
    · next hc =>
      rw [if_pos hc] at ht
      exact ⟨hgrown.rescale, hord.rescale hgrown fun t => ht t _ rfl⟩
    · exact ⟨hgrown, hord⟩
  exact ⟨hk.toSized.decay, hrest.1, hrest.2⟩

theorem bump (hx : v.index < n) (ht : ties → ∀ g, h.bumped? v = some g → g.KeepsApart) : Kept ties n (h.bump v) := by
  have hx' : v.index < h.activities.size := hk.activities_size.symm ▸ hx
  have hheap : (h.bumped v).heap = h.heap := by
    unfold DecisionHeap.bumped
    split
    · rfl
    · rfl
  have hsane := hk.sane.bumped v
  have hrest : (h.bump v).Sane ∧ (h.bump v).Ordered ties := by
    rw [bump_eq]
    cases hp : h.position? v with
    | none =>
      refine ⟨hsane, ?_⟩
      rw [ordered_iff_around, hheap]
      refine (ordered_iff_around.1 hk.ordered).bumped hk.sane ?_ ht
      rintro q x - hq rfl
      rw [hk.position_iff.2 hq] at hp
      cases hp
    | some pos =>
      have hat := hk.position_iff.1 hp
      obtain ⟨haround, hfits⟩ := hk.ordered.around hat
      refine ⟨hsane.congr (activities_siftUp ..) ((scale_siftUp ..).symm ▸ hsane.scale), ?_⟩
      refine siftUp_ordered (Nat.le_refl pos) (hheap ▸ lt_of_at? hat) (haround.bumped hk.sane ?_ ht)
        (hfits.bumped hk.sane hx' hat ht)
      rintro q x hq hqx rfl
      exact hq (Option.some.inj ((hk.position_iff.2 hqx).symm.trans hp))
  exact ⟨hk.toSized.bump v, hrest.1, hrest.2⟩

theorem makeAvailable (v : Var) : Kept ties n (h.makeAvailable v) := by
  have hrest : (h.makeAvailable v).scale = h.scale ∧ (h.makeAvailable v).Ordered ties := by
    unfold DecisionHeap.makeAvailable
    split
    · have hat {q : Nat} {x : Var} (hne : q ≠ h.heap.size) :
          ({ h with heap := h.heap.push v } : DecisionHeap).at? q = some x → h.at? q = some x := by
        intro hq
        rw [at?, Array.getElem?_push, if_neg hne] at hq
        exact hq
      have hsize : ({ h with heap := h.heap.push v } : DecisionHeap).heap.size = h.heap.size + 1 := Array.size_push _
      refine ⟨scale_siftUp .., siftUp_ordered (Nat.le_refl _) (by omega) ⟨?_, ?_⟩ ?_⟩
      · intro i u p hi hne hparent hu hp
        exact (Above.congr rfl).2 (hk.ordered hi (hat hne hu) (hat hparent hp))
      · intro i u p hi hparent _ hu
        have := lt_of_at? hu
        omega
      · intro i u hi hparent hu
        have := lt_of_at? hu
        omega
    · exact ⟨rfl, hk.ordered⟩
  exact ⟨hk.toSized.makeAvailable v, hk.sane_of_eq (activities_makeAvailable ..) hrest.1, hrest.2⟩

theorem setEnabled (v : Var) (b : Bool) : Kept ties n (h.setEnabled v b) := by
  have hset : Kept ties n { h with enabled := h.enabled.setIfInBounds v.index b } :=
    ⟨hk.toSized.enabled v b, hk.sane_of_eq rfl rfl, fun _ _ _ hi hu hp => (Above.congr rfl).2 (hk.ordered hi hu hp)⟩
  dsimp only [DecisionHeap.setEnabled]
  cases b with
  | false => exact hset
  | true => exact hset.makeAvailable v

theorem next : Kept ties n h.next?.2 := by
  have hbest := findFuel_best h.heap.size hk.toValid hk.ordered fun _ => true
  have hsized : h.next?.2.Sized n := ⟨(find?_found hk.toValid _).valid, hbest.activities_eq ▸ hk.activities_size⟩
  exact ⟨hsized, hk.sane_of_eq hbest.activities_eq hbest.scale_eq, hbest.ordered⟩

end Kept

/-- An operation on a heap. -/
inductive Operation
  | addVar
  | withDecay (d : Float32)
  | setEnabled (v : Var) (enabled : Bool)
  | bump (v : Var)
  | decay
  | makeAvailable (v : Var)
  | next

namespace Operation

def run (h : DecisionHeap) : Operation → DecisionHeap
  | addVar => h.addVar
  | withDecay d => h.withDecay d
  | setEnabled v enabled => h.setEnabled v enabled
  | bump v => h.bump v
  | decay => h.decay
  | makeAvailable v => h.makeAvailable v
  | next => h.next?.2

/-- Decay factors passed the check of a configuration, and variables exist. -/
def Allowed (h : DecisionHeap) : Operation → Prop
  | withDecay d => ConfigUpdate.decayInRange d
  | setEnabled v _ | bump v | makeAvailable v => v.index < h.activities.size
  | addVar | decay | next => True

/-- The heap that the operation scales down, if it does. -/
def scaled? (h : DecisionHeap) : Operation → Option DecisionHeap
  | bump v => h.bumped? v
  | decay => h.decayed?
  | _ => none

instance (h : DecisionHeap) : (op : Operation) → Decidable (op.Allowed h)
  | withDecay d => inferInstanceAs (Decidable (ConfigUpdate.decayInRange d = true))
  | setEnabled v _ | bump v | makeAvailable v => inferInstanceAs (Decidable (v.index < h.activities.size))
  | addVar | decay | next => inferInstanceAs (Decidable True)

end Operation

/-- The operations are allowed one after the other, and `P` holds of each heap that is scaled down. -/
def Accepted (P : DecisionHeap → Prop) : DecisionHeap → List Operation → Prop
  | _, [] => True
  | h, op :: ops => op.Allowed h ∧ (∀ g ∈ op.scaled? h, P g) ∧ Accepted P (op.run h) ops

instance Accepted.instDecidable (P : DecisionHeap → Prop) [DecidablePred P] :
    (h : DecisionHeap) → (ops : List Operation) → Decidable (Accepted P h ops)
  | _, [] => inferInstanceAs (Decidable True)
  | h, op :: ops =>
    have := instDecidable P (op.run h) ops
    inferInstanceAs (Decidable (_ ∧ (∀ g ∈ op.scaled? h, P g) ∧ _))

/-- The heap after operations on an empty one. -/
def after (ops : List Operation) : DecisionHeap := ops.foldl Operation.run {}

theorem Kept.run (hk : Kept ties n h) {op : Operation} (ha : op.Allowed h)
    (ht : ties → ∀ g ∈ op.scaled? h, g.KeepsApart) : ∃ m, Kept ties m (op.run h) := by
  cases op with
  | addVar => exact ⟨_, hk.addVar⟩
  | withDecay d => exact ⟨_, hk.withDecay ha⟩
  | setEnabled v enabled => exact ⟨_, hk.setEnabled v enabled⟩
  | bump v => exact ⟨_, hk.bump (hk.activities_size ▸ ha) ht⟩
  | decay => exact ⟨_, hk.decay ht⟩
  | makeAvailable v => exact ⟨_, hk.makeAvailable v⟩
  | next => exact ⟨_, hk.next⟩

theorem Kept.foldl {P : DecisionHeap → Prop} (hk : Kept ties n h) (hP : ties → ∀ g, P g → g.KeepsApart)
    {ops : List Operation} (hops : Accepted P h ops) : ∃ m, Kept ties m (ops.foldl Operation.run h) := by
  induction ops generalizing n h with
  | nil => exact ⟨n, hk⟩
  | cons op ops ih =>
    obtain ⟨ha, hp, hrest⟩ := hops
    obtain ⟨m, hm⟩ := hk.run ha fun t g hg => hP t g (hp g hg)
    exact ih hm hrest

theorem not_lt_of_above (hs : h.Sane) (ha : Above ties h v w) : ¬ h.activity v < h.activity w := by
  rw [lt_iff (hs.activity v) (hs.activity w)]
  rcases ha with hlt | ⟨heq, -⟩
  · exact Nat.not_lt_of_lt hlt
  · exact Nat.not_lt.2 heq.le

theorem index_le_of_above (hs : h.Sane) (ha : Above ties h v w) (ht : ties) (hn : ¬ h.activity w < h.activity v) :
    v.index ≤ w.index := by
  rw [lt_iff (hs.activity w) (hs.activity v)] at hn
  rcases ha with hlt | ⟨-, hi⟩
  · exact absurd hlt hn
  · exact hi ht

/-- **The answer is the best candidate.** After any operations, whatever activities were scaled down how often, the heap
answers an enabled variable that waits, and no other one that is enabled and waits is more active; there is no answer
only if no variable that waits is enabled. If activities were only ever scaled down where different ones of waiting
variables stay different, the answer also has the lowest index among those of its activity. -/
theorem next_best (P : DecisionHeap → Prop) (ops : List Operation) (hops : Accepted P {} ops) :
    (∀ v, (after ops).next?.1 = some v → (after ops).Waits v ∧ (after ops).isEnabled v ∧
      ∀ w, (after ops).Waits w → (after ops).isEnabled w → ¬ (after ops).activity v < (after ops).activity w ∧
        ((∀ g, P g → g.KeepsApart) → ¬ (after ops).activity w < (after ops).activity v → v.index ≤ w.index)) ∧
      ((after ops).next?.1 = none → ∀ w, (after ops).Waits w → (after ops).isEnabled w = false) := by
  obtain ⟨n, hk⟩ := (kept_empty (∀ g, P g → g.KeepsApart)).foldl (fun t => t) hops
  change Kept _ n (after ops) at hk
  generalize after ops = h at hk
  have hfound := find?_found hk.toValid fun _ => true
  have hbest := findFuel_best h.heap.size hk.toValid hk.ordered fun _ => true
  refine ⟨fun v hv => ⟨hbest.waits hv, (hfound.found_good hv).2.1, fun w hw he => ?_⟩, fun hnone w hw => ?_⟩
  · have habove := hbest.above hv hw he rfl
    exact ⟨not_lt_of_above hk.sane habove, index_le_of_above hk.sane habove⟩
  · cases he : h.isEnabled w with
    | false => rfl
    | true => exact absurd (hfound.waits_none hnone hw he) (by decide)

/-- Two variables of equal activity after activities were scaled down once, with no two made equal by that. -/
def tieRun : List Operation :=
  [.addVar, .addVar, .addVar, .withDecay 0.0626, .setEnabled ⟨0⟩ true, .setEnabled ⟨1⟩ true, .setEnabled ⟨2⟩ true,
    .bump ⟨2⟩, .bump ⟨1⟩] ++ List.replicate 40 .decay

theorem next_best_tie : Accepted KeepsApart {} tieRun ∧ (after tieRun).next?.1 = some ⟨1⟩ ∧ (after tieRun).Waits ⟨2⟩ ∧
    (after tieRun).isEnabled ⟨2⟩ ∧ ¬ (after tieRun).activity ⟨2⟩ < (after tieRun).activity ⟨1⟩ ∧
    (1 : Nat) ≤ 2 := by
  have hops : Accepted KeepsApart {} tieRun := by decide +kernel
  have hnext : (after tieRun).next?.1 = some ⟨1⟩ := by decide +kernel
  have hwaits : (after tieRun).Waits ⟨2⟩ := ⟨1, by decide +kernel⟩
  have he : (after tieRun).isEnabled ⟨2⟩ := by decide +kernel
  have hn : ¬ (after tieRun).activity ⟨2⟩ < (after tieRun).activity ⟨1⟩ := by decide +kernel
  exact ⟨hops, hnext, hwaits, he, hn,
    (((next_best KeepsApart tieRun hops).1 ⟨1⟩ hnext).2.2 ⟨2⟩ hwaits he).2 (fun _ h => h) hn⟩

/-- The second variable is bumped once, then its activity is scaled down to zero. -/
def fadingRun : List Operation :=
  [.addVar, .addVar, .withDecay 0.0626, .setEnabled ⟨0⟩ true, .setEnabled ⟨1⟩ true, .bump ⟨1⟩] ++
    List.replicate 70 .decay

/-- **The lowest index among equals is not always preferred.** Scaling down makes the activities of two waiting
variables equal, but the one of the higher index stays at the root. -/
theorem lower_index_waits : ¬ ∀ ops, Accepted (fun _ => True) {} ops → ∀ v, (after ops).next?.1 = some v →
    ∀ w, (after ops).Waits w → (after ops).isEnabled w → ¬ (after ops).activity v < (after ops).activity w ∧
      (¬ (after ops).activity w < (after ops).activity v → v.index ≤ w.index) := by
  intro h
  have hwaits : (after fadingRun).Waits ⟨0⟩ := ⟨1, by decide +kernel⟩
  have hle := (h fadingRun (by decide +kernel) ⟨1⟩ (by decide +kernel) ⟨0⟩ hwaits (by decide +kernel)).2
    (by decide +kernel)
  exact absurd hle (by decide)

end ClauseLearning.DecisionHeap
