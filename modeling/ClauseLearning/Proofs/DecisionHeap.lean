import ClauseLearning.DecisionHeap
import ClauseLearning.Proofs.Arrays
import ClauseLearning.Proofs.Assignment

/-!
# The candidates in the heap

* `DecisionHeap.Valid` : heap and positions agree, so no candidate is lost or twice in the heap;
* `DecisionHeap.Hole` : the same while a variable is on its way to its place;
* `DecisionHeap.Waits` : the variables in the heap. Sifting keeps them, `DecisionHeap.find?` removes only those that
  it answers or rejects.
-/

namespace ClauseLearning.DecisionHeap

variable {h : DecisionHeap} {n pos q fuel : Nat} {u v w : Var}

/-- Heap and positions agree, over `n` variables. -/
structure Valid (n : Nat) (h : DecisionHeap) : Prop where
  enabled_size : h.enabled.size = n
  positions_size : h.positions.size = n
  position_iff {v : Var} {q : Nat} : h.position? v = some q ↔ h.at? q = some v

/-- A variable that is in the heap. -/
def Waits (h : DecisionHeap) (v : Var) : Prop := ∃ q, h.position? v = some q

/-- `v` is on its way to its place, and the place `pos` is free. -/
structure Hole (n : Nat) (v : Var) (pos : Nat) (h : DecisionHeap) : Prop where
  enabled_size : h.enabled.size = n
  positions_size : h.positions.size = n
  index_lt : v.index < n
  pos_lt : pos < h.heap.size
  position_iff {u : Var} {q : Nat} : u ≠ v → (h.position? u = some q ↔ q ≠ pos ∧ h.at? q = some u)
  absent {q : Nat} : q ≠ pos → h.at? q ≠ some v

/-! ## Single places -/

theorem position?_place (hv : v.index < h.positions.size) :
    (h.place v pos).position? w = if w = v then some pos else h.position? w := by
  rw [position?, place, getD_setIfInBounds hv, ← position?]
  simp only [Var.index_inj]

theorem at?_place (hp : pos < h.heap.size) : (h.place v pos).at? q = if q = pos then some v else h.at? q := by
  rw [at?, place, Array.getElem?_setIfInBounds, ← at?]
  by_cases hq : q = pos
  · rw [if_pos hq, if_pos hq.symm, if_pos (hq ▸ hp)]
  · rw [if_neg hq, if_neg (Ne.symm hq)]

theorem lt_of_at? (hv : h.at? q = some v) : q < h.heap.size := (Array.getElem?_eq_some_iff.1 hv).1

theorem index_lt_of_position? (hv : h.position? v = some q) : v.index < h.positions.size := by
  apply Nat.lt_of_not_le
  intro hle
  rw [position?, getD_of_size_le hle] at hv
  cases hv

namespace Hole

variable (hh : Hole n v pos h)
include hh

theorem place : (h.place v pos).Valid n where
  enabled_size := hh.enabled_size
  positions_size := by rw [DecisionHeap.place, Array.size_setIfInBounds, hh.positions_size]
  position_iff {w q} := by
    rw [position?_place (hh.positions_size.symm ▸ hh.index_lt), at?_place hh.pos_lt]
    by_cases hw : w = v
    · rw [if_pos hw]
      by_cases hq : q = pos
      · rw [if_pos hq, hq, hw]
        exact iff_of_true rfl rfl
      · rw [if_neg hq, hw]
        exact iff_of_false (fun h => hq (Option.some.inj h).symm) (hh.absent hq)
    · rw [if_neg hw, hh.position_iff hw]
      by_cases hq : q = pos
      · rw [if_pos hq]
        exact iff_of_false (fun h => h.1 hq) fun h => hw (Option.some.inj h).symm
      · rw [if_neg hq]
        exact and_iff_right hq

theorem waits_place : (h.place v pos).Waits w ↔ w = v ∨ h.Waits w := by
  unfold Waits
  rw [position?_place (hh.positions_size.symm ▸ hh.index_lt)]
  by_cases hw : w = v
  · rw [if_pos hw]
    exact iff_of_true ⟨pos, rfl⟩ (Or.inl hw)
  · rw [if_neg hw]
    exact ⟨Or.inr, fun h => h.resolve_left hw⟩

theorem move (hu : h.at? q = some u) (hq : q ≠ pos) : (h.place u pos).Hole n v q := by
  have hne : u ≠ v := fun he => hh.absent hq (he ▸ hu)
  have hpu : h.position? u = some q := (hh.position_iff hne).2 ⟨hq, hu⟩
  have hlt := index_lt_of_position? hpu
  refine ⟨hh.enabled_size, ?_, hh.index_lt, ?_, ?_, ?_⟩
  · rw [DecisionHeap.place, Array.size_setIfInBounds, hh.positions_size]
  · rw [DecisionHeap.place, Array.size_setIfInBounds]
    exact lt_of_at? hu
  · intro w q' hw
    rw [position?_place hlt, at?_place hh.pos_lt]
    by_cases hwu : w = u
    · rw [if_pos hwu]
      by_cases hq' : q' = pos
      · rw [if_pos hq', hq', hwu]
        exact iff_of_true rfl ⟨Ne.symm hq, rfl⟩
      · rw [if_neg hq']
        refine iff_of_false (fun h => hq' (Option.some.inj h).symm) fun ⟨hne', hat⟩ => hne' ?_
        have := (hh.position_iff hw).2 ⟨hq', hat⟩
        rw [hwu, hpu] at this
        exact (Option.some.inj this).symm
    · rw [if_neg hwu, hh.position_iff hw]
      by_cases hq' : q' = pos
      · rw [if_pos hq']
        exact iff_of_false (fun h => h.1 hq') fun h => hwu (Option.some.inj h.2).symm
      · rw [if_neg hq']
        constructor
        · rintro ⟨-, hat⟩
          refine ⟨?_, hat⟩
          rintro rfl
          exact hwu (Option.some.inj (hat.symm.trans hu))
        · exact fun h => ⟨hq', h.2⟩
  · intro q' hq'
    rw [at?_place hh.pos_lt]
    split
    · exact fun h => hne (Option.some.inj h)
    · next hp => exact hh.absent hp

theorem waits_move (hu : h.at? q = some u) (hq : q ≠ pos) : (h.place u pos).Waits w ↔ h.Waits w := by
  have hne : u ≠ v := fun he => hh.absent hq (he ▸ hu)
  have hpu : h.position? u = some q := (hh.position_iff hne).2 ⟨hq, hu⟩
  unfold Waits
  rw [position?_place (index_lt_of_position? hpu)]
  by_cases hw : w = u
  · rw [if_pos hw, hw]
    exact iff_of_true ⟨pos, rfl⟩ ⟨q, hpu⟩
  · rw [if_neg hw]

end Hole

/-! ## Sifting -/

/-- What sifting makes of a heap with a hole: `v` has a place and nothing else changed. -/
structure Filled (n : Nat) (v : Var) (h h' : DecisionHeap) : Prop where
  valid : h'.Valid n
  waits_iff {w : Var} : h'.Waits w ↔ w = v ∨ h.Waits w
  isEnabled_eq {w : Var} : h'.isEnabled w = h.isEnabled w
  size_eq : h'.heap.size = h.heap.size

theorem size_place : (h.place v pos).heap.size = h.heap.size := Array.size_setIfInBounds

theorem Hole.filled (hh : Hole n v pos h) : Filled n v h (h.place v pos) :=
  ⟨hh.place, hh.waits_place, rfl, size_place⟩

theorem Hole.filled_of_move (hh : Hole n v pos h) (hu : h.at? q = some u) (hq : q ≠ pos) {h' : DecisionHeap}
    (hf : Filled n v (h.place u pos) h') : Filled n v h h' where
  valid := hf.valid
  waits_iff {w} := by rw [hf.waits_iff, hh.waits_move hu hq]
  isEnabled_eq := hf.isEnabled_eq
  size_eq := hf.size_eq.trans size_place

theorem siftUp_filled (fuel : Nat) (hh : Hole n v pos h) : Filled n v h (siftUp v fuel pos h) := by
  induction fuel generalizing pos h with
  | zero => exact hh.filled
  | succ fuel ih =>
    rw [siftUp]
    split
    · exact hh.filled
    · next hpos =>
      split
      · exact hh.filled
      · next parent hp =>
        have hq : (pos - 1) / 2 ≠ pos := by omega
        split
        · exact hh.filled_of_move hp hq (ih (hh.move hp hq))
        · exact hh.filled

theorem better_cases (h : DecisionHeap) (best : Nat × Var) (q : Nat) :
    h.better best q = best ∨ (h.better best q).1 = q ∧ h.at? q = some (h.better best q).2 := by
  unfold better
  split
  · exact Or.inl rfl
  · next v hv =>
    split
    · exact Or.inr ⟨rfl, hv⟩
    · exact Or.inl rfl

theorem at?_child {child : Nat × Var} (hc : h.better (h.better (pos, v) (2 * pos + 1)) (2 * pos + 2) = child)
    (hne : child.1 ≠ pos) : h.at? child.1 = some child.2 := by
  rcases better_cases h (h.better (pos, v) (2 * pos + 1)) (2 * pos + 2) with he | ⟨h1, h2⟩
  · rcases better_cases h (pos, v) (2 * pos + 1) with he' | ⟨h1, h2⟩
    · rw [he, he'] at hc
      exact absurd (congrArg Prod.fst hc).symm hne
    · rw [← hc, he, h1, h2]
  · rw [← hc, h1, h2]

theorem siftDown_filled (fuel : Nat) (hh : Hole n v pos h) : Filled n v h (siftDown v fuel pos h) := by
  induction fuel generalizing pos h with
  | zero => exact hh.filled
  | succ fuel ih =>
    rw [siftDown]
    split
    next childPos child hc =>
    split
    · exact hh.filled
    · next hne =>
      have hchild := at?_child hc hne
      exact hh.filled_of_move hchild hne (ih (hh.move hchild hne))

/-! ## Activities -/

namespace Valid

variable (hv : h.Valid n)
include hv

theorem index_lt (hp : h.position? v = some q) : v.index < n := hv.positions_size ▸ index_lt_of_position? hp

theorem index_lt_of_isEnabled (he : h.isEnabled v) : v.index < n := by
  apply Nat.lt_of_not_le
  intro hle
  rw [isEnabled, getD_of_size_le (hv.enabled_size.symm ▸ hle)] at he
  cases he

theorem hole (hp : h.position? v = some pos) : Hole n v pos h where
  enabled_size := hv.enabled_size
  positions_size := hv.positions_size
  index_lt := hv.index_lt hp
  pos_lt := lt_of_at? (hv.position_iff.1 hp)
  position_iff {u q} hu := by
    rw [hv.position_iff, iff_and_self]
    rintro hq rfl
    exact hu (Option.some.inj (hq.symm.trans (hv.position_iff.1 hp)))
  absent {q} hq hat := hq (Option.some.inj ((hv.position_iff.2 hat).symm.trans hp))

end Valid

/-- The same candidates, of other activities or in another order. -/
structure Same (n : Nat) (h h' : DecisionHeap) : Prop where
  valid : h'.Valid n
  waits_iff {w : Var} : h'.Waits w ↔ h.Waits w
  isEnabled_eq {w : Var} : h'.isEnabled w = h.isEnabled w

theorem Same.refl (hv : h.Valid n) : Same n h h := ⟨hv, Iff.rfl, rfl⟩

theorem Same.trans {h₁ h₂ h₃ : DecisionHeap} (h12 : Same n h₁ h₂) (h23 : Same n h₂ h₃) : Same n h₁ h₃ where
  valid := h23.valid
  waits_iff := h23.waits_iff.trans h12.waits_iff
  isEnabled_eq := h23.isEnabled_eq.trans h12.isEnabled_eq

theorem Valid.congr (hv : h.Valid n) {h' : DecisionHeap} (he : h'.enabled = h.enabled) (hh : h'.heap = h.heap)
    (hp : h'.positions = h.positions) : Same n h h' := by
  have hpos (u : Var) : h'.position? u = h.position? u := by rw [position?, hp, position?]
  refine ⟨⟨he ▸ hv.enabled_size, hp ▸ hv.positions_size, ?_⟩, ?_, ?_⟩
  · intro u q
    rw [hpos, at?, hh]
    exact hv.position_iff
  · intro w
    simp only [Waits, hpos]
  · intro w
    rw [isEnabled, he, isEnabled]

theorem Valid.withDecay (hv : h.Valid n) (decay : Float32) : Same n h (h.withDecay decay) := hv.congr rfl rfl rfl

theorem Valid.decay (hv : h.Valid n) : Same n h h.decay := by
  dsimp only [DecisionHeap.decay]
  split
  · exact hv.congr rfl rfl rfl
  · exact hv.congr rfl rfl rfl

theorem Same.siftUp {g : DecisionHeap} (hs : Same n h g) (hp : g.position? v = some pos) :
    Same n h (siftUp v fuel pos g) := by
  have hf := siftUp_filled fuel (hs.valid.hole hp)
  refine hs.trans ⟨hf.valid, ?_, hf.isEnabled_eq⟩
  intro w
  rw [hf.waits_iff]
  refine ⟨?_, Or.inr⟩
  intro h
  rcases h with rfl | h
  · exact ⟨pos, hp⟩
  · exact h

theorem Valid.bump (hv : h.Valid n) (v : Var) : Same n h (h.bump v) := by
  have hs (a : Float32) : Same n h (if rescaleLimit ≤ a then
      { h with activities := h.activities.setIfInBounds v.index a }.rescale
      else { h with activities := h.activities.setIfInBounds v.index a }) := by
    split
    · exact hv.congr rfl rfl rfl
    · exact hv.congr rfl rfl rfl
  dsimp only [DecisionHeap.bump]
  split
  · next pos hp => exact (hs _).siftUp hp
  · exact hs _

/-! ## Candidates -/

theorem valid_empty : ({} : DecisionHeap).Valid 0 where
  enabled_size := rfl
  positions_size := rfl
  position_iff {v q} := by
    have h1 : ({} : DecisionHeap).position? v = none := by
      rw [position?]
      exact getD_of_size_le (Nat.zero_le _)
    have h2 : ({} : DecisionHeap).at? q = none := Array.getElem?_eq_none (Nat.zero_le _)
    rw [h1, h2]
    exact iff_of_false (fun h => by cases h) fun h => by cases h

namespace Valid

variable (hv : h.Valid n)
include hv

theorem addVar : h.addVar.Valid (n + 1) where
  enabled_size := by rw [DecisionHeap.addVar, Array.size_push, hv.enabled_size]
  positions_size := by rw [DecisionHeap.addVar, Array.size_push, hv.positions_size]
  position_iff {v q} := by
    have hp : h.addVar.position? v = h.position? v := getD_push_default
    rw [hp]
    exact hv.position_iff

theorem hole_push (hx : v.index < n) (hp : h.position? v = none) :
    Hole n v h.heap.size { h with heap := h.heap.push v } where
  enabled_size := hv.enabled_size
  positions_size := hv.positions_size
  index_lt := hx
  pos_lt := by
    rw [Array.size_push]
    exact Nat.lt_succ_self _
  position_iff {u q} hu := by
    show h.position? u = some q ↔ q ≠ h.heap.size ∧ (h.heap.push v)[q]? = some u
    rw [hv.position_iff, Array.getElem?_push, at?]
    split
    · next hq =>
      rw [hq, Array.getElem?_eq_none (Nat.le_refl _)]
      exact iff_of_false (fun h => by cases h) fun h => h.1 rfl
    · next hq => exact (and_iff_right hq).symm
  absent {q} hq := by
    show (h.heap.push v)[q]? ≠ some v
    rw [Array.getElem?_push, if_neg hq]
    intro hat
    rw [hv.position_iff.2 hat] at hp
    cases hp

theorem makeAvailable (v : Var) :
    (h.makeAvailable v).Valid n ∧ (∀ w, (h.makeAvailable v).isEnabled w = h.isEnabled w) ∧
      ∀ w, (h.makeAvailable v).Waits w ↔ h.Waits w ∨ w = v ∧ h.isEnabled v := by
  unfold DecisionHeap.makeAvailable
  split
  · next hc =>
    obtain ⟨he, hp⟩ := Bool.and_eq_true_iff.1 hc
    have hf := siftUp_filled h.heap.size
      (hv.hole_push (hv.index_lt_of_isEnabled he) (Option.isNone_iff_eq_none.1 hp))
    refine ⟨hf.valid, fun w => hf.isEnabled_eq, ?_⟩
    intro w
    rw [hf.waits_iff, or_comm, and_iff_left he]
    exact Iff.rfl
  · next hc =>
    refine ⟨hv, fun w => rfl, fun w => ⟨Or.inl, ?_⟩⟩
    rintro (hw | ⟨rfl, he⟩)
    · exact hw
    · rw [he, Bool.true_and, Bool.not_eq_true, Option.isNone_eq_false_iff, Option.isSome_iff_exists] at hc
      exact hc

theorem setEnabled (hx : v.index < n) (b : Bool) :
    (h.setEnabled v b).Valid n ∧ (∀ w, (h.setEnabled v b).isEnabled w = if w = v then b else h.isEnabled w) ∧
      ∀ w, (h.setEnabled v b).Waits w ↔ h.Waits w ∨ w = v ∧ b = true := by
  have hv' : ({ h with enabled := h.enabled.setIfInBounds v.index b } : DecisionHeap).Valid n := by
    refine ⟨?_, hv.positions_size, hv.position_iff⟩
    rw [Array.size_setIfInBounds, hv.enabled_size]
  have he (w : Var) : ({ h with enabled := h.enabled.setIfInBounds v.index b } : DecisionHeap).isEnabled w =
      if w = v then b else h.isEnabled w := by
    rw [isEnabled, getD_setIfInBounds (hv.enabled_size.symm ▸ hx), ← isEnabled]
    simp only [Var.index_inj]
  dsimp only [DecisionHeap.setEnabled]
  cases b with
  | false => exact ⟨hv', he, fun w => ⟨Or.inl, fun h => h.resolve_right fun h => by cases h.2⟩⟩
  | true =>
    obtain ⟨h1, h2, h3⟩ := hv'.makeAvailable v
    refine ⟨h1, fun w => (h2 w).trans (he w), ?_⟩
    intro w
    rw [if_pos rfl, h3, he, if_pos rfl]
    exact Iff.rfl

end Valid

/-- A heap without its last place, and a root that is not in it any more. -/
def cut (h : DecisionHeap) (root : Var) : DecisionHeap :=
  { h with heap := h.heap.pop, positions := h.positions.setIfInBounds root.index none }

theorem at?_cut {root : Var} : (h.cut root).at? q = if q < h.heap.size - 1 then h.at? q else none := by
  rw [at?, cut, Array.getElem?_pop, ← at?]

namespace Valid

variable (hv : h.Valid n)
include hv

theorem position?_cut {root : Var} (h0 : h.at? 0 = some root) :
    (h.cut root).position? w = if w = root then none else h.position? w := by
  have hr := index_lt_of_position? (hv.position_iff.2 h0)
  rw [position?, cut, getD_setIfInBounds hr, ← position?]
  simp only [Var.index_inj]

theorem cut_valid {root : Var} (h0 : h.at? 0 = some root) (hs : h.heap.size = 1) : (h.cut root).Valid n where
  enabled_size := hv.enabled_size
  positions_size := by rw [cut, Array.size_setIfInBounds, hv.positions_size]
  position_iff {u q} := by
    rw [hv.position?_cut h0, at?_cut, hs, if_neg (Nat.not_lt_zero q)]
    refine iff_of_false ?_ fun h => by cases h
    split
    · exact fun h => by cases h
    · next hu =>
      intro hq
      have hat := hv.position_iff.1 hq
      have : q = 0 := by
        have := lt_of_at? hat
        omega
      rw [this, h0] at hat
      exact hu (Option.some.inj hat).symm

theorem cut_hole {root last : Var} (h0 : h.at? 0 = some root) (hs : h.heap.size ≠ 1)
    (hl : h.at? (h.heap.size - 1) = some last) : Hole n last 0 (h.cut root) where
  enabled_size := hv.enabled_size
  positions_size := by rw [cut, Array.size_setIfInBounds, hv.positions_size]
  index_lt := hv.index_lt (hv.position_iff.2 hl)
  pos_lt := by
    have := lt_of_at? h0
    rw [cut, Array.size_pop]
    omega
  position_iff {u q} hu := by
    rw [hv.position?_cut h0, at?_cut]
    by_cases hur : u = root
    · rw [if_pos hur, hur]
      apply iff_of_false (fun h => by cases h)
      rintro ⟨hq, hat⟩
      split at hat
      · exact hq (Option.some.inj ((hv.position_iff.2 hat).symm.trans (hv.position_iff.2 h0)))
      · cases hat
    · rw [if_neg hur, hv.position_iff]
      constructor
      · intro hat
        have hlt := lt_of_at? hat
        have hne : q ≠ h.heap.size - 1 := by
          rintro rfl
          exact hu (Option.some.inj (hat.symm.trans hl))
        rw [if_pos (by omega)]
        refine ⟨?_, hat⟩
        rintro rfl
        exact hur (Option.some.inj (hat.symm.trans h0))
      · rintro ⟨-, hat⟩
        split at hat
        · exact hat
        · cases hat
  absent {q} hq := by
    rw [at?_cut]
    split
    · next hlt =>
      intro hat
      have := Option.some.inj ((hv.position_iff.2 hat).symm.trans (hv.position_iff.2 hl))
      omega
    · exact fun h => by cases h

theorem waits_cut {root : Var} (h0 : h.at? 0 = some root) : (h.cut root).Waits w ↔ h.Waits w ∧ w ≠ root := by
  unfold Waits
  rw [hv.position?_cut h0]
  by_cases hw : w = root
  · rw [if_pos hw]
    exact iff_of_false (fun ⟨q, hq⟩ => by cases hq) fun h => h.2 hw
  · rw [if_neg hw, and_iff_left hw]

theorem pop_some {root : Var} {h' : DecisionHeap} (hp : h.pop = (some root, h')) :
    h'.Valid n ∧ root.index < n ∧ (∀ w, h'.isEnabled w = h.isEnabled w) ∧
      (∀ w, h'.Waits w ↔ h.Waits w ∧ w ≠ root) ∧ h'.heap.size + 1 = h.heap.size := by
  unfold DecisionHeap.pop at hp
  split at hp
  next root' last h0 hl =>
    obtain ⟨hr, hh⟩ := Prod.mk.inj hp
    obtain rfl := Option.some.inj hr
    have hpos := lt_of_at? h0
    have hsize : (h.cut root').heap.size + 1 = h.heap.size := by
      rw [cut, Array.size_pop]
      omega
    by_cases he : h.heap.pop.isEmpty
    · have hs : h.heap.size = 1 := by
        rw [Array.isEmpty_iff_size_eq_zero, Array.size_pop] at he
        omega
      rw [if_pos he] at hh
      subst hh
      exact ⟨hv.cut_valid h0 hs, hv.index_lt (hv.position_iff.2 h0), fun w => rfl, fun w => hv.waits_cut h0, hsize⟩
    · have hs : h.heap.size ≠ 1 := by
        rw [Array.isEmpty_iff_size_eq_zero, Array.size_pop] at he
        omega
      have hl' : h.at? (h.heap.size - 1) = some last := by
        rw [at?, ← Array.back?_eq_getElem?, hl]
      have hf := siftDown_filled h.heap.pop.size (hv.cut_hole h0 hs hl')
      rw [if_neg he] at hh
      subst hh
      refine ⟨hf.valid, hv.index_lt (hv.position_iff.2 h0), fun w => hf.isEnabled_eq, ?_, ?_⟩
      · intro w
        have hlast : h.Waits last := ⟨_, hv.position_iff.2 hl'⟩
        have hne : last ≠ root' := by
          rintro rfl
          have := Option.some.inj ((hv.position_iff.2 hl').symm.trans (hv.position_iff.2 h0))
          omega
        apply hf.waits_iff.trans
        rw [hv.waits_cut h0]
        refine ⟨?_, Or.inr⟩
        intro h
        rcases h with rfl | h
        · exact ⟨hlast, hne⟩
        · exact h
      · refine Eq.trans ?_ hsize
        exact congrArg (· + 1) hf.size_eq
  · cases hp

omit hv in
theorem pop_none {h' : DecisionHeap} (hp : h.pop = (none, h')) : h' = h ∧ h.heap.size = 0 := by
  unfold DecisionHeap.pop at hp
  split at hp
  · cases hp
  · next hne =>
    refine ⟨(Prod.mk.inj hp).2.symm, Nat.eq_zero_of_not_pos ?_⟩
    intro hpos
    refine hne h.heap[0] h.heap[h.heap.size - 1] (Array.getElem?_eq_getElem hpos) ?_
    rw [Array.back?_eq_getElem?, Array.getElem?_eq_getElem]

omit hv in
theorem not_waits_of_size_eq_zero (hv : h.Valid n) (hs : h.heap.size = 0) : ¬ h.Waits w := by
  rintro ⟨q, hq⟩
  have := lt_of_at? (hv.position_iff.1 hq)
  omega

end Valid

/-- What is left of the heap after a search for a candidate that `good` holds of: all other candidates of that kind
still wait. -/
structure Found (n : Nat) (good : Var → Bool) (h : DecisionHeap) (found : Option Var) (h' : DecisionHeap) : Prop where
  valid : h'.Valid n
  isEnabled_eq {w : Var} : h'.isEnabled w = h.isEnabled w
  found_good {v : Var} : found = some v → v.index < n ∧ h.isEnabled v ∧ good v
  waits {w : Var} : h.Waits w → h.isEnabled w → good w → h'.Waits w ∨ found = some w
  waits_none {w : Var} : found = none → h.Waits w → h.isEnabled w → good w = false

theorem findFuel_found (hv : h.Valid n) (good : Var → Bool) (hf : h.heap.size ≤ fuel) :
    Found n good h (findFuel good fuel h).1 (findFuel good fuel h).2 := by
  induction fuel generalizing h with
  | zero =>
    have hw (w : Var) := hv.not_waits_of_size_eq_zero (w := w) (Nat.le_zero.1 hf)
    exact ⟨hv, rfl, fun h => (nomatch h), fun h => absurd h (hw _), fun _ h => absurd h (hw _)⟩
  | succ fuel ih =>
    rw [findFuel]
    split
    · next h' hp =>
      obtain ⟨rfl, hs⟩ := Valid.pop_none hp
      have hw (w : Var) := hv.not_waits_of_size_eq_zero (w := w) hs
      exact ⟨hv, rfl, fun h => (nomatch h), fun h => absurd h (hw _), fun _ h => absurd h (hw _)⟩
    · next v h' hp =>
      obtain ⟨hv', hx, he, hw, hs⟩ := hv.pop_some hp
      split
      · next hc =>
        obtain ⟨h1, h2⟩ := Bool.and_eq_true_iff.1 hc
        refine ⟨hv', he _, ?_, ?_, fun h => by cases h⟩
        · intro u hu
          obtain rfl := Option.some.inj hu
          exact ⟨hx, he _ ▸ h1, h2⟩
        · intro w hww _ _
          by_cases hwv : w = v
          · exact Or.inr (hwv ▸ rfl)
          · exact Or.inl ((hw w).2 ⟨hww, hwv⟩)
      · next hc =>
        have hf' := ih hv' (by omega)
        have hne {w : Var} (h1 : h.isEnabled w) (h2 : good w) : w ≠ v := by
          rintro rfl
          rw [← he w] at h1
          exact hc (Bool.and_eq_true_iff.2 ⟨h1, h2⟩)
        refine ⟨hf'.valid, hf'.isEnabled_eq.trans (he _), ?_, ?_, ?_⟩
        · intro u hu
          rw [← he u]
          exact hf'.found_good hu
        · intro w h1 h2 h3
          exact hf'.waits ((hw w).2 ⟨h1, hne h2 h3⟩) ((he w).trans h2) h3
        · intro w h0 h1 h2
          by_cases h3 : good w
          · exact hf'.waits_none h0 ((hw w).2 ⟨h1, hne h2 h3⟩) ((he w).trans h2)
          · exact Bool.eq_false_iff.2 h3

theorem find?_found (hv : h.Valid n) (good : Var → Bool) : Found n good h (h.find? good).1 (h.find? good).2 :=
  findFuel_found hv good (Nat.le_refl _)

end ClauseLearning.DecisionHeap
