import ClauseLearning.Proofs.DecisionHeap
import ClauseLearning.Proofs.Faults

/-!
# The decision heap within its bounds

The heap reads and writes arrays by variable and by position.

* `DecisionHeap.Knows` : the arrays by variable have an entry for a variable;
* `DecisionHeap.siftUpChecked`, `DecisionHeap.siftDownChecked` and so on : the operations with their bounds checked;
* `DecisionHeap.Sized` : the invariant, under which no check fails. Every variable in the heap has its entries.
-/

namespace ClauseLearning.DecisionHeap

/-! ## Activities stay in place -/

variable {h : DecisionHeap} {n pos q fuel : Nat} {u v w : Var}

theorem activities_siftUp (v : Var) (fuel pos : Nat) (h : DecisionHeap) :
    (siftUp v fuel pos h).activities = h.activities := by
  induction fuel generalizing pos h with
  | zero => rfl
  | succ fuel ih =>
    rw [siftUp]
    split
    · rfl
    · split
      · rfl
      · split
        · exact ih _ _
        · rfl

theorem activities_siftDown (v : Var) (fuel pos : Nat) (h : DecisionHeap) :
    (siftDown v fuel pos h).activities = h.activities := by
  induction fuel generalizing pos h with
  | zero => rfl
  | succ fuel ih =>
    rw [siftDown]
    split
    split
    · rfl
    · exact ih _ _

theorem activities_makeAvailable (h : DecisionHeap) (v : Var) : (h.makeAvailable v).activities = h.activities := by
  unfold makeAvailable
  split
  · exact activities_siftUp _ _ _ _
  · rfl

/-! ## Bounds -/

/-- There are entries for the variable. -/
def Knows (h : DecisionHeap) (v : Var) : Prop :=
  v.index < h.activities.size ∧ v.index < h.enabled.size ∧ v.index < h.positions.size

instance (h : DecisionHeap) (v : Var) : Decidable (h.Knows v) := inferInstanceAs (Decidable (_ ∧ _ ∧ _))

theorem Hole.knows (hh : Hole n v pos h) (ha : h.activities.size = n) (hx : w.index < n) : h.Knows w :=
  ⟨ha.symm ▸ hx, hh.enabled_size.symm ▸ hx, hh.positions_size.symm ▸ hx⟩

theorem Hole.knows_of_at? (hh : Hole n v pos h) (ha : h.activities.size = n) (hq : q ≠ pos)
    (hu : h.at? q = some u) : h.Knows u := by
  have hne : u ≠ v := fun he => hh.absent hq (he ▸ hu)
  have hp := index_lt_of_position? ((hh.position_iff hne).2 ⟨hq, hu⟩)
  exact hh.knows ha (hh.positions_size ▸ hp)

/-- The invariant of a heap over `n` variables, with the size of all its arrays. -/
structure Sized (n : Nat) (h : DecisionHeap) : Prop extends Valid n h where
  activities_size : h.activities.size = n

namespace Sized

theorem same {g : DecisionHeap} (hs : h.Sized n) (hg : Same n h g) (ha : g.activities.size = h.activities.size) :
    g.Sized n := ⟨hg.valid, ha.trans hs.activities_size⟩

variable (hs : h.Sized n)
include hs

theorem knows (hx : v.index < n) : h.Knows v :=
  ⟨hs.activities_size.symm ▸ hx, hs.enabled_size.symm ▸ hx, hs.positions_size.symm ▸ hx⟩

theorem addVar : h.addVar.Sized (n + 1) :=
  ⟨hs.toValid.addVar, by rw [DecisionHeap.addVar, Array.size_push, hs.activities_size]⟩

theorem withDecay (decay : Float32) : (h.withDecay decay).Sized n := hs.same (hs.toValid.withDecay decay) rfl

theorem decay : h.decay.Sized n := by
  refine hs.same hs.toValid.decay ?_
  dsimp only [DecisionHeap.decay]
  split
  · exact Array.size_map
  · rfl

theorem raised (v : Var) : (if rescaleLimit ≤ h.activity v + h.scale.bump then
    { h with activities := h.activities.setIfInBounds v.index (h.activity v + h.scale.bump) }.rescale
    else { h with activities := h.activities.setIfInBounds v.index (h.activity v + h.scale.bump) }).Sized n := by
  split
  · exact hs.same (hs.toValid.congr rfl rfl rfl) (by simp [rescale])
  · exact hs.same (hs.toValid.congr rfl rfl rfl) Array.size_setIfInBounds

theorem bump (v : Var) : (h.bump v).Sized n := by
  refine hs.same (hs.toValid.bump v) ?_
  have hr := (hs.raised v).activities_size.trans hs.activities_size.symm
  unfold DecisionHeap.bump
  dsimp only
  split
  · rw [activities_siftUp, hr]
  · exact hr

theorem makeAvailable (v : Var) : (h.makeAvailable v).Sized n :=
  ⟨(hs.toValid.makeAvailable v).1, by rw [activities_makeAvailable, hs.activities_size]⟩

theorem enabled (v : Var) (b : Bool) :
    ({ h with enabled := h.enabled.setIfInBounds v.index b } : DecisionHeap).Sized n :=
  ⟨⟨Array.size_setIfInBounds.trans hs.enabled_size, hs.positions_size, hs.position_iff⟩, hs.activities_size⟩

theorem setEnabled (v : Var) (b : Bool) : (h.setEnabled v b).Sized n := by
  cases b with
  | false => exact hs.enabled v false
  | true => exact (hs.enabled v true).makeAvailable v

end Sized

/-! ## Operations that check their bounds -/

variable [Build]

def placeChecked (h : DecisionHeap) (v : Var) (pos : Nat) : Fallible DecisionHeap := do
  require (h.Knows v ∧ pos < h.heap.size) .outOfRange
  return h.place v pos

def siftUpChecked (v : Var) : Nat → Nat → DecisionHeap → Fallible DecisionHeap
  | 0, pos, h => h.placeChecked v pos
  | fuel + 1, pos, h =>
    if pos = 0 then h.placeChecked v pos
    else
      match h.at? ((pos - 1) / 2) with
      | none => .error .outOfRange
      | some parent => do
        require (h.Knows v ∧ h.Knows parent) .outOfRange
        if h.before v parent then
          let h ← h.placeChecked parent pos
          siftUpChecked v fuel ((pos - 1) / 2) h
        else h.placeChecked v pos

def betterChecked (h : DecisionHeap) (best : Nat × Var) (pos : Nat) : Fallible (Nat × Var) :=
  match h.at? pos with
  | none => return best
  | some v => do
    require (h.Knows v ∧ h.Knows best.2) .outOfRange
    return if h.before v best.2 then (pos, v) else best

def siftDownChecked (v : Var) : Nat → Nat → DecisionHeap → Fallible DecisionHeap
  | 0, pos, h => h.placeChecked v pos
  | fuel + 1, pos, h => do
    let left ← h.betterChecked (pos, v) (2 * pos + 1)
    let (childPos, child) ← h.betterChecked left (2 * pos + 2)
    if childPos = pos then h.placeChecked v pos
    else
      let h ← h.placeChecked child pos
      siftDownChecked v fuel childPos h

def bumpChecked (h : DecisionHeap) (v : Var) : Fallible DecisionHeap := do
  require (h.Knows v) .outOfRange
  let activity := h.activity v + h.scale.bump
  let h := { h with activities := h.activities.setIfInBounds v.index activity }
  let h := if rescaleLimit ≤ activity then h.rescale else h
  match h.position? v with
  | some pos => siftUpChecked v pos pos h
  | none => return h

def makeAvailableChecked (h : DecisionHeap) (v : Var) : Fallible DecisionHeap := do
  require (h.Knows v) .outOfRange
  if h.isEnabled v && (h.position? v).isNone then
    siftUpChecked v h.heap.size h.heap.size { h with heap := h.heap.push v }
  else return h

def setEnabledChecked (h : DecisionHeap) (v : Var) (enabled : Bool) : Fallible DecisionHeap := do
  require (h.Knows v) .outOfRange
  let h := { h with enabled := h.enabled.setIfInBounds v.index enabled }
  if enabled then h.makeAvailableChecked v else return h

def popChecked (h : DecisionHeap) : Fallible (Option Var × DecisionHeap) :=
  match h.at? 0, h.heap.back? with
  | some root, some last => do
    require (h.Knows root) .outOfRange
    if h.heap.pop.isEmpty then return (some root, h.cut root)
    else
      let rest ← siftDownChecked last h.heap.pop.size 0 (h.cut root)
      return (some root, rest)
  | _, _ => return (none, h)

def findFuelChecked (good : Var → Fallible Bool) : Nat → DecisionHeap → Fallible (Option Var × DecisionHeap)
  | 0, h => return (none, h)
  | fuel + 1, h => do
    match ← h.popChecked with
    | (none, h) => return (none, h)
    | (some v, h) =>
      require (h.Knows v) .outOfRange
      if h.isEnabled v then
        let g ← good v
        if g then return (some v, h) else findFuelChecked good fuel h
      else findFuelChecked good fuel h

def find?Checked (h : DecisionHeap) (good : Var → Fallible Bool) : Fallible (Option Var × DecisionHeap) :=
  findFuelChecked good h.heap.size h

/-! ## The checks succeed -/

section Hole

variable (hh : Hole n v pos h) (ha : h.activities.size = n)
include hh

theorem Hole.placeChecked_eq (hw : h.Knows w) : h.placeChecked w pos = .ok (h.place w pos) :=
  require_bind ⟨hw, hh.pos_lt⟩ _

include ha

theorem siftUpChecked_eq (fuel : Nat) : siftUpChecked v fuel pos h = .ok (siftUp v fuel pos h) := by
  induction fuel generalizing pos h with
  | zero => exact hh.placeChecked_eq (hh.knows ha hh.index_lt)
  | succ fuel ih =>
    have hv := hh.knows ha hh.index_lt
    rw [siftUpChecked, siftUp]
    split
    · exact hh.placeChecked_eq hv
    · next hpos =>
      have hlt : (pos - 1) / 2 < h.heap.size := by have := hh.pos_lt; omega
      obtain ⟨parent, hp⟩ : ∃ parent, h.at? ((pos - 1) / 2) = some parent := ⟨_, Array.getElem?_eq_getElem hlt⟩
      have hq : (pos - 1) / 2 ≠ pos := by omega
      have hk := hh.knows_of_at? ha hq hp
      rw [hp]
      dsimp only
      rw [require_bind ⟨hv, hk⟩]
      split
      · rw [hh.placeChecked_eq hk, ok_bind]
        exact ih (hh.move hp hq) ha
      · exact hh.placeChecked_eq hv

theorem betterChecked_eq {best : Nat × Var} (hb : h.Knows best.2) (hq : q ≠ pos) :
    h.betterChecked best q = .ok (h.better best q) ∧ h.Knows (h.better best q).2 := by
  unfold betterChecked better
  cases hu : h.at? q with
  | none => exact ⟨rfl, hb⟩
  | some u =>
    have hk := hh.knows_of_at? ha hq hu
    dsimp only
    rw [require_bind ⟨hk, hb⟩]
    refine ⟨rfl, ?_⟩
    split
    · exact hk
    · exact hb

theorem siftDownChecked_eq (fuel : Nat) : siftDownChecked v fuel pos h = .ok (siftDown v fuel pos h) := by
  induction fuel generalizing pos h with
  | zero => exact hh.placeChecked_eq (hh.knows ha hh.index_lt)
  | succ fuel ih =>
    have hv := hh.knows ha hh.index_lt
    have hkv : h.Knows (pos, v).2 := hv
    obtain ⟨h1, hk1⟩ := betterChecked_eq hh ha hkv (q := 2 * pos + 1) (by omega)
    obtain ⟨h2, hk2⟩ := betterChecked_eq hh ha hk1 (q := 2 * pos + 2) (by omega)
    rw [siftDownChecked, h1, ok_bind, h2, ok_bind, siftDown]
    generalize hc : h.better (h.better (pos, v) (2 * pos + 1)) (2 * pos + 2) = child at hk2
    dsimp only
    split
    · exact hh.placeChecked_eq hv
    · next hne =>
      rw [hh.placeChecked_eq hk2, ok_bind]
      exact ih (hh.move (at?_child hc hne) hne) ha

end Hole

namespace Sized

variable (hs : h.Sized n)
include hs

theorem bumpChecked (hx : v.index < n) : h.bumpChecked v = .ok (h.bump v) ∧ (h.bump v).Sized n := by
  refine ⟨?_, hs.bump v⟩
  have hraised := hs.raised v
  unfold DecisionHeap.bumpChecked DecisionHeap.bump
  dsimp only
  rw [require_bind (hs.knows hx)]
  generalize (if rescaleLimit ≤ h.activity v + h.scale.bump then _ else _ : DecisionHeap) = g at hraised
  cases hp : g.position? v with
  | none => rfl
  | some pos => exact siftUpChecked_eq (hraised.hole hp) hraised.activities_size pos

theorem makeAvailableChecked (hx : v.index < n) :
    h.makeAvailableChecked v = .ok (h.makeAvailable v) ∧ (h.makeAvailable v).Sized n := by
  refine ⟨?_, hs.makeAvailable v⟩
  unfold DecisionHeap.makeAvailableChecked DecisionHeap.makeAvailable
  rw [require_bind (hs.knows hx)]
  split
  · next hc =>
    have hp : h.position? v = none := by simpa using (Bool.and_eq_true_iff.1 hc).2
    exact siftUpChecked_eq (hs.toValid.hole_push hx hp) hs.activities_size _
  · rfl

theorem foldlM_makeAvailableChecked (ls : List Lit) (hl : ∀ l ∈ ls, l.var.index < n) :
    ls.foldlM (fun h l => h.makeAvailableChecked l.var) h = .ok (ls.foldl (fun h l => h.makeAvailable l.var) h) ∧
      (ls.foldl (fun h l => h.makeAvailable l.var) h).Sized n :=
  foldlM_ok (P := Sized n) (fun _ l hm hs => hs.makeAvailableChecked (hl l hm)) hs

theorem setEnabledChecked (hx : v.index < n) (b : Bool) :
    h.setEnabledChecked v b = .ok (h.setEnabled v b) ∧ (h.setEnabled v b).Sized n := by
  refine ⟨?_, hs.setEnabled v b⟩
  unfold DecisionHeap.setEnabledChecked DecisionHeap.setEnabled
  rw [require_bind (hs.knows hx)]
  cases b with
  | false => rfl
  | true => exact ((hs.enabled v true).makeAvailableChecked hx).1

theorem popChecked : h.popChecked = .ok h.pop ∧ h.pop.2.Sized n := by
  unfold DecisionHeap.popChecked DecisionHeap.pop
  cases h0 : h.at? 0 with
  | none => exact ⟨rfl, hs⟩
  | some root =>
    cases hl : h.heap.back? with
    | none => exact ⟨rfl, hs⟩
    | some last =>
      have hx := hs.index_lt (hs.position_iff.2 h0)
      dsimp only
      rw [require_bind (hs.knows hx)]
      by_cases he : h.heap.pop.isEmpty
      · have hsize : h.heap.size = 1 := by
          have := lt_of_at? h0
          rw [Array.isEmpty_iff_size_eq_zero, Array.size_pop] at he
          omega
        rw [if_pos he, if_pos he]
        exact ⟨rfl, hs.cut_valid h0 hsize, hs.activities_size⟩
      · have hsize : h.heap.size ≠ 1 := by
          rw [Array.isEmpty_iff_size_eq_zero, Array.size_pop] at he
          omega
        have hl' : h.at? (h.heap.size - 1) = some last := by rw [at?, ← Array.back?_eq_getElem?, hl]
        have hh := hs.cut_hole h0 hsize hl'
        rw [if_neg he, if_neg he, siftDownChecked_eq hh hs.activities_size, ok_bind]
        exact ⟨rfl, (siftDown_filled _ hh).valid, (activities_siftDown _ _ _ _).symm ▸ hs.activities_size⟩

theorem findFuelChecked {good : Var → Bool} {goodChecked : Var → Fallible Bool}
    (hg : ∀ v : Var, v.index < n → goodChecked v = .ok (good v)) (fuel : Nat) :
    DecisionHeap.findFuelChecked goodChecked fuel h = .ok (findFuel good fuel h) ∧
      (findFuel good fuel h).2.Sized n := by
  induction fuel generalizing h with
  | zero => exact ⟨rfl, hs⟩
  | succ fuel ih =>
    obtain ⟨hpop, hs'⟩ := hs.popChecked
    rw [DecisionHeap.findFuelChecked, hpop, ok_bind, findFuel]
    cases hp : h.pop with
    | mk found h' =>
      rw [hp] at hs'
      cases found with
      | none => exact ⟨rfl, hs'⟩
      | some v =>
        have hx := (hs.toValid.pop_some hp).2.1
        dsimp only
        rw [require_bind (hs'.knows hx), hg v hx]
        cases h'.isEnabled v with
        | false => exact ih hs'
        | true =>
          rw [if_pos rfl, ok_bind, Bool.true_and]
          split
          · exact ⟨rfl, hs'⟩
          · exact ih hs'

theorem find?Checked {good : Var → Bool} {goodChecked : Var → Fallible Bool}
    (hg : ∀ v : Var, v.index < n → goodChecked v = .ok (good v)) :
    h.find?Checked goodChecked = .ok (h.find? good) ∧ (h.find? good).2.Sized n := hs.findFuelChecked hg _

end Sized

end ClauseLearning.DecisionHeap
