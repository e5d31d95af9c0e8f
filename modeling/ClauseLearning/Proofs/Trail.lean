import ClauseLearning.Trail
import ClauseLearning.Proofs.Arrays
import ClauseLearning.Proofs.Assignment
import Mathlib.Data.List.Nodup

/-!
# The trail and its levels

* `Trail.isTrue_iff`, `Trail.isFalse_iff_neg` : values of literals;
* `Trail.At` : the literal at a position of the trail;
* `Trail.Consistent` : values, positions and levels fit together;
* `Trail.Consistent.assign`, `Trail.Consistent.decide`, `Trail.Consistent.backtrack`, `Trail.Consistent.settle` : they
  do so after every change;
* `Trail.upTo` : the part of the trail up to a level. Backtracking leaves it (`Trail.Consistent.lits_backtrack`), and
  saves the other values as phases (`Trail.Consistent.phase_backtrack`);
* `Trail.Consistent.isTrue_backtrack` : backtracking to a level keeps exactly what is true on that level or below.
-/

namespace ClauseLearning.Trail

variable {t : Trail} {n i j m : Nat} {l k : Lit} {v : Var} {r : Reason}

/-! ## Values -/

theorem isTrue_iff : t.isTrue l ↔ t.value l.var = some l.isPositive := by
  unfold isTrue
  cases t.value l.var <;> simp

theorem isFalse_iff : t.isFalse l ↔ t.value l.var = some l.isNegative := by
  unfold isFalse
  cases t.value l.var <;> simp

theorem isFalse_iff_neg : t.isFalse l ↔ t.isTrue (-l) := by
  rw [isFalse_iff, isTrue_iff, Lit.var_neg, Lit.isPositive_neg, Lit.isNegative_eq]

theorem isAssigned_iff : t.isAssigned l.var ↔ t.isTrue l ∨ t.isFalse l := by
  rw [isTrue_iff, isFalse_iff, isAssigned, Lit.isNegative_eq]
  cases t.value l.var with
  | none => simp
  | some b => cases b <;> cases l.isPositive <;> simp

theorem isAssigned_of_isTrue (h : t.isTrue l) : t.isAssigned l.var := isAssigned_iff.2 (Or.inl h)

theorem isAssigned_of_isFalse (h : t.isFalse l) : t.isAssigned l.var := isAssigned_iff.2 (Or.inr h)

theorem exists_isTrue_of_isAssigned (h : t.isAssigned v) : ∃ l : Lit, l.var = v ∧ t.isTrue l := by
  rw [isAssigned, Option.isSome_iff_exists] at h
  obtain ⟨b, hb⟩ := h
  refine ⟨v.lit b, Lit.var_lit v b, isTrue_iff.2 ?_⟩
  rw [Lit.var_lit, Lit.isPositive_lit, hb]

theorem not_isFalse_of_isTrue (h : t.isTrue l) : ¬ t.isFalse l := by
  rw [isTrue_iff] at h
  rw [isFalse_iff, h, Lit.isNegative_eq]
  cases l.isPositive <;> simp

theorem eq_of_isTrue (hl : t.isTrue l) (hk : t.isTrue k) (h : l.var = k.var) : l = k := by
  rcases Lit.eq_of_var_eq h with rfl | rfl
  · rfl
  · exact absurd (isFalse_iff_neg.2 hl) (not_isFalse_of_isTrue hk)

theorem index_lt_of_isAssigned (h : t.isAssigned v) : v.index < t.values.size := by
  apply Nat.lt_of_not_le
  intro hle
  rw [isAssigned, value, getD_of_size_le hle] at h
  cases h

/-! ## Changes of values, reasons and levels -/

@[simp] theorem value_addVar : t.addVar.value v = t.value v := getD_push_default

@[simp] theorem reason_addVar : t.addVar.reason v = t.reason v := getD_push_default

@[simp] theorem level_addVar : t.addVar.level v = t.level v := getD_push_default

@[simp] theorem isTrue_addVar : t.addVar.isTrue l = t.isTrue l := by
  unfold isTrue
  rw [value_addVar]

theorem value_assign (h : l.var.index < t.values.size) :
    (t.assign l r).value v = if v = l.var then some l.isPositive else t.value v := by
  rw [value, assign, getD_setIfInBounds h, ← value]
  simp only [Var.index_inj]

theorem reason_assign (h : l.var.index < t.reasons.size) :
    (t.assign l r).reason v = if v = l.var then r else t.reason v := by
  rw [reason, assign, getD_setIfInBounds h, ← reason]
  simp only [Var.index_inj]

theorem level_assign (h : l.var.index < t.levels.size) :
    (t.assign l r).level v = if v = l.var then t.currentLevel else t.level v := by
  rw [level, assign, getD_setIfInBounds h, ← level]
  simp only [Var.index_inj, currentLevel]

/-! ## Positions -/

/-- The literal at a position of the trail. -/
def At (t : Trail) (i : Nat) (l : Lit) : Prop := t.lits[i]? = some l

theorem At.lt (h : t.At i l) : i < t.lits.size := by
  obtain ⟨hi, -⟩ := Array.getElem?_eq_some_iff.1 h
  exact hi

theorem At.eq (h : t.At i l) (h' : t.At i k) : l = k := Option.some.inj (h.symm.trans h')

theorem exists_at (h : i < t.lits.size) : ∃ l, t.At i l := ⟨t.lits[i], Array.getElem?_eq_getElem h⟩

theorem at_assign : (t.assign l r).At i k ↔ t.At i k ∨ i = t.lits.size ∧ k = l := by
  unfold At assign
  rw [Array.getElem?_push]
  split
  · next h =>
    rw [h, Array.getElem?_eq_none (Nat.le_refl _)]
    grind
  · grind

/-! ## Consistent trails -/

/-- Values, positions and levels fit together, over `n` variables. The literals on the trail are true and belong to
different variables; whatever else is true is a fact. Level `m + 1` begins at `starts[m]`, with its decision. -/
structure Consistent (n : Nat) (t : Trail) : Prop where
  values_size : t.values.size = n
  phases_size : t.phases.size = n
  reasons_size : t.reasons.size = n
  levels_size : t.levels.size = n
  isTrue {i : Nat} {l : Lit} : t.At i l → t.isTrue l
  at_inj {i j : Nat} {l k : Lit} : t.At i l → t.At j k → l.var = k.var → i = j
  placed {l : Lit} : t.isTrue l → (∃ i, t.At i l) ∨ t.level l.var = 0 ∧ t.reason l.var = .unit
  level_le {i : Nat} {l : Lit} : t.At i l → t.level l.var ≤ t.currentLevel
  level_iff {m s i : Nat} {l : Lit} : t.starts[m]? = some s → t.At i l → (m < t.level l.var ↔ s ≤ i)
  starts_lt {m s : Nat} : t.starts[m]? = some s → s < t.lits.size
  starts_mono {m m' s s' : Nat} : t.starts[m]? = some s → t.starts[m']? = some s' → m < m' → s < s'
  starts_le_head {m s : Nat} : t.starts[m]? = some s → s ≤ t.head
  head_le : t.head ≤ t.lits.size

namespace Consistent

theorem index_lt (h : t.Consistent n) (hv : t.isAssigned v) : v.index < n := h.values_size ▸ index_lt_of_isAssigned hv

theorem at_of_level_pos (h : t.Consistent n) (hl : t.isTrue l) (hp : 0 < t.level l.var) : ∃ i, t.At i l := by
  rcases h.placed hl with hi | ⟨h0, -⟩
  · exact hi
  · omega

theorem level_le_of_isTrue (h : t.Consistent n) (hl : t.isTrue l) : t.level l.var ≤ t.currentLevel := by
  rcases h.placed hl with ⟨i, hi⟩ | ⟨h0, -⟩
  · exact h.level_le hi
  · omega

theorem eq_of_at (h : t.Consistent n) (hi : t.At i l) (hj : t.At j k) (hv : l.var = k.var) : l = k :=
  eq_of_isTrue (h.isTrue hi) (h.isTrue hj) hv

theorem level_mono (h : t.Consistent n) (hi : t.At i l) (hj : t.At j k) (hij : i ≤ j) :
    t.level l.var ≤ t.level k.var := by
  cases hm : t.level l.var with
  | zero => exact Nat.zero_le _
  | succ m =>
    have hle := h.level_le hi
    have hm' : m < t.starts.size := by
      show m < t.currentLevel
      omega
    have hs := Array.getElem?_eq_getElem hm'
    have h1 := (h.level_iff hs hi).1 (by omega)
    exact (h.level_iff hs hj).2 (by omega)

theorem level_eq_of_head_le (h : t.Consistent n) (hi : t.At i l) (hle : t.head ≤ i) :
    t.level l.var = t.currentLevel := by
  have h1 := h.level_le hi
  cases hc : t.currentLevel with
  | zero => omega
  | succ m =>
    have hm : m < t.starts.size := by
      show m < t.currentLevel
      omega
    have hs := Array.getElem?_eq_getElem hm
    have := h.starts_le_head hs
    have := (h.level_iff hs hi).2 (by omega)
    omega

end Consistent

theorem consistent_empty : ({} : Trail).Consistent 0 where
  values_size := rfl
  phases_size := rfl
  reasons_size := rfl
  levels_size := rfl
  isTrue h := absurd h.lt (Nat.not_lt_zero _)
  at_inj h := absurd h.lt (Nat.not_lt_zero _)
  placed h := absurd (index_lt_of_isAssigned (isAssigned_of_isTrue h)) (Nat.not_lt_zero _)
  level_le h := absurd h.lt (Nat.not_lt_zero _)
  level_iff h := by cases h
  starts_lt h := by cases h
  starts_mono h := by cases h
  starts_le_head h := by cases h
  head_le := Nat.le_refl _

/-! ## Allocation, assignments and decisions -/

namespace Consistent

theorem addVar (h : t.Consistent n) : t.addVar.Consistent (n + 1) where
  values_size := by rw [Trail.addVar, Array.size_push, h.values_size]
  phases_size := by rw [Trail.addVar, Array.size_push, h.phases_size]
  reasons_size := by rw [Trail.addVar, Array.size_push, h.reasons_size]
  levels_size := by rw [Trail.addVar, Array.size_push, h.levels_size]
  isTrue hi := by
    rw [isTrue_addVar]
    exact h.isTrue hi
  at_inj := h.at_inj
  placed hl := by
    rw [isTrue_addVar] at hl
    rw [level_addVar, reason_addVar]
    exact h.placed hl
  level_le hi := by
    rw [level_addVar]
    exact h.level_le hi
  level_iff hs hi := by
    rw [level_addVar]
    exact h.level_iff hs hi
  starts_lt := h.starts_lt
  starts_mono := h.starts_mono
  starts_le_head := h.starts_le_head
  head_le := h.head_le

theorem isTrue_assign (h : t.Consistent n) (hx : l.var.index < n) (hu : ¬ t.isAssigned l.var) :
    (t.assign l r).isTrue k ↔ k = l ∨ t.isTrue k := by
  rw [isTrue_iff, value_assign (h.values_size.symm ▸ hx)]
  split
  · next hv =>
    constructor
    · intro hs
      exact Or.inl (Lit.ext_var hv (Option.some.inj hs).symm)
    · rintro (rfl | hk)
      · rfl
      · rw [← hv] at hu
        exact absurd (isAssigned_of_isTrue hk) hu
  · next hv =>
    rw [← isTrue_iff]
    constructor
    · exact Or.inr
    · rintro (rfl | hk)
      · exact absurd rfl hv
      · exact hk

theorem var_ne_of_at (h : t.Consistent n) (hu : ¬ t.isAssigned l.var) (hi : t.At i k) : k.var ≠ l.var := by
  intro hv
  rw [← hv] at hu
  exact hu (isAssigned_of_isTrue (h.isTrue hi))

theorem level_assign_at (h : t.Consistent n) (hx : l.var.index < n) (hu : ¬ t.isAssigned l.var) (hi : t.At i k) :
    (t.assign l r).level k.var = t.level k.var := by
  rw [level_assign (h.levels_size.symm ▸ hx), if_neg (h.var_ne_of_at hu hi)]

theorem at_inj_assign (h : t.Consistent n) (hu : ¬ t.isAssigned l.var) {l₁ l₂ : Lit}
    (hi : (t.assign l r).At i l₁) (hj : (t.assign l r).At j l₂) (hv : l₁.var = l₂.var) : i = j := by
  rcases at_assign.1 hi with hi' | ⟨rfl, rfl⟩ <;> rcases at_assign.1 hj with hj' | ⟨rfl, rfl⟩
  · exact h.at_inj hi' hj' hv
  · exact absurd hv (h.var_ne_of_at hu hi')
  · exact absurd hv.symm (h.var_ne_of_at hu hj')
  · rfl

theorem placed_assign (h : t.Consistent n) (hx : l.var.index < n) (hu : ¬ t.isAssigned l.var)
    (hk : (t.assign l r).isTrue k) :
    (∃ i, (t.assign l r).At i k) ∨ (t.assign l r).level k.var = 0 ∧ (t.assign l r).reason k.var = .unit := by
  rcases (h.isTrue_assign hx hu).1 hk with rfl | hk
  · exact Or.inl ⟨t.lits.size, at_assign.2 (Or.inr ⟨rfl, rfl⟩)⟩
  · rcases h.placed hk with ⟨i, hi⟩ | h0
    · exact Or.inl ⟨i, at_assign.2 (Or.inl hi)⟩
    · have hv : k.var ≠ l.var := by
        intro hv
        rw [← hv] at hu
        exact hu (isAssigned_of_isTrue hk)
      apply Or.inr
      rw [level_assign (h.levels_size.symm ▸ hx), reason_assign (h.reasons_size.symm ▸ hx), if_neg hv, if_neg hv]
      exact h0

/-- An unassigned literal can be made true. -/
theorem assign (h : t.Consistent n) (hx : l.var.index < n) (hu : ¬ t.isAssigned l.var) :
    (t.assign l r).Consistent n where
  values_size := by rw [Trail.assign, Array.size_setIfInBounds, h.values_size]
  phases_size := h.phases_size
  reasons_size := by rw [Trail.assign, Array.size_setIfInBounds, h.reasons_size]
  levels_size := by rw [Trail.assign, Array.size_setIfInBounds, h.levels_size]
  isTrue hi := by
    rw [h.isTrue_assign hx hu]
    rcases at_assign.1 hi with hi | ⟨-, rfl⟩
    · exact Or.inr (h.isTrue hi)
    · exact Or.inl rfl
  at_inj := h.at_inj_assign hu
  placed := h.placed_assign hx hu
  level_le hi := by
    rcases at_assign.1 hi with hi | ⟨-, rfl⟩
    · rw [h.level_assign_at hx hu hi]
      exact h.level_le hi
    · rw [level_assign (h.levels_size.symm ▸ hx), if_pos rfl]
      exact Nat.le_refl _
  level_iff {m s i k} hs hi := by
    rcases at_assign.1 hi with hi | ⟨rfl, rfl⟩
    · rw [h.level_assign_at hx hu hi]
      exact h.level_iff hs hi
    · rw [level_assign (h.levels_size.symm ▸ hx), if_pos rfl]
      have h1 : m < t.starts.size := (Array.getElem?_eq_some_iff.1 hs).1
      have h2 := h.starts_lt hs
      exact iff_of_true h1 (Nat.le_of_lt h2)
  starts_lt hs := by
    rw [Trail.assign, Array.size_push]
    exact Nat.lt_succ_of_lt (h.starts_lt hs)
  starts_mono := h.starts_mono
  starts_le_head := h.starts_le_head
  head_le := by
    rw [Trail.assign, Array.size_push]
    exact Nat.le_succ_of_le h.head_le

theorem starts_openLevel {s : Nat} (hs : t.openLevel.starts[m]? = some s) :
    t.starts[m]? = some s ∨ m = t.currentLevel ∧ s = t.lits.size := by
  rw [openLevel, Array.getElem?_push] at hs
  split at hs
  · next hm => exact Or.inr ⟨hm, (Option.some.inj hs).symm⟩
  · exact Or.inl hs

theorem level_decide (h : t.Consistent n) (hx : l.var.index < n) :
    (t.openLevel.assign l r).level v = if v = l.var then t.currentLevel + 1 else t.level v := by
  rw [level_assign (by rw [openLevel, h.levels_size]; exact hx), currentLevel, openLevel, Array.size_push]
  rfl

/-- After propagation, an unassigned literal can be made true on a new level. -/
theorem decide (h : t.Consistent n) (hd : t.head = t.lits.size) (hx : l.var.index < n) (hu : ¬ t.isAssigned l.var) :
    (t.openLevel.assign l r).Consistent n := by
  have hlev : (t.openLevel.assign l r).level l.var = t.currentLevel + 1 := (h.level_decide hx).trans (if_pos rfl)
  have hlev' {i : Nat} {k : Lit} (hi : t.At i k) : (t.openLevel.assign l r).level k.var = t.level k.var :=
    (h.level_decide hx).trans (if_neg (h.var_ne_of_at hu hi))
  have hcur : (t.openLevel.assign l r).currentLevel = t.currentLevel + 1 := by
    show (t.starts.push t.lits.size).size = t.starts.size + 1
    rw [Array.size_push]
  have ha := h.assign (r := r) hx hu
  refine ⟨ha.values_size, ha.phases_size, ha.reasons_size, ?_, ha.isTrue, ha.at_inj, ?_, ?_, ?_, ?_, ?_, ?_, ha.head_le⟩
  · rw [Trail.assign, Array.size_setIfInBounds, openLevel, h.levels_size]
  · intro k hk
    rcases (h.isTrue_assign (r := r) hx hu).1 hk with rfl | hk'
    · exact Or.inl ⟨t.lits.size, at_assign.2 (Or.inr ⟨rfl, rfl⟩)⟩
    · rcases ha.placed hk with hi | h0
      · exact Or.inl hi
      · have hv : k.var ≠ l.var := by
          intro hv
          rw [← hv] at hu
          exact hu (isAssigned_of_isTrue hk')
        refine Or.inr ⟨?_, h0.2⟩
        rw [h.level_decide hx, if_neg hv]
        rw [level_assign (h.levels_size.symm ▸ hx), if_neg hv] at h0
        exact h0.1
  · intro i k hi
    rw [hcur]
    rcases at_assign.1 hi with hi | ⟨-, rfl⟩
    · rw [hlev' hi]
      exact Nat.le_succ_of_le (h.level_le hi)
    · exact Nat.le_of_eq hlev
  · intro m s i k hs hi
    rcases starts_openLevel hs with hs' | ⟨rfl, rfl⟩ <;> rcases at_assign.1 hi with hi' | ⟨rfl, rfl⟩
    · rw [hlev' hi']
      exact h.level_iff hs' hi'
    · rw [hlev]
      have h1 : m < t.starts.size := (Array.getElem?_eq_some_iff.1 hs').1
      have h2 := h.starts_lt hs'
      exact iff_of_true (Nat.lt_succ_of_lt h1) (Nat.le_of_lt h2)
    · rw [hlev' hi']
      have h1 := h.level_le hi'
      have h2 : i < t.lits.size := hi'.lt
      exact iff_of_false (by omega) (by omega)
    · rw [hlev]
      exact iff_of_true (Nat.lt_succ_self _) (Nat.le_refl _)
  · intro m s hs
    show s < (t.lits.push l).size
    rw [Array.size_push]
    rcases starts_openLevel hs with hs | ⟨-, rfl⟩
    · exact Nat.lt_succ_of_lt (h.starts_lt hs)
    · exact Nat.lt_succ_self _
  · intro m m' s s' hs hs' hm
    rcases starts_openLevel hs with h₁ | ⟨rfl, rfl⟩ <;> rcases starts_openLevel hs' with h₂ | ⟨rfl, rfl⟩
    · exact h.starts_mono h₁ h₂ hm
    · exact h.starts_lt h₁
    · have h1 : m' < t.starts.size := (Array.getElem?_eq_some_iff.1 h₂).1
      exact absurd hm (Nat.lt_asymm h1)
    · exact absurd hm (Nat.lt_irrefl _)
  · intro m s hs
    show s ≤ t.head
    rcases starts_openLevel hs with hs | ⟨-, rfl⟩
    · exact h.starts_le_head hs
    · exact Nat.le_of_eq hd.symm

end Consistent

/-- One more literal at the end of the trail. -/
structure Grows (l : Lit) (t u : Trail) : Prop where
  unassigned : ¬ t.isAssigned l.var
  at_iff {i : Nat} {k : Lit} : u.At i k ↔ t.At i k ∨ i = t.lits.size ∧ k = l
  isTrue_iff {k : Lit} : u.isTrue k ↔ k = l ∨ t.isTrue k
  level_eq {v : Var} : v ≠ l.var → u.level v = t.level v
  reason_eq {v : Var} : v ≠ l.var → u.reason v = t.reason v
  start {m s : Nat} : t.starts[m]? = some s → u.starts[m]? = some s
  head_eq : u.head = t.head

namespace Grows

variable {u : Trail} (g : Grows l t u)
include g

theorem ne_of_isAssigned (h : t.isAssigned v) : v ≠ l.var := by
  rintro rfl
  exact g.unassigned h

theorem isTrue_of (h : t.isTrue k) : u.isTrue k := g.isTrue_iff.2 (Or.inr h)

theorem isAssigned_of (h : t.isAssigned v) : u.isAssigned v := by
  obtain ⟨k, rfl, hk⟩ := exists_isTrue_of_isAssigned h
  exact isAssigned_of_isTrue (g.isTrue_of hk)

theorem isAssigned_cases (h : u.isAssigned v) : v = l.var ∨ t.isAssigned v := by
  obtain ⟨k, rfl, hk⟩ := exists_isTrue_of_isAssigned h
  rcases g.isTrue_iff.1 hk with rfl | hk
  · exact Or.inl rfl
  · exact Or.inr (isAssigned_of_isTrue hk)

theorem level_eq_of_isAssigned (h : t.isAssigned v) : u.level v = t.level v := g.level_eq (g.ne_of_isAssigned h)

theorem level_eq_of_isTrue (h : t.isTrue k) : u.level k.var = t.level k.var :=
  g.level_eq_of_isAssigned (isAssigned_of_isTrue h)

theorem reason_eq_of_isAssigned (h : t.isAssigned v) : u.reason v = t.reason v := g.reason_eq (g.ne_of_isAssigned h)

end Grows

theorem Consistent.grows_assign (h : t.Consistent n) (hx : l.var.index < n) (hu : ¬ t.isAssigned l.var) :
    Grows l t (t.assign l r) where
  unassigned := hu
  at_iff := at_assign
  isTrue_iff := h.isTrue_assign hx hu
  level_eq hv := by rw [level_assign (h.levels_size.symm ▸ hx), if_neg hv]
  reason_eq hv := by rw [reason_assign (h.reasons_size.symm ▸ hx), if_neg hv]
  start := id
  head_eq := rfl

theorem Consistent.grows_decide (h : t.Consistent n) (hx : l.var.index < n) (hu : ¬ t.isAssigned l.var) :
    Grows l t (t.openLevel.assign l r) where
  unassigned := hu
  at_iff := at_assign (t := t.openLevel)
  isTrue_iff := h.isTrue_assign hx hu (r := r)
  level_eq hv := (h.level_decide hx).trans (if_neg hv)
  reason_eq hv := by
    rw [reason_assign (by rw [openLevel, h.reasons_size]; exact hx), if_neg hv]
    rfl
  start {m s} hs := by
    show (t.starts.push t.lits.size)[m]? = some s
    rw [Array.getElem?_push, if_neg (Nat.ne_of_lt (Array.getElem?_eq_some_iff.1 hs).1)]
    exact hs
  head_eq := rfl

/-! ## Backtracking -/

theorem value_unassign {w : Var} : (t.unassign v).value w = if w = v then none else t.value w := by
  unfold unassign
  split
  · next h =>
    split
    · next hw => rw [hw, h]
    · rfl
  · next b h =>
    have hv : v.index < t.values.size := index_lt_of_isAssigned (by rw [isAssigned, h]; rfl)
    rw [value, getD_setIfInBounds hv, ← value]
    simp only [Var.index_inj]

theorem foldl_unassign_frame (ls : List Lit) :
    ∃ values phases, values.size = t.values.size ∧ phases.size = t.phases.size ∧
      ls.foldl (fun t l => t.unassign l.var) t = { t with values := values, phases := phases } := by
  induction ls generalizing t with
  | nil => exact ⟨_, _, rfl, rfl, rfl⟩
  | cons l ls ih =>
    have hu : ∃ values phases, values.size = t.values.size ∧ phases.size = t.phases.size ∧
        t.unassign l.var = { t with values := values, phases := phases } := by
      unfold unassign
      split
      · exact ⟨_, _, rfl, rfl, rfl⟩
      · exact ⟨_, _, Array.size_setIfInBounds .., Array.size_setIfInBounds .., rfl⟩
    obtain ⟨values, phases, hv, hp, hu⟩ := hu
    obtain ⟨values', phases', hv', hp', hu'⟩ := ih (t := t.unassign l.var)
    refine ⟨values', phases', ?_, ?_, ?_⟩
    · rw [hv', hu]
      exact hv
    · rw [hp', hu]
      exact hp
    · rw [List.foldl_cons, hu', hu]

theorem value_foldl_unassign (ls : List Lit) :
    (ls.foldl (fun t l => t.unassign l.var) t).value v = if v ∈ ls.map Lit.var then none else t.value v := by
  induction ls generalizing t with
  | nil => rfl
  | cons l ls ih =>
    rw [List.foldl_cons, ih, value_unassign]
    by_cases h1 : v = l.var <;> by_cases h2 : v ∈ ls.map Lit.var <;> simp [h1, h2]

theorem phase_unassign {w : Var} (hv : v.index < t.phases.size) :
    (t.unassign v).phase w = if w = v then (t.value v).getD (t.phase v) else t.phase w := by
  unfold unassign
  split
  · next h =>
    split
    · next hw => rw [hw, h, Option.getD_none]
    · rfl
  · next b h =>
    rw [phase, getD_setIfInBounds hv, ← phase, h, Option.getD_some]
    simp only [Var.index_inj]

theorem phase_foldl_unassign (ls : List Lit) (h : ∀ l ∈ ls, l.var.index < t.phases.size) :
    (ls.foldl (fun t l => t.unassign l.var) t).phase v =
      if v ∈ ls.map Lit.var then (t.value v).getD (t.phase v) else t.phase v := by
  induction ls generalizing t with
  | nil => rfl
  | cons l ls ih =>
    have hl := h l List.mem_cons_self
    have hsize : (t.unassign l.var).phases.size = t.phases.size := by
      unfold unassign
      split
      · rfl
      · exact Array.size_setIfInBounds ..
    rw [List.foldl_cons, ih fun k hk => hsize ▸ h k (List.mem_cons_of_mem l hk), phase_unassign hl, value_unassign]
    by_cases h1 : v = l.var <;> by_cases h2 : v ∈ ls.map Lit.var <;> simp [h1, h2]

/-- The literals before the first one of a level above `m`. -/
def upTo (t : Trail) (m : Nat) : List Lit := t.lits.toList.takeWhile fun l => t.level l.var ≤ m

theorem backtrack_of_le (h : t.currentLevel ≤ m) : t.backtrack m = (t, []) := if_pos h

theorem backtrack_of_start {s : Nat} (h : t.starts[m]? = some s) :
    t.backtrack m =
      ((t.lits.toList.drop s).foldl (fun t l => t.unassign l.var)
        { t with lits := t.lits.take s, head := s, starts := t.starts.take m }, t.lits.toList.drop s) := by
  have hm : ¬ t.currentLevel ≤ m := by
    have := (Array.getElem?_eq_some_iff.1 h).1
    rw [currentLevel]
    omega
  have hs : t.starts.getD m 0 = s := by
    rw [Array.getD_eq_getD_getElem?, h]
    rfl
  rw [backtrack, if_neg hm, hs]

theorem backtrack_frame {s : Nat} (h : t.starts[m]? = some s) :
    ∃ values phases, values.size = t.values.size ∧ phases.size = t.phases.size ∧
      (t.backtrack m).1 =
        { t with
          values := values
          phases := phases
          lits := t.lits.take s
          head := s
          starts := t.starts.take m } := by
  rw [backtrack_of_start h]
  exact foldl_unassign_frame (t := { t with lits := t.lits.take s, head := s, starts := t.starts.take m }) _

theorem exists_start (h : m < t.currentLevel) : ∃ s, t.starts[m]? = some s := ⟨t.starts[m], Array.getElem?_eq_getElem h⟩

theorem reasons_levels_backtrack :
    (t.backtrack m).1.reasons = t.reasons ∧ (t.backtrack m).1.levels = t.levels := by
  by_cases hm : t.currentLevel ≤ m
  · rw [backtrack_of_le hm]
    exact ⟨rfl, rfl⟩
  · obtain ⟨s, hs⟩ := exists_start (Nat.lt_of_not_le hm)
    obtain ⟨values, phases, -, -, he⟩ := backtrack_frame hs
    rw [he]
    exact ⟨rfl, rfl⟩

@[simp] theorem reason_backtrack : (t.backtrack m).1.reason v = t.reason v := by
  rw [reason, reasons_levels_backtrack.1, reason]

@[simp] theorem level_backtrack : (t.backtrack m).1.level v = t.level v := by
  rw [level, reasons_levels_backtrack.2, level]

@[simp] theorem currentLevel_backtrack : (t.backtrack m).1.currentLevel = min m t.currentLevel := by
  by_cases hm : t.currentLevel ≤ m
  · rw [backtrack_of_le hm, Nat.min_eq_right hm]
  · obtain ⟨s, hs⟩ := exists_start (Nat.lt_of_not_le hm)
    obtain ⟨values, phases, -, -, he⟩ := backtrack_frame hs
    rw [he]
    show (t.starts.take m).size = min m t.starts.size
    rw [Array.take_eq_extract, Array.size_extract, Nat.sub_zero]

theorem value_backtrack {s : Nat} (h : t.starts[m]? = some s) :
    (t.backtrack m).1.value v = if v ∈ (t.lits.toList.drop s).map Lit.var then none else t.value v := by
  rw [backtrack_of_start h]
  exact value_foldl_unassign (t := { t with lits := t.lits.take s, head := s, starts := t.starts.take m }) _

theorem mem_drop_lits {s : Nat} : l ∈ t.lits.toList.drop s ↔ ∃ i, s ≤ i ∧ t.At i l := by
  rw [List.mem_iff_getElem?]
  constructor
  · rintro ⟨i, hi⟩
    rw [List.getElem?_drop, Array.getElem?_toList] at hi
    exact ⟨s + i, Nat.le_add_right s i, hi⟩
  · rintro ⟨i, hs, hi⟩
    refine ⟨i - s, ?_⟩
    rw [List.getElem?_drop, Array.getElem?_toList, Nat.add_sub_cancel' hs]
    exact hi

namespace Consistent

theorem lt_start_iff (h : t.Consistent n) {s : Nat} (hs : t.starts[m]? = some s) (hi : t.At i l) :
    i < s ↔ t.level l.var ≤ m := by
  have := h.level_iff hs hi
  omega

theorem at_backtrack (h : t.Consistent n) : (t.backtrack m).1.At i l ↔ t.At i l ∧ t.level l.var ≤ m := by
  by_cases hm : t.currentLevel ≤ m
  · rw [backtrack_of_le hm]
    exact ⟨fun hi => ⟨hi, Nat.le_trans (h.level_le hi) hm⟩, And.left⟩
  · obtain ⟨s, hs⟩ := exists_start (Nat.lt_of_not_le hm)
    obtain ⟨values, phases, -, -, he⟩ := backtrack_frame hs
    rw [At, he]
    show (t.lits.take s)[i]? = some l ↔ _
    rw [getElem?_take]
    constructor
    · intro hi
      split at hi
      · next hlt => exact ⟨hi, (h.lt_start_iff hs hi).1 hlt⟩
      · cases hi
    · rintro ⟨hi, hl⟩
      rw [if_pos ((h.lt_start_iff hs hi).2 hl)]
      exact hi

theorem var_mem_drop_iff (h : t.Consistent n) {s : Nat} (hs : t.starts[m]? = some s) (hl : t.isTrue l) :
    l.var ∈ (t.lits.toList.drop s).map Lit.var ↔ m < t.level l.var := by
  constructor
  · intro hmem
    obtain ⟨k, hk, hv⟩ := List.mem_map.1 hmem
    obtain ⟨i, hsi, hi⟩ := mem_drop_lits.1 hk
    rw [← hv]
    exact (h.level_iff hs hi).2 hsi
  · intro hlt
    obtain ⟨i, hi⟩ := h.at_of_level_pos hl (Nat.zero_lt_of_lt hlt)
    exact List.mem_map_of_mem (mem_drop_lits.2 ⟨i, (h.level_iff hs hi).1 hlt, hi⟩)

/-- Backtracking keeps exactly what is true on the level or below. -/
theorem isTrue_backtrack (h : t.Consistent n) : (t.backtrack m).1.isTrue l ↔ t.isTrue l ∧ t.level l.var ≤ m := by
  by_cases hm : t.currentLevel ≤ m
  · rw [backtrack_of_le hm]
    exact ⟨fun hl => ⟨hl, Nat.le_trans (h.level_le_of_isTrue hl) hm⟩, And.left⟩
  · obtain ⟨s, hs⟩ := exists_start (Nat.lt_of_not_le hm)
    rw [isTrue_iff, value_backtrack hs]
    constructor
    · intro hv
      split at hv
      · cases hv
      · next hmem =>
        have hl := isTrue_iff.2 hv
        exact ⟨hl, Nat.le_of_not_lt fun hlt => hmem ((h.var_mem_drop_iff hs hl).2 hlt)⟩
    · rintro ⟨hl, hle⟩
      rw [if_neg fun hmem => Nat.not_lt_of_le hle ((h.var_mem_drop_iff hs hl).1 hmem)]
      exact isTrue_iff.1 hl

theorem eq_takeWhile_of_getElem? {α : Type} {p : α → Bool} {xs ys : List α}
    (h : ∀ (i : Nat) (x : α), ys[i]? = some x ↔ xs[i]? = some x ∧ p x = true) : ys = xs.takeWhile p := by
  induction xs generalizing ys with
  | nil =>
    cases ys with
    | nil => rfl
    | cons y ys => exact nomatch ((h 0 y).1 rfl).1
  | cons x xs ih =>
    cases ys with
    | nil =>
      have hx : ¬ p x = true := fun hx => nomatch (h 0 x).2 ⟨rfl, hx⟩
      exact (List.takeWhile_cons_of_neg hx).symm
    | cons y ys =>
      obtain ⟨hy, hp⟩ := (h 0 y).1 rfl
      obtain rfl := Option.some.inj hy
      rw [List.takeWhile_cons_of_pos hp, ← ih fun i z => h (i + 1) z]

/-- Backtracking keeps the beginning of the trail. -/
theorem lits_backtrack (h : t.Consistent n) : (t.backtrack m).1.lits.toList = t.upTo m := by
  refine eq_takeWhile_of_getElem? fun i l => ?_
  rw [Array.getElem?_toList, Array.getElem?_toList, decide_eq_true_iff]
  exact h.at_backtrack

theorem head_backtrack (h : t.Consistent n) (hm : m < t.currentLevel) :
    (t.backtrack m).1.head = (t.backtrack m).1.lits.size := by
  obtain ⟨s, hs⟩ := exists_start hm
  obtain ⟨values, phases, -, -, he⟩ := backtrack_frame hs
  have hlt := h.starts_lt hs
  rw [he]
  show s = (t.lits.take s).size
  rw [Array.take_eq_extract, Array.size_extract]
  omega

/-- A variable that becomes unassigned has its value as phase. -/
theorem phase_backtrack (h : t.Consistent n) (hl : t.isTrue l) (hlt : m < t.level l.var) :
    (t.backtrack m).1.phase l.var = l.isPositive := by
  have hm : ¬ t.currentLevel ≤ m := Nat.not_le_of_lt (Nat.lt_of_lt_of_le hlt (h.level_le_of_isTrue hl))
  obtain ⟨s, hs⟩ := exists_start (Nat.lt_of_not_le hm)
  have hx : ∀ k ∈ t.lits.toList.drop s, k.var.index < t.phases.size := by
    intro k hk
    obtain ⟨i, -, hi⟩ := mem_drop_lits.1 hk
    exact h.phases_size.symm ▸ h.index_lt (isAssigned_of_isTrue (h.isTrue hi))
  have hmem := (h.var_mem_drop_iff hs hl).2 hlt
  rw [backtrack_of_start hs]
  refine (phase_foldl_unassign (t := { t with lits := t.lits.take s, head := s, starts := t.starts.take m }) _ hx).trans
    ?_
  rw [if_pos hmem]
  show (t.value l.var).getD _ = _
  rw [isTrue_iff.1 hl, Option.getD_some]

theorem mem_undone (h : t.Consistent n) : l ∈ (t.backtrack m).2 ↔ ∃ i, t.At i l ∧ m < t.level l.var := by
  by_cases hm : t.currentLevel ≤ m
  · rw [backtrack_of_le hm]
    constructor
    · intro hl
      cases hl
    · rintro ⟨i, hi, hlt⟩
      have := h.level_le hi
      omega
  · obtain ⟨s, hs⟩ := exists_start (Nat.lt_of_not_le hm)
    rw [backtrack_of_start hs, mem_drop_lits]
    constructor
    · rintro ⟨i, hsi, hi⟩
      exact ⟨i, hi, (h.level_iff hs hi).2 hsi⟩
    · rintro ⟨i, hi, hlt⟩
      exact ⟨i, (h.level_iff hs hi).1 hlt, hi⟩

theorem backtrack (h : t.Consistent n) (m : Nat) : (t.backtrack m).1.Consistent n := by
  by_cases hm : t.currentLevel ≤ m
  · rw [backtrack_of_le hm]
    exact h
  obtain ⟨s, hs⟩ := exists_start (Nat.lt_of_not_le hm)
  obtain ⟨values, phases, hv, hp, he⟩ := backtrack_frame hs
  have hstart {m' s' : Nat} (hs' : (t.backtrack m).1.starts[m']? = some s') : m' < m ∧ t.starts[m']? = some s' := by
    rw [he] at hs'
    change (t.starts.take m)[m']? = some s' at hs'
    rw [getElem?_take] at hs'
    split at hs'
    · next hlt => exact ⟨hlt, hs'⟩
    · cases hs'
  have hheads : (t.backtrack m).1.head = s := by rw [he]
  have hhead : s = (t.backtrack m).1.lits.size := hheads ▸ h.head_backtrack (Nat.lt_of_not_le hm)
  refine
    { values_size := by rw [he]; exact hv.trans h.values_size
      phases_size := by rw [he]; exact hp.trans h.phases_size
      reasons_size := by rw [he]; exact h.reasons_size
      levels_size := by rw [he]; exact h.levels_size
      isTrue := ?_
      at_inj := ?_
      placed := ?_
      level_le := ?_
      level_iff := ?_
      starts_lt := ?_
      starts_mono := ?_
      starts_le_head := ?_
      head_le := by rw [hheads]; exact Nat.le_of_eq hhead }
  · intro i l hi
    obtain ⟨hi, hl⟩ := h.at_backtrack.1 hi
    exact h.isTrue_backtrack.2 ⟨h.isTrue hi, hl⟩
  · intro i j l k hi hj
    exact h.at_inj (h.at_backtrack.1 hi).1 (h.at_backtrack.1 hj).1
  · intro l hl
    obtain ⟨hl, hle⟩ := h.isTrue_backtrack.1 hl
    rw [level_backtrack, reason_backtrack]
    rcases h.placed hl with ⟨i, hi⟩ | h0
    · exact Or.inl ⟨i, h.at_backtrack.2 ⟨hi, hle⟩⟩
    · exact Or.inr h0
  · intro i l hi
    obtain ⟨hi, hl⟩ := h.at_backtrack.1 hi
    rw [level_backtrack, currentLevel_backtrack]
    exact Nat.le_min.2 ⟨hl, h.level_le hi⟩
  · intro m' s' i l hs' hi
    rw [level_backtrack]
    exact h.level_iff (hstart hs').2 (h.at_backtrack.1 hi).1
  · intro m' s' hs'
    obtain ⟨hlt, hs'⟩ := hstart hs'
    rw [← hhead]
    exact h.starts_mono hs' hs hlt
  · intro m₁ m₂ s₁ s₂ h₁ h₂
    exact h.starts_mono (hstart h₁).2 (hstart h₂).2
  · intro m' s' hs'
    obtain ⟨hlt, hs'⟩ := hstart hs'
    rw [hheads]
    exact Nat.le_of_lt (h.starts_mono hs' hs hlt)

end Consistent

/-! ## Facts -/

/-- A literal that is true for good. -/
def Fact (t : Trail) (l : Lit) : Prop := t.isTrue l ∧ t.level l.var = 0

theorem foldl_settle_frame (ls : List Lit) :
    ∃ reasons, reasons.size = t.reasons.size ∧
      (∀ v : Var, reasons.getD v.index .unit = if v ∈ ls.map Lit.var then .unit else t.reason v) ∧
      ls.foldl (fun t l => { t with reasons := t.reasons.setIfInBounds l.var.index .unit }) t =
        { t with reasons := reasons } := by
  induction ls generalizing t with
  | nil => exact ⟨_, rfl, fun _ => rfl, rfl⟩
  | cons l ls ih =>
    obtain ⟨reasons, hs, hr, he⟩ := ih (t := { t with reasons := t.reasons.setIfInBounds l.var.index .unit })
    refine ⟨reasons, ?_, ?_, ?_⟩
    · rw [hs, Array.size_setIfInBounds]
    · intro v
      by_cases hv : v = l.var
      · have hmem : v ∈ (l :: ls).map Lit.var := by simp [hv]
        rw [if_pos hmem, hr v]
        split
        · rfl
        · rw [hv]
          show (t.reasons.setIfInBounds l.var.index .unit).getD l.var.index .unit = .unit
          by_cases hlt : l.var.index < t.reasons.size
          · rw [getD_setIfInBounds hlt, if_pos rfl]
          · rw [getD_of_size_le (by rw [Array.size_setIfInBounds]; exact Nat.le_of_not_lt hlt)]
      · have hne : v.index ≠ l.var.index := fun h => hv (Var.ext_index h)
        have hr' : ({ t with reasons := t.reasons.setIfInBounds l.var.index .unit } : Trail).reason v = t.reason v :=
          getD_setIfInBounds_ne hne
        rw [hr v, hr']
        simp [hv]
    · rw [List.foldl_cons, he]

theorem settle_frame (t : Trail) :
    ∃ reasons, reasons.size = t.reasons.size ∧
      (∀ v : Var, reasons.getD v.index .unit = if v ∈ t.lits.toList.map Lit.var then .unit else t.reason v) ∧
      t.settle = { t with reasons := reasons, lits := #[], head := 0 } := by
  obtain ⟨reasons, hs, hr, he⟩ := foldl_settle_frame (t := t) t.lits.toList
  refine ⟨reasons, hs, hr, ?_⟩
  rw [settle, ← Array.foldl_toList, he]

@[simp] theorem isTrue_settle : t.settle.isTrue l = t.isTrue l := by
  obtain ⟨reasons, -, -, he⟩ := settle_frame t
  rw [he]
  rfl

@[simp] theorem level_settle : t.settle.level v = t.level v := by
  obtain ⟨reasons, -, -, he⟩ := settle_frame t
  rw [he]
  rfl

@[simp] theorem currentLevel_settle : t.settle.currentLevel = t.currentLevel := by
  obtain ⟨reasons, -, -, he⟩ := settle_frame t
  rw [he]
  rfl

namespace Consistent

theorem fact_iff (h : t.Consistent n) (h0 : t.currentLevel = 0) : t.Fact l ↔ t.isTrue l := by
  refine ⟨And.left, fun hl => ⟨hl, ?_⟩⟩
  have := h.level_le_of_isTrue hl
  omega

theorem fact_decide (h : t.Consistent n) (hx : l.var.index < n) (hu : ¬ t.isAssigned l.var) :
    (t.openLevel.assign l r).Fact k ↔ t.Fact k := by
  have g := h.grows_decide (r := r) hx hu
  rw [Fact, Fact, g.isTrue_iff]
  constructor
  · rintro ⟨rfl | hk, h0⟩
    · rw [h.level_decide hx, if_pos rfl] at h0
      cases h0
    · exact ⟨hk, (g.level_eq_of_isTrue hk).symm.trans h0⟩
  · rintro ⟨hk, h0⟩
    exact ⟨Or.inr hk, (g.level_eq_of_isTrue hk).trans h0⟩

theorem settle (h : t.Consistent n) (h0 : t.currentLevel = 0) : t.settle.Consistent n := by
  have hs (m : Nat) : t.settle.starts[m]? = none := by
    apply Array.getElem?_eq_none
    show t.settle.currentLevel ≤ m
    rw [currentLevel_settle, h0]
    exact Nat.zero_le m
  obtain ⟨reasons, hsize, hr, he⟩ := settle_frame t
  refine
    { values_size := by rw [he]; exact h.values_size
      phases_size := by rw [he]; exact h.phases_size
      reasons_size := by rw [he]; exact hsize.trans h.reasons_size
      levels_size := by rw [he]; exact h.levels_size
      isTrue := fun hi => absurd hi.lt (Nat.not_lt_zero _)
      at_inj := fun hi => absurd hi.lt (Nat.not_lt_zero _)
      placed := ?_
      level_le := fun hi => absurd hi.lt (Nat.not_lt_zero _)
      level_iff := fun hm => by rw [hs] at hm; cases hm
      starts_lt := fun hm => by rw [hs] at hm; cases hm
      starts_mono := fun hm => by rw [hs] at hm; cases hm
      starts_le_head := fun hm => by rw [hs] at hm; cases hm
      head_le := Nat.le_refl _ }
  intro l hl
  rw [isTrue_settle] at hl
  refine Or.inr ⟨?_, ?_⟩
  · rw [level_settle]
    exact ((h.fact_iff h0).2 hl).2
  · have hreason : t.settle.reason l.var = reasons.getD l.var.index .unit := by
      rw [he]
      rfl
    rw [hreason, hr]
    split
    · rfl
    · next hmem =>
      rcases h.placed hl with ⟨i, hi⟩ | ⟨-, hu⟩
      · refine absurd (List.mem_map_of_mem ?_) hmem
        exact List.mem_of_mem_drop (mem_drop_lits (s := 0).2 ⟨i, Nat.zero_le i, hi⟩)
      · exact hu

theorem advance (h : t.Consistent n) (hi : t.At t.head l) : t.advance.Consistent n where
  values_size := h.values_size
  phases_size := h.phases_size
  reasons_size := h.reasons_size
  levels_size := h.levels_size
  isTrue := h.isTrue
  at_inj := h.at_inj
  placed := h.placed
  level_le := h.level_le
  level_iff := h.level_iff
  starts_lt := h.starts_lt
  starts_mono := h.starts_mono
  starts_le_head hs := Nat.le_succ_of_le (h.starts_le_head hs)
  head_le := hi.lt

/-! ## Sizes -/

theorem vars_nodup (h : t.Consistent n) : (t.lits.toList.map Lit.var).Nodup := by
  rw [List.nodup_iff_getElem?_ne_getElem?]
  intro i j hij hj heq
  rw [List.length_map, Array.length_toList] at hj
  obtain ⟨k, hk⟩ := exists_at hj
  obtain ⟨l, hl⟩ := exists_at (Nat.lt_trans hij hj)
  rw [List.getElem?_map, List.getElem?_map, Array.getElem?_toList, Array.getElem?_toList, hk, hl] at heq
  have := h.at_inj hl hk (Option.some.inj heq)
  omega

theorem size_le (h : t.Consistent n) : t.lits.size ≤ n := by
  have hsub : t.lits.toList.map Lit.var ⊆ (List.range n).map Var.mk := by
    intro v hv
    obtain ⟨l, hl, rfl⟩ := List.mem_map.1 hv
    obtain ⟨i, -, hi⟩ := mem_drop_lits (s := 0).1 hl
    have hlt := h.index_lt (isAssigned_of_isTrue (h.isTrue hi))
    exact List.mem_map.2 ⟨l.var.index, List.mem_range.2 hlt, rfl⟩
  have := h.vars_nodup.length_le_of_subset hsub
  simpa using this

/-- There are not more levels than variables: each one has a decision. -/
theorem currentLevel_le_size (h : t.Consistent n) : t.currentLevel ≤ t.lits.size := by
  have hle (m : Nat) : ∀ s, t.starts[m]? = some s → m ≤ s := by
    induction m with
    | zero => exact fun s _ => Nat.zero_le s
    | succ m ih =>
      intro s hs
      have hm : m < t.starts.size := Nat.lt_of_succ_lt (Array.getElem?_eq_some_iff.1 hs).1
      have h1 := ih _ (Array.getElem?_eq_getElem hm)
      have h2 := h.starts_mono (Array.getElem?_eq_getElem hm) hs (Nat.lt_succ_self m)
      omega
  cases hc : t.currentLevel with
  | zero => exact Nat.zero_le _
  | succ m =>
    obtain ⟨s, hs⟩ := exists_start (t := t) (m := m) (by omega)
    have h1 := hle m s hs
    have h2 := h.starts_lt hs
    omega

/-- Levels are numbers of decisions, so there are not more of them than variables. -/
theorem level_le_of_isAssigned (h : t.Consistent n) (ha : t.isAssigned v) : t.level v ≤ n := by
  obtain ⟨l, rfl, hl⟩ := exists_isTrue_of_isAssigned ha
  exact Nat.le_trans (h.level_le_of_isTrue hl) (Nat.le_trans h.currentLevel_le_size h.size_le)

end Consistent

end ClauseLearning.Trail
