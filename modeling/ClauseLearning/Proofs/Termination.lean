import Mathlib.Algebra.BigOperators.Group.Finset.Piecewise
import Mathlib.Algebra.Group.Action.Defs
import Mathlib.Algebra.Order.BigOperators.Group.Finset
import ClauseLearning.Proofs.Restarts
import ClauseLearning.Proofs.Search

/-!
# Searches come to an end

* `weight` : the assigned variables, counted in powers by their levels. Learning from a conflict makes it grow
  (`weight_lt_of_learned`), as long as there is no restart;
* `HaltsWithin` : the search is over after a number of steps;
* `haltsWithin_of_quiet` : without restarts it is over when the weight has reached its bound;
* `haltsWithin_words`, `haltsWithin_unbounded` : with restarts it is over too, as these become too rare;
* `haltsWithin_stepBound` : `stepBound` is more than the search needs.
-/

namespace ClauseLearning.Solver

open Finset (range)

variable {s s' : Solver} {n m k b : Nat} {v : Var} {t u : Trail}

/-! ## The weight of a trail -/

/-- What a variable below `n` contributes: the more, the lower its level is. -/
def share (n : Nat) (t : Trail) (i : Nat) : Nat :=
  if t.isAssigned ⟨i⟩ then (n + 1) ^ (n - t.level ⟨i⟩) else 0

/-- The assigned variables, counted in powers by their levels. -/
def weight (n : Nat) (t : Trail) : Nat := ∑ i ∈ range n, share n t i

theorem share_le (n : Nat) (t : Trail) (i : Nat) : share n t i ≤ (n + 1) ^ n := by
  unfold share
  split
  · exact Nat.pow_le_pow_right (Nat.succ_pos n) (Nat.sub_le _ _)
  · exact Nat.zero_le _

theorem weight_lt (n : Nat) (t : Trail) : weight n t < conflictBound n := by
  have h : weight n t ≤ n * (n + 1) ^ n := by
    have := Finset.sum_le_card_nsmul (range n) (share n t) _ fun i _ => share_le n t i
    rwa [Finset.card_range, smul_eq_mul] at this
  have hp : 0 < (n + 1) ^ n := Nat.pow_pos (Nat.succ_pos n)
  show weight n t < (n + 1) ^ (n + 1)
  rw [Nat.pow_succ, Nat.mul_comm]
  exact Nat.lt_of_le_of_lt h (Nat.mul_lt_mul_of_pos_right (Nat.lt_succ_self n) hp)

theorem weight_mono (n : Nat) (h : Extends t u) : weight n t ≤ weight n u := by
  apply Finset.sum_le_sum
  intro i _
  unfold share
  split
  · next ha =>
    obtain ⟨l, hl, ht⟩ := Trail.exists_isTrue_of_isAssigned ha
    obtain ⟨h1, h2⟩ := h l ht
    have h1' := Trail.isAssigned_of_isTrue h1
    rw [hl] at h1' h2
    rw [if_pos h1', h2]
  · exact Nat.zero_le _

/-- The part of a share that levels up to `b` have. -/
def lowShare (n b : Nat) (t : Trail) (i : Nat) : Nat := if t.level ⟨i⟩ ≤ b then share n t i else 0

theorem share_le_lowShare (h : b < n) (t : Trail) (i : Nat) :
    share n t i ≤ lowShare n b t i + (n + 1) ^ (n - b - 1) := by
  unfold lowShare
  split
  · exact Nat.le_add_right _ _
  · next hlt =>
    unfold share
    split
    · rw [Nat.zero_add]
      exact Nat.pow_le_pow_right (Nat.succ_pos n) (by omega)
    · exact Nat.zero_le _

theorem lowShare_le_share (hl : Learned s s' b v) (i : Nat) :
    lowShare n b s.prop.trail i + (if i = v.index then (n + 1) ^ (n - b) else 0) ≤ share n s'.prop.trail i := by
  by_cases hi : i = v.index
  · have hv : (⟨i⟩ : Var) = v := Var.ext_index hi
    unfold lowShare share
    rw [hv, if_neg (Nat.not_le_of_lt hl.above.2), if_pos hi, if_pos hl.assigned.1, hl.assigned.2, Nat.zero_add]
  · rw [if_neg hi, Nat.add_zero]
    unfold lowShare
    split
    · next hle =>
      unfold share
      split
      · next ha =>
        obtain ⟨l, hlv, ht⟩ := Trail.exists_isTrue_of_isAssigned ha
        obtain ⟨h1, h2⟩ := hl.keeps ht (hlv ▸ hle)
        have h1' := Trail.isAssigned_of_isTrue h1
        rw [hlv] at h1' h2
        rw [if_pos h1', h2]
      · exact Nat.zero_le _
    · exact Nat.zero_le _

/-- Learning outweighs all levels that it gives up. -/
theorem weight_lt_of_learned (h : s.Inv) (hb : b < s.prop.trail.currentLevel) (hl : Learned s s' b v) :
    weight s.varCount s.prop.trail < weight s.varCount s'.prop.trail := by
  have hn : b < s.varCount :=
    Nat.lt_of_lt_of_le hb (Nat.le_trans h.prop.trail.currentLevel_le_size h.prop.trail.size_le)
  have hx : v.index < s.varCount := h.prop.trail.index_lt hl.above.1
  generalize s.varCount = n at hn hx
  have h1 : weight n s.prop.trail ≤
      ∑ i ∈ range n, lowShare n b s.prop.trail i + n * (n + 1) ^ (n - b - 1) := by
    have := Finset.sum_le_sum fun i (_ : i ∈ range n) => share_le_lowShare hn s.prop.trail i
    rwa [Finset.sum_add_distrib, Finset.sum_const, Finset.card_range, smul_eq_mul] at this
  have h2 : ∑ i ∈ range n, lowShare n b s.prop.trail i + (n + 1) ^ (n - b) ≤ weight n s'.prop.trail := by
    have := Finset.sum_le_sum fun i (_ : i ∈ range n) => lowShare_le_share (n := n) hl i
    rwa [Finset.sum_add_distrib, Finset.sum_ite_eq', if_pos (Finset.mem_range.2 hx)] at this
  have h3 : n * (n + 1) ^ (n - b - 1) < (n + 1) ^ (n - b) := by
    have hp : 0 < (n + 1) ^ (n - b - 1) := Nat.pow_pos (Nat.succ_pos n)
    rw [show n - b = n - b - 1 + 1 by omega, Nat.pow_succ, Nat.mul_comm _ (n + 1)]
    exact Nat.mul_lt_mul_of_pos_right (Nat.lt_succ_self n) hp
  omega

/-! ## Steps -/

/-- The state after `k` steps. -/
def afterSteps : Nat → Solver → Solver
  | 0, s => s
  | k + 1, s => afterSteps k s.step.2

/-- The search is over after at most `k` steps. -/
def HaltsWithin : Nat → Solver → Prop
  | 0, s => s.step.1 = false
  | k + 1, s => s.step.1 = false ∨ HaltsWithin k s.step.2

theorem haltsWithin_of_step (k : Nat) (h : s.step.1 = false) : HaltsWithin k s := by
  cases k with
  | zero => exact h
  | succ k => exact Or.inl h

theorem HaltsWithin.mono (h : HaltsWithin k s) (hk : k ≤ m) : HaltsWithin m s := by
  induction k generalizing m s with
  | zero => exact haltsWithin_of_step m h
  | succ k ih =>
    obtain ⟨m, rfl⟩ : ∃ m', m = m' + 1 := ⟨m - 1, by omega⟩
    exact h.imp_right fun h => ih h (Nat.le_of_succ_le_succ hk)

theorem HaltsWithin.exists_steps {fuel : Nat} (h : HaltsWithin k s) (hf : k < fuel) :
    ∃ j, (∀ i < j, (afterSteps i s).step.1 = true) ∧ (afterSteps j s).step.1 = false ∧
      searchFuel fuel s = (afterSteps j s).step.2 := by
  induction k generalizing s fuel with
  | zero =>
    obtain ⟨fuel, rfl⟩ : ∃ f, fuel = f + 1 := ⟨fuel - 1, by omega⟩
    refine ⟨0, fun i hi => absurd hi (Nat.not_lt_zero i), h, ?_⟩
    change s.step.1 = false at h
    rw [searchFuel, afterSteps]
    generalize s.step = out at h
    obtain ⟨goOn, s'⟩ := out
    subst h
    rfl
  | succ k ih =>
    obtain ⟨fuel, rfl⟩ : ∃ f, fuel = f + 1 := ⟨fuel - 1, by omega⟩
    cases hs : s.step.1 with
    | false =>
      refine ⟨0, fun i hi => absurd hi (Nat.not_lt_zero i), hs, ?_⟩
      rw [searchFuel, afterSteps]
      generalize s.step = out at hs
      obtain ⟨goOn, s'⟩ := out
      subst hs
      rfl
    | true =>
      have hk : HaltsWithin k s.step.2 := h.resolve_left fun hf => by
        rw [hs] at hf
        cases hf
      obtain ⟨j, h1, h2, h3⟩ := ih hk (Nat.lt_of_succ_lt_succ hf)
      refine ⟨j + 1, ?_, h2, ?_⟩
      · intro i hi
        cases i with
        | zero => exact hs
        | succ i => exact h1 i (Nat.lt_of_succ_lt_succ hi)
      · rw [searchFuel, afterSteps, ← h3]
        generalize s.step = out at hs
        obtain ⟨goOn, s'⟩ := out
        subst hs
        rfl

theorem haltsWithin_succ (h : s.Inv)
    (hs : ∀ s', Stepped s s' → s'.status = .unknown → s'.interrupted = false → HaltsWithin k s') :
    HaltsWithin (k + 1) s := by
  cases hstep : s.step with
  | mk goOn s' =>
    cases goOn with
    | false => exact Or.inl (by rw [hstep])
    | true =>
      apply Or.inr
      rw [hstep]
      obtain ⟨-, -, hst⟩ := step_true h hstep
      by_cases hover : s'.status ≠ .unknown ∨ s'.interrupted = true
      · apply haltsWithin_of_step k
        show s'.step.1 = false
        unfold step
        rw [if_pos hover]
      · rw [not_or, Classical.not_not, Bool.not_eq_true] at hover
        exact hs s' hst hover.1 hover.2

/-! ## A search without restarts -/

theorem Continued.weight_lt (hc : Continued s s') (hd : s.schedule.restartDue = false) :
    weight s.varCount s.prop.trail < weight s.varCount s'.prop.trail := by
  obtain ⟨s₁, h1, hn, he, b, v, hb, hl⟩ := hc.progress
  have h2 := weight_lt_of_learned h1 hb hl
  rw [hn] at h2
  exact Nat.lt_of_le_of_lt (weight_mono _ (he hd)) h2

theorem Continued.weight_pos (hc : Continued s s') : 0 < weight s.varCount s'.prop.trail := by
  obtain ⟨s₁, h1, hn, -, b, v, hb, hl⟩ := hc.progress
  have h2 := weight_lt_of_learned h1 hb hl
  rw [hn] at h2
  exact Nat.zero_lt_of_lt h2

theorem Stepped.nextRestart_eq (h : Stepped s s') (hd : s.schedule.restartDue = false) :
    s'.schedule.nextRestart = s.schedule.nextRestart ∧ s'.schedule.luby = s.schedule.luby := by
  have hp : s.planned = s.schedule := if_neg (by rw [hd]; exact Bool.false_ne_true)
  exact ⟨h.plan.nextRestart_eq.trans (congrArg _ hp), h.plan.luby_eq.trans (congrArg _ hp)⟩

/-- Without restarts the search is over when the weight has reached its bound. -/
theorem haltsWithin_of_quiet (h : s.Inv) (hm : conflictBound s.varCount ≤ weight s.varCount s.prop.trail + m + 1)
    (hr : ∀ j ≤ m, s.schedule.nextRestart ≠ s.schedule.conflicts + j) : HaltsWithin (m + 1) s := by
  have hd {m : Nat} {s : Solver} (hr : ∀ j ≤ m, s.schedule.nextRestart ≠ s.schedule.conflicts + j) :
      s.schedule.restartDue = false :=
    Bool.eq_false_iff.2 fun hd => hr 0 (Nat.zero_le m) (Schedule.restartDue_iff.1 hd)
  induction m generalizing s with
  | zero =>
    apply haltsWithin_succ h
    intro s' hs hu hi
    have h1 := (hs.continued hu hi).weight_lt (hd hr)
    have h2 := weight_lt s.varCount s'.prop.trail
    omega
  | succ m ih =>
    apply haltsWithin_succ h
    intro s' hs hu hi
    have h1 := (hs.continued hu hi).weight_lt (hd hr)
    have hc := (hs.continued hu hi).conflicts_eq
    have hn := hs.searched.varCount_eq
    rw [← hn] at h1 hm
    apply ih hs.searched.inv (by omega)
    intro j hj
    rw [(hs.nextRestart_eq (hd hr)).1, hc, Nat.add_assoc, Nat.add_comm 1 j]
    exact hr (j + 1) (Nat.succ_le_succ hj)

/-! ## Restarts -/

/-- The schedule keeps to its plan, and terms of the restart sequence stand for some conflicts. -/
structure Timed (s : Solver) : Prop where
  scale_pos : 0 < s.config.lubyRestartIntervalScale.toNat
  timely : s.schedule.Timely

theorem Timed.planned (ht : s.Timed) :
    s.planned.Timely ∧ s.planned.conflicts = s.schedule.conflicts ∧ s.planned.counting = s.schedule.counting ∧
      (s.schedule.counting = .unbounded → s.schedule.conflicts + 1 ≤ s.planned.nextRestart) :=
  ht.timely.plan ht.scale_pos rfl

theorem Stepped.timed (h : Stepped s s') (ht : s.Timed) : s'.Timed := by
  obtain ⟨h1, h2, h3, h4⟩ := ht.planned
  refine ⟨h.searched.config_eq.symm ▸ ht.scale_pos, ⟨?_, ?_, ?_⟩⟩
  · exact h.plan.luby_eq.symm ▸ h1.luby
  · intro hc
    exact h.plan.nextRestart_eq.symm ▸ h1.bounded (h.plan.counting_eq ▸ hc)
  · intro hc
    rw [h.plan.nextRestart_eq]
    refine Nat.le_trans h.conflicts_le (h4 ?_)
    rw [← h3, ← h.plan.counting_eq]
    exact hc

/-- Counts of conflicts in 64 bits end the restarts once they are too large for them. -/
theorem haltsWithin_words (h : s.Inv) (ht : s.Timed) (hc : s.schedule.counting = .words)
    (hm : UInt64.size ≤ s.schedule.conflicts + m) : HaltsWithin (m + conflictBound s.varCount + 1) s := by
  induction m generalizing s with
  | zero =>
    refine (haltsWithin_of_quiet (m := conflictBound s.varCount) h (by omega) ?_).mono (by omega)
    intro j _
    have := ht.timely.bounded hc
    omega
  | succ m ih =>
    rw [show m + 1 + conflictBound s.varCount + 1 = m + conflictBound s.varCount + 1 + 1 by omega]
    apply haltsWithin_succ h
    intro s' hs hu hi
    have hconf := (hs.continued hu hi).conflicts_eq
    have hcount : s'.schedule.counting = .words := by
      rw [hs.plan.counting_eq, ht.planned.2.2.1]
      exact hc
    rw [← hs.searched.varCount_eq]
    exact ih hs.searched.inv (hs.timed ht) hcount (by omega)

/-- What is left until a stretch without restarts begins: the conflicts up to the next restart, and the scaled terms
of the restart sequence after it. -/
def waiting (k : Nat) (s : Solver) : Nat :=
  s.schedule.nextRestart - s.schedule.conflicts +
    s.config.lubyRestartIntervalScale.toNat * Luby.potential (2 ^ k) s.schedule.luby

theorem waiting_lt (ht : s.Timed) (hc : s.schedule.counting = .unbounded) (hs : Stepped s s')
    (hcont : Continued s s')
    (hshort : s.schedule.restartDue = true → s.schedule.luby.power < 2 ^ k) : waiting k s' < waiting k s := by
  have hle := ht.timely.ahead hc
  unfold waiting
  rw [hcont.conflicts_eq, hs.searched.config_eq, hs.plan.nextRestart_eq, hs.plan.luby_eq]
  unfold planned
  split
  · next hd =>
    have hp := Luby.potential_next ht.timely.luby (hshort hd)
    have hmul := Nat.mul_le_mul_left s.config.lubyRestartIntervalScale.toNat hp
    have hterm : 0 < s.config.lubyRestartIntervalScale.toNat * s.schedule.luby.power :=
      Nat.mul_pos ht.scale_pos ht.timely.luby.power_pos
    have hnext : (s.schedule.planRestart s.config.lubyRestartIntervalScale).nextRestart =
        s.schedule.conflicts + s.config.lubyRestartIntervalScale.toNat * s.schedule.luby.power := by
      show s.schedule.counting.keep (s.schedule.nextRestart + _) = _
      rw [hc, Schedule.restartDue_iff.1 hd]
      rfl
    rw [hnext, Schedule.restartDue_iff.1 hd]
    rw [Nat.mul_add] at hmul
    show _ + s.config.lubyRestartIntervalScale.toNat * Luby.potential (2 ^ k) s.schedule.luby.next.2 < _
    omega
  · next hd =>
    have hne : s.schedule.nextRestart ≠ s.schedule.conflicts := fun he => hd (Schedule.restartDue_iff.2 he)
    omega

theorem haltsWithin_of_long (ht : s.Timed) (hc : s.schedule.counting = .unbounded) (hs : Stepped s s')
    (hcont : Continued s s') (hd : s.schedule.restartDue = true)
    (hlong : conflictBound s.varCount ≤ s.schedule.luby.power) : HaltsWithin (conflictBound s.varCount) s' := by
  have hpos := hcont.weight_pos
  have hn := hs.searched.varCount_eq
  have hbound := weight_lt s.varCount s'.prop.trail
  obtain ⟨m, hm⟩ : ∃ m, conflictBound s.varCount = m + 2 := ⟨conflictBound s.varCount - 2, by omega⟩
  rw [hm]
  refine HaltsWithin.mono (haltsWithin_of_quiet (m := m) hs.searched.inv ?_ ?_) (Nat.le_succ _)
  · rw [hn]
    omega
  · intro j hj
    have hplan : s.planned = s.schedule.planRestart s.config.lubyRestartIntervalScale := if_pos hd
    have hnext : s'.schedule.nextRestart =
        s.schedule.conflicts + s.config.lubyRestartIntervalScale.toNat * s.schedule.luby.power := by
      rw [hs.plan.nextRestart_eq, hplan]
      show s.schedule.counting.keep (s.schedule.nextRestart + _) = _
      rw [hc, Schedule.restartDue_iff.1 hd]
      rfl
    have hmul : s.schedule.luby.power ≤ s.config.lubyRestartIntervalScale.toNat * s.schedule.luby.power :=
      Nat.le_mul_of_pos_left _ ht.scale_pos
    rw [hnext, hcont.conflicts_eq]
    omega

/-- Counted in full, restarts become rare enough. -/
theorem haltsWithin_unbounded (h : s.Inv) (ht : s.Timed) (hc : s.schedule.counting = .unbounded)
    (hk : conflictBound s.varCount ≤ 2 ^ k) (hm : waiting k s ≤ m) :
    HaltsWithin (m + conflictBound s.varCount + 1) s := by
  induction m using Nat.strongRecOn generalizing s with
  | ind m ih =>
    apply haltsWithin_succ h
    intro s' hs hu hi
    have hcont := hs.continued hu hi
    by_cases hlong : s.schedule.restartDue = true ∧ 2 ^ k ≤ s.schedule.luby.power
    · exact (haltsWithin_of_long ht hc hs hcont hlong.1 (Nat.le_trans hk hlong.2)).mono (Nat.le_add_left _ _)
    · have hlt := waiting_lt (k := k) ht hc hs hcont fun hd => Nat.lt_of_not_le fun hle => hlong ⟨hd, hle⟩
      have hcount : s'.schedule.counting = .unbounded := by
        rw [hs.plan.counting_eq, ht.planned.2.2.1]
        exact hc
      have hn := hs.searched.varCount_eq
      rw [← hn] at hk ⊢
      apply HaltsWithin.mono (ih (waiting k s') (by omega) hs.searched.inv (hs.timed ht) hcount hk (Nat.le_refl _))
      omega

/-- There are more steps than any search takes. -/
theorem haltsWithin_stepBound (h : s.Inv) (ht : s.Timed) : ∃ k < s.stepBound, HaltsWithin k s := by
  unfold stepBound Schedule.restBound
  dsimp only
  cases hc : s.schedule.counting with
  | words =>
    refine ⟨_, ?_, haltsWithin_words (m := UInt64.size) h ht hc (Nat.le_add_left _ _)⟩
    dsimp only
    omega
  | unbounded =>
    generalize hN : conflictBound s.varCount = N
    have hpos : N ≠ 0 := by
      rw [← hN]
      exact Nat.ne_of_gt (Nat.pow_pos (Nat.succ_pos _))
    have h1 := Nat.log2_self_le hpos
    have h2 : N < 2 ^ (N.log2 + 1) := Nat.lt_log2_self
    have h3 := Luby.potential_le (Nat.two_pow_pos (N.log2 + 1)) (n := N) (by rw [Nat.pow_succ]; omega) s.schedule.luby
    have h4 := Nat.mul_le_mul_left s.config.lubyRestartIntervalScale.toNat h3
    have hw := haltsWithin_unbounded (k := N.log2 + 1) h ht hc (by rw [hN]; exact Nat.le_of_lt h2) (Nat.le_refl _)
    rw [hN] at hw
    refine ⟨_, ?_, hw⟩
    unfold waiting
    dsimp only
    omega

end ClauseLearning.Solver
