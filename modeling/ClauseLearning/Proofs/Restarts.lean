import Mathlib.Algebra.Group.Nat.Defs
import ClauseLearning.Schedule

/-!
# Restarts become rare

* `Luby.Valid` : the next term is a power of two that divides the count;
* `Luby.potential` : a bound for the sum of the terms until one of at least a given power of two. Each smaller term
  uses up its own size (`Luby.potential_next`);
* `Schedule.Timely` : what the plan for restarts keeps to. Counted in full, a restart is never overdue.
-/

namespace ClauseLearning

namespace Luby

variable {l : Luby} {m n : Nat}

/-- The next term is a power of two that divides the count. -/
structure Valid (l : Luby) : Prop where
  count_pos : 0 < l.count
  dvd : l.power ∣ l.count
  pow : ∃ k, l.power = 2 ^ k

theorem valid_start : ({} : Luby).Valid := ⟨Nat.one_pos, Nat.dvd_refl 1, 0, rfl⟩

theorem Valid.power_pos (h : l.Valid) : 0 < l.power := by
  obtain ⟨k, hk⟩ := h.pow
  exact hk ▸ Nat.two_pow_pos k

theorem Valid.power_le (h : l.Valid) : l.power ≤ l.count := Nat.le_of_dvd h.count_pos h.dvd

theorem Valid.next (h : l.Valid) : l.next.2.Valid := by
  unfold Luby.next
  dsimp only
  split
  · exact ⟨Nat.succ_pos _, Nat.one_dvd _, 0, rfl⟩
  · next hodd =>
    refine ⟨h.count_pos, ?_, ?_⟩
    · obtain ⟨q, hq⟩ := h.dvd
      rw [hq, Nat.mul_div_cancel_left q h.power_pos] at hodd
      obtain ⟨r, hr⟩ : 2 ∣ q := Nat.dvd_of_mod_eq_zero (by omega)
      exact ⟨r, by rw [hq, hr, Nat.mul_comm 2 l.power, Nat.mul_assoc]⟩
    · obtain ⟨k, hk⟩ := h.pow
      exact ⟨k + 1, by rw [Nat.pow_succ, hk, Nat.mul_comm]⟩

/-- The least multiple of `t` that is not less than `n`. -/
def roundUp (t n : Nat) : Nat := t * ((n + t - 1) / t)

theorem le_roundUp {t : Nat} (ht : 0 < t) (n : Nat) : n ≤ roundUp t n := by
  have h := Nat.div_add_mod (n + t - 1) t
  have h' := Nat.mod_lt (n + t - 1) ht
  unfold roundUp
  omega

theorem roundUp_lt {t : Nat} (ht : 0 < t) (n : Nat) : roundUp t n < n + t := by
  have h := Nat.div_mul_le_self (n + t - 1) t
  rw [Nat.mul_comm] at h
  unfold roundUp
  omega

theorem dvd_roundUp (t n : Nat) : t ∣ roundUp t n := ⟨_, rfl⟩

theorem roundUp_succ {t : Nat} (ht : 0 < t) (h : n < roundUp t n) : roundUp t (n + 1) = roundUp t n := by
  have h1 := le_roundUp ht (n + 1)
  have h2 := roundUp_lt ht (n + 1)
  have h3 := roundUp_lt ht n
  obtain ⟨a, ha⟩ := dvd_roundUp t n
  obtain ⟨b, hb⟩ := dvd_roundUp t (n + 1)
  rw [ha] at h h3 ⊢
  rw [hb] at h1 h2 ⊢
  -- two multiples within a distance of less than `t`
  have hab : a < b + 1 := Nat.lt_of_mul_lt_mul_left (a := t) (by rw [Nat.mul_add, Nat.mul_one]; omega)
  have hba : b < a + 1 := Nat.lt_of_mul_lt_mul_left (a := t) (by rw [Nat.mul_add, Nat.mul_one]; omega)
  rw [show a = b by omega]

/-- A bound for the sum of the terms until one of at least `t`. -/
def potential (t : Nat) (l : Luby) : Nat :=
  (roundUp t l.count - l.count) * (2 * roundUp t l.count) + (2 * roundUp t l.count - l.power)

/-- A term below a power of two uses up its own size. -/
theorem potential_next (h : l.Valid) (hp : l.power < 2 ^ m) :
    potential (2 ^ m) l.next.2 + l.power ≤ potential (2 ^ m) l := by
  have ht := Nat.two_pow_pos m
  have hle := h.power_le
  have hup := le_roundUp ht l.count
  unfold Luby.next
  dsimp only
  split
  · next hodd =>
    -- the count is no multiple of the power of two, so it is below the next one
    have hlt : l.count < roundUp (2 ^ m) l.count := by
      apply Nat.lt_of_le_of_ne hup
      intro heq
      obtain ⟨q, hq⟩ := h.dvd
      obtain ⟨k, hk⟩ := h.pow
      obtain ⟨c, hc⟩ := dvd_roundUp (2 ^ m) l.count
      rw [← heq] at hc
      have hkm : k < m := (Nat.pow_lt_pow_iff_right (by decide : 1 < 2)).1 (hk ▸ hp)
      have hm : 2 ^ m = 2 ^ k * (2 * 2 ^ (m - k - 1)) := by
        rw [← Nat.pow_succ', ← Nat.pow_add]
        congr 1
        omega
      rw [hc, hk, hm, Nat.mul_assoc, Nat.mul_div_cancel_left _ (Nat.two_pow_pos k), Nat.mul_assoc,
        Nat.mul_mod_right] at hodd
      cases hodd
    unfold potential
    dsimp only
    rw [roundUp_succ ht hlt]
    generalize roundUp (2 ^ m) l.count = u at hup hlt
    obtain ⟨d, rfl⟩ : ∃ d, u = l.count + 1 + d := ⟨u - (l.count + 1), by omega⟩
    rw [show l.count + 1 + d - (l.count + 1) = d by omega, show l.count + 1 + d - l.count = d + 1 by omega,
      Nat.succ_mul d]
    omega
  · unfold potential
    dsimp only
    omega

theorem potential_le {t : Nat} (ht : 0 < t) (hn : t ≤ 2 * n) (l : Luby) :
    potential t l ≤ 2 * (2 * n + 1) * (l.count + 2 * n) := by
  have h1 := roundUp_lt ht l.count
  have h2 := le_roundUp ht l.count
  unfold potential
  generalize roundUp t l.count = u at h1 h2
  calc (u - l.count) * (2 * u) + (2 * u - l.power)
      ≤ (u - l.count) * (2 * u) + 1 * (2 * u) := by omega
    _ = (u - l.count + 1) * (2 * u) := (Nat.add_mul ..).symm
    _ ≤ (2 * n + 1) * (2 * (l.count + 2 * n)) := Nat.mul_le_mul (by omega) (by omega)
    _ = 2 * (2 * n + 1) * (l.count + 2 * n) := by rw [← Nat.mul_assoc, Nat.mul_comm (2 * n + 1) 2]

end Luby

namespace Schedule

variable {s s' : Schedule} {scale : UInt64}

/-- What the plan for restarts keeps to. -/
structure Timely (s : Schedule) : Prop where
  luby : s.luby.Valid
  bounded : s.counting = .words → s.nextRestart < UInt64.size
  ahead : s.counting = .unbounded → s.conflicts ≤ s.nextRestart

theorem timely_start (counting : Counting) : ({ counting := counting } : Schedule).Timely :=
  ⟨Luby.valid_start, fun _ => Nat.two_pow_pos 64, fun _ => Nat.le_refl 0⟩

theorem Timely.congr (h : s.Timely) (h1 : s'.luby = s.luby) (h2 : s'.nextRestart = s.nextRestart)
    (h3 : s'.counting = s.counting) (h4 : s'.conflicts = s.conflicts) : s'.Timely :=
  ⟨h1 ▸ h.luby, fun hc => h2 ▸ h.bounded (h3 ▸ hc), fun hc => h2 ▸ h4 ▸ h.ahead (h3 ▸ hc)⟩

theorem restartDue_iff : s.restartDue = true ↔ s.nextRestart = s.conflicts := beq_iff_eq

theorem Timely.plan (h : s.Timely) (hs : 0 < scale.toNat)
    (hp : s' = if s.restartDue then s.planRestart scale else s) : s'.Timely ∧ s'.conflicts = s.conflicts ∧
      s'.counting = s.counting ∧ (s.counting = .unbounded → s.conflicts + 1 ≤ s'.nextRestart) := by
  subst hp
  split
  · next hd =>
    have hmul : 0 < scale.toNat * s.luby.power := Nat.mul_pos hs h.luby.power_pos
    have hnext : s.counting = .unbounded → s.conflicts + 1 ≤ (s.planRestart scale).nextRestart := by
      intro hc
      show s.conflicts + 1 ≤ s.counting.keep (s.nextRestart + scale.toNat * s.luby.power)
      rw [hc, restartDue_iff.1 hd]
      show s.conflicts + 1 ≤ s.conflicts + scale.toNat * s.luby.power
      omega
    refine ⟨⟨h.luby.next, ?_, ?_⟩, rfl, rfl, hnext⟩
    · intro hc
      show s.counting.keep _ < _
      rw [show s.counting = .words from hc]
      exact Nat.mod_lt _ (Nat.two_pow_pos 64)
    · intro hc
      exact Nat.le_of_succ_le (hnext hc)
  · next hd =>
    refine ⟨h, rfl, rfl, ?_⟩
    intro hc
    have hle := h.ahead hc
    have hne : s.nextRestart ≠ s.conflicts := fun he => hd (restartDue_iff.2 he)
    omega

end Schedule

end ClauseLearning
