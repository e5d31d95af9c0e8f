import ClauseLearning.Activity
import ClauseLearning.Config
import ClauseLearning.Proofs.SinglePrecision

/-!
# Activities are never negative

Bumps start at one, grow by factors and are scaled down by factors, so no activity is ever negative or no number at all.

* `IsDecay`, `decayInRange_iff` : the accepted decay factors;
* `ActivityScale.Sane` : what holds of the bump and its growth;
* `Sane.grown`, `Sane.rescaled`, `Sane.withDecay` : it is kept by decay, by scaling and by an accepted decay factor.
-/

namespace ClauseLearning

open SinglePrecision

theorem isFactor_rescaleFactor : IsFactor rescaleFactor := by decide +kernel

theorem decayInRange_iff_bits {decay : Float32} :
    ConfigUpdate.decayInRange decay ↔ 0x3d800000 < bits decay ∧ bits decay < 0x3f800000 := by
  have hl : bits 0.0625 = 0x3d800000 := by decide +kernel
  have ho : bits 1 = 0x3f800000 := by decide +kernel
  have hml : IsMagnitude 0.0625 := by decide +kernel
  have hmo : IsMagnitude 1 := by decide +kernel
  rw [ConfigUpdate.decayInRange, Bool.and_eq_true, decide_eq_true_iff, decide_eq_true_iff, ← hl, ← ho]
  constructor
  · rintro ⟨hlow, hhigh⟩
    have hmag := hml.of_lt hlow
    exact ⟨(lt_iff hml hmag).1 hlow, (lt_iff hmag hmo).1 hhigh⟩
  · rintro ⟨hlow, hhigh⟩
    have hmag : IsMagnitude decay := hhigh.le.trans hmo
    exact ⟨(lt_iff hml hmag).2 hlow, (lt_iff hmag hmo).2 hhigh⟩

/-- A number strictly between a sixteenth and one. -/
def IsDecay (x : Float32) : Prop := ∃ q, value? x = some q ∧ 1 / 16 < q ∧ q < 1

/-- The check of decay factors is exact, also for what is no number. -/
theorem decayInRange_iff {decay : Float32} : ConfigUpdate.decayInRange decay ↔ IsDecay decay := by
  have hl : (1 / 16 : ℚ) = (units 0x3d800000 : ℚ) * 2 ^ (-149 : ℤ) := by norm_num [units, mantissa, exponent]
  have ho : (1 : ℚ) = (units 0x3f800000 : ℚ) * 2 ^ (-149 : ℤ) := by norm_num [units, mantissa, exponent]
  rw [decayInRange_iff_bits]
  constructor
  · rintro ⟨hlow, hhigh⟩
    have hf : IsFactor decay := ⟨Nat.zero_lt_of_lt hlow, hhigh.trans (by decide)⟩
    exact ⟨_, hf.value?_eq, hl ▸ units_mul_lt_iff.2 hlow, ho ▸ units_mul_lt_iff.2 hhigh⟩
  · rintro ⟨q, hq, hlow, hhigh⟩
    have hf := isFactor_of_value? hq (lt_trans (by norm_num) hlow)
    obtain rfl := Option.some.inj (hf.value?_eq.symm.trans hq)
    rw [hl] at hlow
    rw [ho] at hhigh
    exact ⟨units_mul_lt_iff.1 hlow, units_mul_lt_iff.1 hhigh⟩

theorem isFactor_of_decayInRange {decay : Float32} (h : ConfigUpdate.decayInRange decay) : IsFactor (1 / decay) := by
  obtain ⟨hlow, hhigh⟩ := decayInRange_iff_bits.1 h
  exact isFactor_inverse hlow.le hhigh

namespace ActivityScale

variable {a : ActivityScale}

/-- The bump is not negative, and its growth is a positive number. -/
structure Sane (a : ActivityScale) : Prop where
  bump : IsMagnitude a.bump
  growth : IsFactor a.growth

theorem sane_default : ({} : ActivityScale).Sane := ⟨by decide +kernel, by decide +kernel⟩

theorem Sane.grown (h : a.Sane) : a.grown.Sane := ⟨h.bump.mul h.growth, h.growth⟩

theorem Sane.rescaled (h : a.Sane) : a.rescaled.Sane := ⟨h.bump.mul isFactor_rescaleFactor, h.growth⟩

theorem Sane.withDecay (h : a.Sane) {decay : Float32} (hd : ConfigUpdate.decayInRange decay) :
    (a.withDecay decay).Sane :=
  ⟨h.bump, isFactor_of_decayInRange hd⟩

end ActivityScale

end ClauseLearning
