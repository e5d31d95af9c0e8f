import ClauseLearning.Decimal
import Mathlib

/-!
# Single precision numbers that are not negative

Such a number is a multiple of the least positive one, `units` of its bits, and greater numbers have greater bits. Sums,
products and quotients are the numbers nearest to the exact results, and rounding keeps the order. So the order of
activities can be told from their bits, adding to an activity never makes it smaller, and scaling activities never
exchanges two of them.

* `BinaryFormat.roundHalfEven` : its order, and fractions in lower terms;
* `Extends`, `toNat_pack_round` : a mantissa that is shifted with two more bits is a quotient that is rounded once;
* `units`, `nearestBits` : what the bits stand for, and the bits of the number nearest to an exact one;
* `IsMagnitude`, `IsFactor` : numbers that are not negative, and positive finite ones;
* `bits_add`, `bits_mul`, `isFactor_div`, `lt_iff` : the operations on bits;
* `le_add`, `mul_mono` : sums are no smaller than their terms, scaling keeps the order;
* `value?`, `IsFactor.value?_eq` : the rational number that a single precision number stands for.
-/

namespace ClauseLearning

open Float.Model Float.Model.UnpackedFloat

namespace BinaryFormat

variable {a b d : Nat}

theorem div_le_roundHalfEven : a / d ≤ roundHalfEven a d := by
  dsimp only [roundHalfEven]
  split
  · exact le_rfl
  · split <;> omega

theorem roundHalfEven_le : roundHalfEven a d ≤ a / d + 1 := by
  dsimp only [roundHalfEven]
  split
  · omega
  · split <;> omega

theorem roundHalfEven_mono (h : a ≤ b) : roundHalfEven a d ≤ roundHalfEven b d := by
  have hq : a / d ≤ b / d := Nat.div_le_div_right h
  rcases hq.eq_or_lt with heq | hlt
  · have hr : a % d ≤ b % d := by
      have ha := Nat.div_add_mod a d
      have hb := Nat.div_add_mod b d
      rw [heq] at ha
      omega
    dsimp only [roundHalfEven]
    rw [heq]
    split <;> split <;> (try split) <;> (try split) <;> omega
  · exact roundHalfEven_le.trans ((Nat.succ_le_of_lt hlt).trans div_le_roundHalfEven)

theorem roundHalfEven_mul_right (a d : Nat) {c : Nat} (hc : 0 < c) :
    roundHalfEven (a * c) (d * c) = roundHalfEven a d := by
  dsimp only [roundHalfEven]
  rw [Nat.mul_div_mul_right a d hc, Nat.mul_mod_mul_right, ← Nat.mul_assoc]
  simp only [Nat.mul_lt_mul_right hc]

theorem roundHalfEven_mul_self (a : Nat) (hd : 0 < d) : roundHalfEven (a * d) d = a := by
  dsimp only [roundHalfEven]
  rw [Nat.mul_div_cancel a hd, Nat.mul_mod_left, if_pos (by omega)]

end BinaryFormat

namespace SinglePrecision

/-! ## The bits that are shifted out -/

/-- The bits after the mantissa say how the rest of the quotient compares with a half. -/
structure Extends (em : ExtendedMantissa) (num den : Nat) : Prop where
  mantissa : em.mantissa = num / den
  roundBit : em.roundBit = decide (den ≤ 2 * (num % den))
  stickyBit : em.stickyBit = decide (2 * (num % den) ≠ 0 ∧ 2 * (num % den) ≠ den)

variable {em : ExtendedMantissa} {num den : Nat}

theorem extends_quotient (hd : 0 < den) :
    Extends (ExtendedMantissa.ofMantissaAndAccuracy (num / den) (accuracyOfFraction (num % den) den)) num den := by
  have hlt : num % den < den := Nat.mod_lt _ hd
  rw [accuracyOfFraction]
  split
  · next h0 => constructor <;> simp [ExtendedMantissa.ofMantissaAndAccuracy, h0]; omega
  · next h0 =>
    rcases lt_trichotomy (2 * (num % den)) den with h | h | h
    · rw [compare_lt_iff_lt.2 h]
      constructor <;> simp [ExtendedMantissa.ofMantissaAndAccuracy] <;> omega
    · rw [compare_eq_iff_eq.2 h]
      constructor <;> simp [ExtendedMantissa.ofMantissaAndAccuracy] <;> omega
    · rw [compare_gt_iff_gt.2 h]
      constructor <;> simp [ExtendedMantissa.ofMantissaAndAccuracy] <;> omega

theorem Extends.shiftRightOne (h : Extends em num den) (hd : 0 < den) :
    Extends em.shiftRightOne num (den * 2) := by
  have hlt : num % den < den := Nat.mod_lt _ hd
  have hmod : num % (den * 2) = num % den + den * (num / den % 2) := Nat.mod_mul
  have hbit : num / den % 2 = 0 ∨ num / den % 2 = 1 := by omega
  constructor
  · simp only [ExtendedMantissa.shiftRightOne, h.mantissa, Nat.div_div_eq_div_mul]
  · simp only [ExtendedMantissa.shiftRightOne, h.mantissa, hmod]
    rcases hbit with hb | hb <;> rw [hb] <;> simp <;> omega
  · simp only [ExtendedMantissa.shiftRightOne, h.roundBit, h.stickyBit, hmod]
    rcases hbit with hb | hb <;> rw [hb, ← Bool.decide_or, decide_eq_decide] <;> omega

theorem Extends.shiftRight (h : Extends em num den) (hd : 0 < den) :
    ∀ n : Nat, Extends (em >>> n) num (den * 2 ^ n)
  | 0 => by rw [Nat.pow_zero, Nat.mul_one]; exact h
  | n + 1 => by
    rw [Nat.pow_succ, ← Nat.mul_assoc]
    exact (h.shiftRight hd n).shiftRightOne (Nat.mul_pos hd (Nat.two_pow_pos n))

theorem Extends.roundedMantissa (h : Extends em num den) (hd : 0 < den) :
    em.roundedMantissa = BinaryFormat.roundHalfEven num den := by
  have hlt : num % den < den := Nat.mod_lt _ hd
  obtain ⟨m, r, s⟩ := em
  obtain ⟨hm, hr, hs⟩ := h
  dsimp only at hm hr hs
  dsimp only [BinaryFormat.roundHalfEven]
  subst hm
  cases r <;> cases s <;>
    simp [ExtendedMantissa.roundedMantissa, ExtendedMantissa.accuracy, Accuracy.roundToNearestEven] at hr hs ⊢ <;>
    (split <;> (try split) <;> omega)

/-! ## The bits of a rounded number -/

theorem toNat_packComponents (k m : Nat) (hk : k < 256) (hm : m < 2 ^ 23) :
    (packComponents .binary32 .positive (BitVec.ofNat 8 k) (BitVec.ofNat 23 m)).toNat = k * 2 ^ 23 + m := by
  have hm' : m % 2 ^ 23 = m := Nat.mod_eq_of_lt hm
  have hk' : k % 2 ^ 8 = k := Nat.mod_eq_of_lt hk
  rw [packComponents, BitVec.toNat_append, BitVec.toNat_append,
    show (Sign.positive.toBitVec).toNat = 0 from rfl, BitVec.toNat_ofNat, BitVec.toNat_ofNat, hm', hk',
    Nat.zero_shiftLeft, Nat.zero_or, ← Nat.shiftLeft_add_eq_or_of_lt hm, Nat.shiftLeft_eq]

/-- The bits of a canonical number. Those that are too large become infinity. -/
theorem toNat_pack_finite {m : Nat} {e : Int} (hm : 0 < m) (he : -149 ≤ e) (hlt : m < 2 ^ 24)
    (hnormal : -149 < e → 2 ^ 23 ≤ m) :
    (UnpackedFloat.pack .binary32 (.finite .positive m e hm)).toNat =
      min infinityBits ((e + 149).toNat * 2 ^ 23 + m) := by
  have hbias : (e + Format.binary32.exponentBias + Format.binary32.mantissaBitsWithoutImplicit).toNat =
      (e + 150).toNat := by
    rw [show ((Format.binary32.exponentBias : Nat) : Int) = 127 from rfl,
      show ((Format.binary32.mantissaBitsWithoutImplicit : Nat) : Int) = 23 from rfl]
    omega
  have hbits : Format.binary32.mantissaBits = 24 := rfl
  have hinf : infinityBits = 255 * 2 ^ 23 := rfl
  rw [UnpackedFloat.pack]
  simp only [hbias, hbits]
  split
  · next h =>
    rw [show (packedInfinity .binary32 .positive).toNat = infinityBits by decide]
    have := hnormal (by omega)
    omega
  · next h =>
    split
    · next hl =>
      have hl : 2 ^ 23 ≤ m := by
        have := Nat.log2_self_le hm.ne'
        rwa [show m.log2 = 23 by omega] at this
      have hm' : BitVec.ofNat 23 m = BitVec.ofNat 23 (m - 2 ^ 23) := by
        apply BitVec.eq_of_toNat_eq
        rw [BitVec.toNat_ofNat, BitVec.toNat_ofNat]
        omega
      rw [hm']
      rw [toNat_packComponents _ _ (by omega) (by omega)]
      omega
    · next hl =>
      have hlt' : m < 2 ^ 23 := by
        by_contra hge
        have h1 : 23 ≤ m.log2 := (Nat.le_log2 hm.ne').2 (by omega)
        have h2 : m.log2 < 24 := (Nat.log2_lt hm.ne').2 hlt
        omega
      have he' : e = -149 := by
        by_contra hne
        have := hnormal (by omega)
        omega
      subst he'
      rw [show (0#8) = BitVec.ofNat 8 0 from rfl, toNat_packComponents _ _ (by omega) hlt']
      omega

theorem shiftRight_mantissa (em : ExtendedMantissa) : ∀ n : Nat, (em >>> n).mantissa = em.mantissa / 2 ^ n
  | 0 => by rw [Nat.pow_zero, Nat.div_one]; rfl
  | n + 1 => by
    have ih := shiftRight_mantissa em n
    rw [Nat.pow_succ, ← Nat.div_div_eq_div_mul, ← ih]
    rfl

theorem targetExponent_eq (m : Nat) (e : Int) :
    Format.binary32.targetExponent (totalExponent m e) = max (m.log2 + e - 23) (-149) := by
  rw [Format.targetExponent, totalExponent, show ((Format.binary32.mantissaBits : Nat) : Int) = 24 from rfl,
    show Format.binary32.minExponent = -149 by decide]
  congr 1
  omega

theorem lt_two_pow_of_log2 {m k : Nat} (h : m.log2 < k) : m < 2 ^ k :=
  lt_of_lt_of_le Nat.lt_log2_self (Nat.pow_le_pow_right (by omega) h)

theorem shift_mantissa (m : Nat) (e : Int) :
    (shiftToTargetExponent .binary32 m e .exact).1.mantissa = m / 2 ^ (max (m.log2 + e - 23) (-149) - e).toNat := by
  rw [shiftToTargetExponent, shiftToExponent, shiftRight_mantissa, targetExponent_eq]
  rfl

theorem shift_exponent (m : Nat) (e : Int) (a : Accuracy) :
    (shiftToTargetExponent .binary32 m e a).2 = max e (max (m.log2 + e - 23) (-149)) := by
  rw [shiftToTargetExponent, shiftToExponent, targetExponent_eq]
  omega

theorem toNat_pack_shifted {r : Nat} {t : Int} (ht : -149 ≤ t) (hr : r ≤ 2 ^ 24) (hnormal : -149 < t → 2 ^ 23 ≤ r)
    (s : ExtendedMantissa × Int) (hs : s = shiftToTargetExponent .binary32 r t .exact) :
    (UnpackedFloat.pack .binary32 (if h : s.1.mantissa = 0 then .zero .positive
      else .finite .positive s.1.mantissa s.2 (Nat.pos_of_ne_zero h))).toNat =
      min infinityBits ((t + 149).toNat * 2 ^ 23 + r) := by
  have hm := shift_mantissa r t
  have he := shift_exponent r t .exact
  rw [← hs] at hm he
  obtain ⟨⟨m, _, _⟩, e⟩ := s
  dsimp only at hm he ⊢
  have hinf : infinityBits = 255 * 2 ^ 23 := rfl
  rcases hr.lt_or_eq with hlt | rfl
  · have hlog : r.log2 ≤ 23 := by
      rcases Nat.eq_zero_or_pos r with rfl | hpos
      · decide
      · exact Nat.le_of_lt_succ ((Nat.log2_lt hpos.ne').2 hlt)
    rw [show (max (r.log2 + t - 23) (-149) - t).toNat = 0 by omega, Nat.pow_zero, Nat.div_one] at hm
    rw [show max t (max (r.log2 + t - 23) (-149)) = t by omega] at he
    subst hm
    subst he
    split
    · next h0 =>
      have := hnormal
      rw [show (UnpackedFloat.pack .binary32 (.zero .positive)).toNat = 0 by decide]
      omega
    · next h0 => exact toNat_pack_finite (Nat.pos_of_ne_zero h0) ht hlt hnormal
  · rw [Nat.log2_two_pow] at hm he
    rw [show (max (((24 : Nat) : Int) + t - 23) (-149) - t).toNat = 1 by omega] at hm
    rw [show max t (max (((24 : Nat) : Int) + t - 23) (-149)) = t + 1 by omega] at he
    subst hm
    subst he
    rw [dif_neg (by decide), toNat_pack_finite (by decide) (by omega) (by decide) (fun _ => by decide)]
    omega

theorem roundWithAccuracy_eq (m : Nat) (e : Int) (a : Accuracy) :
    roundWithAccuracy .binary32 .positive m e a =
      if h : (shiftToTargetExponent .binary32 (shiftToTargetExponent .binary32 m e a).1.roundedMantissa
          (shiftToTargetExponent .binary32 m e a).2 .exact).1.mantissa = 0 then .zero .positive
      else .finite .positive (shiftToTargetExponent .binary32 (shiftToTargetExponent .binary32 m e a).1.roundedMantissa
          (shiftToTargetExponent .binary32 m e a).2 .exact).1.mantissa
        (shiftToTargetExponent .binary32 (shiftToTargetExponent .binary32 m e a).1.roundedMantissa
          (shiftToTargetExponent .binary32 m e a).2 .exact).2 (Nat.pos_of_ne_zero h) := rfl

/-- A quotient is rounded once, at the last place `t` that its size leaves it. -/
theorem toNat_pack_round {num den : Nat} {e t : Int} (hd : 0 < den) (hq : 0 < num / den)
    (ht : t = max ((num / den).log2 + e - 23) (-149)) (he : e ≤ t) :
    (UnpackedFloat.pack .binary32
      (roundWithAccuracy .binary32 .positive (num / den) e (accuracyOfFraction (num % den) den))).toNat =
      min infinityBits ((t + 149).toNat * 2 ^ 23 +
        BinaryFormat.roundHalfEven num (den * 2 ^ (t - e).toNat)) := by
  have hpow : 0 < den * 2 ^ (t - e).toNat := Nat.mul_pos hd (Nat.two_pow_pos _)
  have hround : ((ExtendedMantissa.ofMantissaAndAccuracy (num / den) (accuracyOfFraction (num % den) den)) >>>
      (t - e).toNat).roundedMantissa = BinaryFormat.roundHalfEven num (den * 2 ^ (t - e).toNat) :=
    ((extends_quotient hd).shiftRight hd _).roundedMantissa hpow
  have hdiv : num / (den * 2 ^ (t - e).toNat) = num / den / 2 ^ (t - e).toNat := (Nat.div_div_eq_div_mul _ _ _).symm
  have hupper : num / den / 2 ^ (t - e).toNat < 2 ^ 24 := by
    rw [Nat.div_lt_iff_lt_mul (Nat.two_pow_pos _), ← Nat.pow_add]
    exact lt_two_pow_of_log2 (by omega)
  have hs : shiftToTargetExponent .binary32 (num / den) e (accuracyOfFraction (num % den) den) =
      ((ExtendedMantissa.ofMantissaAndAccuracy (num / den) (accuracyOfFraction (num % den) den)) >>>
        (t - e).toNat, t) := by
    refine Prod.ext ?_ ((shift_exponent ..).trans (by omega))
    rw [shiftToTargetExponent, shiftToExponent, targetExponent_eq, ← ht]
  rw [roundWithAccuracy_eq, hs, hround]
  refine toNat_pack_shifted (by omega) ?_ ?_ _ rfl
  · exact BinaryFormat.roundHalfEven_le.trans (by rw [hdiv]; exact hupper)
  · intro hlt
    refine le_trans ?_ BinaryFormat.div_le_roundHalfEven
    rw [hdiv, Nat.le_div_iff_mul_le (Nat.two_pow_pos _), ← Nat.pow_add]
    refine le_trans ?_ (Nat.log2_self_le hq.ne')
    exact Nat.pow_le_pow_right (by omega) (by omega)

/-! ## Numbers as multiples of the least positive one -/

/-- The exponent of the number with the bits `n`, counted from the least one. -/
def exponent (n : Nat) : Nat := n / 2 ^ 23 - 1

/-- The mantissa of the number with the bits `n`, the hidden bit included. -/
def mantissa (n : Nat) : Nat := n - exponent n * 2 ^ 23

/-- The finite number with the bits `n` is so many times the least positive one. -/
def units (n : Nat) : Nat := mantissa n * 2 ^ exponent n

/-- The bits of the number nearest to `v / 2 ^ p` units, if exponents were not bounded. -/
def nearestBits (p v : Nat) : Nat :=
  (v.log2 - (23 + p)) * 2 ^ 23 + BinaryFormat.roundHalfEven v (2 ^ (p + (v.log2 - (23 + p))))

variable {m n p v w : Nat}

theorem exponent_mantissa (n : Nat) : exponent n * 2 ^ 23 + mantissa n = n := by
  rw [mantissa, exponent]
  omega

theorem mantissa_lt (n : Nat) : mantissa n < 2 ^ 24 := by
  rw [mantissa, exponent]
  omega

theorem le_mantissa (h : 0 < exponent n) : 2 ^ 23 ≤ mantissa n := by
  rw [mantissa]
  rw [exponent] at h ⊢
  omega

theorem mantissa_pos (h : 0 < n) : 0 < mantissa n := by
  rw [mantissa, exponent]
  omega

theorem nearestBits_mono (h : v ≤ w) : nearestBits p v ≤ nearestBits p w := by
  rcases Nat.eq_zero_or_pos v with rfl | hv
  · simp [nearestBits, BinaryFormat.roundHalfEven]
  have hlog : v.log2 ≤ w.log2 := (Nat.le_log2 (by omega)).2 ((Nat.log2_self_le hv.ne').trans h)
  rcases Nat.eq_or_lt_of_le (Nat.sub_le_sub_right hlog (23 + p)) with heq | hlt
  · rw [nearestBits, nearestBits, heq]
    exact Nat.add_le_add_left (BinaryFormat.roundHalfEven_mono h) _
  -- The mantissa on the left is at most the next power of two, the one on the right at least the hidden bit.
  · have hleft : BinaryFormat.roundHalfEven v (2 ^ (p + (v.log2 - (23 + p)))) ≤ 2 ^ 24 := by
      refine BinaryFormat.roundHalfEven_le.trans ?_
      rw [Nat.succ_le_iff, Nat.div_lt_iff_lt_mul (Nat.two_pow_pos _), ← Nat.pow_add]
      exact lt_two_pow_of_log2 (by omega)
    have hright : 2 ^ 23 ≤ BinaryFormat.roundHalfEven w (2 ^ (p + (w.log2 - (23 + p)))) := by
      refine le_trans ?_ BinaryFormat.div_le_roundHalfEven
      rw [Nat.le_div_iff_mul_le (Nat.two_pow_pos _), ← Nat.pow_add]
      refine le_trans ?_ (Nat.log2_self_le (by omega))
      exact Nat.pow_le_pow_right (by omega) (by omega)
    rw [nearestBits, nearestBits]
    omega

theorem log2_mul_two_pow (h : 0 < v) (k : Nat) : (v * 2 ^ k).log2 = v.log2 + k := by
  rw [Nat.log2_eq_iff (Nat.mul_pos h (Nat.two_pow_pos k)).ne', Nat.pow_add]
  have hlow := Nat.log2_self_le h.ne'
  have hhigh := @Nat.lt_log2_self v
  refine ⟨Nat.mul_le_mul_right _ hlow, ?_⟩
  calc v * 2 ^ k < 2 ^ (v.log2 + 1) * 2 ^ k := Nat.mul_lt_mul_of_pos_right hhigh (Nat.two_pow_pos _)
    _ = 2 ^ (v.log2 + k + 1) := by rw [← Nat.pow_add]; congr 1; omega

theorem nearestBits_units (p n : Nat) : nearestBits p (units n * 2 ^ p) = n := by
  rcases Nat.eq_zero_or_pos n with rfl | hn
  · simp [nearestBits, units, mantissa, BinaryFormat.roundHalfEven]
  have hm := mantissa_pos hn
  have hlt : (mantissa n).log2 ≤ 23 := Nat.le_of_lt_succ ((Nat.log2_lt hm.ne').2 (mantissa_lt n))
  have hlog : (units n * 2 ^ p).log2 = (mantissa n).log2 + exponent n + p := by
    rw [units, Nat.mul_assoc, ← Nat.pow_add, log2_mul_two_pow hm, Nat.add_assoc]
  have hshift : (units n * 2 ^ p).log2 - (23 + p) = exponent n := by
    rw [hlog]
    rcases Nat.eq_zero_or_pos (exponent n) with h0 | hpos
    · omega
    · have := (Nat.le_log2 hm.ne').2 (le_mantissa hpos)
      omega
  rw [nearestBits, hshift, units, Nat.mul_assoc, ← Nat.pow_add, Nat.add_comm p,
    BinaryFormat.roundHalfEven_mul_self _ (Nat.two_pow_pos _), exponent_mantissa]

theorem nearestBits_zero_units (n : Nat) : nearestBits 0 (units n) = n := by simpa using nearestBits_units 0 n

theorem units_le_iff : units m ≤ units n ↔ m ≤ n := by
  constructor
  · intro h
    have := nearestBits_mono (p := 0) h
    rwa [nearestBits_zero_units, nearestBits_zero_units] at this
  · intro h
    by_contra hlt
    have := nearestBits_mono (p := 0) (Nat.le_of_lt (Nat.lt_of_not_le hlt))
    rw [nearestBits_zero_units, nearestBits_zero_units] at this
    rw [Nat.le_antisymm this h] at hlt
    exact hlt le_rfl

/-! ## Unpacking -/

section

variable (b : BitVec 32)

theorem toNat_unpackMantissa : (@unpackMantissa .binary32 b).toNat = b.toNat % 2 ^ 23 := by
  rw [unpackMantissa, BitVec.toNat_cast, BitVec.extractLsb, BitVec.extractLsb'_toNat, Nat.shiftRight_zero]
  rfl

theorem toNat_unpackExponent : (@unpackExponent .binary32 b).toNat = b.toNat / 2 ^ 23 % 2 ^ 8 := by
  rw [unpackExponent, BitVec.toNat_cast, BitVec.extractLsb, BitVec.extractLsb'_toNat, Nat.shiftRight_eq_div_pow]
  rfl

theorem toNat_unpackSign : (@unpackSign .binary32 b).toNat = b.toNat / 2 ^ 31 % 2 := by
  rw [unpackSign, BitVec.toNat_cast, BitVec.extractLsb, BitVec.extractLsb'_toNat, Nat.shiftRight_eq_div_pow]
  rfl


theorem sign_unpackSign :
    Sign.ofBitVec (@unpackSign .binary32 b) = if b.toNat < 2 ^ 31 then .positive else .negative := by
  have hlt := b.isLt
  have hs := toNat_unpackSign b
  rw [Sign.ofBitVec]
  refine if_congr ?_ rfl rfl
  rw [← BitVec.toNat_inj, hs, show (0#1).toNat = 0 from rfl]
  omega

theorem unpackExponent_eq_iff {k : Nat} (hk : k < 256) :
    @unpackExponent .binary32 b = BitVec.ofNat 8 k ↔ b.toNat / 2 ^ 23 % 2 ^ 8 = k := by
  rw [← BitVec.toNat_inj, toNat_unpackExponent, BitVec.toNat_ofNat]
  show _ = k % 2 ^ 8 ↔ _
  rw [Nat.mod_eq_of_lt (show k < 2 ^ 8 from hk)]

theorem unpackMantissa_eq_iff : @unpackMantissa .binary32 b = 0#23 ↔ b.toNat % 2 ^ 23 = 0 := by
  rw [← BitVec.toNat_inj, toNat_unpackMantissa, show (0#23).toNat = 0 from rfl]

/-- The numbers as their bits say: infinite ones and none at all, then zeros and subnormal ones, then normal ones. -/
theorem unpack_eq (s : Sign) (hs : s = if b.toNat < 2 ^ 31 then .positive else .negative) :
    UnpackedFloat.unpack .binary32 b =
      if b.toNat / 2 ^ 23 % 2 ^ 8 = 255 then if b.toNat % 2 ^ 23 = 0 then .infinity s else .notANumber
      else if b.toNat / 2 ^ 23 % 2 ^ 8 = 0 then
        if h : b.toNat % 2 ^ 23 = 0 then .zero s else .finite s (b.toNat % 2 ^ 23) (-149) (Nat.pos_of_ne_zero h)
      else .finite s (2 ^ 23 + b.toNat % 2 ^ 23) ((b.toNat / 2 ^ 23 % 2 ^ 8 : Nat) - 150) (by omega) := by
  have hbias : ((Format.binary32.exponentBias : Nat) : Int) = 127 := rfl
  have hbits : ((Format.binary32.mantissaBitsWithoutImplicit : Nat) : Int) = 23 := rfl
  have hm := toNat_unpackMantissa b
  have he := toNat_unpackExponent b
  rw [← sign_unpackSign] at hs
  subst hs
  rw [UnpackedFloat.unpack]
  simp only [hbias, hbits, show -1#8 = 255#8 by decide]
  by_cases h255 : b.toNat / 2 ^ 23 % 2 ^ 8 = 255
  · rw [if_pos h255, if_pos ((unpackExponent_eq_iff b (by omega)).2 h255)]
    exact if_congr (unpackMantissa_eq_iff b) rfl rfl
  rw [if_neg h255, if_neg (mt (unpackExponent_eq_iff b (by omega)).1 h255)]
  by_cases h0 : b.toNat / 2 ^ 23 % 2 ^ 8 = 0
  · rw [if_pos h0, if_pos ((unpackExponent_eq_iff b (by omega)).2 h0)]
    by_cases hm0 : b.toNat % 2 ^ 23 = 0
    · rw [dif_pos hm0, dif_pos ((unpackMantissa_eq_iff b).2 hm0)]
    · rw [dif_neg hm0, dif_neg (mt (unpackMantissa_eq_iff b).1 hm0)]
      congr 1
      rw [he, h0]
      rfl
  · rw [if_neg h0, if_neg (mt (unpackExponent_eq_iff b (by omega)).1 h0)]
    congr 1
    · rw [BitVec.toNat_append, ← Nat.shiftLeft_add_eq_or_of_lt (BitVec.isLt _), hm, Nat.shiftLeft_eq]
      rfl
    · rw [he]
      omega

variable {b : BitVec 32}

theorem unpack_infinity (hb : b.toNat = infinityBits) : UnpackedFloat.unpack .binary32 b = .infinity .positive := by
  rw [show b = BitVec.ofNat 32 infinityBits from BitVec.eq_of_toNat_eq hb]
  rfl

theorem unpack_zero (hb : b.toNat = 0) : UnpackedFloat.unpack .binary32 b = .zero .positive := by
  rw [show b = BitVec.ofNat 32 0 from BitVec.eq_of_toNat_eq hb]
  rfl

theorem unpack_finite (h0 : 0 < b.toNat) (hb : b.toNat < infinityBits) :
    UnpackedFloat.unpack .binary32 b =
      .finite .positive (mantissa b.toNat) (exponent b.toNat - 149) (mantissa_pos h0) := by
  have hinf : infinityBits = 255 * 2 ^ 23 := rfl
  rw [unpack_eq b .positive (by rw [if_pos]; omega), if_neg (by omega)]
  split
  · rw [dif_neg (by omega)]
    congr 1 <;> simp only [mantissa, exponent] <;> omega
  · congr 1 <;> simp only [mantissa, exponent] <;> omega

theorem le_infinityBits_of_unpack (h : UnpackedFloat.unpack .binary32 b = .infinity .positive ∨
    ∃ m e hm, UnpackedFloat.unpack .binary32 b = .finite .positive m e hm) : b.toNat ≤ infinityBits := by
  have hinf : infinityBits = 255 * 2 ^ 23 := rfl
  have hlt := b.isLt
  rw [unpack_eq b _ rfl] at h
  by_cases hsign : b.toNat < 2 ^ 31
  · by_contra hgt
    rw [if_pos (by omega), if_neg (by omega)] at h
    obtain h | ⟨m, e, hm, h⟩ := h <;> cases h
  · rw [if_neg hsign] at h
    split at h
    · split at h <;> obtain h | ⟨m, e, hm, h⟩ := h <;> cases h
    · split at h
      · split at h <;> obtain h | ⟨m, e, hm, h⟩ := h <;> cases h
      · obtain h | ⟨m, e, hm, h⟩ := h <;> cases h

end

/-! ## Operations -/

/-- The bits as a number. -/
def bits (x : Float32) : Nat := x.toBits.toNat

theorem bits_inj {x y : Float32} (h : bits x = bits y) : x = y := by
  obtain ⟨⟨x, hx⟩⟩ := x
  obtain ⟨⟨y, hy⟩⟩ := y
  have : x = y := UInt32.toNat_inj.1 h
  subst this
  rfl

/-- A number that is not negative, or infinity. -/
def IsMagnitude (x : Float32) : Prop := bits x ≤ infinityBits

instance (x : Float32) : Decidable (IsMagnitude x) := inferInstanceAs (Decidable (_ ≤ _))

variable {x y z : Float32}

theorem unpack_bits_zero (h : bits x = 0) : x.toModel.unpack = .zero .positive := unpack_zero h

theorem unpack_bits_finite (h0 : 0 < bits x) (h : bits x < infinityBits) :
    x.toModel.unpack = .finite .positive (mantissa (bits x)) (exponent (bits x) - 149) (mantissa_pos h0) :=
  unpack_finite h0 h

theorem unpack_bits_infinity (h : bits x = infinityBits) : x.toModel.unpack = .infinity .positive :=
  unpack_infinity h

theorem nearestBits_infinity (p : Nat) (h : units infinityBits * 2 ^ p ≤ v) : infinityBits ≤ nearestBits p v := by
  have := nearestBits_mono (p := p) h
  rwa [nearestBits_units] at this

/-- Rounding to the nearest number. The exponent `e` is that of the last place of `m`. -/
theorem toNat_pack_nearest {m k p : Nat} {e : Int} (hm : 0 < m) (he : e = k - (149 + p : Nat))
    (hle : e ≤ max (m.log2 + e - 23) (-149)) :
    (UnpackedFloat.pack .binary32 (roundWithAccuracy .binary32 .positive m e .exact)).toNat =
      min infinityBits (nearestBits p (m * 2 ^ k)) := by
  have hround := toNat_pack_round (e := e) Nat.one_pos (by rwa [Nat.div_one] : 0 < m / 1) (by rw [Nat.div_one]) hle
  rw [Nat.div_one, Nat.mod_one, show accuracyOfFraction 0 1 = .exact from rfl, Nat.one_mul] at hround
  rw [hround]
  have hlog := log2_mul_two_pow hm k
  have hplace : (max (m.log2 + e - 23) (-149) + 149).toNat = (m * 2 ^ k).log2 - (23 + p) := by
    rw [hlog]
    omega
  have hpow : 2 ^ (p + ((m * 2 ^ k).log2 - (23 + p))) = 2 ^ (max (m.log2 + e - 23) (-149) - e).toNat * 2 ^ k := by
    rw [← Nat.pow_add]
    congr 1
    omega
  rw [hplace, nearestBits, hpow, BinaryFormat.roundHalfEven_mul_right _ _ (Nat.two_pow_pos k)]

theorem IsMagnitude.cases (h : IsMagnitude x) :
    bits x = 0 ∨ (0 < bits x ∧ bits x < infinityBits) ∨ bits x = infinityBits := by
  rw [IsMagnitude] at h
  omega

theorem toNat_pack_self (h0 : 0 < bits x) (h : bits x < infinityBits) :
    (UnpackedFloat.pack .binary32 (.finite .positive (mantissa (bits x)) (exponent (bits x) - 149)
      (mantissa_pos h0))).toNat = bits x := by
  rw [toNat_pack_finite (mantissa_pos h0) (by omega) (mantissa_lt _) (fun he => le_mantissa (by omega))]
  have := exponent_mantissa (bits x)
  omega

theorem decreaseExponent_eq {m e e' : Nat} (h : e' ≤ e) :
    decreaseExponent m ((e : Int) - 149) (e' - 149) = (m * 2 ^ (e - e'), (e' : Int) - 149) := by
  have hshift : ((e : Int) - 149 - (e' - 149)).toNat = e - e' := by omega
  dsimp only [decreaseExponent]
  rw [hshift, Nat.shiftLeft_eq]
  congr 1
  omega

theorem toNat_pack_normalize {m e : Nat} (hm : 0 < m) :
    (UnpackedFloat.pack .binary32 (UnpackedFloat.normalize .binary32 (m : Int) ((e : Int) - 149) .positive)).toNat =
      min infinityBits (nearestBits 0 (m * 2 ^ e)) := by
  have hcmp : compare (m : Int) 0 = .gt := compare_gt_iff_gt.2 (by omega)
  rw [UnpackedFloat.normalize, hcmp]
  dsimp only
  rw [Int.toNat_natCast, UnpackedFloat.round, targetExponent_eq]
  dsimp only [decreaseExponent]
  rw [Nat.shiftLeft_eq]
  have hlog := log2_mul_two_pow hm ((e : Int) - 149 - max (m.log2 + ((e : Int) - 149) - 23) (-149)).toNat
  generalize hs : ((e : Int) - 149 - max (m.log2 + ((e : Int) - 149) - 23) (-149)).toNat = s at hlog ⊢
  have hround := toNat_pack_nearest (m := m * 2 ^ s) (k := e - s) (p := 0) (e := (e : Int) - 149 - s)
    (Nat.mul_pos hm (Nat.two_pow_pos s)) (by omega) (by rw [hlog]; omega)
  rw [hround, Nat.mul_assoc, ← Nat.pow_add, Nat.add_sub_cancel' (by omega)]

theorem toNat_pack_add_finite (h0 : 0 < m) (h1 : 0 < n) :
    (UnpackedFloat.pack .binary32 (UnpackedFloat.add .binary32
      (.finite .positive (mantissa m) (exponent m - 149) (mantissa_pos h0))
      (.finite .positive (mantissa n) (exponent n - 149) (mantissa_pos h1)))).toNat =
      min infinityBits (nearestBits 0 (units m + units n)) := by
  have hmin : min ((exponent m : Int) - 149) (exponent n - 149) = (min (exponent m) (exponent n) : Nat) - 149 := by
    omega
  have hsum : units m + units n = (mantissa m * 2 ^ (exponent m - min (exponent m) (exponent n)) +
      mantissa n * 2 ^ (exponent n - min (exponent m) (exponent n))) * 2 ^ min (exponent m) (exponent n) := by
    rw [Nat.add_mul, Nat.mul_assoc, Nat.mul_assoc, ← Nat.pow_add, ← Nat.pow_add,
      Nat.sub_add_cancel (Nat.min_le_left ..), Nat.sub_add_cancel (Nat.min_le_right ..), units, units]
  have hpos : 0 < mantissa m * 2 ^ (exponent m - min (exponent m) (exponent n)) :=
    Nat.mul_pos (mantissa_pos h0) (Nat.two_pow_pos _)
  rw [UnpackedFloat.add, hmin, decreaseExponent_eq (Nat.min_le_left ..), decreaseExponent_eq (Nat.min_le_right ..),
    hsum, ← toNat_pack_normalize (by omega)]
  rfl

/-- A sum is the number nearest to the exact one. -/
theorem bits_add (hx : IsMagnitude x) (hy : IsMagnitude y) :
    bits (x + y) = min infinityBits (nearestBits 0 (units (bits x) + units (bits y))) := by
  have hadd : bits (x + y) =
      (UnpackedFloat.pack .binary32 (UnpackedFloat.add .binary32 x.toModel.unpack y.toModel.unpack)).toNat := rfl
  have hzero : units 0 = 0 := by decide
  rw [hadd]
  rcases hx.cases with hx0 | ⟨hx0, hxf⟩ | hxi
  · rw [unpack_bits_zero hx0, hx0, hzero, Nat.zero_add, nearestBits_zero_units]
    rcases hy.cases with hy0 | ⟨hy0, hyf⟩ | hyi
    · rw [unpack_bits_zero hy0, hy0]
      decide
    · rw [unpack_bits_finite hy0 hyf]
      exact (toNat_pack_self hy0 hyf).trans (by omega)
    · rw [unpack_bits_infinity hyi, hyi]
      decide
  · rw [unpack_bits_finite hx0 hxf]
    rcases hy.cases with hy0 | ⟨hy0, hyf⟩ | hyi
    · rw [unpack_bits_zero hy0, hy0, hzero, Nat.add_zero, nearestBits_zero_units]
      exact (toNat_pack_self hx0 hxf).trans (by omega)
    · rw [unpack_bits_finite hy0 hyf]
      exact toNat_pack_add_finite hx0 hy0
    · rw [unpack_bits_infinity hyi]
      have := nearestBits_infinity (v := units (bits x) + units (bits y)) 0 (by rw [hyi]; omega)
      rw [Nat.min_eq_left this]
      rfl
  · rw [unpack_bits_infinity hxi]
    have hle := nearestBits_infinity (v := units (bits x) + units (bits y)) 0 (by rw [hxi]; omega)
    rw [Nat.min_eq_left hle]
    rcases hy.cases with hy0 | ⟨hy0, hyf⟩ | hyi
    · rw [unpack_bits_zero hy0]
      decide
    · rw [unpack_bits_finite hy0 hyf]
      rfl
    · rw [unpack_bits_infinity hyi]
      decide

/-- A product is the number nearest to the exact one. -/
theorem bits_mul (hx : bits x < infinityBits) (hy : bits y < infinityBits) :
    bits (x * y) = min infinityBits (nearestBits 149 (units (bits x) * units (bits y))) := by
  have hmul : bits (x * y) =
      (UnpackedFloat.pack .binary32 (UnpackedFloat.mul .binary32 x.toModel.unpack y.toModel.unpack)).toNat := rfl
  have hzero : units 0 = 0 := by decide
  rw [hmul]
  rcases Nat.eq_zero_or_pos (bits x) with hx0 | hx0
  · rw [unpack_bits_zero hx0, hx0, hzero, Nat.zero_mul]
    rcases Nat.eq_zero_or_pos (bits y) with hy0 | hy0
    · rw [unpack_bits_zero hy0]
      decide
    · rw [unpack_bits_finite hy0 hy]
      rfl
  rw [unpack_bits_finite hx0 hx]
  rcases Nat.eq_zero_or_pos (bits y) with hy0 | hy0
  · rw [unpack_bits_zero hy0, hy0, hzero, Nat.mul_zero]
    rfl
  rw [unpack_bits_finite hy0 hy]
  have hmx := mantissa_pos hx0
  have hmy := mantissa_pos hy0
  have hexact : units (bits x) * units (bits y) =
      mantissa (bits x) * mantissa (bits y) * 2 ^ (exponent (bits x) + exponent (bits y)) := by
    rw [units, units, Nat.pow_add]
    ring
  -- The product has all places of the result, since a factor without the hidden bit has the least exponent.
  have hplaces : exponent (bits x) + exponent (bits y) ≤ (mantissa (bits x) * mantissa (bits y)).log2 +
      (exponent (bits x) + exponent (bits y)) - 23 ∨ exponent (bits x) + exponent (bits y) ≤ 149 := by
    have hle := Nat.mul_le_mul (le_refl (mantissa (bits x))) (Nat.one_le_iff_ne_zero.2 hmy.ne')
    have hle' := Nat.mul_le_mul (Nat.one_le_iff_ne_zero.2 hmx.ne') (le_refl (mantissa (bits y)))
    rcases Nat.eq_zero_or_pos (exponent (bits x)) with hex | hex
    · rcases Nat.eq_zero_or_pos (exponent (bits y)) with hey | hey
      · omega
      · have := (Nat.le_log2 (Nat.mul_pos hmx hmy).ne').2 ((le_mantissa hey).trans (by omega))
        omega
    · have := (Nat.le_log2 (Nat.mul_pos hmx hmy).ne').2 ((le_mantissa hex).trans (by omega))
      omega
  rw [hexact]
  exact toNat_pack_nearest (e := exponent (bits x) - 149 + (exponent (bits y) - 149)) (Nat.mul_pos hmx hmy) (by omega)
    (by omega)

theorem lt_iff_compare : x < y ↔ x.toModel.unpack.compare y.toModel.unpack = some .lt := by
  show (x.lt y : Bool) = true ↔ _
  rw [Float32.lt, decide_eq_true_iff]
  show (x.toModel.unpack.lt y.toModel.unpack : Bool) = true ↔ _
  exact beq_iff_eq

/-- Numbers that are not negative are ordered as their bits. -/
theorem lt_iff (hx : IsMagnitude x) (hy : IsMagnitude y) : x < y ↔ bits x < bits y := by
  rw [lt_iff_compare]
  rcases hx.cases with hx0 | ⟨hx0, hxf⟩ | hxi
  · rw [unpack_bits_zero hx0]
    rcases hy.cases with hy0 | ⟨hy0, hyf⟩ | hyi
    · rw [unpack_bits_zero hy0, hx0, hy0]
      decide
    · rw [unpack_bits_finite hy0 hyf, hx0]
      exact iff_of_true rfl hy0
    · rw [unpack_bits_infinity hyi, hx0, hyi]
      decide
  · rw [unpack_bits_finite hx0 hxf]
    rcases hy.cases with hy0 | ⟨hy0, hyf⟩ | hyi
    · rw [unpack_bits_zero hy0, hy0]
      exact iff_of_false (fun h => nomatch h) (Nat.not_lt_zero _)
    · rw [unpack_bits_finite hy0 hyf]
      have hxe := exponent_mantissa (bits x)
      have hye := exponent_mantissa (bits y)
      have hxm := mantissa_lt (bits x)
      have hym := mantissa_lt (bits y)
      have hxn : 0 < exponent (bits x) → _ := le_mantissa
      have hyn : 0 < exponent (bits y) → _ := le_mantissa
      simp only [UnpackedFloat.compare, Option.some.injEq, Ordering.then_eq_lt, compare_lt_iff_lt, compare_eq_iff_eq]
      omega
    · rw [unpack_bits_infinity hyi, hyi]
      exact iff_of_true rfl hxf
  · rw [unpack_bits_infinity hxi, hxi]
    refine iff_of_false ?_ (Nat.not_lt.2 hy)
    rcases hy.cases with hy0 | ⟨hy0, hyf⟩ | hyi
    · rw [unpack_bits_zero hy0]
      decide
    · rw [unpack_bits_finite hy0 hyf]
      exact fun h => nomatch h
    · rw [unpack_bits_infinity hyi]
      decide

theorem IsMagnitude.of_lt (hx : IsMagnitude x) (h : x < y) : IsMagnitude y := by
  rw [lt_iff_compare] at h
  refine le_infinityBits_of_unpack (b := y.toModel.toBits.toBitVec) ?_
  change y.toModel.unpack = _ ∨ ∃ m e hm, y.toModel.unpack = _
  generalize y.toModel.unpack = u at h ⊢
  have hne : ∀ {v : UnpackedFloat}, v = .zero .positive ∨ v = .infinity .positive ∨
      (∃ m e hm, v = .finite .positive m e hm) → v.compare u = some .lt →
      u = .infinity .positive ∨ ∃ m e hm, u = .finite .positive m e hm := by
    rintro v hv hlt
    rcases u with s | _ | s | ⟨s, m, e, hm⟩ <;> try rcases s
    all_goals first
      | exact Or.inl rfl
      | exact Or.inr ⟨_, _, _, rfl⟩
      | (obtain rfl | rfl | ⟨_, _, _, rfl⟩ := hv <;> cases hlt)
  rcases hx.cases with hx0 | ⟨hx0, hxf⟩ | hxi
  · exact hne (Or.inl (unpack_bits_zero hx0)) h
  · exact hne (Or.inr (Or.inr ⟨_, _, _, unpack_bits_finite hx0 hxf⟩)) h
  · exact hne (Or.inr (Or.inl (unpack_bits_infinity hxi))) h

theorem IsMagnitude.add (hx : IsMagnitude x) (hy : IsMagnitude y) : IsMagnitude (x + y) := by
  rw [IsMagnitude, bits_add hx hy]
  exact Nat.min_le_left ..

theorem le_add (hx : IsMagnitude x) (hy : IsMagnitude y) : bits x ≤ bits (x + y) := by
  rw [bits_add hx hy]
  refine le_min hx ?_
  have hle := nearestBits_mono (p := 0) (Nat.le_add_right (units (bits x)) (units (bits y)))
  rwa [nearestBits_zero_units] at hle

/-- A positive number other than infinity. -/
def IsFactor (x : Float32) : Prop := 0 < bits x ∧ bits x < infinityBits

instance (x : Float32) : Decidable (IsFactor x) := inferInstanceAs (Decidable (_ ∧ _))

theorem bits_infinity_mul (hx : bits x = infinityBits) (hy : IsFactor y) : bits (x * y) = infinityBits := by
  have hmul : bits (x * y) =
      (UnpackedFloat.pack .binary32 (UnpackedFloat.mul .binary32 x.toModel.unpack y.toModel.unpack)).toNat := rfl
  rw [hmul, unpack_bits_infinity hx, unpack_bits_finite hy.1 hy.2]
  rfl

theorem IsMagnitude.mul (hx : IsMagnitude x) (hy : IsFactor y) : IsMagnitude (x * y) := by
  rcases Nat.lt_or_eq_of_le hx with hlt | heq
  · rw [IsMagnitude, bits_mul hlt hy.2]
    exact Nat.min_le_left ..
  · exact (bits_infinity_mul heq hy).le

/-- **Scaling keeps the order**, though it may make different numbers equal. -/
theorem mul_mono (hy : IsMagnitude y) (hz : IsFactor z) (h : bits x ≤ bits y) : bits (x * z) ≤ bits (y * z) := by
  rcases Nat.lt_or_eq_of_le hy with hlt | heq
  · rw [bits_mul (h.trans_lt hlt) hz.2, bits_mul hlt hz.2]
    exact min_le_min_left _ (nearestBits_mono (Nat.mul_le_mul_right _ (units_le_iff.2 h)))
  · rw [bits_infinity_mul heq hz]
    exact IsMagnitude.mul (h.trans hy) hz

theorem totalExponent_div (m₁ m₂ : Nat) (e₁ e₂ : Int) :
    Format.binary32.targetExponent (totalExponent m₁ e₁ - totalExponent m₂ e₂) =
      max ((m₁.log2 : Int) + e₁ - (m₂.log2 + e₂) - 24) (-149) := by
  rw [Format.targetExponent, totalExponent, totalExponent,
    show ((Format.binary32.mantissaBits : Nat) : Int) = 24 from rfl,
    show Format.binary32.minExponent = -149 by decide]
  congr 1
  omega

theorem toNat_pack_div {m₁ m₂ k : Nat} {e₁ e₂ e : Int} {h₁ : 0 < m₁} {h₂ : 0 < m₂}
    (he : e = min (e₁ - e₂) (max ((m₁.log2 : Int) + e₁ - (m₂.log2 + e₂) - 24) (-149)))
    (hk : k = (e₁ - e₂ - e).toNat) (hq : 0 < m₁ * 2 ^ k / m₂)
    (hle : e ≤ max ((m₁ * 2 ^ k / m₂).log2 + e - 23) (-149)) :
    (UnpackedFloat.pack .binary32 (UnpackedFloat.div .binary32 (.finite .positive m₁ e₁ h₁)
      (.finite .positive m₂ e₂ h₂))).toNat =
      min infinityBits ((max ((m₁ * 2 ^ k / m₂).log2 + e - 23) (-149) + 149).toNat * 2 ^ 23 +
        BinaryFormat.roundHalfEven (m₁ * 2 ^ k)
          (m₂ * 2 ^ (max ((m₁ * 2 ^ k / m₂).log2 + e - 23) (-149) - e).toNat)) := by
  have hcore : divCore .binary32 m₁ e₁ m₂ e₂ =
      (m₁ * 2 ^ k / m₂, e, accuracyOfFraction (m₁ * 2 ^ k % m₂) m₂) := by
    rw [divCore, totalExponent_div, ← he, ← hk, Nat.shiftLeft_eq]
  rw [← toNat_pack_round h₂ hq rfl hle, UnpackedFloat.div, hcore]
  rfl

theorem log2_mantissa (h : 0 < exponent n) : (mantissa n).log2 = 23 := by
  have hge := le_mantissa h
  have h1 := (Nat.le_log2 (by omega)).2 hge
  have h2 := (Nat.log2_lt (by omega)).2 (mantissa_lt n)
  omega

/-- Quotients of numbers that have hidden bits, when the result is in the middle of the range. -/
theorem isFactor_div (hx : bits x < infinityBits) (hy : 0 < exponent (bits y))
    (hle : exponent (bits y) ≤ exponent (bits x)) (hge : exponent (bits x) ≤ exponent (bits y) + 24) :
    IsFactor (x / y) := by
  have hinf : infinityBits = 255 * 2 ^ 23 := rfl
  have hpos : ∀ n, 0 < exponent n → 0 < n := fun n h => by
    rw [exponent] at h
    omega
  have hyf : bits y < infinityBits := by
    rw [exponent, exponent] at hle hge
    omega
  have hdiv : bits (x / y) = (UnpackedFloat.pack .binary32 (UnpackedFloat.div .binary32
      x.toModel.unpack y.toModel.unpack)).toNat := rfl
  rw [unpack_bits_finite (hpos _ (by omega)) hx, unpack_bits_finite (hpos _ hy) hyf] at hdiv
  have hmy := mantissa_pos (hpos _ hy)
  have hmx := mantissa_lt (bits x)
  have hmy' := mantissa_lt (bits y)
  have hnx := le_mantissa (n := bits x) (by omega)
  have hny := le_mantissa hy
  have hq1 : 2 ^ 23 ≤ mantissa (bits x) * 2 ^ 24 / mantissa (bits y) := by
    rw [Nat.le_div_iff_mul_le hmy]
    omega
  have hq2 : mantissa (bits x) * 2 ^ 24 / mantissa (bits y) < 2 ^ 25 := by
    rw [Nat.div_lt_iff_lt_mul hmy]
    omega
  have hlog1 := (Nat.le_log2 (by omega)).2 hq1
  have hlog2 := (Nat.log2_lt (by omega)).2 hq2
  rw [toNat_pack_div (k := 24) (e := (exponent (bits x) : Int) - exponent (bits y) - 24)
    (by rw [log2_mantissa hy, log2_mantissa (by omega)]; omega) (by omega) (by omega) (by omega)] at hdiv
  have hround : ∀ d, BinaryFormat.roundHalfEven (mantissa (bits x) * 2 ^ 24) (mantissa (bits y) * 2 ^ d) ≤
      mantissa (bits x) * 2 ^ 24 / mantissa (bits y) + 1 := fun d =>
    BinaryFormat.roundHalfEven_le.trans (Nat.succ_le_succ
      (Nat.div_le_div_left (Nat.le_mul_of_pos_right _ (Nat.two_pow_pos d)) hmy))
  have hr := hround (max (((mantissa (bits x) * 2 ^ 24 / mantissa (bits y)).log2 : Int) +
    ((exponent (bits x) : Int) - exponent (bits y) - 24) - 23) (-149) -
      ((exponent (bits x) : Int) - exponent (bits y) - 24)).toNat
  rw [IsFactor, hdiv]
  omega

theorem isFactor_inverse (hlow : 0x3d800000 ≤ bits x) (hhigh : bits x < 0x3f800000) : IsFactor (1 / x) := by
  have h1 : bits (1 : Float32) = 0x3f800000 := by decide +kernel
  apply isFactor_div
  · rw [h1]; decide
  all_goals
    simp only [exponent, h1]
    omega

/-! ## Values -/

/-- The number that a single precision number stands for, if it is finite. -/
def value? (x : Float32) : Option ℚ :=
  match x.toModel.unpack with
  | .zero _ => some 0
  | .finite .positive m e _ => some (m * 2 ^ e)
  | .finite .negative m e _ => some (-(m * 2 ^ e))
  | .infinity _ => none
  | .notANumber => none

theorem IsFactor.value?_eq (h : IsFactor x) : value? x = some ((units (bits x) : ℚ) * 2 ^ (-149 : ℤ)) := by
  rw [value?, unpack_bits_finite h.1 h.2]
  dsimp only
  rw [Int.sub_eq_add_neg, zpow_add₀ two_ne_zero, units, zpow_natCast, Nat.cast_mul, Nat.cast_pow, Nat.cast_ofNat,
    mul_assoc]

theorem isFactor_of_value? {q : ℚ} (h : value? x = some q) (hq : 0 < q) : IsFactor x := by
  have hmag (hinf : x.toModel.unpack = .infinity .positive ∨ ∃ m e hm, x.toModel.unpack = .finite .positive m e hm) :
      IsMagnitude x := le_infinityBits_of_unpack hinf
  unfold value? at h
  split at h
  · cases h
    exact absurd hq (lt_irrefl 0)
  · next m e hm hu =>
    rcases (hmag (.inr ⟨m, e, hm, hu⟩)).cases with h0 | hf | hinf
    · rw [unpack_bits_zero h0] at hu
      cases hu
    · exact hf
    · rw [unpack_bits_infinity hinf] at hu
      cases hu
  · next m e hm _ =>
    cases h
    have : (0 : ℚ) < m * 2 ^ e := mul_pos (Nat.cast_pos.2 hm) (zpow_pos two_pos e)
    linarith
  · cases h
  · cases h

theorem units_mul_lt_iff : (units m : ℚ) * 2 ^ (-149 : ℤ) < (units n : ℚ) * 2 ^ (-149 : ℤ) ↔ m < n := by
  rw [mul_lt_mul_iff_left₀ (zpow_pos two_pos _), Nat.cast_lt, ← not_le, units_le_iff, not_le]

end SinglePrecision
end ClauseLearning
