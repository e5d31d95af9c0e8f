import ClauseLearning.Proofs.LubyRestarts

/-!
# The sequence by blocks

The terms come in blocks. A block of `2 ^ (k + 1) - 1` terms ends with the power `2 ^ k`, and before that it is the
block of `2 ^ k - 1` terms twice.

* `luby` : the sequence by these blocks, counted from 1;
* `Luby.after_block`, `Luby.after_shifted` : a block leads from one multiple of a power of two to the next, and does not
  depend on where it begins;
* `Luby.power_after` : the generator yields this sequence;
* `LubyWords` : the generator in words of 64 bits, where the lowest set bit is found by a wrapping negation
  (`lowestSetBit_eq_iff`);
* `LubyWords.Holds.next` : as long as the terms are below half of the range, words are enough;
* `terms_eq_luby` : the sequence, by both generators.
-/

namespace ClauseLearning

/-! ## Blocks -/

/-- The reluctant doubling sequence, counted from 1. The last term of a block is a power of two, the others are those of
the block of half the length. -/
def luby (i : Nat) : Nat :=
  if i ≤ 1 then 1
  else if i + 1 = 2 ^ (i.log2 + 1) then 2 ^ i.log2
  else luby (i - 2 ^ i.log2 + 1)
termination_by i
decreasing_by
  have hpow : 2 ^ 1 ≤ 2 ^ i.log2 := Nat.pow_le_pow_right Nat.two_pos ((Nat.le_log2 (by omega)).2 (by omega))
  have hle := Nat.log2_self_le (n := i) (by omega)
  omega

section Blocks

variable {i k : Nat}

theorem log2_of_block (h1 : 2 ^ k ≤ i) (h2 : i < 2 ^ (k + 1)) : i.log2 = k := by
  have hi : i ≠ 0 := Nat.ne_of_gt (Nat.lt_of_lt_of_le (Nat.two_pow_pos k) h1)
  exact (Nat.log2_eq_iff hi).2 ⟨h1, h2⟩

theorem luby_last (k : Nat) : luby (2 ^ (k + 1) - 1) = 2 ^ k := by
  have hpos := Nat.two_pow_pos k
  have hdouble : 2 ^ (k + 1) = 2 * 2 ^ k := Nat.pow_succ'
  have hlog : (2 ^ (k + 1) - 1).log2 = k := log2_of_block (by omega) (by omega)
  rw [luby, hlog]
  cases k with
  | zero => rfl
  | succ k =>
    have := Nat.two_pow_pos k
    have : 2 ^ (k + 1) = 2 * 2 ^ k := Nat.pow_succ'
    rw [if_neg (by omega), if_pos (by omega)]

theorem luby_inside (h1 : 2 ^ k ≤ i) (h2 : i < 2 ^ (k + 1) - 1) : luby i = luby (i - 2 ^ k + 1) := by
  have hpos := Nat.two_pow_pos k
  have hdouble : 2 ^ (k + 1) = 2 * 2 ^ k := Nat.pow_succ'
  rw [luby, log2_of_block h1 (by omega), if_neg (by omega), if_neg (by omega)]

theorem luby_le (h : 1 ≤ i) : luby i ≤ i := by
  fun_induction luby i with
  | case1 i => exact h
  | case2 i hi _ => exact Nat.log2_self_le (by omega)
  | case3 i hi _ ih =>
    have hpos := Nat.two_pow_pos i.log2
    have := ih (by omega)
    omega

example : (List.range' 1 15).map luby = [1, 1, 2, 1, 1, 2, 4, 1, 1, 2, 1, 1, 2, 4, 8] := by
  cbv

theorem two_pow_succ_mul (k c : Nat) : 2 ^ (k + 1) * c = 2 ^ k * (2 * c) := by
  rw [Nat.pow_succ, Nat.mul_assoc]

end Blocks

/-! ## The generator by blocks -/

namespace Luby

variable {k m : Nat}

theorem after_add (m n : Nat) (l : Luby) : after (m + n) l = after n (after m l) := by
  induction m generalizing l with
  | zero => rw [Nat.zero_add, after]
  | succ m ih => rw [Nat.succ_add, after, ih, after]

theorem next_of_odd {c : Nat} (h : c % 2 = 1) : next { count := 2 ^ k * c, power := 2 ^ k } =
    (2 ^ k, { count := 2 ^ k * c + 1, power := 1 }) := by
  rw [next, Nat.mul_div_cancel_left c (Nat.two_pow_pos k), if_pos h]

theorem next_of_even {c : Nat} (h : c % 2 = 0) : next { count := 2 ^ k * c, power := 2 ^ k } =
    (2 ^ k, { count := 2 ^ k * c, power := 2 ^ (k + 1) }) := by
  rw [next, Nat.mul_div_cancel_left c (Nat.two_pow_pos k), if_neg (by omega), ← Nat.pow_succ']

/-- A block leads to its last term, at the next multiple of its power. -/
theorem after_block (k c : Nat) :
    after (2 ^ (k + 1) - 2) { count := 2 ^ k * c + 1 } = { count := 2 ^ k * (c + 1), power := 2 ^ k } := by
  induction k generalizing c with
  | zero => simp [after]
  | succ k ih =>
    have hpos := Nat.two_pow_pos k
    have hdouble : 2 ^ (k + 1) = 2 * 2 ^ k := Nat.pow_succ'
    have hsteps : 2 ^ (k + 1 + 1) - 2 = 2 ^ (k + 1) - 2 + 1 + (2 ^ (k + 1) - 2) + 1 := by
      have : 2 ^ (k + 1 + 1) = 2 * 2 ^ (k + 1) := Nat.pow_succ'
      omega
    rw [hsteps, after_succ, after_add, after_succ, two_pow_succ_mul, ih, next_of_odd (by omega), ih,
      next_of_even (by omega), two_pow_succ_mul, Nat.mul_add 2 c 1]

theorem after_first_block (k : Nat) : after (2 ^ (k + 1) - 2) {} = { count := 2 ^ k, power := 2 ^ k } := by
  have h := after_block k 0
  rwa [Nat.mul_zero, Nat.mul_one] at h

theorem after_half (k c : Nat) : after (2 ^ (k + 1) - 2 + 1) { count := 2 ^ (k + 1) * c + 1 } =
    { count := 2 ^ k * (2 * c + 1) + 1 } := by
  rw [after_succ, two_pow_succ_mul, after_block, next_of_odd (by omega)]

theorem after_first_half (k : Nat) : after (2 ^ (k + 1) - 2 + 1) {} = { count := 2 ^ k * 1 + 1 } := after_half k 0

/-- The same position in a block that begins later. -/
def shift (a : Nat) (l : Luby) : Luby := { l with count := a + l.count }

/-- Where a block begins does not matter. -/
theorem after_shifted (hm : m ≤ 2 ^ (k + 1) - 2) (c : Nat) :
    after m { count := 2 ^ k * c + 1 } = shift (2 ^ k * c) (after m {}) := by
  induction k generalizing c m with
  | zero =>
    obtain rfl : m = 0 := Nat.le_zero.1 hm
    rfl
  | succ k ih =>
    have hpos := Nat.two_pow_pos k
    have hdouble : 2 ^ (k + 1) = 2 * 2 ^ k := Nat.pow_succ'
    have hdouble' : 2 ^ (k + 1 + 1) = 2 * 2 ^ (k + 1) := Nat.pow_succ'
    rcases Nat.lt_or_ge (2 ^ (k + 1) - 2) m with hlt | hle
    · obtain ⟨d, rfl⟩ : ∃ d, m = 2 ^ (k + 1) - 2 + 1 + d := ⟨m - (2 ^ (k + 1) - 2 + 1), by omega⟩
      rcases Nat.lt_or_ge (2 ^ (k + 1) - 2) d with hlast | hd
      · have hend : 2 ^ (k + 1) - 2 + 1 + d = 2 ^ (k + 1 + 1) - 2 := by omega
        rw [hend, after_block, after_first_block, shift, Nat.mul_succ]
      · rw [after_add, after_half, after_add, after_first_half, ih hd, ih hd, shift, shift, shift, two_pow_succ_mul,
          Nat.mul_add, Nat.mul_one, Nat.add_assoc]
    · rw [two_pow_succ_mul]
      exact ih hle (2 * c)

/-- A term of the generator. -/
theorem power_after (n : Nat) : (after n {}).power = luby (n + 1) := by
  induction n using Nat.strong_induction_on with
  | _ n ih =>
    have hle : 2 ^ (n + 1).log2 ≤ n + 1 := Nat.log2_self_le (Nat.succ_ne_zero n)
    have hlt : n + 1 < 2 ^ ((n + 1).log2 + 1) := Nat.lt_log2_self
    generalize (n + 1).log2 = k at hle hlt
    have hpos := Nat.two_pow_pos k
    have hdouble : 2 ^ (k + 1) = 2 * 2 ^ k := Nat.pow_succ'
    by_cases hlast : n + 1 = 2 ^ (k + 1) - 1
    · rw [hlast, luby_last, show n = 2 ^ (k + 1) - 2 by omega, after_first_block]
    · rw [luby_inside hle (by omega)]
      cases k with
      | zero => omega
      | succ k =>
        have hpos := Nat.two_pow_pos k
        have hdouble' : 2 ^ (k + 1) = 2 * 2 ^ k := Nat.pow_succ'
        obtain ⟨m, rfl⟩ : ∃ m, n = 2 ^ (k + 1) - 2 + 1 + m := ⟨n - (2 ^ (k + 1) - 2 + 1), by omega⟩
        rw [after_add, after_first_half, after_shifted (by omega),
          show 2 ^ (k + 1) - 2 + 1 + m + 1 - 2 ^ (k + 1) = m by omega]
        exact ih m (by omega)

theorem terms_start (n : Nat) : terms n {} = (List.range' 1 n).map luby := by
  induction n with
  | zero => rfl
  | succ n ih => rw [terms_succ, ih, power_after, List.range'_1_concat, List.map_append, Nat.add_comm 1 n]; rfl

end Luby

/-! ## The generator in words -/

/-- A position in the sequence, in words of 64 bits. -/
structure LubyWords where
  count : UInt64 := 1
  power : UInt64 := 1
deriving DecidableEq

namespace LubyWords

/-- The next term, and the position after it. The lowest set bit of the count is what it has in common with its
negation. -/
def next (w : LubyWords) : UInt64 × LubyWords :=
  (w.power,
    if w.count &&& -w.count = w.power then { count := w.count + 1, power := 1 }
    else { w with power := w.power <<< 1 })

/-- The first `n` terms from a position on. -/
def terms : Nat → LubyWords → List UInt64
  | 0, _ => []
  | n + 1, w => w.next.1 :: terms n w.next.2

theorem land_two_pow_sub {n m k c : Nat} (hm : m = 2 ^ k * (2 * c + 1)) (hlt : m < 2 ^ n) :
    m &&& (2 ^ n - m) = 2 ^ k := by
  have hone := Nat.two_pow_pos k
  have hpred : m = 2 ^ k * (2 * c) + (2 ^ k - 1) + 1 := by
    rw [hm, Nat.mul_succ]
    omega
  have hle : 2 ^ k ≤ m := hm ▸ Nat.le_mul_of_pos_right _ (Nat.succ_pos _)
  have hk : k < n := (Nat.pow_lt_pow_iff_right (by decide : 1 < 2)).1 (Nat.lt_of_le_of_lt hle hlt)
  refine Nat.eq_of_testBit_eq fun i => ?_
  have hsub : (2 ^ n - m).testBit i = (decide (i < n) && !(2 ^ k * (2 * c) + (2 ^ k - 1)).testBit i) := by
    rw [hpred]
    exact Nat.testBit_two_pow_sub_succ (by omega) i
  rw [Nat.testBit_and, hsub, Nat.testBit_two_pow_mul_add _ (by omega), Nat.testBit_two_pow, hm,
    Nat.testBit_two_pow_mul]
  rcases Nat.lt_trichotomy i k with hik | rfl | hik
  · simp [Nat.not_le.2 hik, Nat.ne_of_gt hik]
  · simp [hk]
  · -- above the lowest set bit, the number and the one before it have the same bits
    obtain ⟨j, rfl⟩ : ∃ j, i = k + (j + 1) := ⟨i - k - 1, by omega⟩
    have hadd : ¬ k + (j + 1) < k := by omega
    have hhalf : (2 * c + 1) / 2 = 2 * c / 2 := by omega
    rw [if_neg hadd, Nat.add_sub_cancel_left, Nat.testBit_succ, Nat.testBit_succ, hhalf]
    cases (2 * c / 2).testBit j <;> simp

theorem land_two_pow_sub_eq_iff {n m k : Nat} (hlt : m < 2 ^ n) (hd : 2 ^ k ∣ m) :
    m &&& (2 ^ n - m) = 2 ^ k ↔ m / 2 ^ k % 2 = 1 := by
  obtain ⟨q, rfl⟩ := hd
  rw [Nat.mul_div_cancel_left q (Nat.two_pow_pos k)]
  constructor
  · intro h
    have hbit : (2 ^ k * q &&& (2 ^ n - 2 ^ k * q)).testBit k = true := by rw [h, Nat.testBit_two_pow_self]
    rw [Nat.testBit_and, Nat.testBit_two_pow_mul, Nat.sub_self, Bool.and_eq_true, Bool.and_eq_true,
      Nat.testBit_zero] at hbit
    exact of_decide_eq_true hbit.1.2
  · intro h
    exact land_two_pow_sub (c := q / 2) (by rw [show 2 * (q / 2) + 1 = q by omega]) hlt

theorem lowestSetBit_eq_iff {u v : UInt64} {k : Nat} (hpos : 0 < u.toNat) (hv : v.toNat = 2 ^ k)
    (hd : 2 ^ k ∣ u.toNat) : u &&& -u = v ↔ u.toNat / v.toNat % 2 = 1 := by
  rw [← UInt64.toNat_inj, UInt64.toNat_and, UInt64.toNat_neg, Nat.mod_eq_of_lt (Nat.sub_lt (Nat.two_pow_pos 64) hpos),
    hv]
  exact land_two_pow_sub_eq_iff u.toNat_lt hd

/-- The words hold the numbers of a position. -/
structure Holds (w : LubyWords) (l : Luby) : Prop where
  count_eq : w.count.toNat = l.count
  power_eq : w.power.toNat = l.power

theorem holds_start : Holds {} {} := ⟨rfl, rfl⟩

variable {w : LubyWords} {l : Luby}

/-- The lowest set bit ends the powers of a count. -/
theorem Holds.lowestSetBit_eq_iff (h : w.Holds l) (hl : l.Valid) :
    w.count &&& -w.count = w.power ↔ l.count / l.power % 2 = 1 := by
  obtain ⟨k, hk⟩ := hl.pow
  have hd : 2 ^ k ∣ w.count.toNat := hk ▸ h.count_eq.symm ▸ hl.dvd
  rw [LubyWords.lowestSetBit_eq_iff (h.count_eq ▸ hl.count_pos) (h.power_eq.trans hk) hd, h.count_eq, h.power_eq]

/-- A step does not overflow unless the count is at the end of the range, or the term in its upper half. -/
theorem Holds.next (h : w.Holds l) (hl : l.Valid) (hc : l.count + 1 < 2 ^ 64) (hp : l.power < 2 ^ 63) :
    w.next.2.Holds l.next.2 := by
  unfold LubyWords.next Luby.next
  dsimp only
  by_cases hodd : l.count / l.power % 2 = 1
  · rw [if_pos hodd, if_pos ((h.lowestSetBit_eq_iff hl).2 hodd)]
    refine ⟨?_, rfl⟩
    rw [UInt64.toNat_add, h.count_eq]
    exact Nat.mod_eq_of_lt hc
  · rw [if_neg hodd, if_neg fun he => hodd ((h.lowestSetBit_eq_iff hl).1 he)]
    refine ⟨h.count_eq, ?_⟩
    rw [UInt64.toNat_shiftLeft, h.power_eq]
    change l.power <<< 1 % 2 ^ 64 = 2 * l.power
    rw [Nat.shiftLeft_eq, Nat.pow_one, Nat.mul_comm]
    exact Nat.mod_eq_of_lt (by omega)

theorem Holds.terms {n : Nat} (h : w.Holds l) (hl : l.Valid) (hc : l.count + n < 2 ^ 64)
    (hp : ∀ t ∈ Luby.terms n l, t < 2 ^ 63) : (LubyWords.terms n w).map UInt64.toNat = Luby.terms n l := by
  induction n generalizing w l with
  | zero => rfl
  | succ n ih =>
    have hcount : l.next.2.count ≤ l.count + 1 := by
      unfold Luby.next
      dsimp only
      split
      · exact Nat.le_refl _
      · exact Nat.le_succ _
    have hnext := h.next hl (by omega) (hp _ List.mem_cons_self)
    rw [LubyWords.terms, List.map_cons, Luby.terms,
      ih hnext hl.next (by omega) fun t ht => hp t (List.mem_cons_of_mem _ ht)]
    exact congrArg (· :: _) h.power_eq

end LubyWords

/-- **The generator yields the sequence.** Its first terms are those of the sequence, which is given by its blocks: each
of them ends with a power of two, and before that it is the block of half its length twice. A generator in words of 64
bits yields the same as long as the terms are below half of the range. -/
theorem terms_eq_luby (n : Nat) :
    Luby.terms n {} = (List.range' 1 n).map luby ∧
      (∀ k, luby (2 ^ (k + 1) - 1) = 2 ^ k) ∧
        (∀ k i, 2 ^ k ≤ i → i < 2 ^ (k + 1) - 1 → luby i = luby (i - 2 ^ k + 1)) ∧
          ((∀ i, 1 ≤ i → i ≤ n → luby i < 2 ^ 63) →
            (LubyWords.terms n {}).map UInt64.toNat = (List.range' 1 n).map luby) := by
  refine ⟨Luby.terms_start n, luby_last, fun k i => luby_inside, fun hv => ?_⟩
  have hn : n < 2 ^ 64 - 1 := by
    -- the first term of half the range ends a block
    by_contra hge
    have hlast := hv (2 ^ (63 + 1) - 1) (by decide) (Nat.le_of_not_lt hge)
    rw [luby_last] at hlast
    exact Nat.lt_irrefl _ hlast
  rw [← Luby.terms_start n]
  refine LubyWords.holds_start.terms Luby.valid_start (by dsimp only; omega) fun t ht => ?_
  rw [Luby.terms_start] at ht
  obtain ⟨i, hi, rfl⟩ := List.mem_map.1 ht
  obtain ⟨h1, h2⟩ := List.mem_range'_1.1 hi
  exact hv i h1 (by omega)

/-- The last term is one of the block of seven terms that comes again. -/
theorem terms_eq_luby_ten : (∀ i, 1 ≤ i → i ≤ 10 → luby i < 2 ^ 63) ∧ luby 7 = 4 ∧ luby 10 = luby 3 ∧
    (LubyWords.terms 10 {}).map UInt64.toNat = (List.range' 1 10).map luby := by
  obtain ⟨-, hlast, hinside, hwords⟩ := terms_eq_luby 10
  have hv : ∀ i, 1 ≤ i → i ≤ 10 → luby i < 2 ^ 63 := fun i h1 h2 =>
    Nat.lt_of_le_of_lt (Nat.le_trans (luby_le h1) h2) (by decide)
  exact ⟨hv, hlast 2, hinside 3 10 (by decide) (by decide), hwords hv⟩

end ClauseLearning
