import Mathlib.Algebra.Group.Nat.Defs
import ClauseLearning.Proofs.Numbers
import ClauseLearning.Proofs.Sorting

/-!
# Codes of literals

* `Lit.code_neg_eq_xor` : opposite literals differ in the lowest bit of their codes;
* `Lit.toInt_signed`, `Lit.ofNumber_signed`, `Lit.signed_ofNumber` : numbers and codes determine each other;
* `Lit.ofSigned?_eq_some_iff`, `Lit.map_code_ofSigned?_neg` : the numbers in range are those of the codes in range, and
  opposite numbers those of opposite literals;
* `Lit.Ascending.adjacent` : by increasing code the two literals of a variable are neighbours;
* `LitWord` : literals as words of 32 bits, read and written by shifts and casts. The two readings and the two ways to
  write agree (`LitWord.ofSigned?_eq`, `LitWord.signed_eq`);
* `literals_numbered` : numbers, codes and their order.
-/

namespace ClauseLearning

namespace Lit

variable {n : Int32} {l : Lit} {ls : List Lit}

/-- Opposite literals differ in the lowest bit of their codes. -/
theorem code_neg_eq_xor (l : Lit) : (-l).code = l.code ^^^ 1 := by
  rw [code_neg]
  refine Nat.eq_of_testBit_eq fun i => ?_
  cases i with
  | zero =>
    rw [Nat.testBit_xor, Nat.testBit_zero, Nat.testBit_zero, Nat.testBit_zero]
    split
    · next h => simp [h, show (l.code + 1) % 2 = 1 by omega]
    · next h => simp [show l.code % 2 = 1 by omega, show (l.code - 1) % 2 = 0 by omega]
  | succ i =>
    rw [Nat.testBit_xor, Nat.testBit_succ, Nat.testBit_succ, Nat.testBit_succ, Nat.zero_testBit, Bool.xor_false]
    congr 1
    split <;> omega

/-! ## Numbers and codes -/

theorem ofSigned?_eq_ofNumber (n : Int32) :
    ofSigned? n = if n.toInt = 0 ∨ Var.maxCount < n.toInt.natAbs then none else some (ofNumber n) := rfl

theorem code_ofNumber_lt (h : n.toInt.natAbs ≤ Var.maxCount) : (ofNumber n).code < 2 ^ 29 := by
  have hx : (ofNumber n).var.index < 2 ^ 28 := by
    rw [ofNumber, var_lit]
    rw [Var.maxCount_eq] at h
    show n.toInt.natAbs - 1 < 2 ^ 28
    omega
  exact code_lt hx

/-- The magnitude of a literal's number is that of its variable, and its sign is the polarity. -/
theorem toInt_signed (h : l.code < 2 ^ 29) :
    l.signed.toInt = if l.isPositive then (l.var.index + 1 : Int) else -(l.var.index + 1) := by
  have hx : l.var.index < 2 ^ 28 := show l.code / 2 < 2 ^ 28 by omega
  have hv := Var.toInt_number (v := l.var) (by omega)
  rw [signed, isNegative_eq]
  cases l.isPositive with
  | true => exact hv
  | false =>
    rw [Bool.not_false, if_pos rfl, toInt_neg (by omega), hv]
    rfl

/-- A literal is the one of its number. -/
theorem ofNumber_signed (h : l.code < 2 ^ 29) : ofNumber l.signed = l := by
  have ht := toInt_signed h
  refine ext_var (Var.ext_index ?_) ?_
  · rw [ofNumber, var_lit, ht]
    dsimp only
    split <;> omega
  · rw [ofNumber, isPositive_lit, ht]
    cases l.isPositive with
    | true => exact decide_eq_true (by rw [if_pos rfl]; omega)
    | false => exact decide_eq_false (by rw [if_neg Bool.false_ne_true]; omega)

/-- A number is the one of its literal. -/
theorem signed_ofNumber (h0 : n.toInt ≠ 0) (h : n.toInt.natAbs ≤ Var.maxCount) : (ofNumber n).signed = n := by
  rw [← Int32.toInt_inj, toInt_signed (code_ofNumber_lt h), ofNumber, var_lit, isPositive_lit]
  dsimp only
  by_cases hpos : 0 < n.toInt
  · rw [decide_eq_true hpos, if_pos rfl]
    omega
  · rw [decide_eq_false hpos, if_neg Bool.false_ne_true]
    omega

/-- The numbers that are literals and the codes in range determine each other. -/
theorem ofSigned?_eq_some_iff : ofSigned? n = some l ↔ l.code < 2 ^ 29 ∧ l.signed = n := by
  rw [ofSigned?_eq_ofNumber]
  constructor
  · intro h
    split at h
    · cases h
    · next hn =>
      rw [not_or, Nat.not_lt] at hn
      obtain rfl := Option.some.inj h
      exact ⟨code_ofNumber_lt hn.2, signed_ofNumber hn.1 hn.2⟩
  · rintro ⟨h, rfl⟩
    have ht := toInt_signed h
    have hx : l.var.index < 2 ^ 28 := show l.code / 2 < 2 ^ 28 by omega
    have hn : ¬ (l.signed.toInt = 0 ∨ Var.maxCount < l.signed.toInt.natAbs) := by
      rw [ht, Var.maxCount_eq]
      split <;> omega
    rw [if_neg hn, ofNumber_signed h]

theorem signed_neg (l : Lit) : (-l).signed = -l.signed := by
  rw [signed, signed, isNegative_eq, isNegative_eq, isPositive_neg, var_neg]
  cases l.isPositive with
  | true => rfl
  | false => exact (Int32.neg_neg).symm

theorem ofSigned?_neg (h : ofSigned? n = some l) : ofSigned? (-n) = some (-l) := by
  obtain ⟨hlt, rfl⟩ := ofSigned?_eq_some_iff.1 h
  refine ofSigned?_eq_some_iff.2 ⟨?_, signed_neg l⟩
  rw [code_neg]
  split <;> omega

/-- Opposite numbers have opposite literals, and out of range neither has one. -/
theorem map_code_ofSigned?_neg (n : Int32) :
    (ofSigned? (-n)).map Lit.code = (ofSigned? n).map fun l => l.code ^^^ 1 := by
  cases h : ofSigned? n with
  | some l =>
    rw [ofSigned?_neg h]
    exact congrArg some (code_neg_eq_xor l)
  | none =>
    cases hn : ofSigned? (-n) with
    | none => rfl
    | some k =>
      have := ofSigned?_neg hn
      rw [Int32.neg_neg, h] at this
      cases this

/-! ## The order of codes -/

theorem ascending_of_sortedBy (h : SortedBy Lit.code ls) (hn : ls.Nodup) : Ascending ls :=
  (h.and hn).imp fun ⟨hle, hne⟩ => Nat.lt_of_le_of_ne hle fun he => hne (ext_code he)

/-- Nothing stands between the two literals of a variable. -/
theorem Ascending.adjacent {v : Var} (h : Ascending ls) (hp : v.positive ∈ ls) (hn : v.negative ∈ ls) :
    ∃ before after, ls = before ++ v.positive :: v.negative :: after := by
  have hcode : v.negative.code = v.positive.code + 1 := rfl
  obtain ⟨before, rest, rfl⟩ := List.append_of_mem hp
  obtain ⟨-, hsorted, hbefore⟩ := List.pairwise_append.1 h
  have hrest : v.negative ∈ rest := by
    rcases List.mem_append.1 hn with hm | hm
    · have := hbefore _ hm _ List.mem_cons_self
      omega
    · exact (List.mem_cons.1 hm).resolve_left fun he => absurd (congrArg Lit.code he) (by omega)
  obtain ⟨hlt, htail⟩ := List.pairwise_cons.1 hsorted
  cases rest with
  | nil => cases hrest
  | cons k rest =>
    have hk := hlt k List.mem_cons_self
    rcases List.mem_cons.1 hrest with rfl | hm
    · exact ⟨before, rest, rfl⟩
    · have := (List.pairwise_cons.1 htail).1 _ hm
      omega

theorem mem_of_mem_neg (hl : l ∈ ls) (hn : -l ∈ ls) : l.var.positive ∈ ls ∧ l.var.negative ∈ ls := by
  rcases eq_positive_or_negative (l := l) rfl with h | h
  · rw [h, positive_eq_neg_negative, neg_neg] at hn
    exact ⟨h ▸ hl, hn⟩
  · rw [h, ← positive_eq_neg_negative] at hn
    exact ⟨hn, h ▸ hl⟩

end Lit

/-! ## Literals as words -/

namespace LitWord

/-- The magnitude of a number. The least number has none. -/
def checkedAbs (number : Int32) : Option Int32 :=
  if number = Int32.minValue then none else some (if number < 0 then -number else number)

/-- The number of variables supported: what is left of a word without four of its bits, and one. -/
def maxCount : UInt64 := ((0xFFFFFFFF : UInt32) >>> 4).toUInt64 + 1

/-- The index of the variable of a number, which is compared as a word of 64 bits. -/
def varOf? (number : Int32) : Option UInt32 :=
  let wide := number.toInt64.toUInt64
  if number ≤ 0 ∨ maxCount < wide then none else some (wide - 1).toUInt32

def ofVar (index : UInt32) (polarity : Bool) : UInt32 := (index <<< 1) ||| (if polarity then 0 else 1)

def ofSigned? (number : Int32) : Option UInt32 := do
  let magnitude ← checkedAbs number
  let index ← varOf? magnitude
  return ofVar index (decide (0 < number))

def signed (code : UInt32) : Int32 :=
  let number := (code >>> 1).toInt32 + 1
  if code &&& 1 ≠ 0 then -number else number

variable {n m : Int32} {code index : UInt32}

theorem checkedAbs_eq (n : Int32) :
    checkedAbs n = none ∧ n.toInt.natAbs = 0x80000000 ∨ ∃ m, checkedAbs n = some m ∧ m.toInt = n.toInt.natAbs := by
  unfold checkedAbs
  split
  · next h => exact Or.inl ⟨rfl, by rw [h]; rfl⟩
  · next h =>
    have hmin := n.minValue_le_toInt
    have hmax := n.toInt_lt
    have hne : n.toInt ≠ Int32.minValue.toInt := fun he => h (Int32.toInt_inj.1 he)
    rw [Int32.toInt_minValue] at hmin hne
    have hneg : n < 0 ↔ n.toInt < 0 := Int32.lt_iff_toInt_lt
    refine Or.inr ⟨_, rfl, ?_⟩
    split
    · next hn =>
      have := hneg.1 hn
      rw [toInt_neg (by omega)]
      omega
    · next hn =>
      have := mt hneg.2 hn
      omega

theorem varOf?_eq {k : Nat} (h : m.toInt = k) :
    (varOf? m).map UInt32.toNat = if k = 0 ∨ Var.maxCount < k then none else some (k - 1) := by
  have hwide : m.toInt64.toUInt64.toNat = k := by
    have hle : 0 ≤ m.toInt64 := by
      rw [Int64.le_iff_toInt_le, Int32.toInt_toInt64, h]
      exact Int.natCast_nonneg k
    rw [Int64.toNat_toUInt64_of_le hle]
    show m.toInt64.toInt.toNat = k
    rw [Int32.toInt_toInt64, h, Int.toNat_natCast]
  have hzero : m ≤ 0 ↔ k = 0 := by
    rw [Int32.le_iff_toInt_le, h]
    exact Int.natCast_nonpos_iff
  have hlimit : maxCount < m.toInt64.toUInt64 ↔ Var.maxCount < k := by
    rw [UInt64.lt_iff_toNat_lt, hwide]
    rfl
  unfold varOf?
  simp only [hzero, hlimit]
  split
  · rfl
  · next hn =>
    rw [Var.maxCount_eq] at hn
    have hone : (1 : UInt64) ≤ m.toInt64.toUInt64 := by
      rw [UInt64.le_iff_toNat_le, hwide]
      show 1 ≤ k
      omega
    rw [Option.map_some, UInt64.toNat_toUInt32, UInt64.toNat_sub_of_le _ _ hone, hwide]
    congr 1
    show (k - 1) % 2 ^ 32 = k - 1
    omega

theorem toNat_ofVar (h : index.toNat < Var.maxCount) (polarity : Bool) :
    (ofVar index polarity).toNat = (Var.lit ⟨index.toNat⟩ polarity).code := by
  have hp : (if polarity then (0 : UInt32) else 1).toNat = if polarity then 0 else 1 := by
    cases polarity <;> rfl
  rw [Var.maxCount_eq] at h
  rw [ofVar, UInt32.toNat_or, UInt32.toNat_shiftLeft, hp]
  show index.toNat <<< 1 % 2 ^ 32 ||| _ = 2 * index.toNat + _
  rw [Nat.mod_eq_of_lt (by rw [Nat.shiftLeft_eq]; omega), ← Nat.shiftLeft_add_eq_or_of_lt (by split <;> decide),
    Nat.shiftLeft_eq, Nat.mul_comm]

/-- Numbers are read the same. -/
theorem ofSigned?_eq (n : Int32) : (ofSigned? n).map UInt32.toNat = (Lit.ofSigned? n).map Lit.code := by
  rw [Lit.ofSigned?_eq_ofNumber]
  simp only [← Int.natAbs_eq_zero]
  unfold ofSigned?
  rcases checkedAbs_eq n with ⟨h, habs⟩ | ⟨m, h, habs⟩
  · rw [h, habs, if_pos (Or.inr (by decide))]
    rfl
  · have hv := varOf?_eq habs
    rw [h]
    show ((varOf? m).bind fun index => some (ofVar index (decide (0 < n)))).map UInt32.toNat = _
    split
    · next hn =>
      rw [if_pos hn, Option.map_eq_none_iff] at hv
      rw [hv]
      rfl
    · next hn =>
      rw [if_neg hn] at hv
      obtain ⟨index, hi, hindex⟩ := Option.map_eq_some_iff.1 hv
      rw [not_or, Nat.not_lt] at hn
      have hlt : index.toNat < Var.maxCount := by omega
      have hpos : 0 < n ↔ 0 < n.toInt := Int32.lt_iff_toInt_lt
      rw [hi, Option.bind_some, Option.map_some, toNat_ofVar hlt, hindex, decide_eq_decide.2 hpos]
      rfl

/-- Literals are written the same. -/
theorem signed_eq (code : UInt32) : signed code = Lit.signed ⟨code.toNat⟩ := by
  have hindex : (code >>> 1).toNat = code.toNat / 2 := by
    rw [UInt32.toNat_shiftRight]
    exact Nat.shiftRight_one _
  have hnumber : (code >>> 1).toInt32 + 1 = Var.number ⟨code.toNat / 2⟩ := by
    rw [Var.number, Int32.ofNat_add, ← hindex, ← UInt32.toInt32_ofNat', UInt32.ofNat_toNat]
    rfl
  have hneg : code &&& 1 ≠ 0 ↔ code.toNat % 2 = 1 := by
    rw [Ne, ← UInt32.toNat_inj, UInt32.toNat_and]
    show ¬ code.toNat &&& 1 = 0 ↔ _
    rw [Nat.and_one_is_mod]
    omega
  unfold signed Lit.signed
  rw [hnumber]
  simp only [hneg, Lit.isNegative, beq_iff_eq]
  rfl

theorem toNat_xor_one (code : UInt32) : (code ^^^ 1).toNat = (-Lit.mk code.toNat).code := by
  rw [UInt32.toNat_xor, Lit.code_neg_eq_xor]
  rfl

end LitWord

/-- **Literals are numbered without gaps.** A number has a literal just if its magnitude is at least one and within the
limit, which excludes the least number of the type. On these numbers and the codes in range, the two readings are
inverse to each other, and an opposite number flips the lowest bit of the code. In a sorted list without repetitions a
literal stands next to its opposite if that occurs. Literals as words are read, written and negated the same. -/
theorem literals_numbered :
    (∀ n : Int32, (Lit.ofSigned? n).isSome ↔ n ≠ 0 ∧ n.toInt.natAbs ≤ 2 ^ 28) ∧
      Lit.ofSigned? Int32.minValue = none ∧
        (∀ (n : Int32) (l : Lit), Lit.ofSigned? n = some l ↔ l.code < 2 ^ 29 ∧ l.signed = n) ∧
          (∀ n : Int32, (Lit.ofSigned? (-n)).map Lit.code = (Lit.ofSigned? n).map fun l => l.code ^^^ 1) ∧
            (∀ l : Lit, (-l).code = l.code ^^^ 1 ∧ (-l).signed = -l.signed) ∧
              (∀ ls : List Lit, SortedBy Lit.code ls → ls.Nodup → ∀ l ∈ ls, -l ∈ ls →
                ∃ before after, ls = before ++ l.var.positive :: l.var.negative :: after) ∧
                (∀ n : Int32, (LitWord.ofSigned? n).map UInt32.toNat = (Lit.ofSigned? n).map Lit.code) ∧
                  ∀ code : UInt32, LitWord.signed code = Lit.signed ⟨code.toNat⟩ ∧
                    (code ^^^ 1).toNat = (-Lit.mk code.toNat).code := by
  refine ⟨fun n => ?_, by decide, fun n l => Lit.ofSigned?_eq_some_iff, Lit.map_code_ofSigned?_neg,
    fun l => ⟨Lit.code_neg_eq_xor l, Lit.signed_neg l⟩, fun ls hs hn l hl hneg => ?_, LitWord.ofSigned?_eq,
    fun code => ⟨LitWord.signed_eq code, LitWord.toNat_xor_one code⟩⟩
  · have hzero : n = 0 ↔ n.toInt = 0 := Int32.toInt_inj.symm
    rw [Lit.ofSigned?_eq_ofNumber, Var.maxCount_eq, Ne, hzero]
    split
    · next h => exact iff_of_false Bool.false_ne_true (by omega)
    · next h => exact iff_of_true rfl (by omega)
  · obtain ⟨hpos, hnegative⟩ := Lit.mem_of_mem_neg hl hneg
    exact (Lit.ascending_of_sortedBy hs hn).adjacent hpos hnegative

/-- The limit itself has two literals, the codes in range end there, and the two stand next to each other. -/
theorem literals_numbered_limit :
    Lit.ofSigned? 268435456 = some ⟨536870910⟩ ∧ Lit.ofSigned? (-268435456) = some ⟨536870911⟩ ∧
      ∃ before after, [⟨3⟩, ⟨536870910⟩, ⟨536870911⟩] = before ++ Lit.mk 536870910 :: Lit.mk 536870911 :: after := by
  obtain ⟨-, -, hinverse, -, -, hadjacent, -, -⟩ := literals_numbered
  refine ⟨(hinverse _ _).2 ⟨by decide, by decide⟩, (hinverse _ _).2 ⟨by decide, by decide⟩, ?_⟩
  exact hadjacent [⟨3⟩, ⟨536870910⟩, ⟨536870911⟩] (by unfold SortedBy; decide) (by decide) ⟨536870911⟩ (by decide)
    (by decide)

end ClauseLearning
