import Mathlib.Data.List.Forall2
import ClauseLearning.Engine
import ClauseLearning.Proofs.Assignment

/-!
# Literals by number

* `litOf_number`, `litOf_neg` : the number of a variable is read as its positive literal, and an opposite number as the
  opposite literal;
* `Lit.ofNumber`, `litOf_eq_ok_iff` : the literal of a number, and the numbers that have one;
* `Lit.ofNumber_neg`, `Lit.ofNumber_inj` : opposite numbers and different ones, also where variables are not supported;
* `litsOf_eq_ok_iff`, `litsOf_eq_ok`, `litsOf_eq_map` : a list of numbers is read number by number.
-/

namespace ClauseLearning

variable {i : Nat} {number : Int32} {numbers : List Int32} {l : Lit} {ls : List Lit}

theorem Var.maxCount_eq : Var.maxCount = 268435456 := rfl

theorem Var.toInt_number {v : Var} (hv : v.index < 0x7FFFFFFF) : v.number.toInt = v.index + 1 := by
  rw [Var.number, Int32.toInt_ofNat_of_lt (by omega)]
  push_cast
  rfl

/-- The literal that a number stands for, if its magnitude is in range. -/
def Lit.ofNumber (number : Int32) : Lit := Var.lit ⟨number.toInt.natAbs - 1⟩ (decide (0 < number.toInt))

/-- The numbers that are literals are those of a magnitude in range. -/
theorem litOf_eq_ok_iff : litOf number = .ok l ↔
    number.toInt ≠ 0 ∧ number.toInt.natAbs ≤ Var.maxCount ∧ l = Lit.ofNumber number := by
  have hzero : number = 0 ↔ number.toInt = 0 := by
    rw [← Int32.toInt_inj]
    rfl
  unfold litOf Lit.ofSigned? Lit.ofNumber
  by_cases h0 : number.toInt = 0
  · simp [hzero.2 h0]
  · by_cases hr : Var.maxCount < number.toInt.natAbs
    · simp [hzero, h0, hr, Nat.not_le.2 hr]
    · simp [hzero, h0, hr, Nat.le_of_not_lt hr, eq_comm]

theorem litOf_number {v : Var} (hv : v.index < Var.maxCount) : litOf v.number = .ok v.positive := by
  have hi := Var.maxCount_eq
  have ht := Var.toInt_number (v := v) (by omega)
  have habs : (((v.index : Int) + 1).natAbs) = v.index + 1 := by omega
  rw [litOf_eq_ok_iff, ht, habs]
  refine ⟨by omega, hv, ?_⟩
  rw [Lit.ofNumber, ht, habs, Nat.add_sub_cancel, decide_eq_true (by omega : (0 : Int) < v.index + 1)]
  rfl

theorem not_litOf_number_maxCount : litOf (Var.mk Var.maxCount).number ≠ .ok l := by
  rw [Ne, litOf_eq_ok_iff, Var.toInt_number (by decide)]
  exact fun h => absurd h.2.1 (by decide)

theorem toInt_neg (h : number.toInt.natAbs < 0x80000000) : (-number).toInt = -number.toInt := by
  rw [Int32.toInt_neg]
  exact Int.bmod_eq_of_le (by omega) (by omega)

theorem Lit.ofNumber_neg (h0 : number.toInt ≠ 0) (h : number.toInt.natAbs < 0x80000000) :
    Lit.ofNumber (-number) = -Lit.ofNumber number := by
  refine Lit.ext_var (by simp [Lit.ofNumber, toInt_neg h]) ?_
  rw [Lit.ofNumber, Lit.ofNumber, toInt_neg h, Lit.isPositive_neg, Lit.isPositive_lit, Lit.isPositive_lit, ← decide_not,
    decide_eq_decide]
  omega

theorem Lit.ofNumber_inj {number' : Int32} (h : 0 < number.toInt) (h' : 0 < number'.toInt)
    (heq : (Lit.ofNumber number).var = (Lit.ofNumber number').var) : number = number' := by
  have hx := congrArg Var.index heq
  simp only [Lit.ofNumber, Lit.var_lit] at hx
  exact Int32.toInt_inj.1 (by omega)

theorem litOf_neg (h : litOf number = .ok l) : litOf (-number) = .ok (-l) := by
  obtain ⟨h0, hr, rfl⟩ := litOf_eq_ok_iff.1 h
  have hmax : number.toInt.natAbs < 0x80000000 := Nat.lt_of_le_of_lt hr (by decide)
  rw [litOf_eq_ok_iff, toInt_neg hmax, Int.natAbs_neg]
  exact ⟨by omega, hr, (Lit.ofNumber_neg h0 hmax).symm⟩

theorem litsOf_eq_ok_iff : litsOf numbers = .ok ls ↔ List.Forall₂ (fun n l => litOf n = .ok l) numbers ls := by
  induction numbers generalizing ls with
  | nil =>
    rw [List.forall₂_nil_left_iff, litsOf, Except.ok.injEq, eq_comm]
  | cons n ns ih =>
    rw [List.forall₂_cons_left_iff, litsOf]
    cases hn : litOf n with
    | error e => simp
    | ok l =>
      cases hns : litsOf ns with
      | error e =>
        have hno (ks : List Lit) : ¬ List.Forall₂ (fun n l => litOf n = .ok l) ns ks := fun hk => by
          have := ih.2 hk
          rw [hns] at this
          cases this
        simp [hno]
      | ok ks =>
        have hks {ks' : List Lit} : List.Forall₂ (fun n l => litOf n = .ok l) ns ks' ↔ ks = ks' := by
          rw [← ih, hns, Except.ok.injEq]
        simp only [Except.ok.injEq, hks]
        constructor
        · rintro rfl
          exact ⟨l, ks, rfl, rfl, rfl⟩
        · rintro ⟨_, _, rfl, rfl, rfl⟩
          rfl

theorem litsOf_eq_ok (h : litsOf numbers = .ok ls) :
    ls = numbers.map Lit.ofNumber ∧ ∀ x ∈ numbers, litOf x = .ok (Lit.ofNumber x) := by
  have hr := litsOf_eq_ok_iff.1 h
  clear h
  induction hr with
  | nil => exact ⟨rfl, fun x hx => nomatch hx⟩
  | @cons x l xs ls hx _ ih =>
    obtain rfl := (litOf_eq_ok_iff.1 hx).2.2
    exact ⟨congrArg _ ih.1, List.forall_mem_cons.2 ⟨hx, ih.2⟩⟩

theorem litsOf_eq_map (h : ∀ number ∈ numbers, ∃ l, litOf number = .ok l) :
    litsOf numbers = .ok (numbers.map Lit.ofNumber) := by
  rw [litsOf_eq_ok_iff, List.forall₂_map_right_iff, List.forall₂_same]
  intro number hn
  obtain ⟨l, hl⟩ := h number hn
  rwa [← (litOf_eq_ok_iff.1 hl).2.2]

end ClauseLearning
