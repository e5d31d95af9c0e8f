import Mathlib.Algebra.Group.Nat.Defs
import ClauseLearning.Storage

/-!
# Fields of headers

The fields of the first word of a header do not overlap, so what is put into one of them leaves those below as they are
(`Header.tier_put`, `Header.has_put`, `Header.tier_setGlue`, `Header.has_setGlue`). The header of a clause tells all of
its entry but literals (`Clause.reads_header`).
-/

namespace ClauseLearning

/-! ## Bits of words -/

/-- A bit of a word. -/
def wordBit (x : UInt32) (i : Nat) : Bool := x.toBitVec.getLsbD i

namespace wordBit

variable {x y n : UInt32} {i k : Nat}

theorem ext (h : ∀ i < 32, wordBit x i = wordBit y i) : x = y :=
  UInt32.eq_of_toBitVec_eq (BitVec.eq_of_getLsbD_eq h)

theorem or (x y : UInt32) (i : Nat) : wordBit (x ||| y) i = (wordBit x i || wordBit y i) := BitVec.getLsbD_or

theorem and (x y : UInt32) (i : Nat) : wordBit (x &&& y) i = (wordBit x i && wordBit y i) := BitVec.getLsbD_and

theorem not (x : UInt32) (hi : i < 32) : wordBit (~~~x) i = !wordBit x i := by
  rw [wordBit, UInt32.toBitVec_not, BitVec.getLsbD_not, decide_eq_true hi, Bool.true_and]
  rfl

theorem shiftRight (x : UInt32) (hn : n.toNat < 32) (i : Nat) : wordBit (x >>> n) i = wordBit x (n.toNat + i) := by
  have hmod : n.toBitVec % 32 = n.toBitVec := by
    refine BitVec.eq_of_toNat_eq ?_
    rw [BitVec.toNat_umod]
    exact Nat.mod_eq_of_lt hn
  rw [wordBit, UInt32.toBitVec_shiftRight, hmod, BitVec.ushiftRight_eq', BitVec.getLsbD_ushiftRight]
  rfl

theorem shiftLeft (x : UInt32) (hn : n.toNat < 32) (hi : i < 32) :
    wordBit (x <<< n) i = (decide (n.toNat ≤ i) && wordBit x (i - n.toNat)) := by
  have hmod : n.toBitVec % 32 = n.toBitVec := by
    refine BitVec.eq_of_toNat_eq ?_
    rw [BitVec.toNat_umod]
    exact Nat.mod_eq_of_lt hn
  rw [wordBit, UInt32.toBitVec_shiftLeft, hmod, BitVec.shiftLeft_eq', BitVec.getLsbD_shiftLeft, decide_eq_true hi,
    Bool.true_and, ← decide_not, decide_eq_decide.2 Nat.not_lt]
  rfl

theorem of_ge (x : UInt32) (hi : 32 ≤ i) : wordBit x i = false := BitVec.getLsbD_of_ge _ _ hi

theorem of_lt (hx : x.toNat < 2 ^ k) (hi : k ≤ i) : wordBit x i = false :=
  Nat.testBit_lt_two_pow (Nat.lt_of_lt_of_le hx (Nat.pow_le_pow_right Nat.two_pos hi))

end wordBit

namespace Header

variable {h h' : Header} {f g : Flag} {b : Bool} {n i : Nat}

/-! ## Flags -/

theorem has_eq (h : Header) (f : Flag) : h.has f = wordBit h.flags f.bit.toNat := by
  have hne (x : UInt32) : (x != 0) = (x.toNat != 0) := by
    rw [Bool.eq_iff_iff, bne_iff_ne, bne_iff_ne, Ne, Ne, ← UInt32.toNat_inj]
    rfl
  rw [has, hne, UInt32.toNat_and, Nat.and_comm, UInt32.toNat_shiftRight]
  cases f <;> rfl

theorem wordBit_put (h : Header) (f : Flag) (b : Bool) (hi : i < 32) :
    wordBit (h.put f b).flags i = if i = f.bit.toNat then b else wordBit h.flags i := by
  have hlt : f.bit.toNat < 32 := by cases f <;> decide
  have hone (j : Nat) : wordBit 1 j = decide (j = 0) := by
    rcases Nat.eq_zero_or_pos j with rfl | hj
    · rfl
    · rw [wordBit.of_lt (k := 1) (by decide) hj, decide_eq_false (Nat.pos_iff_ne_zero.1 hj)]
  have hval : wordBit (if b then 1 else 0) (i - f.bit.toNat) = (b && decide (i - f.bit.toNat = 0)) := by
    cases b
    · exact wordBit.of_lt (k := 0) (by decide) (Nat.zero_le _)
    · exact hone _
  rw [put, wordBit.or, wordBit.and, wordBit.not _ hi, wordBit.shiftLeft _ hlt hi, wordBit.shiftLeft _ hlt hi, hone,
    hval]
  grind

theorem has_put (h : Header) (f g : Flag) (b : Bool) : (h.put f b).has g = if g = f then b else h.has g := by
  rw [has_eq, has_eq, wordBit_put h f b (by cases g <;> decide)]
  cases f <;> cases g <;> rfl

/-! ## The tier -/

theorem wordBit_three (hi : 2 ≤ i) : wordBit 3 i = false := wordBit.of_lt (by decide) hi

theorem tier_congr (h0 : wordBit h'.flags 0 = wordBit h.flags 0) (h1 : wordBit h'.flags 1 = wordBit h.flags 1) :
    h'.tier = h.tier := by
  have hlow : h'.flags &&& 3 = h.flags &&& 3 := by
    refine wordBit.ext fun i _ => ?_
    rw [wordBit.and, wordBit.and]
    rcases Nat.lt_or_ge i 2 with hlt | hge
    · obtain rfl | rfl : i = 0 ∨ i = 1 := by omega
      · rw [h0]
      · rw [h1]
    · rw [wordBit_three hge, Bool.and_false, Bool.and_false]
  rw [tier, tier, hlow]

theorem tier_setTier (h : Header) (t : Tier) : (h.setTier t).tier = t := by
  have hindex : (h.setTier t).flags &&& 3 = t.index := by
    refine wordBit.ext fun i hi => ?_
    have hlow : t.index = t.index &&& 3 := by cases t <;> rfl
    rw [setTier, wordBit.and, wordBit.or, wordBit.and, wordBit.not _ hi, hlow, wordBit.and]
    cases wordBit 3 i <;> simp
  rw [tier, hindex]
  cases t <;> rfl

theorem tier_put (h : Header) (f : Flag) (b : Bool) : (h.put f b).tier = h.tier := by
  refine tier_congr ?_ ?_
  · rw [wordBit_put h f b (by decide), if_neg (by cases f <;> decide)]
  · rw [wordBit_put h f b (by decide), if_neg (by cases f <;> decide)]

/-! ## The glue -/

theorem wordBit_setGlue (h : Header) (n : Nat) (hi : i < 6) : wordBit (h.setGlue n).flags i = wordBit h.flags i := by
  have hmask : ∀ i < 6, wordBit (~~~((~~~0 : UInt32) <<< 6)) i = true := by decide
  rw [setGlue, wordBit.or, wordBit.and, hmask i hi, wordBit.shiftLeft _ (by decide) (by omega),
    decide_eq_false (show ¬ (6 : UInt32).toNat ≤ i from Nat.not_le.2 hi), Bool.and_true, Bool.false_and, Bool.or_false]

theorem has_setGlue (h : Header) (n : Nat) (f : Flag) : (h.setGlue n).has f = h.has f := by
  rw [has_eq, has_eq, wordBit_setGlue h n (by cases f <;> decide)]

theorem tier_setGlue (h : Header) (n : Nat) : (h.setGlue n).tier = h.tier :=
  tier_congr (wordBit_setGlue h n (by decide)) (wordBit_setGlue h n (by decide))

theorem glue_setGlue (h : Header) (n : Nat) : (h.setGlue n).glue = Clause.storedGlue n := by
  have hlt : Clause.storedGlue n < 2 ^ 26 := Nat.lt_of_le_of_lt (Nat.min_le_right _ _) (by decide)
  have hn : (UInt32.ofNat (Clause.storedGlue n)).toNat = Clause.storedGlue n :=
    UInt32.toNat_ofNat_of_lt' (Nat.lt_trans hlt (by decide))
  have hlow (j : Nat) (hj : 6 ≤ j) : wordBit (~~~((~~~0 : UInt32) <<< 6)) j = false := wordBit.of_lt (by decide) hj
  have hshift : (h.setGlue n).flags >>> 6 = UInt32.ofNat (Clause.storedGlue n) := by
    refine wordBit.ext fun i hi => ?_
    rw [wordBit.shiftRight _ (by decide), show (6 : UInt32).toNat = 6 from rfl]
    rcases Nat.lt_or_ge i 26 with h26 | h26
    · rw [setGlue, wordBit.or, wordBit.and, hlow (6 + i) (Nat.le_add_right 6 i),
        wordBit.shiftLeft _ (by decide) (by omega), show (6 : UInt32).toNat = 6 from rfl, Nat.add_sub_cancel_left,
        decide_eq_true (Nat.le_add_right 6 i), Bool.and_false, Bool.true_and, Bool.false_or]
    · rw [wordBit.of_ge _ (by omega), wordBit.of_lt (hn.symm ▸ hlt) h26]
  rw [glue, hshift, hn]

end Header

namespace Clause

variable (c : Clause)

/-- The header tells whether a clause is deleted, marked and active, as well as its tier, its activity and the length of
it. The glue is the one of the clause unless that is very great. -/
theorem reads_header : c.header.has .deleted = c.deleted ∧ c.header.has .marked = c.marked ∧
    c.header.has .active = c.active ∧ c.header.tier = c.tier ∧ c.header.glue = storedGlue c.glue ∧
    c.header.activity = c.activity.toBits ∧ c.header.length = UInt32.ofNat c.size := by
  have hhas (f : Flag) : c.header.has f =
      (((({ } : Header).setTier c.tier).put .deleted c.deleted).put .marked c.marked |>.put .active c.active).has f :=
    Header.has_setGlue _ _ f
  have htier : c.header.tier =
      (((({ } : Header).setTier c.tier).put .deleted c.deleted).put .marked c.marked |>.put .active c.active).tier :=
    Header.tier_setGlue _ _
  refine ⟨?_, ?_, ?_, ?_, Header.glue_setGlue _ _, rfl, rfl⟩
  · rw [hhas, Header.has_put, Header.has_put, Header.has_put]
    rfl
  · rw [hhas, Header.has_put, Header.has_put]
    rfl
  · rw [hhas, Header.has_put]
    rfl
  · rw [htier, Header.tier_put, Header.tier_put, Header.tier_put, Header.tier_setTier]

end Clause

end ClauseLearning
