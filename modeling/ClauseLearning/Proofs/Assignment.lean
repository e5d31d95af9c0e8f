import ClauseLearning.Literal

/-!
# Assignments and satisfied clauses

* `Assignment` : a value for every variable; `Lit.Holds`, `Satisfies`, `SatisfiesAll` : literals, clauses and formulas
  that are true under it;
* `Lit.ext_var` : a literal is given by its variable and its sign, `Lit.var_neg`, `Lit.neg_neg` : opposite literals;
* `Lit.eq_of_var_eq` : two literals of a variable are equal or opposite;
* `Assignment.set` : another value for the variable of a literal;
* `PartialAssignment`, `PartialAssignment.Meets` : the literals that are not false when variables may lack a value, and
  the clauses with such a literal.
-/

namespace ClauseLearning

/-! ## Literals -/

theorem Var.ext_index {v w : Var} (h : v.index = w.index) : v = w := by
  cases v; cases w
  exact congrArg Var.mk h

theorem Var.index_inj {v w : Var} : v.index = w.index ↔ v = w := ⟨Var.ext_index, fun h => h ▸ rfl⟩

namespace Lit

theorem ext_code {l k : Lit} (h : l.code = k.code) : l = k := by
  cases l; cases k
  exact congrArg Lit.mk h

theorem neg_def (l : Lit) : -l = l.opposite := rfl

theorem code_neg (l : Lit) : (-l).code = if l.code % 2 = 0 then l.code + 1 else l.code - 1 := by
  rw [neg_def, opposite]
  split <;> rfl

@[simp] theorem var_neg (l : Lit) : (-l).var = l.var := by
  apply Var.ext_index
  show (-l).code / 2 = l.code / 2
  rw [code_neg]
  split <;> omega

@[simp] theorem neg_neg (l : Lit) : -(-l) = l := by
  apply ext_code
  rw [code_neg, code_neg]
  split <;> split <;> omega

theorem neg_inj {l k : Lit} : -l = -k ↔ l = k := by
  constructor
  · intro h
    rw [← neg_neg l, h, neg_neg]
  · intro h
    rw [h]

theorem neg_eq_comm {l k : Lit} : -l = k ↔ l = -k := by
  constructor
  · intro h
    rw [← h, neg_neg]
  · intro h
    rw [h, neg_neg]

theorem neg_ne (l : Lit) : -l ≠ l := by
  intro h
  have := congrArg Lit.code h
  rw [code_neg] at this
  split at this <;> omega

theorem isNegative_eq (l : Lit) : l.isNegative = !l.isPositive := by
  rw [isPositive, Bool.not_not]

@[simp] theorem isPositive_neg (l : Lit) : (-l).isPositive = !l.isPositive := by
  unfold isPositive isNegative
  rw [code_neg]
  rcases Nat.mod_two_eq_zero_or_one l.code with h | h
  · have h' : (l.code + 1) % 2 = 1 := by omega
    simp [h, h']
  · have h' : (l.code - 1) % 2 = 0 := by omega
    simp [h, h']

/-- A literal is given by its variable and its sign. -/
theorem ext_var {l k : Lit} (hv : l.var = k.var) (hs : l.isPositive = k.isPositive) : l = k := by
  have hv' : l.code / 2 = k.code / 2 := congrArg Var.index hv
  have hs' : l.code % 2 = k.code % 2 := by
    unfold isPositive isNegative at hs
    rcases Nat.mod_two_eq_zero_or_one l.code with h | h <;>
      rcases Nat.mod_two_eq_zero_or_one k.code with h' | h' <;> simp_all
  apply ext_code
  omega

theorem eq_of_var_eq {l k : Lit} (h : l.var = k.var) : l = k ∨ l = -k := by
  by_cases hs : l.isPositive = k.isPositive
  · exact Or.inl (ext_var h hs)
  · refine Or.inr (ext_var (by rw [h, var_neg]) ?_)
    rw [isPositive_neg]
    cases hl : l.isPositive <;> cases hk : k.isPositive <;> simp_all

@[simp] theorem var_lit (v : Var) (b : Bool) : (v.lit b).var = v := by
  apply Var.ext_index
  show (2 * v.index + if b then 0 else 1) / 2 = v.index
  split <;> omega

@[simp] theorem isPositive_lit (v : Var) (b : Bool) : (v.lit b).isPositive = b := by
  unfold isPositive isNegative
  show (!((2 * v.index + if b then 0 else 1) % 2 == 1)) = b
  cases b with
  | true =>
    rw [if_pos rfl, Nat.add_zero, Nat.mul_mod_right]
    rfl
  | false =>
    rw [if_neg Bool.false_ne_true, Nat.mul_add_mod]
    rfl

theorem code_lt {l : Lit} {n : Nat} (h : l.var.index < n) : l.code < 2 * n := by
  have : l.code / 2 < n := h
  omega

theorem lit_var (l : Lit) : l.var.lit l.isPositive = l := ext_var (var_lit _ _) (isPositive_lit _ _)

theorem positive_eq_neg_negative (v : Var) : v.positive = -v.negative :=
  ext_var (by simp [Var.positive, Var.negative]) (by simp [Var.positive, Var.negative])

theorem eq_positive_or_negative {l : Lit} {v : Var} (h : l.var = v) : l = v.positive ∨ l = v.negative := by
  rw [← h, ← Lit.lit_var l, Lit.var_lit]
  cases l.isPositive
  · exact Or.inr rfl
  · exact Or.inl rfl

end Lit

/-! ## Assignments -/

/-- A value for every variable. -/
abbrev Assignment := Var → Bool

/-- A literal that is true under an assignment. -/
def Lit.Holds (a : Assignment) (l : Lit) : Prop := a l.var = l.isPositive

instance (a : Assignment) (l : Lit) : Decidable (l.Holds a) := inferInstanceAs (Decidable (_ = _))

/-- A clause with a literal that is true. -/
def Satisfies (a : Assignment) (ls : List Lit) : Prop := ∃ l ∈ ls, l.Holds a

instance (a : Assignment) (ls : List Lit) : Decidable (Satisfies a ls) :=
  inferInstanceAs (Decidable (∃ l ∈ ls, l.Holds a))

/-- A formula all of whose clauses are satisfied. -/
def SatisfiesAll (a : Assignment) (f : List (List Lit)) : Prop := ∀ c ∈ f, Satisfies a c

instance (a : Assignment) (f : List (List Lit)) : Decidable (SatisfiesAll a f) :=
  inferInstanceAs (Decidable (∀ c ∈ f, Satisfies a c))

theorem satisfiesAll_singleton {a : Assignment} {ls : List Lit} : SatisfiesAll a [ls] ↔ Satisfies a ls := by
  unfold SatisfiesAll
  rw [List.forall_mem_singleton]

theorem satisfiesAll_append {a : Assignment} {f g : List (List Lit)} :
    SatisfiesAll a (f ++ g) ↔ SatisfiesAll a f ∧ SatisfiesAll a g := by
  unfold SatisfiesAll
  rw [List.forall_mem_append]

namespace Lit

@[simp] theorem holds_neg {a : Assignment} {l : Lit} : (-l).Holds a ↔ ¬ l.Holds a := by
  unfold Holds
  rw [var_neg, isPositive_neg]
  cases a l.var <;> cases l.isPositive <;> simp

theorem holds_congr {a b : Assignment} {l : Lit} (h : a l.var = b l.var) : l.Holds a ↔ l.Holds b := by
  unfold Holds
  rw [h]

end Lit

theorem Satisfies.mono {a : Assignment} {ls ks : List Lit} (h : Satisfies a ls) (hs : ∀ l ∈ ls, l.Holds a → l ∈ ks) :
    Satisfies a ks := by
  obtain ⟨l, hl, ha⟩ := h
  exact ⟨l, hs l hl ha, ha⟩

theorem satisfies_filter {a : Assignment} {ls : List Lit} {p : Lit → Bool} (h : ∀ l ∈ ls, p l = false → ¬ l.Holds a) :
    Satisfies a (ls.filter p) ↔ Satisfies a ls := by
  constructor <;> rintro ⟨l, hl, ha⟩
  · exact ⟨l, (List.mem_filter.1 hl).1, ha⟩
  · refine ⟨l, List.mem_filter.2 ⟨hl, ?_⟩, ha⟩
    cases hp : p l
    · exact absurd ha (h l hl hp)
    · rfl

/-- The assignment under which a literal is true, and all other variables are as before. -/
def Assignment.set (a : Assignment) (l : Lit) : Assignment := fun v => if v = l.var then l.isPositive else a v

namespace Assignment

theorem set_of_ne (a : Assignment) {l : Lit} {v : Var} (h : v ≠ l.var) : a.set l v = a v := if_neg h

theorem holds_set_self (a : Assignment) (l : Lit) : l.Holds (a.set l) := if_pos rfl

theorem holds_set_of_ne {a : Assignment} {l k : Lit} (h : k.var ≠ l.var) : k.Holds (a.set l) ↔ k.Holds a :=
  Lit.holds_congr (set_of_ne a h)

end Assignment

/-! ## Partial assignments -/

/-- The literals that are not false when variables may lack a value. Of two opposite literals one is not false at
least. -/
structure PartialAssignment where
  Allows : Lit → Prop
  allows_or (l : Lit) : Allows l ∨ Allows (-l)

/-- An assignment allows the literals that are true under it. -/
def Assignment.toPartial (a : Assignment) : PartialAssignment where
  Allows l := l.Holds a
  allows_or l := by
    rw [Lit.holds_neg]
    exact Classical.em _

namespace PartialAssignment

variable {m : PartialAssignment} {l k : Lit} {ls ks : List Lit} {f g : List (List Lit)}

/-- A clause that is not false. -/
def Meets (m : PartialAssignment) (ls : List Lit) : Prop := ∃ l ∈ ls, m.Allows l

/-- A formula none of whose clauses is false. -/
def MeetsAll (m : PartialAssignment) (f : List (List Lit)) : Prop := ∀ c ∈ f, m.Meets c

theorem ext_allows {m m' : PartialAssignment} (h : ∀ l, m.Allows l ↔ m'.Allows l) : m = m' := by
  cases m; cases m'
  congr
  funext l
  exact propext (h l)

theorem meetsAll_singleton : m.MeetsAll [ls] ↔ m.Meets ls := by
  unfold MeetsAll
  rw [List.forall_mem_singleton]

theorem meetsAll_append : m.MeetsAll (f ++ g) ↔ m.MeetsAll f ∧ m.MeetsAll g := by
  unfold MeetsAll
  rw [List.forall_mem_append]

theorem Meets.mono (h : m.Meets ls) (hs : ∀ l ∈ ls, l ∈ ks) : m.Meets ks := by
  obtain ⟨l, hl, ha⟩ := h
  exact ⟨l, hs l hl, ha⟩

theorem meets_of_mem_of_neg_mem (h : l ∈ ls) (h' : -l ∈ ls) : m.Meets ls :=
  (m.allows_or l).elim (fun ha => ⟨l, h, ha⟩) fun ha => ⟨-l, h', ha⟩

/-- The partial assignment under which a literal is true, and all other variables are as before. -/
def set (m : PartialAssignment) (l : Lit) : PartialAssignment where
  Allows k := k = l ∨ k.var ≠ l.var ∧ m.Allows k
  allows_or k := by
    by_cases hk : k.var = l.var
    · exact (Lit.eq_of_var_eq hk).imp Or.inl fun h => Or.inl (Lit.neg_eq_comm.2 h)
    · exact (m.allows_or k).imp (fun h => Or.inr ⟨hk, h⟩) fun h => Or.inr ⟨(Lit.var_neg k).symm ▸ hk, h⟩

theorem allows_set_self (m : PartialAssignment) (l : Lit) : (m.set l).Allows l := Or.inl rfl

theorem allows_set_of_ne (h : k.var ≠ l.var) : (m.set l).Allows k ↔ m.Allows k := by
  show k = l ∨ k.var ≠ l.var ∧ m.Allows k ↔ _
  rw [or_iff_right fun hk => h (congrArg Lit.var hk), and_iff_right h]

theorem toPartial_set (a : Assignment) (l : Lit) : (a.set l).toPartial = a.toPartial.set l := by
  apply ext_allows
  intro k
  show k.Holds (a.set l) ↔ (a.toPartial.set l).Allows k
  by_cases hk : k.var = l.var
  · rcases Lit.eq_of_var_eq hk with rfl | rfl
    · exact iff_of_true (Assignment.holds_set_self a k) (allows_set_self _ k)
    · refine iff_of_false (fun h => Lit.holds_neg.1 h (Assignment.holds_set_self a l)) ?_
      rintro (h | ⟨h, -⟩)
      · exact Lit.neg_ne l h
      · exact h hk
  · rw [Assignment.holds_set_of_ne hk, allows_set_of_ne hk]
    rfl

end PartialAssignment

end ClauseLearning
