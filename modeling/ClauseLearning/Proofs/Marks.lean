import ClauseLearning.Marks
import ClauseLearning.Proofs.Arrays

/-!
# Marks between uses

* `Marks.has_mark`, `Marks.has_unmark`, `Marks.has_markAll`, `Marks.has_unmarkAll` : what is marked after a change;
* `Marks.Clear` : nothing is marked. Every use leaves marks that were clear clear again (`Marks.Clear.countDistinct`).
-/

namespace ClauseLearning.Marks

variable {m : Marks} {i j n : Nat} {is : List Nat}

@[simp] theorem size_mark : (m.mark i).bits.size = m.bits.size := Array.size_setIfInBounds

@[simp] theorem size_unmark : (m.unmark i).bits.size = m.bits.size := Array.size_setIfInBounds

@[simp] theorem size_markAll : (m.markAll is).bits.size = m.bits.size := by
  unfold markAll
  induction is generalizing m with
  | nil => rfl
  | cons i is ih => rw [List.foldl_cons, ih, size_mark]

@[simp] theorem size_unmarkAll : (m.unmarkAll is).bits.size = m.bits.size := by
  unfold unmarkAll
  induction is generalizing m with
  | nil => rfl
  | cons i is ih => rw [List.foldl_cons, ih, size_unmark]

theorem has_mark (h : i < m.bits.size) : (m.mark i).has j ↔ j = i ∨ m.has j := by
  rw [has, mark, getD_setIfInBounds h, ← has]
  split <;> simp_all

theorem has_of_has_mark (h : (m.mark i).has j) : j = i ∨ m.has j := by
  by_cases hj : j = i
  · exact Or.inl hj
  · rw [has, mark, getD_setIfInBounds_ne hj] at h
    exact Or.inr h

theorem has_unmark : (m.unmark i).has j ↔ j ≠ i ∧ m.has j := by
  by_cases hj : j = i
  · subst hj
    have h : (m.unmark j).has j = false := by
      by_cases h : j < m.bits.size
      · rw [has, unmark, getD_setIfInBounds h, if_pos rfl]
      · exact getD_of_size_le (by rw [size_unmark]; exact Nat.le_of_not_lt h)
    simp [h]
  · rw [has, unmark, getD_setIfInBounds_ne hj, ← has]
    simp [hj]

theorem has_markAll (h : ∀ i ∈ is, i < m.bits.size) : (m.markAll is).has j ↔ j ∈ is ∨ m.has j := by
  unfold markAll
  induction is generalizing m with
  | nil => simp
  | cons i is ih =>
    rw [List.foldl_cons, ih fun k hk => by rw [size_mark]; exact h k (List.mem_cons_of_mem i hk),
      has_mark (h i List.mem_cons_self), List.mem_cons]
    exact ⟨by rintro (h | h | h) <;> simp [h], by rintro ((h | h) | h) <;> simp [h]⟩

theorem has_unmarkAll : (m.unmarkAll is).has j ↔ j ∉ is ∧ m.has j := by
  unfold unmarkAll
  induction is generalizing m with
  | nil => simp
  | cons i is ih =>
    rw [List.foldl_cons, ih, has_unmark, List.mem_cons, not_or]
    exact ⟨fun ⟨h₁, h₂, h₃⟩ => ⟨⟨h₂, h₁⟩, h₃⟩, fun ⟨⟨h₂, h₁⟩, h₃⟩ => ⟨h₁, h₂, h₃⟩⟩

/-- Room for `n` numbers, none of them marked. -/
structure Clear (n : Nat) (m : Marks) : Prop where
  size_eq : m.bits.size = n
  has_eq (i : Nat) : m.has i = false

theorem clear_iff : m.Clear n ↔ m.bits = Array.replicate n false := by
  refine ⟨fun h => ?_, fun h => ⟨by rw [h, Array.size_replicate], fun i => ?_⟩⟩
  · refine Array.ext (h.size_eq.trans Array.size_replicate.symm) fun i hi _ => ?_
    rw [Array.getElem_replicate, ← h.has_eq i, has, Array.getD_eq_getD_getElem?, Array.getElem?_eq_getElem hi,
      Option.getD_some]
  · rw [has, h, Array.getD_eq_getD_getElem?, Array.getElem?_replicate]
    split <;> rfl

theorem clear_empty : ({} : Marks).Clear 0 where
  size_eq := rfl
  has_eq i := by
    rw [has, getD_of_size_le (Nat.zero_le i)]

theorem clear_one : (⟨#[false]⟩ : Marks).Clear 1 where
  size_eq := rfl
  has_eq i := by
    cases i with
    | zero => rfl
    | succ i => rw [has, getD_of_size_le (Nat.le_add_left 1 i)]

namespace Clear

theorem extend (h : m.Clear n) (count : Nat) : (m.extend count).Clear (n + count) where
  size_eq := by rw [Marks.extend, Array.size_append, Array.size_replicate, h.size_eq]
  has_eq i := by
    rw [has, Marks.extend, Array.getD_eq_getD_getElem?, Array.getElem?_append]
    split
    · rw [← Array.getD_eq_getD_getElem?]
      exact h.has_eq i
    · rw [Array.getElem?_replicate]
      split <;> rfl

theorem unmarkAll_markAll (h : m.Clear n) : ((m.markAll is).unmarkAll is).Clear n where
  size_eq := by rw [size_unmarkAll, size_markAll, h.size_eq]
  has_eq i := by
    apply Bool.eq_false_iff.2
    intro hi
    obtain ⟨hn, hi⟩ := has_unmarkAll.1 hi
    have hm (is : List Nat) (m : Marks) (hn : i ∉ is) : (m.markAll is).has i = m.has i := by
      unfold markAll
      induction is generalizing m with
      | nil => rfl
      | cons k is ih =>
        rw [List.foldl_cons, ih _ fun h => hn (List.mem_cons_of_mem k h), has, mark,
          getD_setIfInBounds_ne fun h => hn (by simp [h]), ← has]
    rw [hm is m hn, h.has_eq] at hi
    cases hi

theorem markCounting_spec (is : List Nat) (count : Nat) (m : Marks) :
    (markCounting is count m).2.bits.size = m.bits.size ∧
      ∀ j, (markCounting is count m).2.has j → j ∈ is ∨ m.has j := by
  fun_induction markCounting is count m with
  | case1 count m => exact ⟨rfl, fun j hj => Or.inr hj⟩
  | case2 i is count m _ ih =>
    refine ⟨ih.1, ?_⟩
    intro j hj
    rcases ih.2 j hj with h | h
    · exact Or.inl (List.mem_cons_of_mem i h)
    · exact Or.inr h
  | case3 i is count m _ ih =>
    refine ⟨ih.1.trans size_mark, ?_⟩
    intro j hj
    rcases ih.2 j hj with h | h
    · exact Or.inl (List.mem_cons_of_mem i h)
    · rcases has_of_has_mark h with rfl | h
      · exact Or.inl List.mem_cons_self
      · exact Or.inr h

theorem countDistinct (h : m.Clear n) (is : List Nat) : (m.countDistinct is).2.Clear n := by
  obtain ⟨hs, hm⟩ := markCounting_spec is 0 m
  refine ⟨?_, fun i => Bool.eq_false_iff.2 ?_⟩
  · show ((markCounting is 0 m).2.unmarkAll is).bits.size = n
    rw [size_unmarkAll, hs, h.size_eq]
  · intro hi
    obtain ⟨hn, hi⟩ := has_unmarkAll.1 hi
    rcases hm i hi with hi | hi
    · exact hn hi
    · rw [h.has_eq] at hi
      cases hi

end Clear

end ClauseLearning.Marks
