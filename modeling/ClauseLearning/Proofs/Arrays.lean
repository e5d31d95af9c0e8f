/-!
# Tables

The model keeps its tables in arrays and reads them by `Array.getD`, with a default for places that are not in use.

* `getD_setIfInBounds`, `getD_modify` : a place after a change to one place;
* `getD_push`, `getD_push_default` : a place after room was made for one more;
* `getElem?_take` : a place of an array that was cut off;
* `rowIndex_div`, `rowIndex_mod`, `rowIndex_inj` : row and column of a place, in a table that is held row by row.
-/

namespace ClauseLearning

variable {α : Type} {xs : Array α} {i j : Nat} {x d : α}

theorem getD_setIfInBounds (h : i < xs.size) : (xs.setIfInBounds i x).getD j d = if j = i then x else xs.getD j d := by
  rw [Array.getD_eq_getD_getElem?, Array.getElem?_setIfInBounds]
  by_cases hj : j = i
  · rw [if_pos hj, if_pos hj.symm, if_pos (hj ▸ h), Option.getD_some]
  · rw [if_neg hj, if_neg (Ne.symm hj), Array.getD_eq_getD_getElem?]

theorem getD_setIfInBounds_ne (h : j ≠ i) : (xs.setIfInBounds i x).getD j d = xs.getD j d := by
  rw [Array.getD_eq_getD_getElem?, Array.getElem?_setIfInBounds, if_neg (Ne.symm h), Array.getD_eq_getD_getElem?]

theorem getD_modify {f : α → α} (h : i < xs.size) :
    (xs.modify i f).getD j d = if j = i then f (xs.getD i d) else xs.getD j d := by
  rw [Array.getD_eq_getD_getElem?, Array.getElem?_modify]
  by_cases hj : j = i
  · rw [if_pos hj, if_pos hj.symm, hj, Array.getD_eq_getD_getElem?, Array.getElem?_eq_getElem h]
    rfl
  · rw [if_neg hj, if_neg (Ne.symm hj), Array.getD_eq_getD_getElem?]

theorem getD_modify_ne {f : α → α} (h : j ≠ i) : (xs.modify i f).getD j d = xs.getD j d := by
  rw [Array.getD_eq_getD_getElem?, Array.getElem?_modify, if_neg (Ne.symm h), Array.getD_eq_getD_getElem?]

theorem getD_push : (xs.push x).getD j d = if j = xs.size then x else xs.getD j d := by
  rw [Array.getD_eq_getD_getElem?, Array.getElem?_push]
  split
  · rfl
  · rw [Array.getD_eq_getD_getElem?]

theorem getD_of_size_le (h : xs.size ≤ j) : xs.getD j d = d := by
  rw [Array.getD_eq_getD_getElem?, Array.getElem?_eq_none h, Option.getD_none]

/-- Room for a default changes nothing. -/
theorem getD_push_default : (xs.push d).getD j d = xs.getD j d := by
  rw [getD_push]
  split
  · next h => rw [getD_of_size_le (Nat.le_of_eq h.symm)]
  · rfl

theorem getElem?_take : (xs.take i)[j]? = if j < i then xs[j]? else none := by
  rw [Array.take_eq_extract, Array.getElem?_extract, Nat.zero_add, Nat.sub_zero]
  by_cases h : j < i
  · rw [if_pos h]
    split
    · rfl
    · rw [Array.getElem?_eq_none (by omega)]
  · rw [if_neg h, if_neg (by omega)]

section Rows

variable {n i' j' : Nat}

theorem rowIndex_div (h : j < n) : (i * n + j) / n = i := by
  rw [Nat.add_comm, Nat.add_mul_div_right _ _ (Nat.zero_lt_of_lt h), Nat.div_eq_of_lt h, Nat.zero_add]

theorem rowIndex_mod (h : j < n) : (i * n + j) % n = j := by
  rw [Nat.add_comm, Nat.add_mul_mod_self_right, Nat.mod_eq_of_lt h]

theorem rowIndex_inj (h : j < n) (h' : j' < n) (heq : i * n + j = i' * n + j') : i = i' ∧ j = j' :=
  ⟨by rw [← rowIndex_div (i := i) h, heq, rowIndex_div h'], by rw [← rowIndex_mod (i := i) h, heq, rowIndex_mod h']⟩

theorem rowIndex_lt {m : Nat} (hi : i < m) (hj : j < n) : i * n + j < m * n :=
  calc i * n + j < i * n + n := Nat.add_lt_add_left hj _
    _ = (i + 1) * n := (Nat.succ_mul i n).symm
    _ ≤ m * n := Nat.mul_le_mul_right n hi

end Rows

end ClauseLearning
