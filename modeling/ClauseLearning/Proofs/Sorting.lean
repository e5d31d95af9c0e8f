import ClauseLearning.Proofs.Assignment

/-!
# Sorted lists of literals

* `sortBy_perm`, `sortBy_sorted` : sorting permutes a list and puts its elements in order;
* `SortedBy.sortBy_eq` : a list that is in order stays as it is, elements of equal keys included;
* `mem_of_firstMin` : the element of least key is one of the list;
* `Lit.mem_distinct`, `Lit.distinct_ascending` : each literal of a list once, by increasing code;
* `Lit.exists_opposites`, `Lit.distinct_vars` : in such a list the two literals of a variable are neighbours. So
  `Lit.hasOpposites` tells whether a variable occurs twice.
-/

namespace ClauseLearning

variable {α : Type}

/-! ## Sorting permutes -/

theorem mergeFuel_perm (key : α → Nat) (fuel : Nat) (xs ys : List α) :
    (mergeFuel key fuel xs ys).Perm (xs ++ ys) := by
  fun_induction mergeFuel key fuel xs ys with
  | case1 fuel x xs y ys _ ih => exact ih.cons x
  | case2 fuel x xs y ys _ ih =>
    have h : (x :: xs ++ y :: ys).Perm (y :: (x :: xs ++ ys)) := List.perm_middle
    exact (ih.cons y).trans h.symm
  | case3 => exact List.Perm.refl _

theorem mergePairs_perm (key : α → Nat) (runs : List (List α)) :
    (mergePairs key runs).flatten.Perm runs.flatten := by
  fun_induction mergePairs key runs with
  | case1 xs ys runs ih =>
    rw [List.flatten_cons, List.flatten_cons, List.flatten_cons, ← List.append_assoc]
    exact (mergeFuel_perm key _ xs ys).append ih
  | case2 => exact List.Perm.refl _

theorem mergeRuns_perm (key : α → Nat) (fuel : Nat) (runs : List (List α)) :
    (mergeRuns key fuel runs).Perm runs.flatten := by
  fun_induction mergeRuns key fuel runs with
  | case1 fuel xs ys runs ih => exact ih.trans (mergePairs_perm key _)
  | case2 => exact List.Perm.refl _

theorem flatten_singletons (xs : List α) : (xs.map fun x => [x]).flatten = xs := by
  induction xs with
  | nil => rfl
  | cons x xs ih => rw [List.map_cons, List.flatten_cons, ih, List.singleton_append]

theorem sortBy_perm (key : α → Nat) (xs : List α) : (sortBy key xs).Perm xs := by
  have := mergeRuns_perm key xs.length (xs.map fun x => [x])
  rwa [flatten_singletons] at this

theorem mem_sortBy {key : α → Nat} {xs : List α} {x : α} : x ∈ sortBy key xs ↔ x ∈ xs := (sortBy_perm key xs).mem_iff

/-! ## Sorting sorts -/

/-- A list by increasing keys. -/
def SortedBy (key : α → Nat) (xs : List α) : Prop := xs.Pairwise fun x y => key x ≤ key y

theorem SortedBy.eq_of_perm {key : α → Nat} {xs ys : List α} (hkey : ∀ x y, key x = key y → x = y)
    (hx : SortedBy key xs) (hy : SortedBy key ys) (hp : xs.Perm ys) : xs = ys :=
  List.Perm.eq_of_pairwise (fun x y _ _ hxy hyx => hkey x y (Nat.le_antisymm hxy hyx)) hx hy hp

theorem SortedBy.le_of_mem_take {key : α → Nat} {xs : List α} {k : Nat} {x y : α} (h : SortedBy key xs)
    (hx : x ∈ xs.take k) (hy : y ∈ xs) (hn : y ∉ xs.take k) : key x ≤ key y := by
  rw [← List.take_append_drop k xs] at h hy
  exact (List.pairwise_append.1 h).2.2 x hx y ((List.mem_append.1 hy).resolve_left hn)

theorem mergeFuel_sorted (key : α → Nat) (fuel : Nat) (xs ys : List α) (hf : xs.length + ys.length ≤ fuel)
    (hx : SortedBy key xs) (hy : SortedBy key ys) : SortedBy key (mergeFuel key fuel xs ys) := by
  fun_induction mergeFuel key fuel xs ys with
  | case1 fuel x xs y ys hle ih =>
    obtain ⟨hx1, hx2⟩ := List.pairwise_cons.1 hx
    obtain ⟨hy1, -⟩ := List.pairwise_cons.1 hy
    refine List.pairwise_cons.2 ⟨?_, ih (by simp at hf ⊢; omega) hx2 hy⟩
    intro z hz
    rcases List.mem_append.1 ((mergeFuel_perm key fuel xs (y :: ys)).mem_iff.1 hz) with h | h
    · exact hx1 z h
    · rcases List.mem_cons.1 h with rfl | h
      · exact hle
      · exact Nat.le_trans hle (hy1 z h)
  | case2 fuel x xs y ys hle ih =>
    obtain ⟨hx1, -⟩ := List.pairwise_cons.1 hx
    obtain ⟨hy1, hy2⟩ := List.pairwise_cons.1 hy
    refine List.pairwise_cons.2 ⟨?_, ih (by simp at hf ⊢; omega) hx hy2⟩
    intro z hz
    rcases List.mem_append.1 ((mergeFuel_perm key fuel (x :: xs) ys).mem_iff.1 hz) with h | h
    · rcases List.mem_cons.1 h with rfl | h
      · omega
      · have := hx1 z h
        omega
    · exact hy1 z h
  | case3 fuel xs ys hne =>
    -- one of the lists is empty, as the fuel covers both
    cases xs with
    | nil => exact hy
    | cons x xs =>
      cases ys with
      | nil => simpa using hx
      | cons y ys =>
        cases fuel with
        | zero => simp at hf
        | succ fuel => exact absurd rfl (hne fuel x xs y ys rfl rfl)

theorem mergePairs_sorted (key : α → Nat) (runs : List (List α)) (h : ∀ r ∈ runs, SortedBy key r) :
    ∀ r ∈ mergePairs key runs, SortedBy key r := by
  fun_induction mergePairs key runs with
  | case1 xs ys runs ih =>
    intro r hr
    rcases List.mem_cons.1 hr with rfl | hr
    · exact mergeFuel_sorted key _ xs ys (Nat.le_refl _) (h xs (by simp)) (h ys (by simp))
    · exact ih (fun r hr => h r (by simp [hr])) r hr
  | case2 runs => exact h

theorem length_mergePairs (key : α → Nat) (runs : List (List α)) :
    (mergePairs key runs).length = (runs.length + 1) / 2 := by
  fun_induction mergePairs key runs with
  | case1 xs ys runs ih =>
    rw [List.length_cons, ih, List.length_cons, List.length_cons]
    omega
  | case2 runs hne =>
    cases runs with
    | nil => simp
    | cons xs runs =>
      cases runs with
      | nil => simp
      | cons ys runs => exact absurd rfl (hne xs ys runs)

theorem mergeRuns_sorted (key : α → Nat) (fuel : Nat) (runs : List (List α)) (hf : runs.length ≤ fuel + 1)
    (h : ∀ r ∈ runs, SortedBy key r) : SortedBy key (mergeRuns key fuel runs) := by
  fun_induction mergeRuns key fuel runs with
  | case1 fuel xs ys runs ih =>
    refine ih ?_ (mergePairs_sorted key _ h)
    rw [length_mergePairs]
    simp at hf ⊢
    omega
  | case2 fuel runs hne =>
    cases runs with
    | nil => exact List.Pairwise.nil
    | cons xs runs =>
      cases runs with
      | nil => simpa using h xs (by simp)
      | cons ys runs =>
        cases fuel with
        | zero => simp at hf
        | succ fuel => exact absurd rfl (hne fuel xs ys runs rfl)

theorem sortBy_sorted (key : α → Nat) (xs : List α) : SortedBy key (sortBy key xs) := by
  apply mergeRuns_sorted key _ _ (by simp)
  intro r hr
  obtain ⟨x, -, rfl⟩ := List.mem_map.1 hr
  exact List.pairwise_singleton _ _

/-! ## Sorting is stable -/

theorem mergeFuel_eq_append {key : α → Nat} {xs ys : List α} (h : SortedBy key (xs ++ ys)) (fuel : Nat) :
    mergeFuel key fuel xs ys = xs ++ ys := by
  fun_induction mergeFuel key fuel xs ys with
  | case1 fuel x xs y ys _ ih => rw [ih (List.pairwise_cons.1 h).2, List.cons_append]
  | case2 fuel x xs y ys hn _ => exact absurd ((List.pairwise_append.1 h).2.2 x (by simp) y (by simp)) hn
  | case3 => rfl

theorem flatten_mergePairs {key : α → Nat} {runs : List (List α)} (h : SortedBy key runs.flatten) :
    (mergePairs key runs).flatten = runs.flatten := by
  fun_induction mergePairs key runs with
  | case1 xs ys runs ih =>
    simp only [List.flatten_cons, ← List.append_assoc] at h ⊢
    obtain ⟨h1, h2, -⟩ := List.pairwise_append.1 h
    rw [ih h2, mergeBy, mergeFuel_eq_append h1]
  | case2 => rfl

theorem mergeRuns_eq_flatten {key : α → Nat} (fuel : Nat) {runs : List (List α)} (h : SortedBy key runs.flatten) :
    mergeRuns key fuel runs = runs.flatten := by
  fun_induction mergeRuns key fuel runs with
  | case1 fuel xs ys runs ih => rw [ih (by rwa [flatten_mergePairs h]), flatten_mergePairs h]
  | case2 => rfl

theorem SortedBy.sortBy_eq {key : α → Nat} {xs : List α} (h : SortedBy key xs) : sortBy key xs = xs := by
  have hx := flatten_singletons xs
  rw [sortBy, mergeRuns_eq_flatten _ (by rwa [hx]), hx]

/-! ## Least elements -/

theorem mem_of_firstMin {key : α → Nat} {xs : List α} {x : α} (h : firstMin? key xs = some x) :
    x ∈ xs := by
  induction xs generalizing x with
  | nil => cases h
  | cons y ys ih =>
    unfold firstMin? at h
    split at h
    · exact Option.some.inj h ▸ List.mem_cons_self
    · next z hz =>
      split at h
      · exact Option.some.inj h ▸ List.mem_cons_self
      · exact List.mem_cons_of_mem y (ih (Option.some.inj h ▸ hz))

/-! ## Literals, each once -/

namespace Lit

/-- A list of literals by increasing code, without repetitions. -/
def Ascending (ls : List Lit) : Prop := ls.Pairwise fun x y => x.code < y.code

theorem mem_eraseReps_loop (l x : Lit) (ls acc : List Lit) :
    l ∈ List.eraseRepsBy.loop (· == ·) x ls acc ↔ l ∈ acc ∨ l = x ∨ l ∈ ls := by
  induction ls generalizing x acc with
  | nil => simp [List.eraseRepsBy.loop, or_comm]
  | cons y ls ih =>
    rw [List.eraseRepsBy.loop]
    split
    · next h =>
      rw [ih, eq_of_beq h, List.mem_cons]
      grind
    · rw [ih, List.mem_cons, List.mem_cons]
      grind

theorem ascending_eraseReps_loop (x : Lit) (ls acc : List Lit) (hs : SortedBy Lit.code (x :: ls))
    (ha : acc.Pairwise fun y z => z.code < y.code) (hx : ∀ y ∈ acc, y.code < x.code) :
    Ascending (List.eraseRepsBy.loop (· == ·) x ls acc) := by
  induction ls generalizing x acc with
  | nil =>
    rw [List.eraseRepsBy.loop, Ascending, List.pairwise_reverse]
    exact List.pairwise_cons.2 ⟨hx, ha⟩
  | cons y ls ih =>
    obtain ⟨h1, h2⟩ := List.pairwise_cons.1 hs
    have hxy := h1 y List.mem_cons_self
    rw [List.eraseRepsBy.loop]
    split
    · next h =>
      rw [eq_of_beq h]
      rw [eq_of_beq h] at hx
      exact ih y acc h2 ha hx
    · next h =>
      have hne : x.code ≠ y.code := by
        intro hc
        rw [ext_code hc, beq_self_eq_true] at h
        cases h
      refine ih y (x :: acc) h2 (List.pairwise_cons.2 ⟨hx, ha⟩) ?_
      intro z hz
      rcases List.mem_cons.1 hz with rfl | hz
      · omega
      · have := hx z hz
        omega

theorem mem_distinct {l : Lit} {ls : List Lit} : l ∈ distinct ls ↔ l ∈ ls := by
  have h : l ∈ sort ls ↔ l ∈ ls := mem_sortBy
  rw [← h, distinct, List.eraseReps]
  cases sort ls with
  | nil => rfl
  | cons x xs =>
    rw [List.eraseRepsBy, mem_eraseReps_loop, List.mem_cons]
    simp

theorem distinct_ascending (ls : List Lit) : Ascending (distinct ls) := by
  have h : SortedBy Lit.code (sort ls) := sortBy_sorted _ _
  rw [distinct, List.eraseReps]
  revert h
  cases sort ls with
  | nil => exact fun _ => List.Pairwise.nil
  | cons x xs => exact fun h => ascending_eraseReps_loop x xs [] h List.Pairwise.nil (by simp)

theorem exists_opposites {ls : List Lit} (h : hasOpposites ls = true) : ∃ l ∈ ls, -l ∈ ls := by
  fun_induction hasOpposites ls with
  | case1 a b rest ih =>
    rcases Bool.or_eq_true_iff.1 h with h | h
    · refine ⟨b, by simp, ?_⟩
      rw [← eq_of_beq h]
      exact List.mem_cons_self
    · obtain ⟨l, hl, hl'⟩ := ih h
      exact ⟨l, List.mem_cons_of_mem _ hl, List.mem_cons_of_mem _ hl'⟩
  | case2 => cases h

/-- The codes of the two literals of a variable are neighbours, so nothing stands between them. -/
theorem distinct_vars {ls : List Lit} (h : Ascending ls) (hn : hasOpposites ls = false) : (ls.map Lit.var).Nodup := by
  fun_induction hasOpposites ls with
  | case1 a b rest ih =>
    obtain ⟨hab, hr⟩ := Bool.or_eq_false_iff.1 hn
    obtain ⟨ha, hb⟩ := List.pairwise_cons.1 h
    refine List.nodup_cons.2 ⟨?_, ih hb hr⟩
    intro hm
    obtain ⟨c, hc, hv⟩ := List.mem_map.1 hm
    have hac := ha c hc
    have hab' := ha b List.mem_cons_self
    have hv' : c.code / 2 = a.code / 2 := congrArg Var.index hv
    have hbc : b.code ≤ c.code := by
      rcases List.mem_cons.1 hc with rfl | hc
      · exact Nat.le_refl _
      · exact Nat.le_of_lt ((List.pairwise_cons.1 hb).1 c hc)
    have hne : a ≠ -b := by
      rintro rfl
      rw [beq_self_eq_true] at hab
      cases hab
    rcases eq_of_var_eq (l := a) (k := b) (Var.ext_index (show a.code / 2 = b.code / 2 by omega)) with h' | h'
    · rw [h'] at hab'
      omega
    · exact hne h'
  | case2 ls hne =>
    match ls with
    | [] => exact List.nodup_nil
    | [l] => simp
    | a :: b :: rest => exact absurd rfl (hne a b rest)

end Lit

end ClauseLearning
