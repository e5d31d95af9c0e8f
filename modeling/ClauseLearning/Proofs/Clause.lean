import ClauseLearning.Clause
import ClauseLearning.Proofs.Sorting

/-!
# Clauses

* `Clause.storedGlue_le`, `Clause.storedGlue_le_maxGlue` : what is stored of a glue;
* `exchangeFirst?_some`, `exchangeFirst?_none`, `exchangeLeast_perm` : exchanges permute;
* `Clause.Reordered` : the same clause but for the order of its literals. `Clause.swapWatched`,
  `Clause.replaceSecond?` and `Clause.watchBest` only reorder.
-/

namespace ClauseLearning

theorem exchangeFirst?_some {good : Lit → Bool} {l x : Lit} {xs ys : List Lit}
    (h : exchangeFirst? good l xs = some (x, ys)) : good x ∧ (x :: ys).Perm (l :: xs) := by
  induction xs generalizing x ys with
  | nil => cases h
  | cons y xs ih =>
    rw [exchangeFirst?] at h
    split at h
    · next hy =>
      obtain ⟨rfl, rfl⟩ := Prod.mk.inj (Option.some.inj h)
      exact ⟨hy, List.Perm.swap _ _ _⟩
    · split at h
      · next found rest hr =>
        obtain ⟨rfl, rfl⟩ := Prod.mk.inj (Option.some.inj h)
        obtain ⟨hg, hp⟩ := ih hr
        refine ⟨hg, ?_⟩
        exact ((List.Perm.swap _ _ _).trans (hp.cons y)).trans (List.Perm.swap _ _ _)
      · cases h

theorem exchangeFirst?_none {good : Lit → Bool} {l : Lit} {xs : List Lit} (h : exchangeFirst? good l xs = none) :
    ∀ x ∈ xs, good x = false := by
  induction xs with
  | nil =>
    intro x hx
    cases hx
  | cons y xs ih =>
    rw [exchangeFirst?] at h
    split at h
    · cases h
    · next hy =>
      split at h
      · cases h
      · next hn =>
        intro x hx
        rcases List.mem_cons.1 hx with rfl | hx
        · exact Bool.eq_false_iff.2 hy
        · exact ih hn x hx

theorem exchangeLeast_perm (rank : Lit → Nat) (l : Lit) (xs : List Lit) :
    ((exchangeLeast rank l xs).1 :: (exchangeLeast rank l xs).2).Perm (l :: xs) := by
  unfold exchangeLeast
  split
  · exact List.Perm.refl _
  · split
    · cases h : exchangeFirst? (rank · == rank _) l xs with
      | none => exact List.Perm.refl _
      | some p => exact (exchangeFirst?_some h).2
    · exact List.Perm.refl _

namespace Clause

variable {c d e : Clause} {l : Lit} {glue : Nat}

/-! ## Glue -/

theorem storedGlue_le (glue : Nat) : storedGlue glue ≤ glue := Nat.min_le_left ..

theorem storedGlue_le_maxGlue (glue : Nat) : storedGlue glue ≤ maxGlue := Nat.min_le_right ..

theorem ofGlue_storedGlue (glue : Nat) : Tier.ofGlue (storedGlue glue) = Tier.ofGlue glue := by
  have hle {n : Nat} (hn : n < maxGlue) : storedGlue glue ≤ n ↔ glue ≤ n := by
    unfold storedGlue
    omega
  simp only [Tier.ofGlue, hle (n := 2) (by decide), hle (n := 6) (by decide)]

/-! ## Clauses whose literals are reordered -/

/-- The same clause but for the order of its literals. -/
structure Reordered (c d : Clause) : Prop where
  perm : d.lits.Perm c.lits
  tier_eq : d.tier = c.tier
  deleted_eq : d.deleted = c.deleted
  marked_eq : d.marked = c.marked

namespace Reordered

theorem refl (c : Clause) : Reordered c c := ⟨List.Perm.refl _, rfl, rfl, rfl⟩

theorem trans (h : Reordered c d) (h' : Reordered d e) : Reordered c e :=
  ⟨h'.perm.trans h.perm, h'.tier_eq.trans h.tier_eq, h'.deleted_eq.trans h.deleted_eq,
    h'.marked_eq.trans h.marked_eq⟩

theorem learned_eq (h : Reordered c d) : d.learned = c.learned := by rw [learned, h.tier_eq, learned]

theorem mem_iff (h : Reordered c d) : l ∈ d.lits ↔ l ∈ c.lits := h.perm.mem_iff

theorem size_eq (h : Reordered c d) : d.size = c.size := h.perm.length_eq

end Reordered

theorem first_mem (c : Clause) : c.first ∈ c.lits := List.mem_cons_self

theorem second_mem (c : Clause) : c.second ∈ c.lits := List.mem_cons_of_mem _ List.mem_cons_self

theorem swapWatched_reordered (c : Clause) : Reordered c c.swapWatched := ⟨List.Perm.swap _ _ _, rfl, rfl, rfl⟩

theorem replaceSecond?_some {good : Lit → Bool} (h : c.replaceSecond? good = some d) :
    Reordered c d ∧ d.first = c.first ∧ good d.second := by
  rw [replaceSecond?, Option.map_eq_some_iff] at h
  obtain ⟨⟨found, rest⟩, hx, rfl⟩ := h
  obtain ⟨hg, hp⟩ := exchangeFirst?_some hx
  exact ⟨⟨hp.cons c.first, rfl, rfl, rfl⟩, rfl, hg⟩

theorem replaceSecond?_none {good : Lit → Bool} (h : c.replaceSecond? good = none) : ∀ x ∈ c.others, good x = false :=
  exchangeFirst?_none (Option.map_eq_none_iff.1 h)

theorem watchBest_reordered (c : Clause) (rank : Lit → Nat) : Reordered c (c.watchBest rank) := by
  have hp := exchangeLeast_perm rank c.first (c.second :: c.others)
  unfold watchBest
  split
  · next first x xs he =>
    have hq := exchangeLeast_perm rank x xs
    rw [he] at hp
    exact ⟨(hq.cons first).trans hp, rfl, rfl, rfl⟩
  · exact Reordered.refl c

end Clause

end ClauseLearning
