import ClauseLearning.Proofs.Elimination

/-!
# Extending a model to the eliminated variables

Models are kept as arrays of values, most variables having one. `extendModel` goes through the witnesses, the latest
first.

* `Lit.TrueIn`, `Assignment.ofValues` : literals under an array of values, and the array as an assignment;
* `extendModel_spec` : if just eliminated variables lack a value, every variable has one in the end, and the
  assignment is the extension by the witnesses (`extendBy`).
-/

namespace ClauseLearning

variable {n : Nat} {m : Array (Option Bool)} {w : Witness} {ws : List Witness} {v : Var} {l : Lit}

/-- An array of values as an assignment. Variables without a value are false. -/
def Assignment.ofValues (m : Array (Option Bool)) : Assignment := fun v => (m.getD v.index none).getD false

/-- A literal whose variable has the value that makes it true. -/
def Lit.TrueIn (m : Array (Option Bool)) (l : Lit) : Prop := m.getD l.var.index none = some l.isPositive

instance (m : Array (Option Bool)) (l : Lit) : Decidable (l.TrueIn m) := inferInstanceAs (Decidable (_ = _))

theorem trueIn_iff_holds (h : (m.getD l.var.index none).isSome) : l.TrueIn m ↔ l.Holds (.ofValues m) := by
  obtain ⟨b, hb⟩ := Option.isSome_iff_exists.1 h
  unfold Lit.TrueIn Lit.Holds Assignment.ofValues
  rw [hb]
  exact Option.some_inj

/-- Every variable below `n` but those of witnesses has a value. -/
def Valued (n : Nat) (ws : List Witness) (m : Array (Option Bool)) : Prop :=
  ∀ v : Var, v.index < n → (∃ w ∈ ws, w.lit.var = v) ∨ (m.getD v.index none).isSome

theorem size_extend (m : Array (Option Bool)) (w : Witness) : (w.extend m).size = m.size := Array.size_setIfInBounds

theorem getD_extend_ne (h : v ≠ w.lit.var) : (w.extend m).getD v.index none = m.getD v.index none :=
  getD_setIfInBounds_ne fun hi => h (Var.ext_index hi)

theorem extend_eq {x : Lit} (m : Array (Option Bool)) (w : Witness)
    (hx : x = if ∀ c ∈ w.clauses, ∃ l ∈ c, l.TrueIn m then -w.lit else w.lit) :
    w.extend m = m.setIfInBounds x.var.index (some x.isPositive) := by
  have hneeded : (w.clauses.any fun c => !c.any fun l => m.getD l.var.index none == some l.isPositive) =
      !decide (∀ c ∈ w.clauses, ∃ l ∈ c, l.TrueIn m) := by
    rw [Bool.eq_iff_iff]
    simp [Lit.TrueIn]
  subst hx
  unfold Witness.extend
  dsimp only
  rw [hneeded]
  by_cases hall : ∀ c ∈ w.clauses, ∃ l ∈ c, l.TrueIn m
  · rw [decide_eq_true hall, if_pos hall, Bool.not_true, if_neg Bool.false_ne_true, Lit.var_neg, Lit.isPositive_neg,
      Lit.isNegative_eq]
  · rw [decide_eq_false hall, if_neg hall, Bool.not_false, if_pos rfl]

theorem getD_extend (hw : ∀ c ∈ w.clauses, ∀ l ∈ c, (m.getD l.var.index none).isSome) (hi : w.lit.var.index < m.size) :
    (w.extend m).getD w.lit.var.index none = some (w.extendAssignment (.ofValues m) w.lit.var) := by
  have hall : (∀ c ∈ w.clauses, ∃ l ∈ c, l.TrueIn m) ↔ ∀ c ∈ w.clauses, Satisfies (.ofValues m) c :=
    forall₂_congr fun c hc => exists_congr fun l => and_congr_right fun hl => trueIn_iff_holds (hw c hc l hl)
  unfold Witness.extendAssignment
  rw [extend_eq m w rfl]
  simp only [hall]
  split
  · rw [Lit.var_neg, getD_setIfInBounds hi, if_pos rfl, Assignment.set, if_pos (Lit.var_neg w.lit).symm]
  · rw [getD_setIfInBounds hi, if_pos rfl, Assignment.set, if_pos rfl]

theorem extend_spec (hm : m.size = n) (hv : Valued n (w :: ws) m) (ho : WitnessesOrdered n (w :: ws)) :
    Valued n ws (w.extend m) ∧ Assignment.ofValues (w.extend m) = w.extendAssignment (.ofValues m) := by
  obtain ⟨h1, h2, -⟩ := ho
  have hvalued : ∀ c ∈ w.clauses, ∀ l ∈ c, (m.getD l.var.index none).isSome := by
    intro c hc l hl
    obtain ⟨hi, hne, hold⟩ := h2 c hc l hl
    rcases hv l.var hi with ⟨w', hw', he⟩ | hs
    · rcases List.mem_cons.1 hw' with rfl | hw'
      · exact absurd he.symm hne
      · exact absurd he (hold w' hw')
    · exact hs
  have hself := getD_extend hvalued (hm.symm ▸ h1)
  refine ⟨?_, funext ?_⟩
  · intro v hvn
    by_cases hvw : v = w.lit.var
    · rw [hvw, hself]
      exact Or.inr rfl
    · rw [getD_extend_ne hvw]
      rcases hv v hvn with ⟨w', hw', he⟩ | hs
      · rcases List.mem_cons.1 hw' with rfl | hw'
        · exact absurd he.symm hvw
        · exact Or.inl ⟨w', hw', he⟩
      · exact Or.inr hs
  · intro v
    by_cases hvw : v = w.lit.var
    · rw [Assignment.ofValues, hvw, hself]
      rfl
    · rw [Assignment.ofValues, getD_extend_ne hvw]
      have hother : ∀ w' ∈ [w], w'.lit.var ≠ v := fun w' hw' => List.mem_singleton.1 hw' ▸ Ne.symm hvw
      show Assignment.ofValues m v = extendBy [w] (.ofValues m) v
      exact (extendBy_of_ne hother).symm

/-- In the end every variable has a value. -/
theorem extendModel_spec (hm : m.size = n) (hv : Valued n ws m) (ho : WitnessesOrdered n ws) :
    (extendModel ws m).size = n ∧ Valued n [] (extendModel ws m) ∧
      Assignment.ofValues (extendModel ws m) = extendBy ws (.ofValues m) := by
  induction ws generalizing m with
  | nil => exact ⟨hm, hv, rfl⟩
  | cons w ws ih =>
    obtain ⟨h1, h2⟩ := extend_spec hm hv ho
    obtain ⟨h3, h4, h5⟩ := ih ((size_extend m w).trans hm) h1 ho.2.2
    refine ⟨h3, h4, h5.trans ?_⟩
    rw [h2]
    rfl

theorem getD_extendModel (h : ∀ w ∈ ws, w.lit.var ≠ v) :
    (extendModel ws m).getD v.index none = m.getD v.index none := by
  induction ws generalizing m with
  | nil => rfl
  | cons w ws ih =>
    apply (ih fun w' hw' => h w' (List.mem_cons_of_mem w hw')).trans
    exact getD_extend_ne (Ne.symm (h w List.mem_cons_self))

theorem TrueIn.holds (h : l.TrueIn m) : l.Holds (.ofValues m) :=
  (trueIn_iff_holds (by rw [show m.getD l.var.index none = _ from h]; rfl)).1 h

theorem satisfies_ofValues {c : List Lit} (h : Satisfies (.ofValues m) c) (hv : Valued n [] m)
    (hi : ∀ l ∈ c, l.var.index < n) : ∃ l ∈ c, l.TrueIn m := by
  obtain ⟨l, hl, ha⟩ := h
  refine ⟨l, hl, (trueIn_iff_holds ?_).2 ha⟩
  exact (hv l.var (hi l hl)).resolve_left fun ⟨w, hw, _⟩ => nomatch hw

end ClauseLearning
