import ClauseLearning.Proofs.FreshVariables
import ClauseLearning.Proofs.PartialOrder

/-!
# Tables of ordered pairs

* `Table.exists_newVariables` : new variables of an engine make a table of ordered pairs;
* `Table.satisfies_blocking_iff` : the clause that excludes a model excludes no other relation;
* `orderTable_exact` : what the clauses of a table say, and those that exclude models.
-/

namespace ClauseLearning.PartialOrder

variable {t : Table} {a b : Assignment}

namespace Table

/-- New variables of an engine, as many as there are ordered pairs. -/
theorem exists_newVariables {σ : Type} [Engine σ] [NumberingEngine σ] (e : σ) (size : Nat)
    (hmax : Engine.varCount e + size * size < 0x80000000) : ∃ numbers e',
      (Engine.newVariables {} (size * size)).exec e = (.ok numbers, e') ∧
        OfVariables { size := size, numbers := numbers.toArray } := by
  obtain ⟨e', hnew, -⟩ := Encoding.newVariables_numbers e {} (size * size)
  exact ⟨_, e', hnew, ofVariables_range' hmax⟩

/-- The clause that excludes a model is true for all relations but that of the model. -/
theorem satisfies_blocking_iff (h : t.OfVariables) :
    Satisfies b ((Enumeration.blockingClause (Enumeration.valuesUnder a t.numbers.toList)).map Lit.ofNumber) ↔
      t.Below b ≠ t.Below a := by
  rw [Enumeration.map_blockingClause fun x hx => h.ofNumber_neg (Array.mem_toList_iff.1 hx), satisfies_blocking, Ne, Ne,
    below_eq_iff h]

end Table

/-- **The clauses of a table are exact.** New variables of an engine make a table of any size. An assignment satisfies
the clauses of a table just if it stands for a partial order, and any relation is that of some assignment. If the last
model of an engine has the values of an assignment, then the clause that the count excludes it with is false under this
assignment, and true under those that stand for other relations. -/
theorem orderTable_exact :
    (∀ {σ : Type} [Engine σ] [NumberingEngine σ] (e : σ) (size : Nat),
      Engine.varCount e + size * size < 0x80000000 → ∃ numbers e',
        (Engine.newVariables {} (size * size)).exec e = (.ok numbers, e') ∧
          Table.OfVariables { size := size, numbers := numbers.toArray }) ∧
    ∀ t : Table, t.OfVariables →
      (∀ a, SatisfiesAll a (litClauses (clauses t)) ↔ IsPartialOrder (Fin t.size) (t.Below a)) ∧
      (∀ r, ∃ a, t.Below a = r) ∧
      ∀ {σ : Type} [Engine σ] (e : σ) (a : Assignment),
        (∀ x ∈ t.numbers.toList, Engine.modelValue e x = .ok (if (Lit.ofNumber x).Holds a then 1 else -1)) →
          ∃ values, (Enumeration.values t.numbers.toList).exec e = (.ok values, e) ∧
            ∀ b, Satisfies b ((Enumeration.blockingClause values).map Lit.ofNumber) ↔ t.Below b ≠ t.Below a := by
  refine ⟨Table.exists_newVariables, fun t h => ⟨fun a => t.satisfiesAll_iff h, t.exists_below h, fun e a hvalue => ?_⟩⟩
  exact ⟨_, congrArg (·, e) (Enumeration.valuesOf_eq hvalue), fun b => t.satisfies_blocking_iff h⟩

/-- The plain engine after its first model for two elements. -/
def oneModel : PlainEngine := (do
  let numbers ← Engine.newVariables {} 4
  Engine.addClauses (clauses { size := 2, numbers := numbers.toArray })
  Engine.solve : EngineM PlainEngine Verdict).exec {} |>.2

/-- In this model the two elements are not related. -/
theorem orderTable_exact_two : ∃ values, (Enumeration.values [1, 2, 3, 4]).exec oneModel = (.ok values, oneModel) ∧
    ∀ b, Satisfies b ((Enumeration.blockingClause values).map Lit.ofNumber) ↔
      Table.Below { size := 2, numbers := #[1, 2, 3, 4] } b ≠ (· = ·) := by
  let t : Table := { size := 2, numbers := #[1, 2, 3, 4] }
  have h : t.OfVariables := ⟨rfl, by simp [t], by decide⟩
  let a : Assignment := fun v => v.index == 0 || v.index == 3
  have hvalue : ∀ x ∈ t.numbers.toList, Engine.modelValue oneModel x =
      .ok (if (Lit.ofNumber x).Holds a then 1 else -1) := by
    have hvalues : t.numbers.toList.map (fun x => (Engine.modelValue oneModel x).toOption) =
        t.numbers.toList.map fun x => some (if (Lit.ofNumber x).Holds a then 1 else -1) := by decide +kernel
    exact fun x hx => congrArg Prod.fst (eq_of_toOption (_, oneModel) (List.map_inj_left.1 hvalues x hx))
  have hbelow : t.Below a = (· = ·) := by
    funext i j
    exact propext ((by decide : ∀ i j : Fin 2, (Lit.ofNumber (t.related i j)).Holds a ↔ i = j) i j)
  exact hbelow ▸ (orderTable_exact.2 t h).2.2 oneModel a hvalue

end ClauseLearning.PartialOrder
