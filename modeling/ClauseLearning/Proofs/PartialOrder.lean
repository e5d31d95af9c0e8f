import Mathlib.Data.Set.Card
import Mathlib.Order.Defs.Unbundled
import ClauseLearning.PartialOrder
import ClauseLearning.Proofs.Enumeration

/-!
# Counting partial orders

* `orderCount` : the number of partial orders on some labelled elements;
* `Table.OfVariables`, `Table.Below` : tables that hold a variable for each ordered pair, and the relation that an
  assignment of these stands for. `Table.exists_below` : any relation is one;
* `Table.satisfiesAll_iff` : the clauses of a table hold just when this relation is a partial order;
* `Below`, `PartialOrder.satisfiesAll_iff` : the same for the first variables;
* `PartialOrder.modelCount_eq` : so they have as many models as there are partial orders;
* `PartialOrder.CountsOrders`, `PartialOrder.countsOrders_created` : what a new engine counts, whatever its
  configuration, its way to simplify and its limit are.
-/

namespace ClauseLearning

/-- The number of partial orders on `size` labelled elements. -/
noncomputable def orderCount (size : Nat) : Nat :=
  {r : Fin size → Fin size → Prop | IsPartialOrder (Fin size) r}.ncard

namespace PartialOrder

variable {size i j : Nat} {t : Table} {c : List Int32} {number x : Int32} {a b : Assignment}

/-! ## Pairs -/

/-- The variable of an ordered pair. -/
def pair (size i j : Nat) : Var := ⟨i * size + j⟩

/-- The numbers of the first `size * size` variables. -/
def pairNumbers (size : Nat) : List Int32 := (List.range' 0 (size * size)).map fun x => (Var.mk x).number

/-- The relation that an assignment stands for. -/
def Below (size : Nat) (a : Assignment) (i j : Fin size) : Prop := a (pair size i j) = true

theorem pair_lt (hi : i < size) (hj : j < size) : (pair size i j).index < size * size := rowIndex_lt hi hj

theorem exists_pair {x : Nat} (hx : x < size * size) : ∃ i j : Fin size, Var.mk x = pair size i j := by
  have hpos : 0 < size := Nat.pos_of_ne_zero fun h => by simp [h] at hx
  refine ⟨⟨x / size, Nat.div_lt_of_lt_mul hx⟩, ⟨x % size, Nat.mod_lt x hpos⟩, Var.ext_index ?_⟩
  exact (Nat.div_add_mod' x size).symm

theorem related_eq (hi : i < size) (hj : j < size) :
    (Table.mk size (pairNumbers size).toArray).related i j = (pair size i j).number := by
  have hlt : i * size + j < size * size := pair_lt hi hj
  simp [Table.related, pairNumbers, pair, Array.getD_eq_getD_getElem?, hlt]

/-! ## Clauses -/

/-- The clauses over the first variables, by number. -/
def pairClauses (size : Nat) : List (List Int32) := clauses { size := size, numbers := (pairNumbers size).toArray }

/-- The literals of these clauses. -/
def orderClauses (size : Nat) : List (List Lit) := (pairClauses size).map (·.map Lit.ofNumber)

theorem mem_clauses : c ∈ clauses t ↔ (∃ i < t.size, c = [t.related i i]) ∨
    (∃ i < t.size, ∃ j < i, c = [-t.related i j, -t.related j i]) ∨
      ∃ i < t.size, ∃ j < t.size, ∃ k < t.size, c = [-t.related i j, -t.related j k, t.related i k] := by
  simp [clauses, reflexivity, antisymmetry, transitivity, eq_comm]

theorem exists_related (hc : c ∈ clauses t) (hn : number ∈ c) :
    ∃ i < t.size, ∃ j < t.size, number = t.related i j ∨ number = -t.related i j := by
  rcases mem_clauses.1 hc with ⟨i, hi, rfl⟩ | ⟨i, hi, j, hj, rfl⟩ | ⟨i, hi, j, hj, k, hk, rfl⟩
  · exact ⟨i, hi, i, hi, .inl (List.mem_singleton.1 hn)⟩
  · have hj' := hj.trans hi
    rcases List.mem_pair.1 hn with rfl | rfl
    · exact ⟨i, hi, j, hj', .inr rfl⟩
    · exact ⟨j, hj', i, hi, .inr rfl⟩
  · simp only [List.mem_cons, List.not_mem_nil, or_false] at hn
    rcases hn with rfl | rfl | rfl
    · exact ⟨i, hi, j, hj, .inr rfl⟩
    · exact ⟨j, hj, k, hk, .inr rfl⟩
    · exact ⟨i, hi, k, hk, .inl rfl⟩

theorem satisfiesAll_clauses {r : Fin t.size → Fin t.size → Prop}
    (hpos : ∀ i j : Fin t.size, (Lit.ofNumber (t.related i j)).Holds a ↔ r i j)
    (hneg : ∀ i j : Fin t.size, (Lit.ofNumber (-t.related i j)).Holds a ↔ ¬ r i j) :
    SatisfiesAll a ((clauses t).map (·.map Lit.ofNumber)) ↔ IsPartialOrder (Fin t.size) r := by
  unfold SatisfiesAll
  rw [List.forall_mem_map]
  constructor
  · intro h
    refine { refl := fun i => ?_, trans := fun i j k hij hjk => ?_, antisymm := fun i j hij hji => ?_ }
    · simpa [Satisfies, hpos] using h _ (mem_clauses.2 (.inl ⟨i, i.2, rfl⟩))
    · simpa [Satisfies, hpos, hneg, hij, hjk] using
        h _ (mem_clauses.2 (.inr (.inr ⟨i, i.2, j, j.2, k, k.2, rfl⟩)))
    · by_contra hne
      -- the clause of a pair is there for the larger element first
      rcases Nat.lt_or_gt_of_ne (Fin.val_ne_of_ne hne) with hlt | hlt
      · simpa [Satisfies, hneg, hij, hji] using h _ (mem_clauses.2 (.inr (.inl ⟨j, j.2, i, hlt, rfl⟩)))
      · simpa [Satisfies, hneg, hij, hji] using h _ (mem_clauses.2 (.inr (.inl ⟨i, i.2, j, hlt, rfl⟩)))
  · intro h c hc
    rcases mem_clauses.1 hc with ⟨i, hi, rfl⟩ | ⟨i, hi, j, hj, rfl⟩ | ⟨i, hi, j, hj, k, hk, rfl⟩
    · exact ⟨_, List.mem_singleton_self _, (hpos ⟨i, hi⟩ ⟨i, hi⟩).2 (h.refl _)⟩
    · have hne : ¬ (r ⟨i, hi⟩ ⟨j, hj.trans hi⟩ ∧ r ⟨j, hj.trans hi⟩ ⟨i, hi⟩) := fun hle =>
        absurd (congrArg Fin.val (h.antisymm _ _ hle.1 hle.2)) (Nat.ne_of_gt hj)
      have hij := hneg ⟨i, hi⟩ ⟨j, hj.trans hi⟩
      have hji := hneg ⟨j, hj.trans hi⟩ ⟨i, hi⟩
      simp only [Satisfies, List.map_cons, List.map_nil, List.mem_cons, List.not_mem_nil, or_false, exists_eq_or_imp,
        exists_eq_left]
      exact (not_and_or.1 hne).imp hij.2 hji.2
    · have hij := hneg ⟨i, hi⟩ ⟨j, hj⟩
      have hjk := hneg ⟨j, hj⟩ ⟨k, hk⟩
      have hik := hpos ⟨i, hi⟩ ⟨k, hk⟩
      have htrans := h.trans ⟨i, hi⟩ ⟨j, hj⟩ ⟨k, hk⟩
      simp only [Satisfies, List.map_cons, List.map_nil, List.mem_cons, List.not_mem_nil, or_false, exists_eq_or_imp,
        exists_eq_left, hij, hjk, hik]
      exact not_or_of_imp fun hle => not_or_of_imp fun hle' => htrans hle hle'

/-! ## Tables of any variables -/

namespace Table

/-- The numbers are those of different variables, one for each ordered pair. -/
structure OfVariables (t : Table) : Prop where
  size_eq : t.numbers.size = t.size * t.size
  pos : ∀ x ∈ t.numbers, 0 < x.toInt
  nodup : t.numbers.toList.Nodup

/-- The relation that an assignment of the table stands for. -/
def Below (t : Table) (a : Assignment) (i j : Fin t.size) : Prop := (Lit.ofNumber (t.related i j)).Holds a

namespace OfVariables

variable (h : t.OfVariables)
include h

theorem related_eq_getElem (i j : Fin t.size) : ∃ hlt : i * t.size + j < t.numbers.size,
    t.related i j = t.numbers[i * t.size + j] := by
  have hlt : i * t.size + j < t.numbers.size := h.size_eq ▸ rowIndex_lt i.2 j.2
  exact ⟨hlt, by rw [related, Array.getD_eq_getD_getElem?, Array.getElem?_eq_getElem hlt, Option.getD_some]⟩

theorem mem_numbers : x ∈ t.numbers ↔ ∃ i j : Fin t.size, x = t.related i j := by
  constructor
  · intro hx
    obtain ⟨k, hk, rfl⟩ := Array.mem_iff_getElem.1 hx
    obtain ⟨i, j, hij⟩ := exists_pair (h.size_eq ▸ hk)
    obtain ⟨hlt, heq⟩ := h.related_eq_getElem i j
    obtain rfl : k = i * t.size + j := congrArg Var.index hij
    exact ⟨i, j, heq.symm⟩
  · rintro ⟨i, j, rfl⟩
    obtain ⟨hlt, heq⟩ := h.related_eq_getElem i j
    exact heq ▸ Array.getElem_mem hlt

theorem related_pos (i j : Fin t.size) : 0 < (t.related i j).toInt := h.pos _ (h.mem_numbers.2 ⟨i, j, rfl⟩)

theorem related_inj {i j i' j' : Fin t.size} (heq : t.related i j = t.related i' j') : i = i' ∧ j = j' := by
  obtain ⟨hlt, hij⟩ := h.related_eq_getElem i j
  obtain ⟨hlt', hij'⟩ := h.related_eq_getElem i' j'
  rw [hij, hij'] at heq
  obtain ⟨hi, hj⟩ := rowIndex_inj j.2 j'.2 ((List.Nodup.getElem_inj_iff h.nodup).1 heq)
  exact ⟨Fin.ext hi, Fin.ext hj⟩

theorem ofNumber_neg (hx : x ∈ t.numbers) : Lit.ofNumber (-x) = -Lit.ofNumber x := by
  have hpos := h.pos x hx
  have := x.toInt_lt
  exact Lit.ofNumber_neg (by omega) (by omega)

end OfVariables

/-- Any relation is that of an assignment of the table. -/
theorem exists_below (h : t.OfVariables) (r : Fin t.size → Fin t.size → Prop) : ∃ a, t.Below a = r := by
  classical
  let a : Assignment := fun v => decide (∃ i j : Fin t.size, v = (Lit.ofNumber (t.related i j)).var ∧ r i j)
  refine ⟨a, funext fun i => funext fun j => propext ?_⟩
  have hpositive : (Lit.ofNumber (t.related i j)).isPositive = true := by
    rw [Lit.ofNumber, Lit.isPositive_lit, decide_eq_true_iff]
    exact h.related_pos i j
  rw [Below, Lit.Holds, hpositive, decide_eq_true_iff]
  constructor
  · rintro ⟨i', j', hij, hr⟩
    obtain ⟨rfl, rfl⟩ := h.related_inj (Lit.ofNumber_inj (h.related_pos i j) (h.related_pos i' j') hij)
    exact hr
  · exact fun hr => ⟨i, j, rfl, hr⟩

/-- The clauses of a table hold under the assignments that stand for partial orders. -/
theorem satisfiesAll_iff (h : t.OfVariables) :
    SatisfiesAll a ((clauses t).map (·.map Lit.ofNumber)) ↔ IsPartialOrder (Fin t.size) (t.Below a) := by
  refine satisfiesAll_clauses (fun i j => Iff.rfl) fun i j => ?_
  rw [h.ofNumber_neg (h.mem_numbers.2 ⟨i, j, rfl⟩), Lit.holds_neg, Below]

theorem below_eq_iff (h : t.OfVariables) : t.Below b = t.Below a ↔
    profile (t.numbers.toList.map Lit.ofNumber) b = profile (t.numbers.toList.map Lit.ofNumber) a := by
  rw [profile_eq_iff, List.forall_mem_map]
  constructor
  · intro heq x hx
    obtain ⟨i, j, rfl⟩ := h.mem_numbers.1 (Array.mem_toList_iff.1 hx)
    exact iff_of_eq (congrFun (congrFun heq i) j)
  · intro heq
    funext i j
    exact propext (heq _ (Array.mem_toList_iff.2 (h.mem_numbers.2 ⟨i, j, rfl⟩)))

theorem ofVariables_range' {n : Nat} (hmax : n + size * size < 0x80000000) : OfVariables
    { size := size, numbers := ((List.range' n (size * size)).map fun x => (Var.mk x).number).toArray } := by
  have hnumber {x : Nat} (hx : x ∈ List.range' n (size * size)) : (Var.mk x).number.toInt = x + 1 :=
    Var.toInt_number (show x < 0x7FFFFFFF by have := (List.mem_range'_1.1 hx).2; omega)
  refine ⟨by simp, fun number h => ?_, ?_⟩
  · obtain ⟨x, hx, rfl⟩ := List.mem_map.1 (List.mem_toArray.1 h)
    rw [hnumber hx]
    omega
  · refine List.Nodup.map_on (fun x hx y hy heq => ?_) (List.nodup_range' ..)
    have := congrArg Int32.toInt heq
    rw [hnumber hx, hnumber hy] at this
    omega

end Table

section Supported

variable (hmax : size * size ≤ Var.maxCount)
include hmax

theorem litOf_related (hi : i < size) (hj : j < size) :
    litOf ((Table.mk size (pairNumbers size).toArray).related i j) = .ok (pair size i j).positive := by
  rw [related_eq hi hj]
  exact litOf_number (Nat.lt_of_lt_of_le (pair_lt hi hj) hmax)

theorem exists_litOf (hc : c ∈ pairClauses size) (hn : number ∈ c) :
    ∃ l, litOf number = .ok l ∧ l.var.index < size * size := by
  obtain ⟨i, hi, j, hj, rfl | rfl⟩ := exists_related hc hn
  · exact ⟨_, litOf_related hmax hi hj, by rw [Var.positive, Lit.var_lit]; exact pair_lt hi hj⟩
  · exact ⟨_, litOf_neg (litOf_related hmax hi hj), by
      rw [Lit.var_neg, Var.positive, Lit.var_lit]; exact pair_lt hi hj⟩

theorem litsOf_pairClauses :
    List.Forall₂ (fun c ls => litsOf c = .ok ls) (pairClauses size) (orderClauses size) := by
  rw [orderClauses, List.forall₂_map_right_iff, List.forall₂_same]
  intro c hc
  refine litsOf_eq_map fun number hn => ?_
  obtain ⟨l, hl, -⟩ := exists_litOf hmax hc hn
  exact ⟨l, hl⟩

theorem index_lt_of_orderClauses : ∀ ls ∈ orderClauses size, ∀ l ∈ ls, l.var.index < size * size := by
  intro ls hls l hl
  obtain ⟨c, hc, rfl⟩ := List.mem_map.1 hls
  obtain ⟨number, hn, rfl⟩ := List.mem_map.1 hl
  obtain ⟨l, hl, hlt⟩ := exists_litOf hmax hc hn
  rwa [(litOf_eq_ok_iff.1 hl).2.2] at hlt

theorem ofVariables_pairs : Table.OfVariables { size := size, numbers := (pairNumbers size).toArray } :=
  Table.ofVariables_range' (Nat.lt_of_le_of_lt ((Nat.zero_add _).trans_le hmax) (by decide))

theorem below_pairs : Table.Below { size := size, numbers := (pairNumbers size).toArray } a = Below size a := by
  funext i j
  rw [Table.Below, ← (litOf_eq_ok_iff.1 (litOf_related hmax i.2 j.2)).2.2, Lit.Holds, Var.positive, Lit.var_lit,
    Lit.isPositive_lit, Below]

/-- The clauses hold under the assignments that stand for partial orders. -/
theorem satisfiesAll_iff : SatisfiesAll a (orderClauses size) ↔ IsPartialOrder (Fin size) (Below size a) := by
  rw [← below_pairs hmax]
  exact Table.satisfiesAll_iff (ofVariables_pairs hmax)

end Supported

theorem exists_not_litsOf (hmax : Var.maxCount < size * size) : ∃ c ∈ pairClauses size, ∀ ls, litsOf c ≠ .ok ls := by
  obtain ⟨i, j, hij⟩ := exists_pair hmax
  refine ⟨_, mem_clauses.2 (.inr (.inr ⟨i, i.2, j, j.2, j, j.2, rfl⟩)), fun ls hls => ?_⟩
  have hrel := litsOf_eq_ok_iff.1 hls
  simp only [List.forall₂_cons_left_iff] at hrel
  obtain ⟨-, -, -, ⟨-, -, -, ⟨l, -, hl, -⟩, -⟩, -⟩ := hrel
  rw [related_eq i.2 j.2, ← hij] at hl
  exact not_litOf_number_maxCount hl

/-! ## Models -/

/-- The positive literals of the first variables. -/
def pairLits (size : Nat) : List Lit := (List.range' 0 (size * size)).map fun x => (Var.mk x).positive

theorem mem_pairLits {l : Lit} : l ∈ pairLits size ↔ ∃ i j : Fin size, l = (pair size i j).positive := by
  rw [pairLits, List.mem_map]
  constructor
  · rintro ⟨x, hx, rfl⟩
    obtain ⟨-, hx⟩ := List.mem_range'_1.1 hx
    rw [Nat.zero_add] at hx
    obtain ⟨i, j, hij⟩ := exists_pair hx
    exact ⟨i, j, by rw [hij]⟩
  · rintro ⟨i, j, rfl⟩
    exact ⟨_, List.mem_range'_1.2 ⟨Nat.zero_le _, by rw [Nat.zero_add]; exact pair_lt i.2 j.2⟩, rfl⟩

theorem litsOf_pairNumbers (hmax : size * size ≤ Var.maxCount) : litsOf (pairNumbers size) = .ok (pairLits size) := by
  rw [litsOf_eq_ok_iff, pairNumbers, pairLits, List.forall₂_map_left_iff, List.forall₂_map_right_iff,
    List.forall₂_same]
  intro x hx
  have : x < size * size := by simpa using hx
  exact litOf_number (Nat.lt_of_lt_of_le this hmax)

theorem profile_pairLits (hmax : size * size ≤ Var.maxCount) :
    profile (pairLits size) a = profile (pairLits size) b ↔ Below size a = Below size b := by
  rw [← below_pairs hmax, ← below_pairs hmax, (litsOf_eq_ok (litsOf_pairNumbers hmax)).1]
  exact (Table.below_eq_iff (ofVariables_pairs hmax)).symm

/-- All relations are those of assignments. -/
theorem exists_below (hmax : size * size ≤ Var.maxCount) (r : Fin size → Fin size → Prop) :
    ∃ a, Below size a = r := by
  obtain ⟨a, ha⟩ := Table.exists_below (ofVariables_pairs hmax) r
  exact ⟨a, (below_pairs hmax).symm.trans ha⟩

/-- The clauses have as many models as there are partial orders. -/
theorem modelCount_eq (hmax : size * size ≤ Var.maxCount) :
    modelCount (pairLits size) (orderClauses size) = orderCount size := by
  let ofOrder (r : Fin size → Fin size → Prop) := profile (pairLits size) (exists_below hmax r).choose
  have hinj : Function.Injective ofOrder := fun r r' h => by
    rw [← (exists_below hmax r).choose_spec, ← (exists_below hmax r').choose_spec]
    exact (profile_pairLits hmax).1 h
  have hrange : profiles (pairLits size) (orderClauses size) = ofOrder '' {r | IsPartialOrder (Fin size) r} := by
    ext p
    constructor
    · rintro ⟨a, ha, rfl⟩
      exact ⟨Below size a, (satisfiesAll_iff hmax).1 ha, (profile_pairLits hmax).2 (exists_below hmax _).choose_spec⟩
    · rintro ⟨r, hr, rfl⟩
      refine ⟨(exists_below hmax r).choose, (satisfiesAll_iff hmax).2 ?_, rfl⟩
      rwa [(exists_below hmax r).choose_spec]
  rw [modelCount, hrange, Set.ncard_image_of_injective _ hinj, orderCount]

/-! ## Counting -/

section Count

open SolverEngine (solver)

variable {σ : Type} [Engine σ] [SolverEngine σ] {e e' : σ} {limited : Bool} {limit : Option Nat} {n : Nat}

theorem exec_count (h : Serves limited e 0 []) (hmax : size * size ≤ Var.maxCount) :
    ∃ n e', (count size).exec e = (.ok n, e') ∧ n ≤ orderCount size ∧
      (n = orderCount size ∨ limited = true ∧ (solver e').lastVerdict = some .unknown) := by
  obtain ⟨e₁, hnew, h₁⟩ := h.newVariables (size * size)
  rw [Nat.zero_add] at h₁
  obtain ⟨e₂, hadd, h₂⟩ := h₁.addClauses (litsOf_pairClauses hmax) (index_lt_of_orderClauses hmax)
  have hx : ∀ k ∈ pairLits size, k.var.index < size * size := by
    intro k hk
    obtain ⟨i, j, rfl⟩ := mem_pairLits.1 hk
    rw [Var.positive, Lit.var_lit]
    exact pair_lt i.2 j.2
  obtain ⟨n, e₃, hcount, hcounted⟩ := Enumeration.count_counted (litsOf_pairNumbers hmax) hx h₂
  rw [List.nil_append] at hcounted
  have hle := hcounted.le
  have heq := hcounted.eq_or
  rw [modelCount_eq hmax] at hle heq
  refine ⟨n, Engine.report (.partialOrders n size) e₃, ?_, hle, heq.imp_right (And.imp_right fun hv => ?_)⟩
  · rw [count, EngineM.exec_bind_ok hnew]
    exact (EngineM.exec_bind_ok hadd).trans (EngineM.exec_bind_ok hcount)
  · rw [SolverEngine.solver_report]
    exact hv

theorem le_maxCount_of_exec_count (h : Serves limited e 0 []) (hn : (count size).exec e = (.ok n, e')) :
    size * size ≤ Var.maxCount := by
  by_contra hmax
  obtain ⟨c, hc, hno⟩ := exists_not_litsOf (Nat.lt_of_not_le hmax)
  obtain ⟨e₁, hnew, -⟩ := h.newVariables (size * size)
  rw [count, EngineM.exec_bind_ok hnew, EngineM.exec_bind] at hn
  generalize hadd : (Engine.addClauses _ : EngineM σ Unit).exec e₁ = out at hn
  obtain ⟨_ | u, e₂⟩ := out
  · cases (Prod.mk.inj hn).1
  · obtain ⟨ls, hls⟩ := Serves.litsOf_of_addClauses hadd c hc
    exact hno ls hls

/-- A count is never above the number of partial orders. It is below only if a search reached the limit, which is not
reported. -/
structure CountsOrders (limit : Option Nat) (size : Nat) (e : σ) : Prop where
  of_ok {n : Nat} {e' : σ} : (count size).exec e = (.ok n, e') → n ≤ orderCount size ∧
    (n = orderCount size ∨ limit.isSome = true ∧ (solver e').lastVerdict = some .unknown)
  of_unlimited : limit = none → size * size ≤ Var.maxCount → ∃ e', (count size).exec e = (.ok (orderCount size), e')

theorem CountsOrders.of_serves (h : Serves limit.isSome e 0 []) : CountsOrders limit size e where
  of_ok hn := by
    obtain ⟨n', e₁, hexec, hspec⟩ := exec_count h (le_maxCount_of_exec_count h hn)
    rw [hexec, Prod.mk.injEq, Except.ok.injEq] at hn
    obtain ⟨rfl, rfl⟩ := hn
    exact hspec
  of_unlimited hlimit hmax := by
    subst hlimit
    obtain ⟨n, e', hexec, -, rfl | ⟨hlimited, -⟩⟩ := exec_count h hmax
    · exact ⟨e', hexec⟩
    · cases hlimited

end Count

/-- New engines of all kinds, configurations and limits count partial orders. -/
theorem countsOrders_created (ties : TieOrder) (us : List ConfigUpdate) (limit : Option Nat) (size : Nat) :
    CountsOrders limit size ({ solver := Solver.created ties us limit } : PlainEngine) ∧
      (∀ mode, CountsOrders limit size
        ({ solver := Solver.created ties us limit, mode := mode } : SimplifyingEngine)) ∧
        ∀ kind u e, CreatedEngine.create kind u = .ok e →
          CountsOrders limit size (Engine.setDecisionLimit limit e) := by
  have hfrozen (ties : TieOrder) (us : List ConfigUpdate) : ∀ v : Var,
      v.index < (Solver.created ties us limit).varCount →
        (infoOf (Solver.created ties us limit).vars v).frozen = true := by
    intro v hv
    rw [Solver.varCount, (Solver.created_spec ties us limit).2.1] at hv
    exact absurd hv (Nat.not_lt_zero _)
  refine ⟨.of_serves (.of_created rfl rfl), fun mode => .of_serves (.of_created (hfrozen ties us) rfl),
    fun kind u e he => ?_⟩
  have hsolver : (CreatedEngine.ofKind kind).solver = Solver.start .words .stable := by cases kind <;> rfl
  have hcreated : Solver.created .stable [u] limit =
      ((Solver.start .words .stable).configure u).2.setDecisionLimit limit := rfl
  have hready := hfrozen .stable [u]
  rw [CreatedEngine.create, hsolver] at he
  rw [hcreated] at hready
  generalize (Solver.start .words .stable).configure u = out at he hcreated hready
  obtain ⟨_ | _, s⟩ := out
  · cases he
  · cases he
    cases kind with
    | plain => exact .of_serves (.of_created rfl hcreated.symm)
    | simp => exact .of_serves (.of_created hready hcreated.symm)

theorem countsOrders_created_simplifying : CreatedEngine.create .simp {} = .ok (CreatedEngine.ofKind .simp) ∧
    CountsOrders (some 5) 3 (Engine.setDecisionLimit (some 5) (CreatedEngine.ofKind .simp)) := by
  have h : CreatedEngine.create .simp {} = .ok (CreatedEngine.ofKind .simp) := by rfl
  exact ⟨h, (countsOrders_created .stable [] (some 5) 3).2.2 .simp {} _ h⟩

/-- With two elements and no decisions, the first search finds nothing, and the count is zero. -/
theorem zero_partialOrders :
    ((count 2).exec ({ solver := Solver.created .stable [] (some 0) } : PlainEngine)).1 = .ok 0 ∧ orderCount 2 ≠ 0 := by
  constructor
  · have hsome : ((count 2).exec ({ solver := Solver.created .stable [] (some 0) } : PlainEngine)).1.toOption =
        some 0 := by
      decide +kernel
    generalize ((count 2).exec ({ solver := Solver.created .stable [] (some 0) } : PlainEngine)).1 = r at hsome ⊢
    cases r with
    | error err => cases hsome
    | ok n => exact congrArg Except.ok (Option.some.inj hsome)
  · exact Set.ncard_ne_zero_of_mem (a := (· ≤ ·)) (inferInstanceAs (IsPartialOrder (Fin 2) (· ≤ ·)))

end PartialOrder

end ClauseLearning
