import Mathlib.Data.Fintype.BigOperators
import Mathlib.Data.Set.Card
import ClauseLearning.Enumeration
import ClauseLearning.Proofs.Engines

/-!
# Enumeration finds every model once

* `profile` : the values of some literals under an assignment;
* `modelCount` : the number of models of some clauses that differ on these literals;
* `satisfies_blocking` : what a blocking clause excludes are the models of one profile;
* `Enumeration.valuesOf_eq`, `Enumeration.map_blockingClause` : that clause is made of the values of a model;
* `Enumeration.countFuel_counted`, `Enumeration.count_counted` : each turn of the loop finds a model of a new profile,
  until there is none or a limit is reached.
-/

namespace ClauseLearning

variable {f g : List (List Lit)} {ks : List Lit} {a b : Assignment}

/-! ## Profiles -/

/-- The values of some literals under an assignment. -/
def profile (ks : List Lit) (a : Assignment) : Fin ks.length → Bool := fun i => decide ((ks.get i).Holds a)

/-- The profiles of the models of some clauses. -/
def profiles (ks : List Lit) (f : List (List Lit)) : Set (Fin ks.length → Bool) :=
  profile ks '' {a | SatisfiesAll a f}

/-- The number of models that differ on some literals. -/
noncomputable def modelCount (ks : List Lit) (f : List (List Lit)) : Nat := (profiles ks f).ncard

/-- The clause that is false just under assignments of the same profile. -/
def blocking (ks : List Lit) (a : Assignment) : List Lit := ks.map fun k => if k.Holds a then -k else k

theorem profile_eq_iff : profile ks a = profile ks b ↔ ∀ k ∈ ks, k.Holds a ↔ k.Holds b := by
  simp only [funext_iff, profile, decide_eq_decide, List.forall_mem_iff_get]

theorem satisfies_blocking : Satisfies b (blocking ks a) ↔ profile ks b ≠ profile ks a := by
  have hflip (k : Lit) : (if k.Holds a then -k else k).Holds b ↔ ¬ (k.Holds b ↔ k.Holds a) := by
    by_cases ha : k.Holds a <;> simp [ha]
  rw [Ne, profile_eq_iff]
  simp [Satisfies, blocking, hflip]

theorem card_profile_le (s : Finset (Fin ks.length → Bool)) : s.card ≤ Nat.pow 2 ks.length := by
  have h := Finset.card_le_univ s
  rwa [Fintype.card_fun, Fintype.card_bool, Fintype.card_fin] at h

theorem card_le_modelCount {s : Finset (Fin ks.length → Bool)} (hs : ∀ p ∈ s, p ∈ profiles ks f) :
    s.card ≤ modelCount ks f := by
  rw [modelCount, ← Set.ncard_coe_finset]
  exact Set.ncard_le_ncard hs (Set.toFinite _)

theorem modelCount_le : modelCount ks f ≤ Nat.pow 2 ks.length := by
  rw [modelCount, Set.ncard_eq_toFinset_card]
  exact card_profile_le _

theorem card_eq_modelCount {s : Finset (Fin ks.length → Bool)} (hs : ∀ p ∈ s, p ∈ profiles ks f)
    (hall : ∀ a, SatisfiesAll a f → profile ks a ∈ s) : s.card = modelCount ks f := by
  have heq : profiles ks f = s := by
    refine Set.Subset.antisymm ?_ hs
    rintro _ ⟨a, ha, rfl⟩
    exact hall a ha
  rw [modelCount, heq, Set.ncard_coe_finset]

namespace Enumeration

open SolverEngine (solver)

variable {σ : Type} [Engine σ] [SolverEngine σ] {e : σ} {n fuel : Nat} {limited : Bool} {ls : List Int32}

/-- What comes of counting: all models, or fewer of them because a search reached its limit. -/
structure Counted (limited : Bool) (n : Nat) (ks : List Lit) (f : List (List Lit)) (count : Nat) (e : σ) : Prop where
  serves : ∃ g, Serves limited e n g
  le : count ≤ modelCount ks f
  eq_or : count = modelCount ks f ∨ limited = true ∧ (solver e).lastVerdict = some .unknown

/-! ## Blocking clauses -/

/-- The numbers of some literals next to their values under an assignment. -/
def valuesUnder (a : Assignment) (ls : List Int32) : List (Int32 × Int) :=
  ls.map fun x => (x, if (Lit.ofNumber x).Holds a then 1 else -1)

omit [SolverEngine σ] in
theorem valuesOf_eq (hv : ∀ x ∈ ls, Engine.modelValue e x = .ok (if (Lit.ofNumber x).Holds a then 1 else -1)) :
    valuesOf e ls = .ok (valuesUnder a ls) := by
  induction ls with
  | nil => rfl
  | cons x ls ih =>
    obtain ⟨hx, hls⟩ := List.forall_mem_cons.1 hv
    rw [valuesOf, hx, ih hls]
    rfl

/-- The clause that excludes a model has an opposite literal where the model has a true one. -/
theorem map_blockingClause (hneg : ∀ x ∈ ls, Lit.ofNumber (-x) = -Lit.ofNumber x) :
    (blockingClause (valuesUnder a ls)).map Lit.ofNumber = blocking (ls.map Lit.ofNumber) a := by
  rw [blockingClause, valuesUnder, blocking, List.map_map, List.map_map, List.map_map]
  refine List.map_congr_left fun x hx => ?_
  by_cases ha : (Lit.ofNumber x).Holds a
  · simp [ha, hneg x hx]
  · simp [ha]

theorem mem_blockingClause {x : Int32} (h : x ∈ blockingClause (valuesUnder a ls)) : ∃ y ∈ ls, x = y ∨ x = -y := by
  rw [blockingClause, valuesUnder, List.map_map] at h
  obtain ⟨y, hy, rfl⟩ := List.mem_map.1 h
  refine ⟨y, hy, ?_⟩
  by_cases ha : (Lit.ofNumber y).Holds a
  · exact .inr (by simp [ha])
  · exact .inl (by simp [ha])

/-! ## The loop -/

section Loop

variable (hls : litsOf ls = .ok ks) (hx : ∀ k ∈ ks, k.var.index < n)
include hls hx

omit [SolverEngine σ] in
theorem exists_values (hv : ∀ number l, litOf number = .ok l → l.var.index < n →
    Engine.modelValue e number = .ok (if l.Holds a then 1 else -1)) :
    ∃ values, valuesOf e ls = .ok values ∧ litsOf (blockingClause values) = .ok (blocking ks a) := by
  obtain ⟨rfl, hnumbers⟩ := litsOf_eq_ok hls
  have hneg {x : Int32} (hx : x ∈ ls) : litOf (-x) = .ok (-Lit.ofNumber x) := litOf_neg (hnumbers x hx)
  refine ⟨_, valuesOf_eq fun x hx' => hv x _ (hnumbers x hx') (hx _ (List.mem_map_of_mem hx')), ?_⟩
  rw [← map_blockingClause fun x hx' => (litOf_eq_ok_iff.1 (hneg hx')).2.2.symm]
  refine litsOf_eq_map fun number hnumber => ?_
  obtain ⟨x, hx', rfl | rfl⟩ := mem_blockingClause hnumber
  · exact ⟨_, hnumbers _ hx'⟩
  · exact ⟨_, hneg hx'⟩

omit [Engine σ] [SolverEngine σ] hls in
theorem index_lt_of_mem_blocking {l : Lit} (hl : l ∈ blocking ks a) : l.var.index < n := by
  obtain ⟨k, hk, rfl⟩ := List.mem_map.1 hl
  have := hx k hk
  split <;> simpa using this

/-- The loop, after models of the profiles `found` were found and excluded. -/
theorem countFuel_counted (h : Serves limited e n g) (found : Finset (Fin ks.length → Bool))
    (hg : ∀ a, SatisfiesAll a g ↔ SatisfiesAll a f ∧ profile ks a ∉ found) (hfound : ∀ p ∈ found, p ∈ profiles ks f)
    (hfuel : Nat.pow 2 ks.length < fuel + found.card) :
    ∃ c e', (countFuel ls fuel found.card).exec e = (.ok c, e') ∧ Counted limited n ks f c e' := by
  induction fuel generalizing e g found with
  | zero =>
    have := card_profile_le found
    omega
  | succ fuel ih =>
    obtain ⟨v, e₁, hexec, hans⟩ := h.solve
    rw [countFuel, EngineM.exec_bind_ok hexec]
    cases v with
    | unknown =>
      exact ⟨_, e₁, rfl, ⟨g, hans.serves⟩, card_le_modelCount hfound, Or.inr ⟨hans.unknown rfl, hans.lastVerdict_eq⟩⟩
    | unsat =>
      have hcard := card_eq_modelCount hfound fun a ha =>
        Classical.byContradiction fun hnew => hans.unsat rfl a ((hg a).2 ⟨ha, hnew⟩)
      exact ⟨_, e₁, rfl, ⟨g, hans.serves⟩, hcard.le, Or.inl hcard⟩
    | sat =>
      obtain ⟨a, hag, hvalue⟩ := hans.sat rfl
      obtain ⟨values, hvalues, hblock⟩ := exists_values hls hx hvalue
      obtain ⟨haf, hnew⟩ := (hg a).1 hag
      have hcard : (insert (profile ks a) found).card = found.card + 1 := Finset.card_insert_of_notMem hnew
      have hfound' : ∀ p ∈ insert (profile ks a) found, p ∈ profiles ks f := by
        intro p hp
        rcases Finset.mem_insert.1 hp with rfl | hp
        · exact ⟨a, haf, rfl⟩
        · exact hfound p hp
      have hget : (Enumeration.values ls : EngineM σ _).exec e₁ = (.ok values, e₁) := congrArg (·, e₁) hvalues
      rw [if_pos rfl, EngineM.exec_bind_ok hget, ← hcard]
      dsimp only
      split
      · next hempty =>
        -- without literals all models have the same profile
        have hnil : ks = [] := by
          rw [List.isEmpty_iff.1 hempty, litsOf, Except.ok.injEq, eq_comm, blocking, List.map_eq_nil_iff] at hblock
          exact hblock
        have hle := card_le_modelCount hfound'
        have hmost : modelCount ks f ≤ 1 := by
          subst hnil
          exact modelCount_le
        exact ⟨_, e₁, rfl, ⟨g, hans.serves⟩, hle, Or.inl (by omega)⟩
      · obtain ⟨ok, e₂, hadd, hserves⟩ := hans.serves.addClause hblock fun l => index_lt_of_mem_blocking hx
        rw [EngineM.exec_bind_ok hadd]
        refine ih hserves _ (fun b => ?_) hfound' (by omega)
        rw [satisfiesAll_append, hg, satisfiesAll_singleton, satisfies_blocking, Finset.mem_insert, not_or]
        tauto

/-- Counting finds every profile of a model once, unless a search reaches its limit. -/
theorem count_counted (h : Serves limited e n f) :
    ∃ c e', (count ls).exec e = (.ok c, e') ∧ Counted limited n ks f c e' := by
  have hlen : ls.length = ks.length := (litsOf_eq_ok_iff.1 hls).length_eq
  rw [count, hlen]
  refine countFuel_counted hls hx h ∅ (fun a => by simp) (fun p hp => absurd hp (Finset.notMem_empty p)) ?_
  rw [Finset.card_empty]
  omega

end Loop

end Enumeration

end ClauseLearning
