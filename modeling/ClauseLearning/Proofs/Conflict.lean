import ClauseLearning.Conflict
import ClauseLearning.Proofs.DecisionHeap
import ClauseLearning.Proofs.Marks
import ClauseLearning.Proofs.Models

/-!
# What conflict analysis learns

* `Analysis.Valid` : the invariant of an analysis. The open variables are those of the current clause that belong to
  the conflict's level;
* `Analysis.Cur` : the current clause. Resolving with a reason keeps it implied (`Analysis.resolve_spec`);
* `Analysis.walk_spec` : the walk finds an implication point;
* `satisfies_of_redundant` : literals that others imply can be left out;
* `hoist_perm`, `withSecondWatch_spec` : the literals that are watched;
* `Lesson.Asserts`, `analyze_spec` : the learned clause follows from the clauses, and after backtracking its first
  literal can be made true.
-/

namespace ClauseLearning

open Propagator (ModelsAll)

variable {p : Propagator} {n m : Nat} {l x : Lit} {v : Var} {r : ClauseRef} {h₀ : DecisionHeap} {opens : List Var}
  {a : Analysis} {g : Assignment}

namespace Analysis

/-- The invariant of an analysis that still has to go over the first `m` literals of the trail. -/
structure Valid (p : Propagator) (n : Nat) (h₀ : DecisionHeap) (m : Nat) (opens : List Var) (a : Analysis) : Prop where
  heap : DecisionHeap.Same n h₀ a.heap
  marks_size : a.marks.bits.size = n
  marked {v : Var} : a.marks.has v.index → (∃ l ∈ a.lower.toList, l.var = v) ∨ v ∈ opens
  lower_marked {l : Lit} : l ∈ a.lower.toList → a.marks.has l.var.index
  lower_false {l : Lit} : l ∈ a.lower.toList → p.trail.isFalse l
  lower_level {l : Lit} : l ∈ a.lower.toList → 0 < p.trail.level l.var ∧ p.trail.level l.var < p.trail.currentLevel
  lower_nodup : (a.lower.toList.map Lit.var).Nodup
  clean : a.toClean.toList = a.lower.toList.map Lit.var
  opens_marked {v : Var} : v ∈ opens → a.marks.has v.index
  opens_at {v : Var} : v ∈ opens → ∃ i < m, ∃ l, p.trail.At i l ∧ l.var = v
  opens_level {v : Var} : v ∈ opens → p.trail.level v = p.trail.currentLevel
  opens_nodup : opens.Nodup
  count : a.openCount = opens.length

/-- The current clause holds: a lower literal or the opposite of an open one does. -/
def Cur (p : Propagator) (opens : List Var) (a : Analysis) (g : Assignment) : Prop :=
  Satisfies g a.lower.toList ∨ ∃ i l, p.trail.At i l ∧ l.var ∈ opens ∧ ¬ l.Holds g

/-- More literals in the current clause, among them all of `ls` that are not false for good. -/
structure Extended (p : Propagator) (n : Nat) (h₀ : DecisionHeap) (m : Nat) (opens : List Var) (a : Analysis)
    (ls : List Lit) (opens' : List Var) (a' : Analysis) : Prop where
  valid : a'.Valid p n h₀ m opens'
  lower_mono {l : Lit} : l ∈ a.lower.toList → l ∈ a'.lower.toList
  opens_mono {v : Var} : v ∈ opens → v ∈ opens'
  covers {l : Lit} : l ∈ ls → 0 < p.trail.level l.var → l ∈ a'.lower.toList ∨ l.var ∈ opens'

/-- A literal that can be added to the current clause. -/
def Addable (p : Propagator) (m : Nat) (l : Lit) : Prop := ∃ i < m, p.trail.At i (-l)

/-! ## Adding literals -/

theorem Addable.isFalse (h : Addable p m l) (hp : p.Linked n) : p.trail.isFalse l := by
  obtain ⟨i, -, hi⟩ := h
  exact Trail.isFalse_iff_neg.2 (hp.trail.isTrue hi)

theorem eq_of_isFalse (hl : p.trail.isFalse l) (hx : p.trail.isFalse x) (hv : l.var = x.var) : l = x :=
  Lit.neg_inj.1 (Trail.eq_of_isTrue (Trail.isFalse_iff_neg.1 hl) (Trail.isFalse_iff_neg.1 hx)
    (by rw [Lit.var_neg, Lit.var_neg, hv]))

namespace Valid

variable (hv : a.Valid p n h₀ m opens)
include hv

theorem has_mark (hp : p.Linked n) (hx : Addable p m x) (v : Var) :
    (a.marks.mark x.var.index).has v.index ↔ v = x.var ∨ a.marks.has v.index := by
  have hlt : x.var.index < a.marks.bits.size := by
    rw [hv.marks_size]
    exact hp.trail.index_lt (Trail.isAssigned_of_isFalse (hx.isFalse hp))
  rw [Marks.has_mark hlt, Var.index_inj]

theorem addOpen (hp : p.Linked n) (hx : Addable p m x) (hn : ¬ a.marks.has x.var.index)
    (hl : p.trail.level x.var = p.trail.currentLevel) :
    Extended p n h₀ m opens a [x] (x.var :: opens)
      { a with heap := a.heap.bump x.var, marks := a.marks.mark x.var.index, openCount := a.openCount + 1 } := by
  have hm := hv.has_mark hp hx
  refine ⟨?_, id, List.mem_cons_of_mem _, fun h _ => Or.inr (List.mem_singleton.1 h ▸ List.mem_cons_self)⟩
  exact
    { heap := hv.heap.trans (hv.heap.valid.bump _)
      marks_size := Marks.size_mark.trans hv.marks_size
      marked := fun {v} h => by
        rcases (hm v).1 h with rfl | h
        · exact Or.inr List.mem_cons_self
        · exact (hv.marked h).imp_right (List.mem_cons_of_mem _)
      lower_marked := fun h => (hm _).2 (Or.inr (hv.lower_marked h))
      lower_false := hv.lower_false
      lower_level := hv.lower_level
      lower_nodup := hv.lower_nodup
      clean := hv.clean
      opens_marked := fun {v} h => by
        rcases List.mem_cons.1 h with rfl | h
        · exact (hm _).2 (Or.inl rfl)
        · exact (hm v).2 (Or.inr (hv.opens_marked h))
      opens_at := fun {v} h => by
        rcases List.mem_cons.1 h with rfl | h
        · obtain ⟨i, hi, hat⟩ := hx
          exact ⟨i, hi, _, hat, Lit.var_neg x⟩
        · exact hv.opens_at h
      opens_level := fun {v} h => by
        rcases List.mem_cons.1 h with rfl | h
        · exact hl
        · exact hv.opens_level h
      opens_nodup := List.nodup_cons.2 ⟨fun h => hn (hv.opens_marked h), hv.opens_nodup⟩
      count := congrArg (· + 1) hv.count }

theorem addLower (hp : p.Linked n) (hx : Addable p m x) (hn : ¬ a.marks.has x.var.index)
    (h0 : 0 < p.trail.level x.var) (hl : p.trail.level x.var ≠ p.trail.currentLevel) :
    Extended p n h₀ m opens a [x] opens
      { a with
        heap := a.heap.bump x.var
        marks := a.marks.mark x.var.index
        lower := a.lower.push x
        toClean := a.toClean.push x.var } := by
  have hf := hx.isFalse hp
  have hm := hv.has_mark hp hx
  have hmem (l : Lit) : l ∈ (a.lower.push x).toList ↔ l ∈ a.lower.toList ∨ l = x := by
    rw [Array.toList_push, List.mem_append, List.mem_singleton]
  refine ⟨?_, fun h => (hmem _).2 (Or.inl h), id, fun h _ => Or.inl ((hmem _).2 (Or.inr (List.mem_singleton.1 h)))⟩
  exact
    { heap := hv.heap.trans (hv.heap.valid.bump _)
      marks_size := Marks.size_mark.trans hv.marks_size
      marked := fun {v} h => by
        rcases (hm v).1 h with rfl | h
        · exact Or.inl ⟨x, (hmem x).2 (Or.inr rfl), rfl⟩
        · rcases hv.marked h with ⟨l, hl, hlv⟩ | h
          · exact Or.inl ⟨l, (hmem l).2 (Or.inl hl), hlv⟩
          · exact Or.inr h
      lower_marked := fun {l} h => by
        rcases (hmem l).1 h with h | rfl
        · exact (hm _).2 (Or.inr (hv.lower_marked h))
        · exact (hm _).2 (Or.inl rfl)
      lower_false := fun {l} h => by
        rcases (hmem l).1 h with h | rfl
        · exact hv.lower_false h
        · exact hf
      lower_level := fun {l} h => by
        rcases (hmem l).1 h with h | rfl
        · exact hv.lower_level h
        · refine ⟨h0, Nat.lt_of_le_of_ne ?_ hl⟩
          have := hp.trail.level_le_of_isTrue (Trail.isFalse_iff_neg.1 hf)
          rwa [Lit.var_neg] at this
      lower_nodup := by
        show ((a.lower.push x).toList.map Lit.var).Nodup
        rw [Array.toList_push, List.map_append, List.nodup_append]
        refine ⟨hv.lower_nodup, List.pairwise_singleton _ _, ?_⟩
        intro v hv' w hw
        rw [List.map_singleton, List.mem_singleton] at hw
        obtain ⟨l, hl', rfl⟩ := List.mem_map.1 hv'
        rintro he
        exact hn (hw ▸ he ▸ hv.lower_marked hl')
      clean := by
        show (a.toClean.push x.var).toList = (a.lower.push x).toList.map Lit.var
        rw [Array.toList_push, Array.toList_push, List.map_append, hv.clean]
        rfl
      opens_marked := fun h => (hm _).2 (Or.inr (hv.opens_marked h))
      opens_at := hv.opens_at
      opens_level := hv.opens_level
      opens_nodup := hv.opens_nodup
      count := hv.count }

theorem addLit (hp : p.Linked n) (hx : Addable p m x) :
    ∃ opens', Extended p n h₀ m opens a [x] opens' (Analysis.addLit p.trail a x) := by
  unfold Analysis.addLit
  split
  · next hc =>
    have hn : ¬ a.marks.has x.var.index := by simpa using hc.2
    dsimp only
    split
    · next hl => exact ⟨_, hv.addOpen hp hx hn hl⟩
    · next hl => exact ⟨_, hv.addLower hp hx hn hc.1 hl⟩
  · next hc =>
    refine ⟨opens, hv, id, id, ?_⟩
    intro l h h0
    obtain rfl := List.mem_singleton.1 h
    have hm : a.marks.has l.var.index := by
      have := not_and.1 hc h0
      simpa using this
    rcases hv.marked hm with ⟨k, hk, hkv⟩ | ho
    · exact Or.inl (eq_of_isFalse (hv.lower_false hk) (hx.isFalse hp) hkv ▸ hk)
    · exact Or.inr ho

theorem addLits (hp : p.Linked n) {ls : List Lit} (hx : ∀ x ∈ ls, Addable p m x) :
    ∃ opens', Extended p n h₀ m opens a ls opens' (Analysis.addLits p.trail a ls) := by
  unfold Analysis.addLits
  induction ls generalizing a opens with
  | nil => exact ⟨opens, hv, id, id, fun h => by cases h⟩
  | cons x ls ih =>
    obtain ⟨opens₁, h₁⟩ := hv.addLit hp (hx x List.mem_cons_self)
    obtain ⟨opens₂, h₂⟩ := ih h₁.valid fun y hy => hx y (List.mem_cons_of_mem x hy)
    refine ⟨opens₂, h₂.valid, fun h => h₂.lower_mono (h₁.lower_mono h), fun h => h₂.opens_mono (h₁.opens_mono h), ?_⟩
    intro l hl h0
    rcases List.mem_cons.1 hl with rfl | hl
    · exact (h₁.covers (List.mem_singleton_self _) h0).imp h₂.lower_mono h₂.opens_mono
    · exact h₂.covers hl h0

end Valid

/-! ## Resolution -/

theorem Extended.cur {opens' : List Var} {a' : Analysis} {ls : List Lit} (he : Extended p n h₀ m opens a ls opens' a')
    (hg : p.ModelsAll g) (hx : Addable p m x) (hp : p.Linked n) (hm : x ∈ ls) (hh : x.Holds g) : Cur p opens' a' g := by
  have h0 : 0 < p.trail.level x.var := by
    apply Nat.pos_of_ne_zero
    intro h0
    exact hg.not_holds (hx.isFalse hp) h0 hh
  rcases he.covers hm h0 with h | h
  · exact Or.inl ⟨x, h, hh⟩
  · obtain ⟨i, -, hi⟩ := hx
    exact Or.inr ⟨i, -x, hi, (Lit.var_neg x).symm ▸ h, fun h => Lit.holds_neg.1 h hh⟩

theorem Valid.mem_opens (hv : a.Valid p n h₀ (m + 1) opens) (hp : p.Linked n) (hi : p.trail.At m l)
    (hm : a.marks.has l.var.index) (ho : opens ≠ []) : l.var ∈ opens := by
  rcases hv.marked hm with ⟨k, hk, hkv⟩ | h
  · obtain ⟨v, hvo⟩ := List.exists_mem_of_ne_nil opens ho
    obtain ⟨i, hlt, y, hy, rfl⟩ := hv.opens_at hvo
    have h1 := hp.trail.level_mono hy hi (Nat.le_of_lt_succ hlt)
    have h2 := (hv.lower_level hk).2
    rw [hkv, ← hv.opens_level hvo] at h2
    omega
  · exact h

theorem Valid.close (hv : a.Valid p n h₀ (m + 1) opens) (hi : p.trail.At m l) (ho : l.var ∈ opens) :
    { a with marks := a.marks.unmark l.var.index, openCount := a.openCount - 1 }.Valid p n h₀ m
      (opens.erase l.var) := by
  have hm (v : Var) : (a.marks.unmark l.var.index).has v.index ↔ v ≠ l.var ∧ a.marks.has v.index := by
    rw [Marks.has_unmark, Ne, Var.index_inj]
  exact
    { heap := hv.heap
      marks_size := Marks.size_unmark.trans hv.marks_size
      marked := fun {v} h => by
        obtain ⟨hne, h⟩ := (hm v).1 h
        rcases hv.marked h with h | h
        · exact Or.inl h
        · exact Or.inr ((List.mem_erase_of_ne hne).2 h)
      lower_marked := fun {k} h => by
        refine (hm _).2 ⟨?_, hv.lower_marked h⟩
        intro he
        have h1 := (hv.lower_level h).2
        rw [he, hv.opens_level ho] at h1
        omega
      lower_false := hv.lower_false
      lower_level := hv.lower_level
      lower_nodup := hv.lower_nodup
      clean := hv.clean
      opens_marked := fun {v} h => by
        obtain ⟨hne, h⟩ := hv.opens_nodup.mem_erase_iff.1 h
        exact (hm v).2 ⟨hne, hv.opens_marked h⟩
      opens_at := fun {v} h => by
        obtain ⟨hne, h⟩ := hv.opens_nodup.mem_erase_iff.1 h
        obtain ⟨i, hlt, k, hk, rfl⟩ := hv.opens_at h
        refine ⟨i, Nat.lt_of_le_of_ne (Nat.le_of_lt_succ hlt) ?_, k, hk, rfl⟩
        rintro rfl
        exact hne (congrArg Lit.var (hk.eq hi))
      opens_level := fun h => hv.opens_level (List.mem_of_mem_erase h)
      opens_nodup := hv.opens_nodup.erase _
      count := by
        show a.openCount - 1 = _
        rw [List.length_erase_of_mem ho, hv.count] }

theorem Valid.skip (hv : a.Valid p n h₀ (m + 1) opens) (hm : ∀ l, p.trail.At m l → ¬ a.marks.has l.var.index) :
    a.Valid p n h₀ m opens :=
  { hv with
    opens_at := fun {v} h => by
      obtain ⟨i, hlt, k, hk, rfl⟩ := hv.opens_at h
      refine ⟨i, Nat.lt_of_le_of_ne (Nat.le_of_lt_succ hlt) ?_, k, hk, rfl⟩
      rintro rfl
      exact hm k hk (hv.opens_marked h) }

theorem reason_ne_unit (hv : a.Valid p n h₀ m opens) (hp : p.Linked n) (hl : 0 < p.trail.currentLevel)
    (hi : p.trail.At m l) (hlev : p.trail.level l.var = p.trail.currentLevel) (ho : opens ≠ []) :
    p.trail.reason l.var ≠ .unit := by
  intro hr
  rcases hp.unit_reason hi hr with h0 | hs
  · omega
  · obtain ⟨v, hvo⟩ := List.exists_mem_of_ne_nil opens ho
    obtain ⟨i, hlt, k, hk, rfl⟩ := hv.opens_at hvo
    have := (hp.trail.level_iff hs hk).1 (by rw [hv.opens_level hvo, hlev]; omega)
    omega

/-- Resolution with the reason of a literal that was taken out. -/
theorem resolve_spec (hv : a.Valid p n h₀ m opens) (hp : p.Linked n) (hi : p.trail.At m l)
    (hr : p.trail.reason l.var ≠ .unit) :
    ∃ opens', (Analysis.resolve p a l.var).Valid p n h₀ m opens' ∧ (opens ≠ [] → opens' ≠ []) ∧
      ∀ g, p.ModelsAll g → Cur p opens a g ∨ ¬ l.Holds g → Cur p opens' (Analysis.resolve p a l.var) g := by
  unfold Analysis.resolve
  split
  · next hu => exact absurd hu hr
  · next r hr =>
    obtain ⟨h1, h2, h3⟩ := hp.clause_reason hi hr
    have hv' : { a with involved := a.involved.push r }.Valid p n h₀ m opens := { hv with }
    obtain ⟨opens', he⟩ := hv'.addLits hp h3
    refine ⟨opens', he.valid, ?_, ?_⟩
    · intro ho
      obtain ⟨v, hvo⟩ := List.exists_mem_of_ne_nil opens ho
      exact List.ne_nil_of_mem (he.opens_mono hvo)
    · intro g hg hc
      rcases hc with (⟨x, hx, hh⟩ | ⟨i, k, hk, hko, hh⟩) | hh
      · exact Or.inl ⟨x, he.lower_mono hx, hh⟩
      · exact Or.inr ⟨i, k, hk, he.opens_mono hko, hh⟩
      · obtain ⟨x, hx, hxh⟩ := hg.clause h1
        rcases List.mem_cons.1 hx with rfl | hx
        · exact absurd (h2 ▸ hxh) hh
        · exact he.cur hg (h3 x hx) hp hx hxh

/-! ## The walk -/

/-- The walk ends at a literal of the conflict's level. Its opposite and the lower literals are implied. -/
theorem walk_spec (hv : a.Valid p n h₀ m opens) (hp : p.Linked n) (hl : 0 < p.trail.currentLevel) (ho : opens ≠ [])
    (hc : ∀ g, p.ModelsAll g → Cur p opens a g) :
    ∃ l a', walk p m a = (some l, a') ∧ p.trail.isTrue l ∧ p.trail.level l.var = p.trail.currentLevel ∧
      a'.Valid p n h₀ 0 [] ∧ ∀ g, p.ModelsAll g → Satisfies g a'.lower.toList ∨ ¬ l.Holds g := by
  induction m generalizing a opens with
  | zero =>
    obtain ⟨v, hvo⟩ := List.exists_mem_of_ne_nil opens ho
    obtain ⟨i, hlt, -⟩ := hv.opens_at hvo
    exact absurd hlt (Nat.not_lt_zero i)
  | succ m ih =>
    rw [walk]
    split
    · next hn =>
      refine ih (hv.skip ?_) ho hc
      intro l hi
      rw [Trail.At, hn] at hi
      cases hi
    · next l hi =>
      split
      · next hm =>
        have hlo := hv.mem_opens hp hi hm ho
        have hv' := hv.close hi hlo
        have hlev := hv.opens_level hlo
        have hc' (g : Assignment) (hg : p.ModelsAll g) : Cur p (opens.erase l.var)
            { a with marks := a.marks.unmark l.var.index, openCount := a.openCount - 1 } g ∨ ¬ l.Holds g := by
          rcases hc g hg with h | ⟨i, k, hk, hko, hh⟩
          · exact Or.inl (Or.inl h)
          · by_cases hkl : k.var = l.var
            · exact Or.inr (hp.trail.eq_of_at hk hi hkl ▸ hh)
            · exact Or.inl (Or.inr ⟨i, k, hk, (List.mem_erase_of_ne hkl).2 hko, hh⟩)
        dsimp only
        split
        · next h0 =>
          have hnil : opens.erase l.var = [] := List.length_eq_zero_iff.1 (hv'.count.symm.trans h0)
          rw [hnil] at hv' hc'
          refine ⟨l, _, rfl, hp.trail.isTrue hi, hlev, { hv' with opens_at := fun h => by cases h }, ?_⟩
          intro g hg
          rcases hc' g hg with (h | ⟨i, k, -, hk, -⟩) | h
          · exact Or.inl h
          · cases hk
          · exact Or.inr h
        · next h0 =>
          have hne : opens.erase l.var ≠ [] := fun he => h0 (hv'.count.trans (congrArg List.length he))
          obtain ⟨opens', h1, h2, h3⟩ := resolve_spec hv' hp hi (reason_ne_unit hv' hp hl hi hlev hne)
          exact ih h1 (h2 hne) fun g hg => h3 g hg (hc' g hg)
      · next hm =>
        refine ih (hv.skip ?_) ho hc
        intro k hk
        rw [hk.eq hi]
        exact hm

end Analysis

/-! ## Literals that others imply -/

/-- If a redundant literal held, so would another one of the clause. -/
theorem not_holds_lower (hv : a.Valid p n h₀ 0 []) (hp : p.Linked n) (hg : p.ModelsAll g)
    (hn : ∀ l ∈ a.lower.toList, isRedundant p a.marks l = false → ¬ l.Holds g) (i : Nat) :
    ∀ l ∈ a.lower.toList, p.trail.At i (-l) → ¬ l.Holds g := by
  -- by induction on positions, as the literals that imply another one became false before
  induction i using Nat.strongRecOn with
  | ind i ih =>
    intro l hl hi
    cases hr : isRedundant p a.marks l with
    | false => exact hn l hl hr
    | true =>
      unfold isRedundant at hr
      split at hr
      · cases hr
      · next r hr' =>
        rw [← Lit.var_neg l] at hr'
        obtain ⟨h1, h2, h3⟩ := hp.clause_reason hi hr'
        obtain ⟨x, hx, hxh⟩ := hg.clause h1
        rcases List.mem_cons.1 hx with rfl | hx
        · rw [h2] at hxh
          exact Lit.holds_neg.1 hxh
        · apply absurd hxh
          obtain ⟨j, hj, hj'⟩ := h3 x hx
          have hf : p.trail.isFalse x := Trail.isFalse_iff_neg.2 (hp.trail.isTrue hj')
          rcases Bool.or_eq_true_iff.1 (List.all_eq_true.1 hr x hx) with hm | h0
          · rcases hv.marked hm with ⟨k, hk, hkv⟩ | ho
            · have hkx := Analysis.eq_of_isFalse (hv.lower_false hk) hf hkv
              subst hkx
              exact ih j hj k hk hj'
            · cases ho
          · exact hg.not_holds hf (beq_iff_eq.1 h0)

/-- Literals that others imply can be left out. -/
theorem satisfies_of_redundant (hv : a.Valid p n h₀ 0 []) (hp : p.Linked n) (hg : p.ModelsAll g) (u : Lit)
    (h : Satisfies g a.lower.toList ∨ ¬ u.Holds g) :
    Satisfies g (-u :: a.lower.toList.filter fun l => !isRedundant p a.marks l) := by
  by_cases hu : u.Holds g
  · apply Classical.byContradiction
    intro hns
    have hn (l : Lit) (hl : l ∈ a.lower.toList) (hr : isRedundant p a.marks l = false) : ¬ l.Holds g := fun hh =>
      hns ⟨l, List.mem_cons_of_mem _ (List.mem_filter.2 ⟨hl, by rw [hr]; rfl⟩), hh⟩
    rcases h with ⟨l, hl, hh⟩ | h
    · have hf := hv.lower_false hl
      obtain ⟨i, hi⟩ := hp.trail.at_of_level_pos (Trail.isFalse_iff_neg.1 hf)
        ((Lit.var_neg l).symm ▸ (hv.lower_level hl).1)
      exact not_holds_lower hv hp hg hn i l hl hi hh
    · exact h hu
  · exact ⟨-u, List.mem_cons_self, Lit.holds_neg.2 hu⟩

/-! ## The order of the learned clause -/

theorem assertingFirst_perm (u : Lit) (ls : List Lit) : ∃ rest, assertingFirst u ls = -u :: rest ∧ rest.Perm ls := by
  cases ls with
  | nil => exact ⟨[], rfl, List.Perm.refl _⟩
  | cons l ls => exact ⟨ls ++ [l], rfl, List.perm_append_singleton l ls⟩

theorem hoist_perm (level : Lit → Nat) (front : Lit) (ls : List Lit) :
    ((hoist level front ls).1 :: (hoist level front ls).2).Perm (front :: ls) := by
  induction ls generalizing front with
  | nil => exact List.Perm.refl _
  | cons l ls ih =>
    rw [hoist]
    split
    · exact ((List.Perm.swap _ _ _).trans ((ih l).cons front))
    · exact (List.Perm.swap _ _ _).trans (((ih front).cons l).trans (List.Perm.swap _ _ _))

theorem hoist_max (level : Lit → Nat) (front : Lit) (ls : List Lit) :
    ∀ l ∈ front :: ls, level l ≤ level (hoist level front ls).1 := by
  induction ls generalizing front with
  | nil =>
    intro l hl
    rw [List.mem_singleton.1 hl]
    exact Nat.le_refl _
  | cons k ls ih =>
    rw [hoist]
    split
    · next hlt =>
      have hk := ih k k List.mem_cons_self
      intro l hl
      rcases List.mem_cons.1 hl with rfl | hl
      · exact Nat.le_trans (Nat.le_of_lt hlt) hk
      · exact ih k l hl
    · next hlt =>
      have hf := ih front front List.mem_cons_self
      intro l hl
      rcases List.mem_cons.1 hl with rfl | hl
      · exact hf
      · rcases List.mem_cons.1 hl with rfl | hl
        · exact Nat.le_trans (Nat.le_of_not_lt hlt) hf
        · exact ih front l (List.mem_cons_of_mem _ hl)

/-- The second literal belongs to the highest of the levels that remain. -/
theorem withSecondWatch_spec (level : Lit → Nat) (f : Lit) (ls : List Lit) :
    ∃ rest, withSecondWatch level (f :: ls) = (f :: rest, (withSecondWatch level (f :: ls)).2) ∧ rest.Perm ls ∧
      (∀ l ∈ rest, level l ≤ (withSecondWatch level (f :: ls)).2) ∧
      (rest = [] → (withSecondWatch level (f :: ls)).2 = 0) ∧
      ∀ s rest', rest = s :: rest' → level s = (withSecondWatch level (f :: ls)).2 := by
  cases ls with
  | nil =>
    refine ⟨[], rfl, List.Perm.refl _, ?_, fun _ => rfl, fun s rest' h => by cases h⟩
    intro l hl
    cases hl
  | cons b ls =>
    have hp := hoist_perm level b ls
    refine ⟨(hoist level b ls).1 :: (hoist level b ls).2, rfl, hp, ?_, fun h => (by cases h), ?_⟩
    · intro l hl
      exact hoist_max level b ls l (hp.mem_iff.1 hl)
    · intro s rest' h
      exact congrArg level (List.cons.inj h).1.symm

/-! ## Lessons -/

/-- What a lesson says of the clause to learn: it follows from the clauses, and backtracking unassigns just its first
literal. The second one belongs to the level to backtrack to. -/
structure Lesson.Asserts (p : Propagator) (first : Lit) (rest : List Lit) (lesson : Lesson) : Prop where
  clause_eq : lesson.clause = first :: rest
  first_false : p.trail.isFalse first
  first_level : p.trail.level first.var = p.trail.currentLevel
  backtrackTo_lt : lesson.backtrackTo < p.trail.currentLevel
  rest_false {l : Lit} : l ∈ rest → p.trail.isFalse l
  rest_level {l : Lit} : l ∈ rest → 0 < p.trail.level l.var ∧ p.trail.level l.var ≤ lesson.backtrackTo
  single : rest = [] → lesson.backtrackTo = 0
  second {s : Lit} {rest' : List Lit} : rest = s :: rest' → p.trail.level s.var = lesson.backtrackTo
  nodup : (lesson.clause.map Lit.var).Nodup
  implied {g : Assignment} : p.ModelsAll g → Satisfies g lesson.clause

theorem Analysis.Valid.clear (hv : a.Valid p n h₀ 0 []) :
    (a.marks.unmarkAll (a.toClean.toList.map Var.index)).Clear n where
  size_eq := Marks.size_unmarkAll.trans hv.marks_size
  has_eq i := by
    apply Bool.eq_false_iff.2
    intro hi
    obtain ⟨hn, hm⟩ := Marks.has_unmarkAll.1 hi
    rcases hv.marked (v := ⟨i⟩) hm with ⟨l, hl, hlv⟩ | h
    · refine hn (List.mem_map.2 ⟨⟨i⟩, ?_, rfl⟩)
      rw [hv.clean]
      exact List.mem_map.2 ⟨l, hl, hlv⟩
    · cases h

theorem Analysis.valid_start {heap : DecisionHeap} {marks : Marks} (hh : heap.Valid n) (hm : marks.Clear n)
    (m : Nat) (r : ClauseRef) : Analysis.Valid p n heap m [] { marks := marks, heap := heap, involved := #[r] } where
  heap := DecisionHeap.Same.refl hh
  marks_size := hm.size_eq
  marked {v} h := by
    rw [hm.has_eq] at h
    cases h
  lower_marked h := by cases h
  lower_false h := by cases h
  lower_level h := by cases h
  lower_nodup := List.nodup_nil
  clean := rfl
  opens_marked h := by cases h
  opens_at h := by cases h
  opens_level h := by cases h
  opens_nodup := List.nodup_nil
  count := rfl

theorem Propagator.Conflict.addable (hc : p.Conflict r) (hp : p.Linked n) :
    ∀ x ∈ (p.clauses.get r).lits, Analysis.Addable p p.trail.lits.size x := by
  intro x hx
  obtain ⟨i, hi⟩ := (hp.fits hc.isLive).at_of_isFalse hp.trail hx (hc.isFalse hx)
  exact ⟨i, hi.lt, hi⟩

theorem addLits_conflict {heap : DecisionHeap} {marks : Marks} (hp : p.Linked n) (hh : heap.Valid n)
    (hm : marks.Clear n) (hc : p.Conflict r) (hl : 0 < p.trail.currentLevel) :
    ∃ opens, opens ≠ [] ∧
      (Analysis.addLits p.trail { marks := marks, heap := heap, involved := #[r] } (p.clauses.get r).lits).Valid p n
        heap p.trail.lits.size opens ∧
      ∀ g, p.ModelsAll g → Analysis.Cur p opens
        (Analysis.addLits p.trail { marks := marks, heap := heap, involved := #[r] } (p.clauses.get r).lits) g := by
  have hv := Analysis.valid_start (p := p) hh hm p.trail.lits.size r
  have hx := hc.addable hp
  obtain ⟨opens, he⟩ := hv.addLits hp hx
  refine ⟨opens, ?_, he.valid, ?_⟩
  · obtain ⟨x, hxm, hxl⟩ := hc.current
    rcases he.covers hxm (hxl ▸ hl) with h | h
    · have := (he.valid.lower_level h).2
      omega
    · exact List.ne_nil_of_mem h
  · intro g hg
    obtain ⟨x, hxm, hxh⟩ := hg.clause hc.isLive
    exact he.cur hg (hx x hxm) hp hxm hxh

theorem asserts_of_valid {u : Lit} {involved : List ClauseRef} (hv : a.Valid p n h₀ 0 []) (hp : p.Linked n)
    (hl : 0 < p.trail.currentLevel) (hu : p.trail.isTrue u) (hlev : p.trail.level u.var = p.trail.currentLevel)
    (hg : ∀ g, p.ModelsAll g → Satisfies g a.lower.toList ∨ ¬ u.Holds g) {kept : List Lit}
    (hk : kept = (assertingFirst u a.lower.toList).take 1 ++
      ((assertingFirst u a.lower.toList).drop 1).filter fun l => !isRedundant p a.marks l) :
    ∃ first rest, Lesson.Asserts p first rest
      { clause := (withSecondWatch (fun l => p.trail.level l.var) kept).1
        backtrackTo := (withSecondWatch (fun l => p.trail.level l.var) kept).2
        involved := involved } := by
  obtain ⟨rest₁, he, hp₁⟩ := assertingFirst_perm u a.lower.toList
  rw [he] at hk
  change kept = -u :: rest₁.filter fun l => !isRedundant p a.marks l at hk
  subst hk
  obtain ⟨rest, hw, hp₂, hmax, hnil, hcons⟩ :=
    withSecondWatch_spec (fun l => p.trail.level l.var) (-u) (rest₁.filter fun l => !isRedundant p a.marks l)
  have hperm : rest.Perm (a.lower.toList.filter fun l => !isRedundant p a.marks l) := hp₂.trans (hp₁.filter _)
  have hmem {l : Lit} (h : l ∈ rest) : l ∈ a.lower.toList := (List.mem_filter.1 (hperm.mem_iff.1 h)).1
  have hclause := congrArg Prod.fst hw
  refine ⟨-u, rest, ?_⟩
  refine
    { clause_eq := hclause
      first_false := Trail.isFalse_iff_neg.2 ((Lit.neg_neg u).symm ▸ hu)
      first_level := (Lit.var_neg u).symm ▸ hlev
      backtrackTo_lt := ?_
      rest_false := fun h => hv.lower_false (hmem h)
      rest_level := fun h => ⟨(hv.lower_level (hmem h)).1, hmax _ h⟩
      single := hnil
      second := fun h => hcons _ _ h
      nodup := ?_
      implied := fun {g} h => ?_ }
  · cases hr : rest with
    | nil =>
      show (withSecondWatch _ _).2 < _
      rw [hnil hr]
      exact hl
    | cons s rest' =>
      show (withSecondWatch _ _).2 < _
      rw [← hcons s rest' hr]
      exact (hv.lower_level (hmem (hr ▸ List.mem_cons_self))).2
  · show ((withSecondWatch _ _).1.map Lit.var).Nodup
    rw [hclause, List.map_cons, List.nodup_cons]
    constructor
    · intro h
      obtain ⟨l, hl', hv'⟩ := List.mem_map.1 h
      have := (hv.lower_level (hmem hl')).2
      rw [hv', Lit.var_neg, hlev] at this
      omega
    · refine (hperm.map Lit.var).nodup_iff.2 (List.Nodup.sublist ?_ hv.lower_nodup)
      exact (List.filter_sublist).map _
  · show Satisfies g (withSecondWatch _ _).1
    rw [hclause]
    apply (satisfies_of_redundant hv hp h u (hg g h)).mono
    intro l hl' _
    rcases List.mem_cons.1 hl' with rfl | hl'
    · exact List.mem_cons_self
    · exact List.mem_cons_of_mem _ (hperm.mem_iff.2 hl')

/-- Nothing is marked, and nothing is to be unmarked. -/
structure VarMarks.Clear (n : Nat) (m : VarMarks) : Prop where
  marks : m.marks.Clear n
  toClean_eq : m.toClean = #[]

theorem VarMarks.clear_empty : ({} : VarMarks).Clear 0 := ⟨Marks.clear_empty, rfl⟩

theorem VarMarks.Clear.extend {m : VarMarks} (h : m.Clear n) (count : Nat) : (m.extend count).Clear (n + count) :=
  ⟨h.marks.extend count, h.toClean_eq⟩

/-- Above level 0 a conflict teaches a clause. -/
theorem analyze_spec {heap : DecisionHeap} {marks : VarMarks} (hp : p.Linked n) (hh : heap.Valid n)
    (hm : marks.Clear n) (hc : p.Conflict r) (hl : 0 < p.trail.currentLevel) :
    (∃ first rest, (analyze p heap marks r).1.Asserts p first rest) ∧
      DecisionHeap.Same n heap (analyze p heap marks r).2.1 ∧ (analyze p heap marks r).2.2.Clear n := by
  obtain ⟨opens, ho, hv, hcur⟩ := addLits_conflict hp hh hm.marks hc hl
  obtain ⟨u, a', hw, hu, hlev, hv', hg⟩ := Analysis.walk_spec hv hp hl ho hcur
  rw [analyze, if_neg (Nat.ne_of_gt hl), hm.toClean_eq]
  dsimp only
  rw [hw]
  exact ⟨asserts_of_valid hv' hp hl hu hlev hg rfl, hv'.heap, hv'.clear, rfl⟩

theorem analyze_level_zero {heap : DecisionHeap} {marks : VarMarks} (hl : p.trail.currentLevel = 0) :
    analyze p heap marks r = ({ clause := [], backtrackTo := 0, involved := [] }, heap, marks) := if_pos hl

end ClauseLearning
