import ClauseLearning.Proofs.CheckedHeap
import ClauseLearning.Proofs.CheckedPropagation
import ClauseLearning.Proofs.Conflict

/-!
# Conflict analysis within its bounds

An analysis reads levels, reasons and marks by variable, follows references to reason clauses, and counts the open
literals down. It relies on a conflict with a literal of the current level, and on a unique implication point.

* `analyzeChecked` and its parts : the analysis with its bounds, differences and assertions checked. A reason clause
  has to have the literal in front that it is the reason of, so that a reference into another storage would be found;
* `Analysis.Valid.walkChecked` : the count of open literals never falls below zero, and the walk ends at an implication
  point;
* `analyzeChecked_eq` : no check of an analysis fails.
-/

namespace ClauseLearning

/-! ## An analysis that checks its bounds -/

/-- The set has room for a number. -/
def Marks.Covers (m : Marks) (i : Nat) : Prop := i < m.bits.size

instance (m : Marks) (i : Nat) : Decidable (m.Covers i) := inferInstanceAs (Decidable (_ < _))

theorem Analysis.Valid.covers {p : Propagator} {n m : Nat} {h₀ : DecisionHeap} {opens : List Var} {a : Analysis}
    {v : Var} (hv : a.Valid p n h₀ m opens) (hx : v.index < n) : a.marks.Covers v.index :=
  Nat.lt_of_lt_of_eq hx hv.marks_size.symm

variable [Build]

/-- The reason clause of a true literal. -/
def Propagator.getReasonChecked (p : Propagator) (l : Lit) (r : ClauseRef) : Fallible Clause := do
  let c ← p.clauses.getChecked r
  require (c.first = l) .assertion
  return c

namespace Analysis

def addLitChecked (t : Trail) (a : Analysis) (l : Lit) : Fallible Analysis := do
  require (t.Knows l.var) .outOfRange
  require (a.marks.Covers l.var.index) .outOfRange
  if 0 < t.level l.var ∧ !a.marks.has l.var.index then
    let heap ← a.heap.bumpChecked l.var
    let a := { a with heap := heap, marks := a.marks.mark l.var.index }
    return if t.level l.var = t.currentLevel then { a with openCount := a.openCount + 1 }
      else { a with lower := a.lower.push l, toClean := a.toClean.push l.var }
  else return a

def addLitsChecked (t : Trail) (a : Analysis) (ls : List Lit) : Fallible Analysis := ls.foldlM (addLitChecked t) a

def resolveChecked (p : Propagator) (a : Analysis) (l : Lit) : Fallible Analysis := do
  require (p.trail.Knows l.var) .outOfRange
  match p.trail.reason l.var with
  | .unit => return a
  | .clause r =>
    let c ← p.getReasonChecked l r
    addLitsChecked p.trail { a with involved := a.involved.push r } (c.lits.drop 1)

/-- Goes back over the trail to the implication point, which has to be there. -/
def walkChecked (p : Propagator) : Nat → Analysis → Fallible (Lit × Analysis)
  | 0, _ => .error .assertion
  | n + 1, a =>
    match p.trail.lits[n]? with
    | none => .error .outOfRange
    | some l => do
      require (a.marks.Covers l.var.index) .outOfRange
      if a.marks.has l.var.index then
        require (0 < a.openCount) .underflow
        let a := { a with marks := a.marks.unmark l.var.index, openCount := a.openCount - 1 }
        if a.openCount = 0 then return (l, a)
        else
          let a ← resolveChecked p a l
          walkChecked p n a
      else walkChecked p n a

end Analysis

def isRedundantChecked (p : Propagator) (marks : Marks) (l : Lit) : Fallible Bool := do
  require (p.trail.Knows l.var) .outOfRange
  match p.trail.reason l.var with
  | .unit => return false
  | .clause r =>
    let c ← p.getReasonChecked (-l) r
    require (∀ x ∈ c.lits.drop 1, marks.Covers x.var.index ∧ p.trail.Knows x.var) .outOfRange
    return (c.lits.drop 1).all fun x => marks.has x.var.index || p.trail.level x.var == 0

def analyzeChecked (p : Propagator) (heap : DecisionHeap) (marks : VarMarks) (conflict : ClauseRef) :
    Fallible (Lesson × DecisionHeap × VarMarks) :=
  if p.trail.currentLevel = 0 then return ({ clause := [], backtrackTo := 0, involved := [] }, heap, marks)
  else do
    let c ← p.clauses.getChecked conflict
    require (c.lits.any fun l => p.trail.level l.var == p.trail.currentLevel) .assertion
    let a : Analysis := { marks := marks.marks, toClean := marks.toClean, heap := heap, involved := #[conflict] }
    let a ← Analysis.addLitsChecked p.trail a c.lits
    let (uip, a) ← Analysis.walkChecked p p.trail.lits.size a
    let clause := assertingFirst uip a.lower.toList
    let rest ← filterChecked (fun l => (!·) <$> isRedundantChecked p a.marks l) (clause.drop 1)
    let kept := clause.take 1 ++ rest
    require (∀ v ∈ a.toClean.toList, a.marks.Covers v.index) .outOfRange
    require (p.trail.KnowsAll kept) .outOfRange
    let (learned, backtrackTo) := withSecondWatch (fun l => p.trail.level l.var) kept
    return ({ clause := learned, backtrackTo := backtrackTo, involved := a.involved.toList }, a.heap, a.drain)

/-! ## The checks succeed -/

variable {p : Propagator} {n m i : Nat} {l x : Lit} {r : ClauseRef} {h₀ : DecisionHeap} {opens : List Var}

theorem Propagator.Linked.getReasonChecked (hp : p.Linked n) (hi : p.trail.At i l)
    (hr : p.trail.reason l.var = .clause r) : p.getReasonChecked l r = .ok (p.clauses.get r) := by
  obtain ⟨h1, h2, -⟩ := hp.clause_reason hi hr
  rw [Propagator.getReasonChecked, Database.getChecked_eq (Database.lt_of_isLive h1), ok_bind, require_bind h2]
  rfl

namespace Analysis

variable {a : Analysis} (hv : a.Valid p n h₀ m opens) (ha : a.heap.activities.size = n) (hp : p.Linked n)
include hv ha hp

theorem Valid.addLitChecked (hx : Addable p m x) :
    Analysis.addLitChecked p.trail a x = .ok (Analysis.addLit p.trail a x) ∧
    (Analysis.addLit p.trail a x).heap.activities.size = n := by
  have hlt := hp.trail.index_lt (Trail.isAssigned_of_isFalse (hx.isFalse hp))
  have hcovers : a.marks.Covers x.var.index := hv.covers hlt
  obtain ⟨h1, h2⟩ := DecisionHeap.Sized.bumpChecked ⟨hv.heap.valid, ha⟩ hlt
  rw [Analysis.addLitChecked, require_bind (hp.trail.knows hlt), require_bind hcovers, Analysis.addLit]
  split
  · rw [h1, ok_bind]
    dsimp only
    refine ⟨?_, ?_⟩
    · split <;> rfl
    · split <;> exact h2.activities_size
  · exact ⟨rfl, ha⟩

theorem Valid.addLitsChecked {ls : List Lit} (hx : ∀ x ∈ ls, Addable p m x) :
    Analysis.addLitsChecked p.trail a ls = .ok (Analysis.addLits p.trail a ls) ∧
      (Analysis.addLits p.trail a ls).heap.activities.size = n := by
  unfold Analysis.addLitsChecked Analysis.addLits
  induction ls generalizing a opens with
  | nil => exact ⟨rfl, ha⟩
  | cons x ls ih =>
    obtain ⟨opens', h1⟩ := hv.addLit hp (hx x List.mem_cons_self)
    obtain ⟨h2, h3⟩ := hv.addLitChecked ha hp (hx x List.mem_cons_self)
    rw [List.foldlM_cons, h2, ok_bind]
    exact ih h1.valid h3 fun y hy => hx y (List.mem_cons_of_mem x hy)

theorem Valid.resolveChecked (hi : p.trail.At m l) : Analysis.resolveChecked p a l = .ok (resolve p a l.var) ∧
    (resolve p a l.var).heap.activities.size = n := by
  have hlt := hp.trail.index_lt (Trail.isAssigned_of_isTrue (hp.trail.isTrue hi))
  unfold Analysis.resolveChecked resolve
  rw [require_bind (hp.trail.knows hlt)]
  cases hr : p.trail.reason l.var with
  | unit => exact ⟨rfl, ha⟩
  | clause r =>
    have hv' : { a with involved := a.involved.push r }.Valid p n h₀ m opens := { hv with }
    dsimp only
    rw [hp.getReasonChecked hi hr, ok_bind]
    exact hv'.addLitsChecked ha hp (hp.clause_reason hi hr).2.2

/-- The walk ends at an implication point. -/
theorem Valid.walkChecked (hm : m ≤ p.trail.lits.size) (hl : 0 < p.trail.currentLevel) (ho : opens ≠ []) :
    ∃ l a', Analysis.walkChecked p m a = .ok (l, a') ∧ walk p m a = (some l, a') ∧ a'.heap.activities.size = n := by
  induction m generalizing a opens with
  | zero =>
    obtain ⟨v, hvo⟩ := List.exists_mem_of_ne_nil opens ho
    obtain ⟨i, hlt, -⟩ := hv.opens_at hvo
    exact absurd hlt (Nat.not_lt_zero i)
  | succ m ih =>
    obtain ⟨l, hi⟩ : ∃ l, p.trail.At m l := Trail.exists_at hm
    have hlt := hp.trail.index_lt (Trail.isAssigned_of_isTrue (hp.trail.isTrue hi))
    have hcovers : a.marks.Covers l.var.index := hv.covers hlt
    have hm' : m ≤ p.trail.lits.size := Nat.le_of_lt hm
    rw [Analysis.walkChecked, walk, show p.trail.lits[m]? = some l from hi]
    dsimp only
    rw [require_bind hcovers]
    by_cases hmark : a.marks.has l.var.index
    · have hlo := hv.mem_opens hp hi hmark ho
      have hv' := hv.close hi hlo
      have hcount : 0 < a.openCount := hv.count ▸ List.length_pos_of_mem hlo
      rw [if_pos hmark, if_pos hmark, require_bind hcount]
      by_cases h0 : a.openCount - 1 = 0
      · rw [if_pos h0, if_pos h0]
        exact ⟨l, _, rfl, rfl, ha⟩
      · have hne : opens.erase l.var ≠ [] := fun he => h0 (hv'.count.trans (congrArg List.length he))
        obtain ⟨h1, h2⟩ := hv'.resolveChecked ha hp hi
        obtain ⟨opens', h3, h4, -⟩ := resolve_spec hv' hp hi (reason_ne_unit hv' hp hl hi (hv.opens_level hlo) hne)
        rw [if_neg h0, if_neg h0, h1, ok_bind]
        exact ih h3 h2 hm' (h4 hne)
    · rw [if_neg hmark, if_neg hmark]
      exact ih (hv.skip fun k hk => hk.eq hi ▸ hmark) ha hm' ho

end Analysis

theorem isRedundantChecked_eq {a : Analysis} (hv : a.Valid p n h₀ 0 []) (hp : p.Linked n) (hl : l ∈ a.lower.toList) :
    isRedundantChecked p a.marks l = .ok (isRedundant p a.marks l) := by
  have hf := hv.lower_false hl
  have hlt := hp.trail.index_lt (Trail.isAssigned_of_isFalse hf)
  unfold isRedundantChecked isRedundant
  rw [require_bind (hp.trail.knows hlt)]
  cases hr : p.trail.reason l.var with
  | unit => rfl
  | clause r =>
    obtain ⟨i, hi⟩ := hp.trail.at_of_level_pos (Trail.isFalse_iff_neg.1 hf)
      ((Lit.var_neg l).symm ▸ (hv.lower_level hl).1)
    rw [← Lit.var_neg l] at hr
    obtain ⟨h1, -, -⟩ := hp.clause_reason hi hr
    have hknown : ∀ x ∈ (p.clauses.get r).lits.drop 1, a.marks.Covers x.var.index ∧ p.trail.Knows x.var := by
      intro x hx
      have hx' := (hp.fits h1).index_lt (List.mem_of_mem_drop hx)
      exact ⟨hv.covers hx', hp.trail.knows hx'⟩
    dsimp only
    rw [hp.getReasonChecked hi hr, ok_bind, require_bind hknown]
    rfl

/-- No check of an analysis fails. -/
theorem analyzeChecked_eq {heap : DecisionHeap} {marks : VarMarks} (hp : p.Linked n) (hh : heap.Sized n)
    (hm : marks.Clear n) (hc : p.Conflict r) : analyzeChecked p heap marks r = .ok (analyze p heap marks r) ∧
      (analyze p heap marks r).2.1.Sized n := by
  unfold analyzeChecked
  by_cases h0 : p.trail.currentLevel = 0
  · rw [if_pos h0, analyze_level_zero h0]
    exact ⟨rfl, hh⟩
  · have hl := Nat.pos_of_ne_zero h0
    have hcurrent : (p.clauses.get r).lits.any fun l => p.trail.level l.var == p.trail.currentLevel := by
      obtain ⟨x, hx, hxl⟩ := hc.current
      exact List.any_eq_true.2 ⟨x, hx, beq_iff_eq.2 hxl⟩
    obtain ⟨hadd, hsize⟩ :=
      (Analysis.valid_start hh.toValid hm.marks _ r).addLitsChecked hh.activities_size hp (hc.addable hp)
    obtain ⟨opens, ho, hv, hcur⟩ := addLits_conflict hp hh.toValid hm.marks hc hl
    obtain ⟨u, a', hw, hu, -, hv', -⟩ := Analysis.walk_spec hv hp hl ho hcur
    obtain ⟨u', a'', hwc, hw', hsize'⟩ := hv.walkChecked hsize hp (Nat.le_refl _) hl ho
    rw [hw] at hw'
    obtain ⟨heq, rfl⟩ := Prod.mk.inj hw'
    obtain rfl := Option.some.inj heq
    obtain ⟨rest, he, hperm⟩ := assertingFirst_perm u a'.lower.toList
    have hknown {l : Lit} (hl : l ∈ a'.lower.toList) : l.var.index < n :=
      hp.trail.index_lt (Trail.isAssigned_of_isFalse (hv'.lower_false hl))
    have hfilter : filterChecked (fun l => (!·) <$> isRedundantChecked p a'.marks l) rest =
        .ok (rest.filter fun l => !isRedundant p a'.marks l) := by
      refine filterChecked_eq fun l hl => ?_
      rw [isRedundantChecked_eq hv' hp (hperm.mem_iff.1 hl)]
      rfl
    have hclean : ∀ v ∈ a'.toClean.toList, a'.marks.Covers v.index := by
      intro v hm
      rw [hv'.clean] at hm
      obtain ⟨l, hl, rfl⟩ := List.mem_map.1 hm
      exact hv'.covers (hknown hl)
    have hkept : p.trail.KnowsAll (-u :: rest.filter fun l => !isRedundant p a'.marks l) := by
      intro l hl
      rcases List.mem_cons.1 hl with rfl | hl
      · rw [Lit.var_neg]
        exact hp.trail.knows (hp.trail.index_lt (Trail.isAssigned_of_isTrue hu))
      · exact hp.trail.knows (hknown (hperm.mem_iff.1 (List.mem_filter.1 hl).1))
    rw [if_neg h0, hm.toClean_eq, Database.getChecked_eq (Database.lt_of_isLive hc.isLive), ok_bind,
      require_bind hcurrent]
    dsimp only
    rw [hadd, ok_bind, hwc, ok_bind, analyze, if_neg h0, hm.toClean_eq]
    dsimp only
    rw [hw]
    dsimp only
    rw [he]
    change ((filterChecked _ rest >>= _) = _) ∧ _
    rw [hfilter, ok_bind, require_bind hclean]
    refine ⟨require_bind hkept _, ⟨hv'.heap.valid, hsize'⟩⟩

end ClauseLearning
