import ClauseLearning.Proofs.CheckedConflict
import ClauseLearning.Proofs.CheckedDatabase
import ClauseLearning.Proofs.StockRuns

/-!
# The state within its bounds

The operations that all parts of a solver share, with their checks: storing a clause, backtracking, propagating,
applying facts, reclaiming storage.

* `Config.Valid` : a configuration whose values were checked;
* `Solver.Swept` : nothing is marked in the scratch space, and nothing is left to be unmarked;
* `Solver.inspect`, `Solver.inspecting` : a look at the scratch space, before and after it is used;
* `Propagator.storeChecked` : a stored clause has at least two literals, and there is room for it;
* `Propagator.applyFactsChecked` : facts are applied on level 0 and after propagation, and leave two literals of a
  clause at least;
* `Solver.collectGarbageChecked` : storage is compacted when nothing is on the trail;
* `Counting.check` : a sum that overflows is more than some builds allow;
* `Solver.Bounded` : what is within bounds between two operations, apart from the invariant.
-/

namespace ClauseLearning

/-! ## What is within bounds -/

theorem Lit.length_le {ls : List Lit} {n : Nat} (hv : (ls.map Lit.var).Nodup) (hl : ∀ l ∈ ls, l.var.index < n) :
    ls.length ≤ n := by
  have hsub : ls.map Lit.var ⊆ (List.range n).map Var.mk := by
    intro v hv
    obtain ⟨l, hl', rfl⟩ := List.mem_map.1 hv
    exact List.mem_map.2 ⟨l.var.index, List.mem_range.2 (hl l hl'), rfl⟩
  have := hv.length_le_of_subset hsub
  simpa using this

namespace Trail.Consistent

variable {t : Trail} {n : Nat}

theorem knows_of_at {i : Nat} {l : Lit} (h : t.Consistent n) (hi : t.At i l) : t.Knows l.var :=
  h.knows (h.index_lt (isAssigned_of_isTrue (h.isTrue hi)))

theorem knowsAll_drop (h : t.Consistent n) (s : Nat) : t.KnowsAll (t.lits.toList.drop s) := by
  intro l hl
  obtain ⟨i, -, hi⟩ := mem_drop_lits.1 hl
  exact h.knows_of_at hi

end Trail.Consistent

namespace Config

/-- A decay factor that passed the check of updates, or is the default one. -/
def DecayValid (default decay : Float32) : Prop :=
  decay.toBits = default.toBits ∨ ConfigUpdate.decayInRange decay

instance (default decay : Float32) : Decidable (DecayValid default decay) :=
  inferInstanceAs (Decidable (_ = _ ∨ _))

/-- All values passed the checks of updates. -/
structure Valid (c : Config) : Prop where
  vsidsDecay : DecayValid ({} : Config).vsidsDecay c.vsidsDecay
  clauseActivityDecay : DecayValid ({} : Config).clauseActivityDecay c.clauseActivityDecay
  reduceLocalsInterval : c.reduceLocalsInterval ≠ 0
  reduceMidsInterval : c.reduceMidsInterval ≠ 0

theorem valid_default : ({} : Config).Valid := ⟨Or.inl rfl, Or.inl rfl, by decide, by decide⟩

end Config

instance (m : Marks) (n : Nat) : Decidable (m.Clear n) := decidable_of_iff _ Marks.clear_iff.symm

instance (m : VarMarks) (n : Nat) : Decidable (m.Clear n) :=
  decidable_of_iff (m.marks.Clear n ∧ m.toClean = #[]) ⟨fun h => ⟨h.1, h.2⟩, fun h => ⟨h.1, h.2⟩⟩

/-- Nothing is marked, in all the room that there is for marks, and nothing is left to be unmarked. -/
structure Solver.Swept (s : Solver) : Prop where
  litMarks : s.litMarks.Clear (2 * s.varCount + 1)
  varMarks : s.varMarks.Clear s.varCount

instance (s : Solver) : Decidable s.Swept :=
  decidable_of_iff (s.litMarks.Clear (2 * s.varCount + 1) ∧ s.varMarks.Clear s.varCount)
    ⟨fun h => ⟨h.1, h.2⟩, fun h => ⟨h.1, h.2⟩⟩

theorem Solver.Inv.swept {s : Solver} (h : s.Inv) : s.Swept := ⟨h.litMarks, h.varMarks⟩

/-! ## Operations that check what they rely on -/

variable [Build]

/-- Stops where a sum is greater than what is kept. -/
def Counting.check (counting : Counting) (sum : Nat) : Fallible Unit :=
  require (counting.overflows sum = false) (.overflow sum)

namespace Trail

/-- Whether backtracking finds the start of a level and what is above it. -/
def backtrackChecked (t : Trail) (level : Nat) : Fallible (Trail × List Lit) :=
  if t.currentLevel ≤ level then return (t, [])
  else
    match t.starts[level]? with
    | none => .error .outOfRange
    | some start => do
      require (start ≤ t.lits.size) .outOfRange
      require (t.KnowsAll (t.lits.toList.drop start)) .outOfRange
      return t.backtrack level

def settleChecked (t : Trail) : Fallible Trail := do
  require (t.KnowsAll t.lits.toList) .outOfRange
  require t.starts.isEmpty .assertion
  return t.settle

def remainderChecked (t : Trail) (c : Clause) : Fallible (Option Clause) := do
  require (t.KnowsAll c.lits) .outOfRange
  require (c.lits.any t.isTrue ∨ 2 ≤ (c.lits.filter fun l => !t.isAssigned l.var).length) .assertion
  return t.remainder c

end Trail

namespace Propagator

/-- Stores a clause and watches it. -/
def storeChecked (p : Propagator) (ls : List Lit) (tier : Tier) (glue : Nat) : Fallible (ClauseRef × Propagator) :=
  match ls with
  | a :: b :: rest => do
    require (p.clauses.words < UInt32.size) (.storageFull p.clauses.words)
    require (ls.length ≤ Var.maxCount) .assertion
    require (p.watches.enabled → p.watches.Knows (-a) ∧ p.watches.Knows (-b)) .outOfRange
    return p.addClause { first := a, second := b, others := rest, tier := tier, glue := glue }
  | _ => .error .assertion

def applyFactsChecked (p : Propagator) : Fallible Propagator := do
  require (p.trail.currentLevel = 0) .assertion
  require (p.trail.head = p.trail.lits.size) .assertion
  let trail ← p.trail.settleChecked
  let clauses ← p.clauses.sweepChecked p.trail.remainderChecked
  return { trail := trail, clauses := clauses, watches := p.watches.disable }

end Propagator

namespace Solver

/-- Stops unless the scratch space is clear. -/
def inspect (s : Solver) : Fallible Unit := require s.Swept .unclear

/-- Runs a program that uses the scratch space, with a look at it before and after. -/
def inspecting {α : Type} (s : Solver) (m : Fallible α) (after : α → Solver) : Fallible α := do
  s.inspect
  let a ← m
  (after a).inspect
  return a

def assignChecked (s : Solver) (l : Lit) (r : Reason) : Fallible Solver := do
  let prop ← s.prop.assignChecked l r
  return { s with prop := prop }

def backtrackChecked (s : Solver) (level : Nat) : Fallible Solver := do
  let (trail, undone) ← s.prop.trail.backtrackChecked level
  let heap ← undone.foldlM (fun h l => h.makeAvailableChecked l.var) s.heap
  return { s with prop := { s.prop with trail := trail }, heap := heap }

def rewindChecked (s : Solver) : Fallible Solver :=
  let status : Status := if s.status = .sat then .unknown else s.status
  { s with interrupted := false, status := status }.backtrackChecked 0

def propagateChecked (s : Solver) : Fallible (Option ClauseRef × Solver) := do
  let (conflict, prop) ← s.prop.propagateChecked
  return (conflict, { s with prop := prop })

/-- Compacts the clause storage if that is worth it. No reason refers to a clause, as nothing is on the trail. -/
def collectGarbageChecked (s : Solver) : Fallible Solver := do
  require (s.currentLevel = 0 ∧ s.prop.trail.lits.isEmpty) .assertion
  match ← s.prop.clauses.collect?Checked with
  | none => return s
  | some (event, clauses) =>
    return { s with prop := { s.prop with clauses := clauses, watches := s.prop.watches.disable } }.report event

def tidyChecked (s : Solver) : Fallible Solver := do
  if s.prop.trail.lits.isEmpty then s.collectGarbageChecked
  else
    let prop ← s.prop.applyFactsChecked
    { s with prop := prop }.collectGarbageChecked

end Solver

/-! ## The checks succeed -/

namespace Trail.Consistent

variable {t : Trail} {n : Nat}

theorem backtrackChecked (h : t.Consistent n) (m : Nat) : t.backtrackChecked m = .ok (t.backtrack m) := by
  unfold Trail.backtrackChecked
  split
  · next hle =>
    rw [backtrack_of_le hle]
    rfl
  · next hle =>
    obtain ⟨s, hs⟩ := exists_start (Nat.lt_of_not_le hle)
    rw [hs]
    dsimp only
    rw [require_bind (Nat.le_of_lt (h.starts_lt hs)), require_bind (h.knowsAll_drop s)]
    rfl

theorem settleChecked (h : t.Consistent n) (h0 : t.currentLevel = 0) : t.settleChecked = .ok t.settle := by
  have hlits : t.KnowsAll t.lits.toList := h.knowsAll_drop 0
  have hstarts : t.starts.isEmpty := Array.isEmpty_iff_size_eq_zero.2 h0
  rw [Trail.settleChecked, require_bind hlits, require_bind hstarts]
  rfl

end Trail.Consistent

namespace Propagator

variable {p : Propagator} {n : Nat} {a b : Lit} {r : ClauseRef} {rest : List Lit}

theorem storeChecked_yields (hn : Build.checks .assertion → n ≤ Var.maxCount)
    (hs : p.watches.lists.size = 2 * n)
    (hv : ((a :: b :: rest).map Lit.var).Nodup) (hl : ∀ l ∈ a :: b :: rest, l.var.index < n) (t : Tier) (glue : Nat)
    {P : ClauseRef × Propagator → Prop}
    (hp : P (p.addClause { first := a, second := b, others := rest, tier := t, glue := glue })) :
    Yields (p.storeChecked (a :: b :: rest) t glue)
      (p.addClause { first := a, second := b, others := rest, tier := t, glue := glue }) P := by
  have hlength := fun hc => Nat.le_trans (Lit.length_le hv hl) (hn hc)
  have hknows : p.watches.enabled → p.watches.Knows (-a) ∧ p.watches.Knows (-b) := fun _ =>
    ⟨Watches.knows_neg hs (hl a List.mem_cons_self),
      Watches.knows_neg hs (hl b (List.mem_cons_of_mem a List.mem_cons_self))⟩
  dsimp only [storeChecked]
  refine (Yields.require (P := fun _ => True) Nat.le_of_not_lt fun _ => trivial).bind fun _ => ?_
  rw [require_bind_of_checks hlength, require_bind hknows]
  exact .answers rfl hp

theorem Inv.remainderChecked (h : p.Inv n) (he : p.watches.enabled = true) (hc : p.Complete)
    (hr : p.clauses.isLive r) :
    p.trail.remainderChecked (p.clauses.get r) = .ok (p.trail.remainder (p.clauses.get r)) := by
  have hleft : (p.clauses.get r).lits.any p.trail.isTrue ∨
      2 ≤ ((p.clauses.get r).lits.filter fun l => !p.trail.isAssigned l.var).length := by
    cases hs : p.trail.remainder (p.clauses.get r) with
    | none =>
      obtain ⟨l, hl, ht⟩ := remainder_none hs
      exact Or.inl (List.any_eq_true.2 ⟨l, hl, ht⟩)
    | some c =>
      rw [← (remainder_some h he hc hr hs).1]
      exact Or.inr (Nat.le_add_left 2 c.others.length)
  rw [Trail.remainderChecked, require_bind ((h.fits hr).knowsAll h.trail), require_bind hleft]
  rfl

theorem Inv.applyFactsChecked (h : p.Inv n) (he : p.watches.enabled = true) (hc : p.Complete)
    (h0 : p.trail.currentLevel = 0) (hk : p.clauses.Kept) : p.applyFactsChecked = .ok p.applyFacts := by
  have hsweep : p.clauses.sweepChecked p.trail.remainderChecked = .ok (p.clauses.sweep p.trail.remainder) :=
    hk.sweepChecked (fun _ _ hk => (remainder_shortened hk).trimmed) fun _ hr => h.remainderChecked he hc hr
  have hhead : p.trail.head = p.trail.lits.size := hc
  rw [Propagator.applyFactsChecked, require_bind h0, require_bind hhead, h.trail.settleChecked h0, ok_bind, hsweep]
  rfl

end Propagator

namespace Solver

/-- What the bounds of a state are about. -/
def extent (s : Solver) : Nat × Config × Array (Option Bool) × Bool × Database × Array (Array Watch) × Nat :=
  (s.varCount, s.config, s.model, s.overflowed, s.prop.clauses, s.prop.watches.lists, s.heap.activities.size)

/-- The accounts are right, and blocking literals and activities are within bounds. If the build looks for it, neither
the variables nor the last model's are more than are supported, and no sum has overflowed. -/
structure Bounded (s : Solver) : Prop where
  kept : s.prop.clauses.Kept
  within : s.prop.watches.Within s.varCount
  activities_size : s.heap.activities.size = s.varCount
  varCount_le : Build.checks .assertion → s.varCount ≤ Var.maxCount
  config : s.config.Valid
  model_size_le : Build.checks .assertion → s.model.size ≤ Var.maxCount
  overflowed_eq : (∀ n, Build.checks (.overflow n)) → s.overflowed = false

variable {s s' : Solver} {l : Lit} {ls : List Lit} {r : ClauseRef}

theorem Sound.sized (h : s.Sound) (hb : s.Bounded) : s.heap.Sized s.varCount :=
  ⟨h.candidates.valid, hb.activities_size⟩

namespace Bounded

theorem change (hb : s.Bounded) (hv : s'.varCount = s.varCount) (hf : s'.config = s.config)
    (hm : s'.model = s.model) (ho : s'.overflowed = s.overflowed) (hc : s.prop.clauses.Changes s'.prop.clauses)
    (hw : s'.prop.watches.Within s.varCount) (ha : s'.heap.activities.size = s.varCount) : s'.Bounded where
  kept := hc.kept hb.kept
  within := hv.symm ▸ hw
  activities_size := ha.trans hv.symm
  varCount_le := hv.symm ▸ hb.varCount_le
  config := hf.symm ▸ hb.config
  model_size_le := hm.symm ▸ hb.model_size_le
  overflowed_eq h := ho.trans (hb.overflowed_eq h)

theorem of_extent (hb : s.Bounded) (he : s'.extent = s.extent) : s'.Bounded := by
  simp only [extent, Prod.mk.injEq] at he
  obtain ⟨hcount, hconfig, hmodel, hover, hclauses, hlists, hactivities⟩ := he
  exact hb.change hcount hconfig hmodel hover (hclauses ▸ .refl _) (hb.within.of_lists hlists)
    (hactivities.trans hb.activities_size)

theorem withClauses (hb : s.Bounded) {d : Database} (hd : s.prop.clauses.Changes d) : (s.withClauses d).Bounded :=
  hb.change rfl rfl rfl rfl hd hb.within hb.activities_size

theorem addClause (hb : s.Bounded) {c : Clause} (hd : c.deleted = false) (hm : c.marked = false)
    (hl : ∀ l ∈ c.lits, l.var.index < s.varCount) : { s with prop := (s.prop.addClause c).2 }.Bounded :=
  hb.change rfl rfl rfl rfl (.single (.add hd hm)) (hb.within.watch (hl _ c.first_mem) (hl _ c.second_mem))
    hb.activities_size

end Bounded

theorem inspecting_yields {α : Type} {m : Fallible α} {a : α} {P : α → Prop} {after : α → Solver} (hs : s.Swept)
    (hm : Yields m a P) (ha : (after a).Swept) : Yields (s.inspecting m after) a P := by
  rw [inspecting, inspect, require_bind hs]
  refine hm.bind fun hp => ?_
  rw [inspect, require_bind ha]
  exact .answers rfl hp

theorem inspecting_eq {α : Type} {m : Fallible α} {a : α} {after : α → Solver} (hs : s.Swept) (hm : m = .ok a)
    (ha : (after a).Swept) : s.inspecting m after = .ok a := by
  rw [inspecting, inspect, require_bind hs, hm, ok_bind, inspect, require_bind ha]
  rfl

theorem check_yields (counting : Counting) (sum : Nat) : Yields (counting.check sum) () fun _ =>
    counting.overflows sum = false ∨ Build.checks (.overflow sum) = false := by
  refine Yields.require (fun h => ?_) id
  cases counting with
  | words => simpa [Counting.overflows, Fault.Excess] using h
  | unbounded => exact absurd rfl h

theorem Bounded.noteSum (hb : s.Bounded) {counting : Counting} {sum : Nat}
    (h : counting.overflows sum = false ∨ Build.checks (.overflow sum) = false) :
    (s.noteSum counting sum).Bounded where
  kept := hb.kept
  within := hb.within
  activities_size := hb.activities_size
  varCount_le := hb.varCount_le
  config := hb.config
  model_size_le := hb.model_size_le
  overflowed_eq hall := by
    have hsum := h.resolve_right (by simp [hall sum])
    simp [Solver.noteSum, hsum, hb.overflowed_eq hall]

theorem Bounded.assignChecked (hb : s.Bounded) (hk : s.prop.trail.Knows l.var) (hu : ¬ s.prop.trail.isAssigned l.var)
    (t : Reason) : s.assignChecked l t = .ok (s.assign l t) ∧ (s.assign l t).Bounded := by
  rw [Solver.assignChecked, Propagator.assignChecked_eq hk hu]
  exact ⟨rfl, hb.of_extent rfl⟩

theorem Inv.backtrackChecked (h : s.Inv) (hb : s.Bounded) (level : Nat) :
    s.backtrackChecked level = .ok (s.backtrack level) ∧ (s.backtrack level).Bounded := by
  have hundone : ∀ l ∈ (s.prop.trail.backtrack level).2, l.var.index < s.varCount := by
    intro l hl
    obtain ⟨i, hi, -⟩ := h.prop.trail.mem_undone.1 hl
    exact h.prop.trail.index_lt (Trail.isAssigned_of_isTrue (h.prop.trail.isTrue hi))
  obtain ⟨hheap, hsized⟩ := (h.sized hb).foldlM_makeAvailableChecked _ hundone
  refine ⟨?_, hb.change rfl rfl rfl rfl (.refl _) hb.within hsized.activities_size⟩
  rw [Solver.backtrackChecked, h.prop.trail.backtrackChecked, ok_bind]
  change (List.foldlM _ _ (s.prop.trail.backtrack level).2 >>= _) = _
  rw [hheap]
  rfl

theorem Inv.rewindChecked (h : s.Inv) (hb : s.Bounded) : s.rewindChecked = .ok s.rewind ∧ s.rewind.Bounded := by
  have hi : Solver.Inv { s with interrupted := false, status := if s.status = .sat then .unknown else s.status } :=
    h.of_core rfl
  exact hi.backtrackChecked (hb.of_extent rfl) 0

theorem Inv.propagateChecked (h : s.Inv) (hb : s.Bounded) :
    s.propagateChecked = .ok s.propagate ∧ s.propagate.2.Bounded := by
  obtain ⟨hp, hw⟩ := h.prop.propagate hb.within
  refine ⟨?_, hb.change rfl rfl rfl rfl s.propagate_steps.changes hw hb.activities_size⟩
  rw [Solver.propagateChecked, hp]
  rfl

theorem Inv.collectGarbageChecked (h0 : s.prop.trail.currentLevel = 0) (hl : s.prop.trail.lits = #[])
    (hb : s.Bounded) : s.collectGarbageChecked = .ok s.collectGarbage ∧ s.collectGarbage.Bounded := by
  have hempty : s.currentLevel = 0 ∧ s.prop.trail.lits.isEmpty := ⟨h0, Array.isEmpty_iff.2 hl⟩
  rw [Solver.collectGarbageChecked, require_bind hempty, hb.kept.collect?Checked, ok_bind]
  have hc := s.collectGarbage_steps.changes
  unfold collectGarbage at hc ⊢
  cases hd : s.prop.clauses.collect? with
  | none => exact ⟨rfl, hb⟩
  | some found =>
    rw [hd] at hc
    exact ⟨rfl, hb.change rfl rfl rfl rfl hc (hb.within.of_lists rfl) hb.activities_size⟩

theorem Inv.tidyChecked (h : s.Inv) (hb : s.Bounded) (he : s.prop.watches.enabled = true) (hc : s.prop.Complete)
    (h0 : s.prop.trail.currentLevel = 0) : s.tidyChecked = .ok s.tidy ∧ s.tidy.Bounded := by
  unfold Solver.tidyChecked tidy
  split
  · next hl => exact Inv.collectGarbageChecked h0 (Array.isEmpty_iff.1 hl) hb
  · rw [h.prop.applyFactsChecked he hc h0 hb.kept, ok_bind]
    exact Inv.collectGarbageChecked (Trail.currentLevel_settle.trans h0) rfl
      (hb.change rfl rfl rfl rfl (s.prop.applyFacts_steps s.clauseScale).changes (hb.within.of_lists rfl)
        hb.activities_size)

end Solver

end ClauseLearning
