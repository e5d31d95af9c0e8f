import ClauseLearning.Proofs.CheckedState

/-!
# The search within its bounds

* `Solver.learnChecked` : learning with its checks. Clauses that take part in a conflict are stored, and the levels of
  their literals are among those that can be marked;
* `Solver.findConflictChecked`, `Solver.stepChecked`, `Solver.searchChecked` : the search with its checks;
* `Solver.Inv.searchChecked` : no check of a search fails, unless there is no room for another learned clause.
-/

namespace ClauseLearning.Solver

/-! ## Clauses that took part in a conflict -/

/-- What bumping a clause does besides its activity. -/
def regrade (s : Solver) (r : ClauseRef) : Solver :=
  let c := s.prop.clauses.get r
  if c.learned then
    let (glue, s) := s.glue c.lits
    let clauses := s.prop.clauses.modify r ({ · with active := true })
    if glue < c.glue then
      s.withClauses ((clauses.modify r ({ · with glue := Clause.storedGlue glue })).setTier r (Tier.ofGlue glue))
    else s.withClauses clauses
  else s

theorem extent_glue (s : Solver) (ls : List Lit) : (s.glue ls).2.extent = s.extent := rfl

theorem regrade_frame (s : Solver) (r : ClauseRef) : (s.regrade r).heap = s.heap ∧
    (s.regrade r).model = s.model ∧ (s.regrade r).overflowed = s.overflowed := by
  have hite (c : Prop) [Decidable c] (t : Solver) (d e : Database) :
      (if c then t.withClauses d else t.withClauses e).heap = t.heap ∧
        (if c then t.withClauses d else t.withClauses e).model = t.model ∧
          (if c then t.withClauses d else t.withClauses e).overflowed = t.overflowed := by
    split <;> exact ⟨rfl, rfl, rfl⟩
  dsimp only [regrade]
  split
  · exact hite _ _ _ _
  · exact ⟨rfl, rfl, rfl⟩

/-! ## A search that checks what it relies on -/

variable [Build]

def glueChecked (s : Solver) (ls : List Lit) : Fallible (Nat × Solver) := do
  require (s.prop.trail.KnowsAll ls) .outOfRange
  require (∀ l ∈ ls, s.litMarks.Covers (s.prop.trail.level l.var)) .outOfRange
  s.inspecting (return s.glue ls) Prod.snd

def regradeChecked (s : Solver) (r : ClauseRef) : Fallible Solver := do
  let c ← s.prop.clauses.getChecked r
  if c.learned then
    let (glue, s) ← s.glueChecked c.lits
    let clauses := s.prop.clauses.modify r ({ · with active := true })
    if glue < c.glue then
      let clauses ← (clauses.modify r ({ · with glue := Clause.storedGlue glue })).setTierChecked r (Tier.ofGlue glue)
      return s.withClauses clauses
    else return s.withClauses clauses
  else return s

def bumpClauseChecked (s : Solver) (r : ClauseRef) : Fallible Solver := do
  let (clauses, scale) ← s.prop.clauses.bumpActivityChecked s.clauseScale r
  regradeChecked { s.withClauses clauses with clauseScale := scale } r

def decayChecked (s : Solver) : Fallible Solver := do
  let (clauses, scale) ← s.prop.clauses.decayActivitiesChecked s.clauseScale
  return { s.withClauses clauses with clauseScale := scale, heap := s.heap.decay }

def assertLearnedChecked (s : Solver) : List Lit → Fallible Solver
  | [] => return s.markUnsat
  | [l] => s.assignChecked l .unit
  | a :: b :: rest => do
    let (glue, s) ← s.glueChecked (a :: b :: rest)
    let glue := glue - 1
    let (r, prop) ← s.prop.storeChecked (a :: b :: rest) (Tier.ofGlue glue) (Clause.storedGlue glue)
    { s with prop := prop }.assignChecked a (.clause r)

def learnChecked (s : Solver) (conflict : ClauseRef) : Fallible Solver := do
  let (lesson, heap, marks) ← s.inspecting (analyzeChecked s.prop s.heap s.varMarks conflict)
    fun (_, heap, marks) => { s with heap := heap, varMarks := marks }
  let s := { s with heap := heap, varMarks := marks }
  let s := s.report (.learned s.currentLevel lesson.clause lesson.backtrackTo)
  let s ← lesson.involved.foldlM bumpClauseChecked s
  let s ← s.decayChecked
  let s ← s.backtrackChecked lesson.backtrackTo
  s.assertLearnedChecked lesson.clause

/-- Assigns a variable on a new level. -/
def decideChecked (s : Solver) (v : Var) : Fallible Solver := do
  require (v.index < s.varCount ∧ s.prop.trail.Knows v) .outOfRange
  let s := { s with prop := { s.prop with trail := s.prop.trail.openLevel } }
  s.assignChecked (v.lit (s.preferredValue v)) .unit

def makeDecisionChecked (s : Solver) : Fallible (Bool × Solver) := do
  let trail := s.prop.trail
  let (candidate, heap) ← s.heap.find?Checked fun v => do
    require (trail.Knows v) .outOfRange
    return !trail.isAssigned v
  let s := { s with heap := heap }
  match candidate with
  | none => return (false, s)
  | some v =>
    let s ← s.decideChecked v
    return (true, s)

def tidyOnLevelZeroChecked (s : Solver) : Fallible Solver := do
  if s.currentLevel = 0 then
    let s ← s.tidyChecked
    let prop ← s.prop.enableWatchesChecked
    return { s with prop := prop }
  else return s

def findConflictFuelChecked : Nat → Solver → Fallible (Outcome × Solver)
  | 0, s => return (.interrupted, s)
  | fuel + 1, s => do
    match ← s.propagateChecked with
    | (some r, s) => return (.conflict r, s)
    | (none, s) =>
      let s ← s.tidyOnLevelZeroChecked
      if s.schedule.decisionLimitReached then return (.interrupted, s)
      else
        match ← s.makeDecisionChecked with
        | (false, s) => return (.model, s)
        | (true, s) => findConflictFuelChecked fuel { s with schedule := s.schedule.countDecision }

def findConflictChecked (s : Solver) : Fallible (Outcome × Solver) := findConflictFuelChecked (s.varCount + 1) s

def conflictStepChecked (s : Solver) : Fallible Solver := do
  match ← s.findConflictChecked with
  | (.model, s) => return { s with status := .sat }
  | (.interrupted, s) => return { s with interrupted := true }
  | (.conflict r, s) => learnChecked { s with schedule := s.schedule.countConflict } r

def planRestartChecked (s : Solver) : Fallible Solver := do
  s.schedule.counting.check (s.schedule.restartSum s.config.lubyRestartIntervalScale)
  return s.planRestart

def restartIfDueChecked (s : Solver) : Fallible Solver := do
  if s.schedule.restartDue then
    let s ← s.planRestartChecked
    let s :=
      if 0 < s.schedule.conflicts then s.report (.restarted s.schedule.restarts s.schedule.conflicts) else s
    s.backtrackChecked 0
  else return s

/-- Whether a reduction is due. The number of conflicts is divided by the interval. -/
def reductionDueChecked (s : Solver) (interval : UInt64) : Fallible Bool := do
  require (0 < s.schedule.conflicts → interval ≠ 0) .division
  return s.schedule.reductionDue interval

def reduceLocalsIfDueChecked (s : Solver) : Fallible Solver := do
  if ← s.reductionDueChecked s.config.reduceLocalsInterval then
    let (event, prop) ← s.prop.reduceLocalsChecked s.ties
    return { s with prop := prop }.report event
  else return s

def reduceIfDueChecked (s : Solver) : Fallible Solver := do
  let s ← s.reduceLocalsIfDueChecked
  if ← s.reductionDueChecked s.config.reduceMidsInterval then
    let (event, prop) ← s.prop.reduceMidsChecked
    return { s with prop := prop }.report event
  else return s

def stepChecked (s : Solver) : Fallible (Bool × Solver) := do
  if s.status ≠ .unknown ∨ s.interrupted then return (false, s)
  else if s.schedule.conflictLimitReached then
    return (false, { s.report .conflictLimitReached with interrupted := true })
  else
    let s ← s.restartIfDueChecked
    let s ← s.reduceIfDueChecked
    let s ← s.conflictStepChecked
    return (true, s)

def searchFuelChecked : Nat → Solver → Fallible Solver
  | 0, s => return s
  | fuel + 1, s => do
    match ← s.stepChecked with
    | (true, s) => searchFuelChecked fuel s
    | (false, s) => return s

def searchChecked (s : Solver) : Fallible Solver := searchFuelChecked s.stepBound s

/-! ## Learning -/

variable {s s' : Solver} {p : Propagator} {r : ClauseRef} {l : Lit} {ls rest : List Lit}

theorem Inv.glueChecked (h : s.Inv) (hl : ∀ l ∈ ls, l.var.index < s.varCount)
    (hlevel : ∀ l ∈ ls, s.prop.trail.level l.var ≤ s.varCount) : s.glueChecked ls = .ok (s.glue ls) := by
  have hknows : s.prop.trail.KnowsAll ls := fun l hm => h.prop.trail.knows (hl l hm)
  have hcovers : ∀ l ∈ ls, s.litMarks.Covers (s.prop.trail.level l.var) := by
    intro l hm
    have := hlevel l hm
    show _ < s.litMarks.bits.size
    rw [h.litMarks.size_eq]
    omega
  rw [Solver.glueChecked, require_bind hknows, require_bind hcovers]
  exact inspecting_eq h.swept rfl (glue_bumped h ls).searched.inv.swept

theorem Inv.regradeChecked (h : s.Inv) (hb : s.Bounded) (hr : s.prop.clauses.isLive r)
    (ha : ∀ l ∈ (s.prop.clauses.get r).lits, s.prop.trail.isAssigned l.var) :
    s.regradeChecked r = .ok (s.regrade r) := by
  have hglue := h.glueChecked (fun l hl => h.prop.trail.index_lt (ha l hl))
    fun l hl => h.prop.trail.level_le_of_isAssigned (ha l hl)
  rw [Solver.regradeChecked, Database.getChecked_eq (Database.lt_of_isLive hr), ok_bind, regrade]
  dsimp only
  by_cases hl : (s.prop.clauses.get r).learned
  · have hprop := prop_glue s (s.prop.clauses.get r).lits
    rw [if_pos hl, if_pos hl, hglue, ok_bind]
    generalize s.glue (s.prop.clauses.get r).lits = out at hprop ⊢
    obtain ⟨glue, s₁⟩ := out
    dsimp only at hprop ⊢
    by_cases hg : glue < (s.prop.clauses.get r).glue
    · have hpruned : Database.Pruned (fun _ => True) s.prop.clauses
          ((s.prop.clauses.modify r ({ · with active := true })).modify r
            ({ · with glue := Clause.storedGlue glue })) :=
        .trans (.modify _ r ⟨rfl, rfl, rfl⟩) (.modify _ r ⟨rfl, rfl, rfl⟩)
      have hbalanced :
          ((s.prop.clauses.modify r ({ · with active := true })).modify r
            ({ · with glue := Clause.storedGlue glue })).Balanced :=
        (hb.kept.toBalanced.modify ⟨rfl, rfl, rfl⟩).modify ⟨rfl, rfl, rfl⟩
      rw [if_pos hg, if_pos hg, hprop, hbalanced.setTierChecked (hpruned.kept hr (Or.inr trivial))]
      rfl
    · rw [if_neg hg, if_neg hg]
      rfl
  · rw [if_neg hl, if_neg hl]
    rfl

theorem Inv.bumpClauseChecked (h : s.Inv) (hb : s.Bounded) (hr : s.prop.clauses.isLive r)
    (ha : ∀ l ∈ (s.prop.clauses.get r).lits, s.prop.trail.isAssigned l.var) :
    s.bumpClauseChecked r = .ok (s.bumpClause r) ∧ (s.bumpClause r).Bounded := by
  have hchanges := (bumpClause_steps s hr).1.changes
  have hbumped := bumpClause_bumped h r
  obtain ⟨hheap, hmodel, hoverflowed⟩ :=
    regrade_frame { s.withClauses (s.prop.clauses.bumpActivity s.clauseScale r).1 with
      clauseScale := (s.prop.clauses.bumpActivity s.clauseScale r).2 } r
  refine ⟨?_, hb.change hbumped.searched.varCount_eq hbumped.searched.config_eq hmodel hoverflowed hchanges
    (hb.within.of_lists (congrArg Watches.lists hbumped.watches_eq)) ?_⟩
  · have hpruned (keep : ClauseRef → Prop) :
        Database.Pruned keep s.prop.clauses (s.prop.clauses.bumpActivity s.clauseScale r).1 :=
      .bumpActivity s.prop.clauses s.clauseScale r
    have hlive := (hpruned fun _ => True).kept hr (Or.inr trivial)
    have hi := (bumped_of_pruned h (hpruned _)).searched.inv
    have hb₁ := hb.withClauses (.bumpActivity s.prop.clauses s.clauseScale r)
    have hregrade := Inv.regradeChecked
      (s := { s.withClauses (s.prop.clauses.bumpActivity s.clauseScale r).1 with
        clauseScale := (s.prop.clauses.bumpActivity s.clauseScale r).2 })
      (hi.of_core rfl) (hb₁.of_extent rfl) hlive fun l hl =>
        ha l ((hpruned fun _ => True).lits_eq hlive ▸ hl)
    rw [Solver.bumpClauseChecked, h.prop.listed.bumpActivityChecked _ (Database.lt_of_isLive hr), ok_bind]
    exact hregrade
  · exact (congrArg (Array.size ∘ DecisionHeap.activities) hheap).trans hb.activities_size

theorem Inv.foldlM_bumpClauseChecked (rs : List ClauseRef) (h : s.Inv) (hb : s.Bounded)
    (hr : ∀ r ∈ rs, s.prop.clauses.isLive r ∧ ∀ l ∈ (s.prop.clauses.get r).lits, s.prop.trail.isAssigned l.var) :
    rs.foldlM Solver.bumpClauseChecked s = .ok (rs.foldl bumpClause s) ∧ (rs.foldl bumpClause s).Bounded := by
  induction rs generalizing s with
  | nil => exact ⟨rfl, hb⟩
  | cons r rs ih =>
    obtain ⟨hlive, ha⟩ := hr r List.mem_cons_self
    obtain ⟨h1, hb1⟩ := h.bumpClauseChecked hb hlive ha
    have hbumped := bumpClause_bumped h r
    have hpruned := (bumpClause_steps s hlive).2
    rw [List.foldlM_cons, h1, ok_bind]
    refine ih hbumped.searched.inv hb1 fun q hq => ?_
    obtain ⟨hlq, haq⟩ := hr q (List.mem_cons_of_mem r hq)
    have hlq' := hpruned.kept hlq (Or.inr trivial)
    refine ⟨hlq', fun l hl => ?_⟩
    rw [hbumped.trail_eq]
    exact haq l (hpruned.lits_eq hlq' ▸ hl)

theorem Inv.decayChecked (h : s.Inv) (hb : s.Bounded) : s.decayChecked = .ok s.decay ∧ s.decay.Bounded := by
  refine ⟨?_, hb.change rfl rfl rfl rfl s.decay_steps.changes hb.within ((h.sized hb).decay.activities_size)⟩
  rw [Solver.decayChecked, h.prop.listed.decayActivitiesChecked]
  rfl

section AssertLearned

variable {first : Lit} {lesson : Lesson} (h : s.Inv) (hb : s.Bounded) (ht : s.prop.trail = p.trail)
  (hl : lesson.Asserts p first rest)
include h hb ht hl

theorem Inv.assertLearnedChecked :
    Yields ((s.backtrack lesson.backtrackTo).assertLearnedChecked lesson.clause)
      ((s.backtrack lesson.backtrackTo).assertLearned lesson.clause) Solver.Bounded := by
  have hi := (backtrack_searched h lesson.backtrackTo).inv
  obtain ⟨-, hb₁⟩ := h.backtrackChecked hb lesson.backtrackTo
  have hu := not_isAssigned_first h ht hl
  have hindex : ∀ l ∈ lesson.clause, l.var.index < (s.backtrack lesson.backtrackTo).varCount := by
    intro l hm
    rw [(backtrack_searched h lesson.backtrackTo).varCount_eq]
    exact index_lt_of_mem_clause h ht hl hm
  have hlevel : ∀ l ∈ lesson.clause, (s.backtrack lesson.backtrackTo).prop.trail.level l.var ≤
      (s.backtrack lesson.backtrackTo).varCount := by
    intro l hm
    have hle := h.prop.trail.level_le_of_isAssigned (isAssigned_of_mem_clause ht hl hm)
    exact Nat.le_trans (Nat.le_of_eq Trail.level_backtrack) hle
  have hnodup := hl.nodup
  rw [hl.clause_eq] at hindex hnodup hlevel ⊢
  generalize s.backtrack lesson.backtrackTo = s₁ at hi hb₁ hu hlevel hindex ⊢
  have hknows := hi.prop.trail.knows (hindex first List.mem_cons_self)
  cases rest with
  | nil =>
    obtain ⟨h1, h2⟩ := hb₁.assignChecked hknows hu .unit
    exact .answers h1 h2
  | cons b others =>
    have hg := glue_bumped hi (first :: b :: others)
    have hprop := prop_glue s₁ (first :: b :: others)
    have hextent := extent_glue s₁ (first :: b :: others)
    rw [Solver.assertLearnedChecked, hi.glueChecked hindex hlevel, ok_bind, assertLearned]
    generalize s₁.glue (first :: b :: others) = out at hg hprop hextent ⊢
    obtain ⟨glue, s₂⟩ := out
    dsimp only at hg hprop hextent ⊢
    have hn : s₂.varCount = s₁.varCount := hg.searched.varCount_eq
    have hb₂ : s₂.Bounded := hb₁.of_extent hextent
    rw [← hn] at hindex
    have hstored : Solver.Bounded { s₂ with
        prop := (s₂.prop.addClause
          { first := first, second := b, others := others, tier := Tier.ofGlue (glue - 1),
            glue := Clause.storedGlue (glue - 1) }).2 } :=
      hb₂.addClause rfl rfl hindex
    have hknows₂ : s₂.prop.trail.Knows first.var := hprop ▸ hknows
    have hu₂ : ¬ s₂.prop.trail.isAssigned first.var := hprop ▸ hu
    refine (Propagator.storeChecked_yields (P := fun out => Solver.Bounded { s₂ with prop := out.2 }) hb₂.varCount_le
      hg.searched.inv.prop.lists_size hnodup hindex _ _ hstored).bind fun hb₃ => ?_
    obtain ⟨h1, h2⟩ := hb₃.assignChecked hknows₂ hu₂ (.clause _)
    exact .answers h1 h2

end AssertLearned

theorem Bounded.assertLearned_nil (hb : s.Bounded) (hn : ls = []) :
    Yields (s.assertLearnedChecked ls) (s.assertLearned ls) Solver.Bounded := by
  subst hn
  exact .answers rfl (hb.of_extent rfl)

/-- No check of learning fails, unless there is no room for the learned clause. -/
theorem Inv.learnChecked (h : s.Inv) (hb : s.Bounded) (hc : s.prop.Conflict r) :
    Yields (s.learnChecked r) (s.learn r) Solver.Bounded := by
  obtain ⟨hanalyze, hsized⟩ := analyzeChecked_eq h.prop.toLinked (h.sized hb) h.varMarks hc
  have hinvolved := lesson_involved h hc
  have hasserts := fun hl => (analyze_spec h.prop.toLinked h.candidates.valid h.varMarks hc hl).1
  have hzero (h0 : s.prop.trail.currentLevel = 0) : (analyze s.prop s.heap s.varMarks r).1.clause = [] := by
    rw [analyze_level_zero h0]
  have ha := analyze_same h hc
  rw [Solver.learnChecked, inspecting_eq h.swept hanalyze (analyzed_bumped h ha.1 ha.2).searched.inv.swept, ok_bind]
  dsimp only [learn, lesson] at hinvolved ⊢
  generalize analyze s.prop s.heap s.varMarks r = out at hsized hinvolved hasserts hzero ha ⊢
  obtain ⟨lesson, heap, marks⟩ := out
  dsimp only at hsized hinvolved hasserts hzero ha ⊢
  have h₁ := analyzed_bumped h ha.1 ha.2
  have h₂ := h₁.trans (report_bumped h₁.searched.inv (.learned s.currentLevel lesson.clause lesson.backtrackTo))
  have hb₂ : Solver.Bounded (Solver.report { s with heap := heap, varMarks := marks }
      (.learned s.currentLevel lesson.clause lesson.backtrackTo)) :=
    hb.change rfl rfl rfl rfl (.refl _) hb.within hsized.activities_size
  obtain ⟨hfold, hb₃⟩ := h₂.searched.inv.foldlM_bumpClauseChecked lesson.involved hb₂ hinvolved
  have h₃ := h₂.trans (foldl_bumpClause_bumped h₂.searched.inv lesson.involved)
  obtain ⟨hdecay, hb₄⟩ := h₃.searched.inv.decayChecked hb₃
  have h₄ := h₃.trans (decay_bumped h₃.searched.inv)
  obtain ⟨hback, hb₅⟩ := h₄.searched.inv.backtrackChecked hb₄ lesson.backtrackTo
  refine (Yields.answers hfold hb₃).bind fun _ => (Yields.answers hdecay hb₄).bind fun _ =>
    (Yields.answers hback hb₅).bind fun _ => ?_
  by_cases h0 : s.prop.trail.currentLevel = 0
  · exact hb₅.assertLearned_nil (hzero h0)
  · obtain ⟨first, rest, hl⟩ := hasserts (Nat.pos_of_ne_zero h0)
    exact h₄.searched.inv.assertLearnedChecked hb₄ h₄.trail_eq hl

/-! ## The next conflict -/

theorem Bounded.decideChecked (hb : s.Bounded) {v : Var} (hx : v.index < s.varCount) (hk : s.prop.trail.Knows v)
    (hu : ¬ s.prop.trail.isAssigned v) {s₁ : Solver}
    (hs : s₁ = { s with prop := { s.prop with trail := s.prop.trail.openLevel } }) :
    s.decideChecked v = .ok (s₁.assign (v.lit (s₁.preferredValue v)) .unit) ∧
      (s₁.assign (v.lit (s₁.preferredValue v)) .unit).Bounded := by
  have hknown : v.index < s.varCount ∧ s.prop.trail.Knows v := ⟨hx, hk⟩
  have hb₁ : s₁.Bounded := hs ▸ hb.of_extent rfl
  have hk₁ : s₁.prop.trail.Knows (v.lit (s₁.preferredValue v)).var := by
    rw [Lit.var_lit, hs]
    exact hk
  have hu₁ : ¬ s₁.prop.trail.isAssigned (v.lit (s₁.preferredValue v)).var := by
    rw [Lit.var_lit, hs]
    exact hu
  have hassign := hb₁.assignChecked hk₁ hu₁ .unit
  rw [Solver.decideChecked, require_bind hknown]
  subst hs
  exact hassign

theorem Inv.makeDecisionChecked (h : s.Inv) (hb : s.Bounded) :
    s.makeDecisionChecked = .ok s.makeDecision ∧ s.makeDecision.2.Bounded := by
  have hgood (v : Var) (hx : v.index < s.varCount) :
      (do
        require (s.prop.trail.Knows v) .outOfRange
        return !s.prop.trail.isAssigned v : Fallible Bool) = .ok (!s.prop.trail.isAssigned v) :=
    require_bind (h.prop.trail.knows hx) _
  obtain ⟨hfind, hsized⟩ := (h.sized hb).find?Checked hgood
  have hfound := DecisionHeap.find?_found h.candidates.valid fun v => !s.prop.trail.isAssigned v
  rw [Solver.makeDecisionChecked, makeDecision]
  dsimp only
  rw [hfind, ok_bind]
  generalize s.heap.find? _ = out at hsized hfound ⊢
  obtain ⟨candidate, heap⟩ := out
  have hb₁ : Solver.Bounded { s with heap := heap } :=
    hb.change rfl rfl rfl rfl (.refl _) hb.within hsized.activities_size
  cases candidate with
  | none => exact ⟨rfl, hb₁⟩
  | some v =>
    obtain ⟨hx, -, hg⟩ := hfound.found_good rfl
    have hu : ¬ s.prop.trail.isAssigned v := by simpa using hg
    obtain ⟨h1, h2⟩ := hb₁.decideChecked hx (h.prop.trail.knows hx) hu rfl
    dsimp only
    rw [h1]
    exact ⟨rfl, h2⟩

theorem Inv.tidyOnLevelZeroChecked (h : s.Inv) (hb : s.Bounded) (he : s.prop.watches.enabled = true)
    (hc : s.prop.Complete) : s.tidyOnLevelZeroChecked = .ok s.tidyOnLevelZero ∧ s.tidyOnLevelZero.Bounded := by
  unfold Solver.tidyOnLevelZeroChecked tidyOnLevelZero
  by_cases h0 : s.currentLevel = 0
  · have ht := tidy_spec h he hc h0
    obtain ⟨h1, hb₁⟩ := h.tidyChecked hb he hc h0
    obtain ⟨h2, hw⟩ := ht.searched.inv.prop.enableWatches hb₁.within
    rw [if_pos h0, if_pos h0, h1, ok_bind, h2]
    exact ⟨rfl, hb₁.change rfl rfl rfl rfl (s.tidy.prop.enableWatches_steps s.clauseScale).changes hw
      hb₁.activities_size⟩
  · rw [if_neg h0, if_neg h0]
    exact ⟨rfl, hb⟩

theorem Inv.findConflictFuelChecked (fuel : Nat) (h : s.Inv) (hb : s.Bounded) :
    findConflictFuelChecked fuel s = .ok (findConflictFuel fuel s) ∧ (findConflictFuel fuel s).2.Bounded := by
  induction fuel generalizing s with
  | zero => exact ⟨rfl, hb⟩
  | succ fuel ih =>
    obtain ⟨hpropagate, hb₁⟩ := h.propagateChecked hb
    obtain ⟨h₁, hp⟩ := propagate_searched h
    rw [Solver.findConflictFuelChecked, hpropagate, ok_bind, findConflictFuel]
    generalize s.propagate = out at hb₁ h₁ hp ⊢
    obtain ⟨conflict, s₁⟩ := out
    cases conflict with
    | some r => exact ⟨rfl, hb₁⟩
    | none =>
      obtain ⟨htidy, hb₂⟩ := h₁.inv.tidyOnLevelZeroChecked hb₁ hp.enabled (hp.complete rfl)
      obtain ⟨h₂, -, -, hen, hcomp⟩ := tidyOnLevelZero_spec h₁.inv hp.enabled (hp.complete rfl)
      dsimp only at htidy hb₂ h₂ hen hcomp ⊢
      rw [htidy, ok_bind]
      split
      · exact ⟨rfl, hb₂⟩
      · obtain ⟨hdecide, hb₃⟩ := h₂.inv.makeDecisionChecked hb₂
        rw [hdecide, ok_bind]
        cases hd : s₁.tidyOnLevelZero.makeDecision with
        | mk found s₂ =>
          rw [hd] at hb₃
          cases found with
          | false => exact ⟨rfl, hb₃⟩
          | true =>
            obtain ⟨h₃, -⟩ := makeDecision_true h₂.inv hen hcomp hd
            exact ih (h₃.inv.of_core rfl) (hb₃.of_extent rfl)

theorem Inv.findConflictChecked (h : s.Inv) (hb : s.Bounded) :
    s.findConflictChecked = .ok s.findConflict ∧ s.findConflict.2.Bounded := h.findConflictFuelChecked _ hb

/-! ## Steps -/

theorem Inv.conflictStepChecked (h : s.Inv) (hb : s.Bounded) :
    Yields s.conflictStepChecked s.conflictStep Solver.Bounded := by
  obtain ⟨hfind, hb₁⟩ := h.findConflictChecked hb
  have hfound := findConflict_spec h
  rw [Solver.conflictStepChecked, hfind, ok_bind, conflictStep]
  generalize s.findConflict = out at hb₁ hfound ⊢
  obtain ⟨outcome, s₁⟩ := out
  cases outcome with
  | model => exact .answers rfl (hb₁.of_extent rfl)
  | interrupted => exact .answers rfl (hb₁.of_extent rfl)
  | conflict r =>
    have hi : Solver.Inv { s₁ with schedule := s₁.schedule.countConflict } :=
      hfound.searched.inv.of_core rfl
    have hc : s₁.prop.Conflict r := hfound.conflict rfl
    exact hi.learnChecked (hb₁.of_extent rfl) hc

theorem Inv.restartIfDueChecked (h : s.Inv) (hb : s.Bounded) :
    Yields s.restartIfDueChecked s.restartIfDue Solver.Bounded := by
  have hreport (e : Event) (c : Prop) [Decidable c] {t : Solver} (hi : t.Inv) (ht : t.Bounded) :
      (if c then t.report e else t).Inv ∧ (if c then t.report e else t).Bounded := by
    split
    · exact ⟨(report_bumped hi e).searched.inv, ht.of_extent rfl⟩
    · exact ⟨hi, ht⟩
  unfold Solver.restartIfDueChecked restartIfDue
  split
  · have hi : s.planRestart.Inv := h.of_core rfl
    have hplan : Yields s.planRestartChecked s.planRestart Solver.Bounded :=
      (check_yields _ _).bind fun hsum => .answers rfl ((hb.noteSum hsum).of_extent rfl)
    refine hplan.bind fun hb₁ => ?_
    obtain ⟨hi₂, hb₂⟩ := hreport (.restarted s.planRestart.schedule.restarts s.planRestart.schedule.conflicts)
      (0 < s.planRestart.schedule.conflicts) hi hb₁
    obtain ⟨h1, h2⟩ := hi₂.backtrackChecked hb₂ 0
    exact .answers h1 h2
  · exact .answers rfl hb

theorem reductionDueChecked_eq {interval : UInt64} (hi : interval ≠ 0) :
    s.reductionDueChecked interval = .ok (s.schedule.reductionDue interval) := require_bind (fun _ => hi) _

theorem Inv.reduceLocalsIfDueChecked (h : s.Inv) (hb : s.Bounded) {s₁ : Solver}
    (hs : s₁ = if s.schedule.reductionDue s.config.reduceLocalsInterval then
      { s with prop := (s.prop.reduceLocals s.ties).2 }.report (s.prop.reduceLocals s.ties).1 else s) :
    s.reduceLocalsIfDueChecked = .ok s₁ ∧ s₁.Bounded := by
  unfold Solver.reduceLocalsIfDueChecked
  rw [reductionDueChecked_eq hb.config.reduceLocalsInterval, ok_bind]
  subst hs
  split
  · obtain ⟨d, hd, -⟩ := Propagator.reduceLocals_pruned s.ties h.prop.toLinked
    have hw : (s.prop.reduceLocals s.ties).2.watches = s.prop.watches := by rw [hd]
    rw [Propagator.reduceLocalsChecked_eq s.ties h.prop.toLinked hb.kept]
    exact ⟨rfl, hb.change rfl rfl rfl rfl (.single (.reduceLocals s.ties rfl))
      (hb.within.of_lists (congrArg Watches.lists hw)) hb.activities_size⟩
  · exact ⟨rfl, hb⟩

theorem Inv.reduceIfDueChecked (h : s.Inv) (hb : s.Bounded) :
    s.reduceIfDueChecked = .ok s.reduceIfDue ∧ s.reduceIfDue.Bounded := by
  obtain ⟨hlocals, hb₁⟩ := h.reduceLocalsIfDueChecked hb rfl
  rw [Solver.reduceIfDueChecked, hlocals, ok_bind]
  dsimp only [reduceIfDue]
  generalize (if s.schedule.reductionDue s.config.reduceLocalsInterval = true then _ else s) = s₁ at hb₁ ⊢
  rw [reductionDueChecked_eq hb₁.config.reduceMidsInterval, ok_bind]
  split
  · obtain ⟨d, hd, -⟩ := Propagator.reduceMids_pruned s₁.prop
    have hw : s₁.prop.reduceMids.2.watches = s₁.prop.watches := by rw [hd]
    rw [Propagator.reduceMidsChecked_eq hb₁.kept]
    exact ⟨rfl, hb₁.change rfl rfl rfl rfl (.single (.reduceMids rfl)) (hb₁.within.of_lists (congrArg Watches.lists hw))
      hb₁.activities_size⟩
  · exact ⟨rfl, hb₁⟩

/-- No check of a step fails, unless there is no room for a learned clause. -/
theorem Inv.stepChecked (h : s.Inv) (hb : s.Bounded) :
    Yields s.stepChecked s.step fun out => out.2.Bounded := by
  unfold Solver.stepChecked step
  split
  · exact .answers rfl hb
  · split
    · exact .answers rfl (hb.of_extent rfl)
    · obtain ⟨h₁, -⟩ := restartIfDue_spec h
      refine (h.restartIfDueChecked hb).bind fun hb₁ => ?_
      obtain ⟨h₂, -⟩ := reduceIfDue_bumped h₁.inv
      obtain ⟨hreduce, hb₂⟩ := h₁.inv.reduceIfDueChecked hb₁
      rw [hreduce, ok_bind]
      exact (h₂.searched.inv.conflictStepChecked hb₂).bind fun hb₃ => .answers rfl hb₃

theorem Inv.searchFuelChecked (fuel : Nat) (h : s.Inv) (hb : s.Bounded) :
    Yields (searchFuelChecked fuel s) (searchFuel fuel s) Solver.Bounded := by
  induction fuel generalizing s with
  | zero => exact .answers rfl hb
  | succ fuel ih =>
    rw [Solver.searchFuelChecked, searchFuel]
    refine (h.stepChecked hb).bind fun hb₁ => ?_
    cases hs : s.step with
    | mk goOn s₁ =>
      rw [hs] at hb₁
      cases goOn with
      | true => exact ih (step_true h hs).2.2.searched.inv hb₁
      | false => exact .answers rfl hb₁

theorem Inv.searchChecked (h : s.Inv) (hb : s.Bounded) : Yields s.searchChecked s.search Solver.Bounded :=
  h.searchFuelChecked _ hb

end ClauseLearning.Solver
