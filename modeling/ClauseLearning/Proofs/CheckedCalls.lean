import ClauseLearning.Proofs.CheckedElimination
import ClauseLearning.Proofs.CheckedSearch
import ClauseLearning.Proofs.Unlimited

/-!
# Calls within their bounds

* `Solver.allocateChecked`, `Solver.addClauseChecked`, `Solver.solveWithChecked` and so on : the calls with the checks
  of all that they do;
* `Request` : what users ask of a solver, with and without checks;
* `Solver.Inv.solveWithChecked` and so on : no check of a call fails, unless there is no room;
* `requests_never_fail`, `exists_fault_of_overflowed` : no check fails in any run but those for room, which find an
  overflow;
* `requests_leave_scratch_clear` : scratch space is clear before and after each use, and after each request.
-/

namespace ClauseLearning

/-! ## Requests -/

/-- What users ask of a solver. Other questions than these need no checks. -/
inductive Request
  | call (c : Call)
  | isEliminated (v : Var)
  | model
  | reset

/-- The state after a request. Questions do not change it. -/
def Request.run (s : Solver) : Request → Solver
  | call c => c.run s
  | isEliminated _ => s
  | model => s
  | reset => s.reset

variable {counting : Counting} {s : Solver}

theorem Request.exists_reachable (r : Request) (h : ∃ f, Reachable counting s f) :
    ∃ f, Reachable counting (r.run s) f := by
  obtain ⟨f, h⟩ := h
  cases r with
  | call c => exact ⟨_, h.call c⟩
  | isEliminated v => exact ⟨f, h⟩
  | model => exact ⟨f, h⟩
  | reset => exact ⟨[], h.reset⟩

theorem Config.Valid.apply {c c' : Config} (h : c.Valid) {u : ConfigUpdate} (hu : u.apply c = .ok c') : c'.Valid := by
  unfold ConfigUpdate.apply at hu
  cases hp : u.problem? with
  | some problem =>
    rw [hp] at hu
    cases hu
  | none =>
    rw [hp] at hu
    cases hu
    obtain ⟨h1, h2, h3, h4, -⟩ := ConfigUpdate.problem?_eq_none_iff.1 hp
    have hdecay {setting : String} {new : Option Float32} {default old : Float32}
        (hn : ConfigUpdate.decayProblem? setting new = none) (ho : DecayValid default old) :
        DecayValid default (new.getD old) := by
      cases new with
      | none => exact ho
      | some d =>
        refine Or.inr ?_
        by_contra (hd : ¬ ConfigUpdate.decayInRange d = true)
        rw [ConfigUpdate.decayProblem?, Option.bind_some, if_neg hd] at hn
        cases hn
    exact ⟨hdecay h1 h.vsidsDecay, hdecay h2 h.clauseActivityDecay, ConfigUpdate.getD_ne_zero h3 h.reduceLocalsInterval,
      ConfigUpdate.getD_ne_zero h4 h.reduceMidsInterval⟩

/-! ## Calls that check what they rely on -/

section Checked

variable [Build]

/-- The variables of a witness have a value in the model. -/
def Witness.extendChecked (model : Array (Option Bool)) (w : Witness) : Fallible (Array (Option Bool)) := do
  require (w.lit.var.index < model.size ∧ ∀ c ∈ w.clauses, ∀ l ∈ c, l.var.index < model.size) .outOfRange
  return w.extend model

def extendModelChecked (ws : List Witness) (model : Array (Option Bool)) : Fallible (Array (Option Bool)) :=
  ws.foldlM Witness.extendChecked model

namespace Solver

def allocateChecked (s : Solver) (info : Variable) : Fallible (Var × Solver) := do
  let v : Var := ⟨s.varCount⟩
  require (v.index < Var.maxCount) (.tooManyVariables v.index)
  require (∀ u ∈ s.heap.heap.toList, u.index < v.index + 1) .assertion
  let heap ← s.heap.addVar.setEnabledChecked v info.decision
  return (v,
    { s with
      vars := s.vars.push info
      prop := s.prop.addVar
      heap := heap
      litMarks := s.litMarks.extend 2
      varMarks := s.varMarks.extend 1 })

def newVarChecked (s : Solver) (polarity : Option Bool) (decision : Bool) : Fallible (Var × Solver) :=
  s.allocateChecked { polarity := polarity, decision := decision }

def allocateManyChecked : Nat → Solver → Fallible Solver
  | 0, s => return s
  | count + 1, s => do
    let (_, s) ← s.allocateChecked {}
    allocateManyChecked count s

def ensureVarCountChecked (s : Solver) (count : Nat) : Fallible Solver := allocateManyChecked (count - s.varCount) s

def setDecisionChecked (s : Solver) (v : Var) (decision : Bool) : Fallible (Except SolverError Unit × Solver) :=
  match s.checkVar v with
  | .error e => return (.error e, s)
  | .ok () => do
    require (v.index < s.varCount) .outOfRange
    let s := s.modifyVariable v ({ · with decision := decision })
    let heap ← s.heap.setEnabledChecked v (decision && !s.hasEliminated v)
    return (.ok (), { s with heap := heap })

def setFrozenChecked (s : Solver) (v : Var) (frozen : Bool) : Fallible (Except SolverError Unit × Solver) :=
  match s.checkVar v with
  | .error e => return (.error e, s)
  | .ok () => do
    require (v.index < s.varCount) .outOfRange
    return (.ok (), s.modifyVariable v ({ · with frozen := frozen }))

def isEliminatedChecked (s : Solver) (v : Var) : Fallible (Except SolverError Bool) :=
  match s.checkVar v with
  | .error e => return .error e
  | .ok () => do
    require (v.index < s.varCount) .outOfRange
    return .ok (s.hasEliminated v)

def checkClauseChecked (s : Solver) : List Lit → Fallible (Except SolverError Unit)
  | [] => return .ok ()
  | l :: ls => do
    match ← s.isEliminatedChecked l.var with
    | .error e => return .error e
    | .ok eliminated => if eliminated then return .error (.eliminatedVariable l.var) else checkClauseChecked s ls

def loadChecked (s : Solver) (ls : List Lit) : Fallible Solver := do
  if s.status = .unsat then return s
  else
    let s ← s.rewindChecked
    let ls := Lit.distinct ls
    require (s.prop.trail.KnowsAll ls) .outOfRange
    if Lit.hasOpposites ls || ls.any s.prop.trail.isTrue then return s
    else
      match ls.filter fun l => !s.prop.trail.isFalse l with
      | [] => return s.markUnsat
      | [l] => s.assignChecked l .unit
      | a :: b :: rest =>
        let (_, prop) ← s.prop.storeChecked (a :: b :: rest) .irredundant 0
        return { s with prop := prop }

def propagateFactsChecked (s : Solver) : Fallible Solver := do
  if s.status = .unsat then return s
  else
    match ← s.propagateChecked with
    | (some _, s) => return s.markUnsat
    | (none, s) => return s

def addClauseChecked (s : Solver) (ls : List Lit) : Fallible (Except SolverError Bool × Solver) := do
  match ← s.checkClauseChecked ls with
  | .error e => return (.error e, s)
  | .ok () =>
    let s ← s.loadChecked ls
    let s ← s.propagateFactsChecked
    return (.ok s.okay, s)

def addClausesChecked : List (List Lit) → Solver → Fallible (Except SolverError Bool × Solver)
  | [], s => return (.ok s.okay, s)
  | c :: cs, s => do
    match ← s.addClauseChecked c with
    | (.error e, s) => return (.error e, s)
    | (.ok _, s) => addClausesChecked cs s

def addFormulaChecked (s : Solver) (f : Formula) : Fallible (Except SolverError Bool × Solver) := do
  let s ← s.ensureVarCountChecked f.varCount
  addClausesChecked f.clauses.toList s

/-- Decay factors are in range where they are set. -/
def checkDecays (c : Config) : Fallible Unit := do
  require (Config.DecayValid ({} : Config).vsidsDecay c.vsidsDecay) .assertion
  require (Config.DecayValid ({} : Config).clauseActivityDecay c.clauseActivityDecay) .assertion

def configureChecked (s : Solver) (u : ConfigUpdate) : Fallible (Except SolverError Unit × Solver) :=
  match u.apply s.config with
  | .error e => return (.error e, s)
  | .ok config => do
    checkDecays config
    return (.ok (),
      { s with
        config := config
        heap := s.heap.withDecay config.vsidsDecay
        clauseScale := s.clauseScale.withDecay config.clauseActivityDecay })

def simplifyChecked (s : Solver) : Fallible (Bool × Solver) := do
  let s ← s.rewindChecked
  let s ← s.simplifyFormulaChecked false
  return (s.okay, s)

def eliminateChecked (s : Solver) (turnOff : Bool) : Fallible (Bool × Solver) := do
  let s ← s.rewindChecked
  let s ← s.simplifyFormulaChecked true
  let s := if turnOff then { s with eliminationOff := true } else s
  return (s.okay, s)

def simplifyFirstChecked (s : Solver) (simplifyFirst turnOff : Bool) : Fallible Solver :=
  if simplifyFirst then Prod.snd <$> s.eliminateChecked turnOff else return s

/-- The state in which a search begins. -/
def searchStartChecked (s : Solver) (simplifyFirst turnOff : Bool) : Fallible Solver := do
  let s ← s.simplifyFirstChecked simplifyFirst turnOff
  let s ← s.rewindChecked
  return { s with schedule := s.schedule.startSearch }

/-- Keeps the model that was found, if one was. -/
def keepModelChecked (s : Solver) : Fallible Solver :=
  if s.verdict = .sat then do
    let model ← extendModelChecked s.witnesses s.prop.trail.values
    return { s with model := model }
  else return s

def concludeChecked (s : Solver) : Fallible (Verdict × Solver) := do
  let v := s.verdict
  let s ← s.keepModelChecked
  let s := s.report (.solved v s.schedule.conflicts s.schedule.decisions s.schedule.restarts)
  return (v, { s with lastVerdict := some v })

def solveWithChecked (s : Solver) (simplifyFirst turnOff : Bool) : Fallible (Verdict × Solver) := do
  let s ← s.searchStartChecked simplifyFirst turnOff
  let s ← s.searchChecked
  s.concludeChecked

/-- The variables of the literals of a model are among those that are supported. -/
def model?Checked (s : Solver) : Fallible (Option (List Lit)) := do
  require (s.lastVerdict = some .sat → ∀ i ∈ List.range s.model.size, i < Var.maxCount) .assertion
  return s.model?

def resetChecked (s : Solver) : Fallible Solver := do
  checkDecays s.config
  return s.reset

end Solver

/-- The state after a call that checks what it relies on. -/
def Call.runChecked (s : Solver) : Call → Fallible Solver
  | newVar polarity decision => Prod.snd <$> s.newVarChecked polarity decision
  | setDecision v decision => Prod.snd <$> s.setDecisionChecked v decision
  | setFrozen v frozen => Prod.snd <$> s.setFrozenChecked v frozen
  | addClause ls => Prod.snd <$> s.addClauseChecked ls
  | addFormula f => Prod.snd <$> s.addFormulaChecked f
  | configure u => Prod.snd <$> s.configureChecked u
  | setDecisionLimit limit => return s.setDecisionLimit limit
  | setConflictLimit limit => return s.setConflictLimit limit
  | simplify => Prod.snd <$> s.simplifyChecked
  | eliminate turnOff => Prod.snd <$> s.eliminateChecked turnOff
  | solve => Prod.snd <$> s.solveWithChecked false false
  | solveWith simplifyFirst turnOff => Prod.snd <$> s.solveWithChecked simplifyFirst turnOff

namespace Request

/-- The state after a request that checks what it relies on. -/
def answerChecked (s : Solver) : Request → Fallible Solver
  | call c => c.runChecked s
  | isEliminated v => do
    let _ ← s.isEliminatedChecked v
    return s
  | model => do
    let _ ← s.model?Checked
    return s
  | reset => s.resetChecked

/-- The state after a request, with a look at the scratch space at its end. -/
def runChecked (s : Solver) (r : Request) : Fallible Solver := do
  let s ← r.answerChecked s
  s.inspect
  return s

end Request

/-! ## The checks succeed -/

theorem Config.Valid.checkDecays {c : Config} (h : c.Valid) : Solver.checkDecays c = .ok () := by
  rw [Solver.checkDecays, require_bind h.vsidsDecay, require_eq h.clauseActivityDecay]

theorem extendModelChecked_eq {ws : List Witness} {n : Nat} (ho : WitnessesOrdered n ws) {m : Array (Option Bool)}
    (hm : m.size = n) : extendModelChecked ws m = .ok (extendModel ws m) ∧ (extendModel ws m).size = n := by
  induction ws generalizing m with
  | nil => exact ⟨rfl, hm⟩
  | cons w ws ih =>
    obtain ⟨h1, h2, h3⟩ := ho
    subst hm
    have hstep : w.extendChecked m = .ok (w.extend m) :=
      require_bind ⟨h1, fun c hc l hl => (h2 c hc l hl).1⟩ _
    rw [extendModelChecked, List.foldlM_cons, hstep, ok_bind]
    exact ih h3 (size_extend m w)

namespace Solver

variable {s : Solver} {v : Var} {ls : List Lit}

/-! ### Variables -/

/-- A variable is allocated, unless there are as many as are supported. -/
theorem Inv.allocateChecked (h : s.Inv) (hb : s.Bounded) (info : Variable) :
    Yields (s.allocateChecked info) (s.allocate info) fun out => out.2.Bounded := by
  have hsized := h.sized hb
  have hheap : ∀ u ∈ s.heap.heap.toList, u.index < s.varCount + 1 := by
    intro u hu
    obtain ⟨q, hq⟩ := Array.getElem?_of_mem (Array.mem_toList_iff.1 hu)
    exact Nat.lt_succ_of_lt (hsized.index_lt (hsized.position_iff.2 hq))
  obtain ⟨hset, hsized₁⟩ := hsized.addVar.setEnabledChecked (v := ⟨s.varCount⟩) (Nat.lt_succ_self _) info.decision
  have hcount : (s.allocate info).2.varCount = s.varCount + 1 := Array.size_push ..
  dsimp only [Solver.allocateChecked]
  refine (Yields.require
    (P := fun _ => s.varCount < Var.maxCount ∨ Build.checks (.tooManyVariables s.varCount) = false)
    Nat.le_of_not_lt id).bind fun hn => ?_
  rw [require_bind hheap, hset]
  refine .answers rfl ⟨hb.kept, ?_, ?_, fun hc => ?_, hb.config, hb.model_size_le, hb.overflowed_eq⟩
  · rw [hcount]
    exact hb.within.addVar.mono (Nat.le_succ _)
  · rw [hcount]
    exact hsized₁.activities_size
  · rw [hcount]
    exact hn.resolve_right (by simp [Build.tooManyVariables s.varCount hc])

theorem Inv.ensureVarCountChecked (h : s.Inv) (hb : s.Bounded) (count : Nat) :
    Yields (s.ensureVarCountChecked count) (s.ensureVarCount count) Solver.Bounded := by
  unfold Solver.ensureVarCountChecked ensureVarCount
  induction count - s.varCount generalizing s with
  | zero => exact .answers rfl hb
  | succ k ih => exact (h.allocateChecked hb {}).bind (ih (allocate_called h {} rfl).1.inv)

theorem Inv.setDecisionChecked (h : s.Inv) (hb : s.Bounded) (v : Var) (decision : Bool) :
    s.setDecisionChecked v decision = .ok (s.setDecision v decision) ∧ (s.setDecision v decision).2.Bounded := by
  unfold Solver.setDecisionChecked setDecision
  cases hc : s.checkVar v with
  | error e => exact ⟨rfl, hb⟩
  | ok u =>
    have hx := checkVar_eq_ok.1 hc
    obtain ⟨hset, hsized⟩ := (h.sized hb).setEnabledChecked hx
      (decision && !(s.modifyVariable v ({ · with decision := decision })).hasEliminated v)
    refine ⟨?_, hb.change Array.size_modify rfl rfl rfl (.refl _) hb.within hsized.activities_size⟩
    dsimp only
    rw [require_bind hx]
    dsimp only [modifyVariable] at hset ⊢
    rw [hset]
    rfl

theorem Bounded.setFrozenChecked (hb : s.Bounded) (v : Var) (frozen : Bool) :
    s.setFrozenChecked v frozen = .ok (s.setFrozen v frozen) ∧ (s.setFrozen v frozen).2.Bounded := by
  unfold Solver.setFrozenChecked setFrozen
  cases hc : s.checkVar v with
  | error e => exact ⟨rfl, hb⟩
  | ok u =>
    exact ⟨require_bind (checkVar_eq_ok.1 hc) _,
      hb.change Array.size_modify rfl rfl rfl (.refl _) hb.within hb.activities_size⟩

theorem isEliminatedChecked_eq (s : Solver) (v : Var) : s.isEliminatedChecked v = .ok (s.isEliminated v) := by
  unfold isEliminatedChecked isEliminated
  cases hc : s.checkVar v with
  | error e => rfl
  | ok u => exact require_bind (checkVar_eq_ok.1 hc) _

/-! ### Clauses -/

theorem checkClauseChecked_eq (s : Solver) (ls : List Lit) : s.checkClauseChecked ls = .ok (s.checkClause ls) := by
  induction ls with
  | nil => rfl
  | cons l ls ih =>
    rw [checkClauseChecked, isEliminatedChecked_eq, ok_bind, checkClause, checkLit, isEliminated]
    cases s.checkVar l.var with
    | error e => rfl
    | ok u =>
      cases he : s.hasEliminated l.var with
      | false => exact ih
      | true => rfl

theorem Inv.loadChecked (h : s.Inv) (hb : s.Bounded) (hl : ∀ l ∈ ls, l.var.index < s.varCount) :
    Yields (s.loadChecked ls) (s.load ls) Solver.Bounded := by
  obtain ⟨hrewind, hb₁⟩ := h.rewindChecked hb
  have hr := rewind_searched h
  have hindex : ∀ l ∈ Lit.distinct ls, l.var.index < s.rewind.varCount := fun l hm =>
    hr.varCount_eq ▸ hl l (Lit.mem_distinct.1 hm)
  have hknows : s.rewind.prop.trail.KnowsAll (Lit.distinct ls) := fun l hm => hr.inv.prop.trail.knows (hindex l hm)
  unfold Solver.loadChecked load
  split
  · exact .answers rfl hb
  · rw [hrewind, ok_bind, require_bind hknows]
    dsimp only
    split
    · exact .answers rfl hb₁
    · next hc =>
      obtain ⟨hn, hv⟩ := not_isTrue_and_nodup hc
      have hsub := List.filter_sublist (l := Lit.distinct ls) (p := fun l => !s.rewind.prop.trail.isFalse l)
      generalize hks : ((Lit.distinct ls).filter fun l => !s.rewind.prop.trail.isFalse l) = ks at hsub
      have hindex : ∀ l ∈ ks, l.var.index < s.rewind.varCount := fun l hm => hindex l (hsub.subset hm)
      have hnodup := (hsub.map Lit.var).nodup hv
      split
      · exact .answers rfl (hb₁.of_extent rfl)
      · next l =>
        have hu := (not_isAssigned_of_mem hks hn List.mem_cons_self).2
        obtain ⟨h1, h2⟩ := hb₁.assignChecked (hr.inv.prop.trail.knows (hindex l List.mem_cons_self)) hu .unit
        exact .answers h1 h2
      · next a b rest =>
        have hstored := hb₁.addClause (c := { first := a, second := b, others := rest }) rfl rfl hindex
        exact (Propagator.storeChecked_yields (P := fun out => Solver.Bounded { s.rewind with prop := out.2 })
          hb₁.varCount_le hr.inv.prop.lists_size hnodup hindex _ _ hstored).bind fun hb₂ => .answers rfl hb₂

theorem Inv.propagateFactsChecked (h : s.Inv) (hb : s.Bounded) :
    s.propagateFactsChecked = .ok s.propagateFacts ∧ s.propagateFacts.Bounded := by
  unfold Solver.propagateFactsChecked propagateFacts
  split
  · exact ⟨rfl, hb⟩
  · obtain ⟨hpropagate, hb₁⟩ := h.propagateChecked hb
    rw [hpropagate, ok_bind]
    generalize s.propagate = out at hb₁
    obtain ⟨conflict, s₁⟩ := out
    cases conflict with
    | some r => exact ⟨rfl, hb₁.of_extent rfl⟩
    | none => exact ⟨rfl, hb₁⟩

/-- A clause is added, unless there is no room for it. -/
theorem Inv.addClauseChecked (h : s.Inv) (hb : s.Bounded) (ls : List Lit) :
    Yields (s.addClauseChecked ls) (s.addClause ls) fun out => out.2.Bounded := by
  unfold Solver.addClauseChecked addClause
  rw [checkClauseChecked_eq, ok_bind]
  cases hc : s.checkClause ls with
  | error e => exact .answers rfl hb
  | ok u =>
    have hl := checkClause_eq_ok.1 hc
    refine (h.loadChecked hb fun l hm => (hl l hm).1).bind fun hb₁ => ?_
    obtain ⟨hpropagate, hb₂⟩ := (load_added h hl).inv.propagateFactsChecked hb₁
    rw [hpropagate]
    exact .answers rfl hb₂

theorem Inv.addClausesChecked (cs : List (List Lit)) (h : s.Inv) (hb : s.Bounded) :
    Yields (addClausesChecked cs s) (addClauses cs s) fun out => out.2.Bounded := by
  induction cs generalizing s with
  | nil => exact .answers rfl hb
  | cons c cs ih =>
    rw [Solver.addClausesChecked, addClauses]
    refine (h.addClauseChecked hb c).bind fun hb₁ => ?_
    cases hc : s.addClause c with
    | mk answer s₁ =>
      rw [hc] at hb₁
      cases answer with
      | error e => exact .answers rfl hb₁
      | ok b => exact ih (addClause_ok h hc).2.1.inv hb₁

theorem Inv.addFormulaChecked (h : s.Inv) (hb : s.Bounded) (f : Formula) :
    Yields (s.addFormulaChecked f) (s.addFormula f) fun out => out.2.Bounded :=
  (h.ensureVarCountChecked hb f.varCount).bind fun hb₁ =>
    (ensureVarCount_called h f.varCount).inv.addClausesChecked f.clauses.toList hb₁

/-! ### Settings and simplification -/

theorem Inv.configureChecked (h : s.Inv) (hb : s.Bounded) (u : ConfigUpdate) :
    s.configureChecked u = .ok (s.configure u) ∧ (s.configure u).2.Bounded := by
  unfold Solver.configureChecked configure
  cases hu : u.apply s.config with
  | error e => exact ⟨rfl, hb⟩
  | ok config =>
    have hvalid := hb.config.apply hu
    dsimp only
    rw [hvalid.checkDecays]
    exact ⟨rfl, hb.kept, hb.within, ((h.sized hb).withDecay _).activities_size, hb.varCount_le, hvalid,
      hb.model_size_le, hb.overflowed_eq⟩

theorem Inv.simplifyChecked (h : s.Inv) (hb : s.Bounded) :
    Yields s.simplifyChecked s.simplify fun out => out.2.Bounded := by
  obtain ⟨hrewind, hb₁⟩ := h.rewindChecked hb
  rw [Solver.simplifyChecked, hrewind, ok_bind]
  exact ((rewind_searched h).inv.simplifyFormulaChecked hb₁ (currentLevel_rewind s) false).bind fun hb₂ =>
    .answers rfl hb₂

theorem Inv.eliminateChecked (h : s.Inv) (hb : s.Bounded) (turnOff : Bool) :
    Yields (s.eliminateChecked turnOff) (s.eliminate turnOff) fun out => out.2.Bounded := by
  obtain ⟨hrewind, hb₁⟩ := h.rewindChecked hb
  rw [Solver.eliminateChecked, hrewind, ok_bind]
  refine ((rewind_searched h).inv.simplifyFormulaChecked hb₁ (currentLevel_rewind s) true).bind fun hb₂ => ?_
  refine .answers rfl ?_
  cases turnOff with
  | false => exact hb₂
  | true => exact hb₂.of_extent rfl

/-! ### Solving -/

theorem Inv.searchStartChecked (h : s.Inv) (hb : s.Bounded) (simplifyFirst turnOff : Bool) :
    Yields (s.searchStartChecked simplifyFirst turnOff) (s.searchStart simplifyFirst turnOff) Solver.Bounded := by
  have hfirst : Yields (s.simplifyFirstChecked simplifyFirst turnOff)
      (if simplifyFirst then (s.eliminate turnOff).2 else s) Solver.Bounded := by
    cases simplifyFirst with
    | false => exact .answers rfl hb
    | true => exact (h.eliminateChecked hb turnOff).map id
  have hinv : Solver.Inv (if simplifyFirst then (s.eliminate turnOff).2 else s) := by
    cases simplifyFirst with
    | false => exact h
    | true => exact (eliminate_called h turnOff).inv
  unfold Solver.searchStartChecked searchStart
  refine hfirst.bind fun hb₁ => ?_
  obtain ⟨hrewind, hb₂⟩ := hinv.rewindChecked hb₁
  rw [hrewind]
  exact .answers rfl (hb₂.of_extent rfl)

theorem Inv.keepModelChecked (h : s.Inv) (hb : s.Bounded) :
    s.keepModelChecked =
        .ok (if s.verdict = .sat then { s with model := extendModel s.witnesses s.prop.trail.values } else s) ∧
      Solver.Bounded
        (if s.verdict = .sat then { s with model := extendModel s.witnesses s.prop.trail.values } else s) := by
  unfold Solver.keepModelChecked
  split
  · obtain ⟨hextend, hsize⟩ := extendModelChecked_eq h.eliminations.ordered h.prop.trail.values_size
    rw [hextend]
    exact ⟨rfl, hb.kept, hb.within, hb.activities_size, hb.varCount_le, hb.config, hsize ▸ hb.varCount_le,
      hb.overflowed_eq⟩
  · exact ⟨rfl, hb⟩

theorem Inv.concludeChecked (h : s.Inv) (hb : s.Bounded) :
    s.concludeChecked = .ok s.conclude ∧ s.conclude.2.Bounded := by
  obtain ⟨hkeep, hb₁⟩ := h.keepModelChecked hb
  rw [Solver.concludeChecked, hkeep]
  exact ⟨rfl, hb₁.of_extent rfl⟩

/-- No check of a solve call fails, unless there is no room for a learned or derived clause. -/
theorem Inv.solveWithChecked (h : s.Inv) (hb : s.Bounded) (simplifyFirst turnOff : Bool) :
    Yields (s.solveWithChecked simplifyFirst turnOff) (s.solveWith simplifyFirst turnOff)
      fun out => out.2.Bounded := by
  have h₁ := (searchStart_called h simplifyFirst turnOff).1.inv
  have h₂ := (search_called h simplifyFirst turnOff).1.inv
  rw [solveWith_eq]
  refine (h.searchStartChecked hb simplifyFirst turnOff).bind fun hb₁ => (h₁.searchChecked hb₁).bind fun hb₂ => ?_
  obtain ⟨hconclude, hb₃⟩ := h₂.concludeChecked hb₂
  exact .answers hconclude hb₃

theorem Bounded.model?Checked (hb : s.Bounded) : s.model?Checked = .ok s.model? :=
  require_bind_of_checks (fun hc _ _ hi => Nat.lt_of_lt_of_le (List.mem_range.1 hi) (hb.model_size_le hc)) _

theorem bounded_of_empty (hp : s.prop = {}) (hv : s.vars = #[]) (ha : s.heap.activities = #[]) (hm : s.model = #[])
    (hc : s.config.Valid) (ho : s.overflowed = false) : s.Bounded := by
  have hn : s.varCount = 0 := by rw [varCount, hv]; rfl
  refine ⟨hp ▸ Database.kept_empty, ?_, by rw [ha, hn]; rfl, fun _ => hn ▸ Nat.zero_le _, hc,
    fun _ => hm ▸ Nat.zero_le _, fun _ => ho⟩
  rw [hp, hn]
  exact .empty

theorem start_bounded (counting : Counting) (ties : TieOrder) : (start counting ties).Bounded :=
  bounded_of_empty rfl rfl rfl rfl Config.valid_default rfl

theorem Bounded.resetChecked (hb : s.Bounded) : s.resetChecked = .ok s.reset ∧ s.reset.Bounded := by
  rw [Solver.resetChecked, hb.config.checkDecays]
  exact ⟨rfl, bounded_of_empty rfl rfl rfl rfl hb.config rfl⟩

end Solver

/-! ## Runs -/

theorem Call.runChecked_yields (c : Call) (h : s.Inv) (hb : s.Bounded) :
    Yields (c.runChecked s) (c.run s) Solver.Bounded := by
  cases c with
  | newVar polarity decision => exact (h.allocateChecked hb _).map id
  | setDecision v decision =>
    obtain ⟨h1, h2⟩ := h.setDecisionChecked hb v decision
    exact .answers (congrArg (Prod.snd <$> ·) h1) h2
  | setFrozen v frozen =>
    obtain ⟨h1, h2⟩ := hb.setFrozenChecked v frozen
    exact .answers (congrArg (Prod.snd <$> ·) h1) h2
  | addClause ls => exact (h.addClauseChecked hb ls).map id
  | addFormula f => exact (h.addFormulaChecked hb f).map id
  | configure u =>
    obtain ⟨h1, h2⟩ := h.configureChecked hb u
    exact .answers (congrArg (Prod.snd <$> ·) h1) h2
  | setDecisionLimit limit => exact .answers rfl (hb.of_extent rfl)
  | setConflictLimit limit => exact .answers rfl (hb.of_extent rfl)
  | simplify => exact (h.simplifyChecked hb).map id
  | eliminate turnOff => exact (h.eliminateChecked hb turnOff).map id
  | solve => exact (h.solveWithChecked hb false false).map id
  | solveWith simplifyFirst turnOff => exact (h.solveWithChecked hb simplifyFirst turnOff).map id

/-- A state that requests lead to if no check fails. -/
def InBounds (counting : Counting) (s : Solver) : Prop := (∃ f, Reachable counting s f) ∧ s.Bounded

theorem Request.answerChecked_yields (r : Request) (h : InBounds counting s) :
    Yields (r.answerChecked s) (r.run s) (InBounds counting) := by
  obtain ⟨hr, hb⟩ := h
  have hr₁ := r.exists_reachable hr
  obtain ⟨f, hr⟩ := hr
  cases r with
  | call c => exact (c.runChecked_yields hr.inv hb).imp fun hb₁ => ⟨hr₁, hb₁⟩
  | isEliminated v =>
    refine .answers ?_ ⟨hr₁, hb⟩
    rw [Request.answerChecked, Solver.isEliminatedChecked_eq]
    rfl
  | model =>
    refine .answers ?_ ⟨hr₁, hb⟩
    rw [Request.answerChecked, hb.model?Checked]
    rfl
  | reset =>
    obtain ⟨h1, h2⟩ := hb.resetChecked
    exact .answers h1 ⟨hr₁, h2⟩

theorem Request.runChecked_yields (r : Request) (h : InBounds counting s) :
    Yields (r.runChecked s) (r.run s) (InBounds counting) := by
  refine (r.answerChecked_yields h).bind fun h₁ => ?_
  obtain ⟨f, hr⟩ := h₁.1
  rw [Solver.inspect, require_bind hr.inv.swept]
  exact .answers rfl h₁

theorem requests_yield (counting : Counting) (ties : TieOrder) (rs : List Request) :
    Yields (rs.foldlM Request.runChecked (Solver.start counting ties))
      (rs.foldl Request.run (Solver.start counting ties)) (InBounds counting) :=
  Yields.foldlM (fun _ r _ h => Request.runChecked_yields r h)
    ⟨⟨[], .start ties⟩, Solver.start_bounded counting ties⟩

/-- **No check of a run fails.** A run of requests, in any build, gives the state that it gives without any checks,
unless the build finds that more is needed than there is: a clause is stored where the storage has 2^32 words already, a
variable is allocated beyond the supported number, or a sum does not fit into 64 bits. -/
theorem requests_never_fail (counting : Counting) (ties : TieOrder) (rs : List Request) :
    rs.foldlM Request.runChecked (Solver.start counting ties) =
        .ok (rs.foldl Request.run (Solver.start counting ties)) ∨
      ∃ f, Build.checks f ∧ f.Excess ∧ rs.foldlM Request.runChecked (Solver.start counting ties) = .error f := by
  rcases requests_yield counting ties rs with ⟨hr, -⟩ | ⟨f, hc, he, hr⟩
  · exact Or.inl hr
  · exact Or.inr ⟨f, hc, he, hr⟩

theorem exists_fault_of_overflowed (hc : ∀ n, Build.checks (.overflow n)) (counting : Counting) (ties : TieOrder)
    (rs : List Request) (ho : (rs.foldl Request.run (Solver.start counting ties)).overflowed) :
    ∃ f, f.Excess ∧ rs.foldlM Request.runChecked (Solver.start counting ties) = .error f := by
  rcases requests_yield counting ties rs with ⟨-, -, hb⟩ | ⟨f, -, he, hr⟩
  · exact absurd ho (by simp [hb.overflowed_eq hc])
  · exact ⟨f, he, hr⟩

end Checked

/-- A solver with two variables and a model is found without a fault. -/
example : ((@List.foldlM _ _ _ _ (@Request.runChecked .checked) (Solver.start .words .stable)
    [.call (.newVar none true), .call (.newVar none true), .call (.addClause [⟨0⟩, ⟨2⟩]), .call (.addClause [⟨1⟩, ⟨3⟩]),
      .call (.eliminate false), .call .solve, .model]).toOption.map Solver.lastVerdict) = some (some .sat) := by
  decide +kernel

/-! ## Scratch space -/

/-- A build that looks at the scratch space only. -/
abbrev Build.inspecting : Build := ⟨(· == .unclear), fun _ h => nomatch h⟩

/-- **Scratch space is clear between uses.** A run of requests that looks at the scratch space and at nothing else,
before and after each analysis, each count of levels, each clause that is used for subsumption and each resolution, and
after each request, gives the state that it gives without looking, and that state has clear scratch space. No run in any
build stops as scratch space is not clear. -/
theorem requests_leave_scratch_clear (counting : Counting) (ties : TieOrder) (rs : List Request) :
    rs.foldlM (@Request.runChecked .inspecting) (Solver.start counting ties) =
        .ok (rs.foldl Request.run (Solver.start counting ties)) ∧
      (rs.foldl Request.run (Solver.start counting ties)).Swept ∧
        ∀ b : Build, rs.foldlM (@Request.runChecked b) (Solver.start counting ties) ≠ .error .unclear := by
  have hyield (b : Build) := @requests_yield b counting ties rs
  refine ⟨?_, ?_, fun b hr => ?_⟩
  · rcases hyield .inspecting with ⟨hr, -⟩ | ⟨f, hc, he, -⟩
    · exact hr
    · cases f with
      | unclear => exact he.elim
      | _ => cases hc
  · rcases hyield .inspecting with ⟨-, ⟨f, hr⟩, -⟩ | ⟨f, hc, he, -⟩
    · exact hr.inv.swept
    · cases f with
      | unclear => exact he.elim
      | _ => cases hc
  · rcases hyield b with ⟨h, -⟩ | ⟨f, -, he, h⟩
    · cases hr.symm.trans h
    · cases hr.symm.trans h
      exact he.elim

/-- A mark that was left behind is found. -/
example : @Solver.inspect .inspecting { litMarks := ⟨#[true]⟩ } = .error .unclear := rfl

end ClauseLearning
