import ClauseLearning.Proofs.Calls
import ClauseLearning.Proofs.Extension

/-!
# What calls lead to

* `Call`, `Call.run`, `Call.accepted` : the calls on a solver, and the clauses that each adds to the formula;
* `Reachable` : the states that calls lead to, with the clauses accepted since the last reset;
* `Represents` : models of the accepted clauses are models of all stored ones, and what makes no irredundant stored
  clause false extends to what makes no accepted one false;
* `Reachable.inv`, `Reachable.represents` : every state that calls lead to satisfies the invariant and represents the
  accepted clauses.
-/

namespace ClauseLearning

open Solver (Called Added)

/-! ## Calls -/

/-- A call on a solver, other than `Solver.reset`. -/
inductive Call
  | newVar (polarity : Option Bool) (decision : Bool)
  | setDecision (v : Var) (decision : Bool)
  | setFrozen (v : Var) (frozen : Bool)
  | addClause (ls : List Lit)
  | addFormula (f : Formula)
  | configure (u : ConfigUpdate)
  | setDecisionLimit (limit : Option Nat)
  | setConflictLimit (limit : Option Nat)
  | simplify
  | eliminate (turnOff : Bool)
  | solve
  | solveWith (simplifyFirst turnOff : Bool)

/-- The clauses of a list that are accepted when they are added in turn, up to the first that is refused. -/
def acceptedPrefix : List (List Lit) → Solver → List (List Lit)
  | [], _ => []
  | c :: cs, s =>
    match s.addClause c with
    | (.error _, _) => []
    | (.ok _, s) => c :: acceptedPrefix cs s

namespace Call

/-- The state after a call. -/
def run (s : Solver) : Call → Solver
  | newVar polarity decision => (s.newVar polarity decision).2
  | setDecision v decision => (s.setDecision v decision).2
  | setFrozen v frozen => (s.setFrozen v frozen).2
  | addClause ls => (s.addClause ls).2
  | addFormula f => (s.addFormula f).2
  | configure u => (s.configure u).2
  | setDecisionLimit limit => s.setDecisionLimit limit
  | setConflictLimit limit => s.setConflictLimit limit
  | simplify => s.simplify.2
  | eliminate turnOff => (s.eliminate turnOff).2
  | solve => s.solve.2
  | solveWith simplifyFirst turnOff => (s.solveWith simplifyFirst turnOff).2

/-- The clauses that a call adds. -/
def accepted (s : Solver) : Call → List (List Lit)
  | addClause ls => acceptedPrefix [ls] s
  | addFormula f => acceptedPrefix f.clauses.toList (s.ensureVarCount f.varCount)
  | _ => []

/-- The state after some calls. -/
def runAll (s : Solver) (cs : List Call) : Solver := cs.foldl run s

/-- The clauses that some calls add. -/
def acceptedAll : Solver → List Call → List (List Lit)
  | _, [] => []
  | s, c :: cs => c.accepted s ++ acceptedAll (c.run s) cs

end Call

/-- The states that calls lead to, with the clauses that were accepted since the last reset. -/
inductive Reachable (counting : Counting) : Solver → List (List Lit) → Prop
  | start (ties : TieOrder) : Reachable counting (Solver.start counting ties) []
  | call {s : Solver} {f : List (List Lit)} (c : Call) :
    Reachable counting s f → Reachable counting (c.run s) (f ++ c.accepted s)
  | reset {s : Solver} {f : List (List Lit)} : Reachable counting s f → Reachable counting s.reset []

/-! ## Accepted clauses and models -/

/-- Models of the accepted clauses are models of all stored ones, and partial assignments under which no irredundant
stored clause is false extend to ones under which no accepted clause is false. -/
structure Represents (s : Solver) (f : List (List Lit)) : Prop where
  modelsAll {a : Assignment} : SatisfiesAll a f → s.ModelsAll a
  admits {m : PartialAssignment} : s.Admits m → (m.extendBy s.witnesses).MeetsAll f
  index_lt {c : List Lit} {l : Lit} : c ∈ f → l ∈ c → l.var.index < s.varCount

section Represents

variable {s s' : Solver} {f g : List (List Lit)} {ls : List Lit} {a : Assignment} {m : PartialAssignment}

theorem Represents.models (h : Represents s f) (ha : s.Models a) : SatisfiesAll (extendBy s.witnesses a) f := by
  have hm := h.admits ha
  rw [← PartialAssignment.toPartial_extendBy] at hm
  exact hm

theorem Represents.called (h : Represents s f) (hc : Called s s') : Represents s' f where
  modelsAll ha := hc.faithful.modelsAll (h.modelsAll ha)
  admits {m} ha := by
    obtain ⟨ws, hw, hm⟩ := hc.faithful.admits
    rw [hw, PartialAssignment.extendBy_append]
    exact h.admits (hm m ha)
  index_lt hm hl := Nat.lt_of_lt_of_le (h.index_lt hm hl) hc.varCount_le

theorem meets_extendBy (h : s.Inv) (hl : ∀ l ∈ ls, (infoOf s.vars l.var).eliminated = false) :
    (m.extendBy s.witnesses).Meets ls ↔ m.Meets ls := by
  refine exists_congr fun l => and_congr_right fun hm => PartialAssignment.allows_extendBy ?_
  intro w hw hv
  have := hl l hm
  rw [h.eliminations.witnessed.2 ⟨w, hw, hv⟩] at this
  cases this

theorem Represents.added (h : Represents s f) (hi : s.Inv)
    (hl : ∀ l ∈ ls, l.var.index < s.varCount ∧ (infoOf s.vars l.var).eliminated = false) (ha : Added ls s s') :
    Represents s' (f ++ [ls]) where
  modelsAll hs := by
    obtain ⟨h1, h2⟩ := satisfiesAll_append.1 hs
    exact ha.modelsAll (h.modelsAll h1) (satisfiesAll_singleton.1 h2)
  admits {m} hm := by
    obtain ⟨h1, h2⟩ := ha.admits hm
    rw [ha.witnesses_eq]
    refine PartialAssignment.meetsAll_append.2 ⟨h.admits h1, PartialAssignment.meetsAll_singleton.2 ?_⟩
    exact (meets_extendBy hi fun l hm => (hl l hm).2).2 h2
  index_lt {c l} hc hlc := by
    have hn : s'.varCount = s.varCount := congrArg Array.size ha.vars_eq
    rw [hn]
    rcases List.mem_append.1 hc with hc | hc
    · exact h.index_lt hc hlc
    · obtain rfl := List.mem_singleton.1 hc
      exact (hl l hlc).1

theorem Represents.addClauses (cs : List (List Lit)) (hi : s.Inv) (h : Represents s f) :
    (Solver.addClauses cs s).2.Inv ∧ Represents (Solver.addClauses cs s).2 (f ++ acceptedPrefix cs s) ∧
      (s.status = .unsat → (Solver.addClauses cs s).2.status = .unsat) := by
  induction cs generalizing s f with
  | nil =>
    rw [acceptedPrefix, List.append_nil]
    exact ⟨hi, h, id⟩
  | cons c cs ih =>
    rw [Solver.addClauses, acceptedPrefix]
    cases hc : s.addClause c with
    | mk answer s₁ =>
      cases answer with
      | error e =>
        rw [Solver.addClause_error hc, List.append_nil]
        exact ⟨hi, h, id⟩
      | ok b =>
        obtain ⟨hl, ha, -⟩ := Solver.addClause_ok hi hc
        obtain ⟨h1, h2, h3⟩ := ih ha.inv (h.added hi hl ha)
        rw [List.append_cons]
        exact ⟨h1, h2, fun hs => h3 (ha.unsat hs)⟩

theorem addClauses_singleton (s : Solver) (ls : List Lit) : (Solver.addClauses [ls] s).2 = (s.addClause ls).2 := by
  rw [Solver.addClauses]
  cases hc : s.addClause ls with
  | mk answer s₁ => cases answer <;> rfl

/-! ## Runs -/

theorem accepted_addClause {b : Bool} (h : (s.addClause ls).1 = .ok b) : (Call.addClause ls).accepted s = [ls] := by
  show acceptedPrefix [ls] s = [ls]
  rw [acceptedPrefix, show s.addClause ls = (.ok b, (s.addClause ls).2) from Prod.ext h rfl]
  rfl

/-- What a call does to the state: it keeps the invariant, represents what it accepts, and ends no unsatisfiability. -/
theorem Call.run_spec (c : Call) (hi : s.Inv) (h : Represents s f) :
    (c.run s).Inv ∧ Represents (c.run s) (f ++ c.accepted s) ∧ (s.status = .unsat → (c.run s).status = .unsat) := by
  have hcalled {s' : Solver} (hc : Called s s') :
      s'.Inv ∧ Represents s' (f ++ []) ∧ (s.status = .unsat → s'.status = .unsat) :=
    ⟨hc.inv, (List.append_nil f).symm ▸ h.called hc, hc.unsat⟩
  cases c with
  | newVar polarity decision => exact hcalled (Solver.allocate_called hi _ rfl).1
  | setDecision v decision => exact hcalled (Solver.setDecision_called hi v decision)
  | setFrozen v frozen => exact hcalled (Solver.setFrozen_called hi v frozen)
  | addClause ls =>
    have := h.addClauses [ls] hi
    rw [addClauses_singleton] at this
    exact this
  | addFormula fml =>
    have hc := Solver.ensureVarCount_called hi fml.varCount
    obtain ⟨h1, h2, h3⟩ := (h.called hc).addClauses fml.clauses.toList hc.inv
    exact ⟨h1, h2, fun hs => h3 (hc.unsat hs)⟩
  | configure u => exact hcalled (Solver.configure_called hi u)
  | setDecisionLimit limit => exact hcalled (Solver.called_of_core hi rfl rfl)
  | setConflictLimit limit => exact hcalled (Solver.called_of_core hi rfl rfl)
  | simplify => exact hcalled (Solver.simplify_called hi)
  | eliminate turnOff => exact hcalled (Solver.eliminate_called hi turnOff)
  | solve => exact hcalled (Solver.solveWith_called hi false false)
  | solveWith simplifyFirst turnOff => exact hcalled (Solver.solveWith_called hi simplifyFirst turnOff)

theorem represents_nil (hp : s.prop = {}) (hs : s.status ≠ .unsat) : Represents s [] where
  modelsAll _ := by
    refine ⟨hs, ?_, ?_⟩
    · intro l hl
      rw [hp] at hl
      have := Trail.consistent_empty.index_lt (Trail.isAssigned_of_isTrue hl.1)
      exact absurd this (Nat.not_lt_zero _)
    · intro r hr
      rw [hp] at hr
      exact absurd (Database.lt_of_isLive hr) (Nat.not_lt_zero _)
  admits _ c hc := nomatch hc
  index_lt hc := nomatch hc

variable {counting : Counting}

theorem Reachable.inv_and_represents (h : Reachable counting s f) : s.Inv ∧ Represents s f := by
  induction h with
  | start ties => exact ⟨Solver.start_inv counting ties, represents_nil rfl fun h => (nomatch h)⟩
  | call c _ ih =>
    obtain ⟨h1, h2, -⟩ := c.run_spec ih.1 ih.2
    exact ⟨h1, h2⟩
  | reset _ _ => exact ⟨Solver.reset_inv _, represents_nil rfl fun h => (nomatch h)⟩

theorem Reachable.inv (h : Reachable counting s f) : s.Inv := h.inv_and_represents.1

theorem Reachable.represents (h : Reachable counting s f) : Represents s f := h.inv_and_represents.2

theorem Reachable.runAll (h : Reachable counting s f) (cs : List Call) :
    Reachable counting (Call.runAll s cs) (f ++ Call.acceptedAll s cs) := by
  induction cs generalizing s f with
  | nil =>
    rw [Call.acceptedAll, List.append_nil]
    exact h
  | cons c cs ih =>
    rw [Call.acceptedAll, ← List.append_assoc]
    exact ih (h.call c)

theorem Reachable.solveWith (h : Reachable counting s f) (simplifyFirst turnOff : Bool) :
    Reachable counting (s.solveWith simplifyFirst turnOff).2 f := by
  have hr : Reachable counting (s.solveWith simplifyFirst turnOff).2 (f ++ []) :=
    h.call (.solveWith simplifyFirst turnOff)
  rwa [List.append_nil] at hr

theorem Reachable.unsat_runAll (h : Reachable counting s f) (cs : List Call) (hs : s.status = .unsat) :
    (Call.runAll s cs).status = .unsat := by
  induction cs generalizing s f with
  | nil => exact hs
  | cons c cs ih => exact ih (h.call c) ((c.run_spec h.inv h.represents).2.2 hs)

end Represents

/-! ## Three solvers -/

/-- Makes two variables equivalent, the first of them without decisions and the second one frozen. -/
def equivalence : List Call :=
  [.newVar none false, .newVar none true, .setFrozen ⟨1⟩ true, .addClause [⟨0⟩, ⟨3⟩], .addClause [⟨1⟩, ⟨2⟩]]

/-- A solver that knows two equivalent variables. -/
def equivalenceSolver : Solver := Call.runAll (Solver.start .words .stable) equivalence

theorem reachable_equivalence : Reachable .words equivalenceSolver [[⟨0⟩, ⟨3⟩], [⟨1⟩, ⟨2⟩]] :=
  (Reachable.start .stable).runAll equivalence

/-- A solver that knows two equivalent variables, a clause and a fact, and eliminated one of the two variables. -/
def eliminatedSolver : Solver :=
  Call.runAll equivalenceSolver
    [.newVar none false, .setFrozen ⟨2⟩ true, .addClause [⟨2⟩, ⟨4⟩], .newVar none false, .addClause [⟨6⟩],
      .eliminate true]

theorem reachable_eliminated :
    Reachable .words eliminatedSolver [[⟨0⟩, ⟨3⟩], [⟨1⟩, ⟨2⟩], [⟨2⟩, ⟨4⟩], [⟨6⟩]] :=
  reachable_equivalence.runAll _

/-- Two clauses that leave one of three variables no value if the other two are false. -/
def fork : List Call :=
  [.newVar none true, .newVar none true, .newVar none true, .addClause [⟨0⟩, ⟨2⟩, ⟨4⟩], .addClause [⟨0⟩, ⟨2⟩, ⟨5⟩]]

def forkSolver : Solver := Call.runAll (Solver.start .words .stable) fork

theorem reachable_fork : Reachable .words forkSolver [[⟨0⟩, ⟨2⟩, ⟨4⟩], [⟨0⟩, ⟨2⟩, ⟨5⟩]] :=
  (Reachable.start .stable).runAll fork

end ClauseLearning
