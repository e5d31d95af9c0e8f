import ClauseLearning.Proofs.EngineCalls

/-!
# Variables that may not be eliminated

* `Call.Unfreezes`, `Call.Eliminates` : the calls that take a protection back, and those that eliminate variables;
* `Solver.Frozen` : a frozen variable. Without a call that takes this back it stays frozen and is not eliminated
  (`Reachable.frozen_runAll`);
* `Usable` : a variable that clauses can have;
* `usable_without_eliminate` : new variables of the simplifying engine stay usable unless they may be eliminated. Those
  of the plain engine do only until a call on its solver eliminates, as they are not frozen (`eliminated_unasked`).
-/

namespace ClauseLearning

open SolverEngine (solver)

variable {counting : Counting} {s t : Solver} {f : List (List Lit)} {v : Var} {ls : List Lit}

/-! ## Frozen variables -/

/-- A call that takes the protection of a variable back. -/
def Call.Unfreezes (v : Var) : Call → Prop
  | setFrozen w frozen => w = v ∧ frozen = false
  | _ => False

/-- A call that eliminates variables. -/
def Call.Eliminates : Call → Prop
  | eliminate _ => True
  | solveWith simplifyFirst _ => simplifyFirst = true
  | _ => False

namespace Solver

/-- A variable that is allocated and frozen. -/
structure Frozen (s : Solver) (v : Var) : Prop where
  index_lt : v.index < s.varCount
  frozen_eq : (infoOf s.vars v).frozen = true

namespace Frozen

theorem of_sameFlags (h : s.Frozen v) (hf : SameFlags s t) : t.Frozen v :=
  ⟨hf.varCount_eq.symm ▸ h.index_lt, (hf.frozen_eq v).trans h.frozen_eq⟩

theorem allocate (h : s.Frozen v) (info : Variable) : (s.allocate info).2.Frozen v := by
  have hx : v.index < s.vars.size := h.index_lt
  refine ⟨?_, ?_⟩
  · show v.index < (s.vars.push info).size
    rw [Array.size_push]
    exact Nat.lt_succ_of_lt hx
  · show (infoOf (s.vars.push info) v).frozen = true
    rw [infoOf_push, if_neg (Nat.ne_of_lt hx)]
    exact h.frozen_eq

theorem ensureVarCount (h : s.Frozen v) (count : Nat) : (s.ensureVarCount count).Frozen v :=
  ensureVarCount_keeps (P := fun t => t.Frozen v) h (fun _ ht => ht.allocate {}) count

theorem addClauses (cs : List (List Lit)) (hi : s.Inv) (h : s.Frozen v) : (addClauses cs s).2.Frozen v := by
  induction cs generalizing s with
  | nil => exact h
  | cons c cs ih =>
    have h1 := h.of_sameFlags (addClause_sameFlags hi c)
    rw [Solver.addClauses]
    cases hc : s.addClause c with
    | mk answer s₁ =>
      rw [hc] at h1
      cases answer with
      | error e => exact h1
      | ok b => exact ih (addClause_ok hi hc).2.1.inv h1

theorem modifyVariable (h : s.Frozen v) {w : Var} {g : Variable → Variable} (hw : w.index < s.varCount)
    (hg : w = v → (g (infoOf s.vars w)).frozen = true) : (s.modifyVariable w g).Frozen v := by
  refine ⟨?_, ?_⟩
  · show v.index < (s.vars.modify w.index g).size
    rw [Array.size_modify]
    exact h.index_lt
  · show (infoOf (s.vars.modify w.index g) v).frozen = true
    rw [infoOf_modify hw]
    split
    · next hvw => exact hg hvw.symm
    · exact h.frozen_eq

theorem setDecision (h : s.Frozen v) (w : Var) (decision : Bool) : (s.setDecision w decision).2.Frozen v := by
  unfold Solver.setDecision
  split
  · exact h
  · next hc =>
    have h1 := h.modifyVariable (g := ({ · with decision := decision })) (checkVar_eq_ok.1 hc)
      fun hwv => hwv ▸ h.frozen_eq
    exact ⟨h1.index_lt, h1.frozen_eq⟩

theorem setFrozen (h : s.Frozen v) {w : Var} {frozen : Bool} (hw : w = v → frozen = true) :
    (s.setFrozen w frozen).2.Frozen v := by
  unfold Solver.setFrozen
  split
  · exact h
  · next hc => exact h.modifyVariable (g := ({ · with frozen := frozen })) (checkVar_eq_ok.1 hc) hw

end Frozen

theorem frozen_setFrozen (hx : v.index < s.varCount) : (s.setFrozen v true).2.Frozen v := by
  unfold Solver.setFrozen
  rw [checkVar_eq_ok.2 hx]
  refine ⟨?_, ?_⟩
  · show v.index < (s.vars.modify v.index _).size
    rw [Array.size_modify]
    exact hx
  · show (infoOf (s.vars.modify v.index _) v).frozen = true
    rw [infoOf_modify hx, if_pos rfl]

theorem allocate_frozen {info : Variable} (hf : info.frozen = true) : (s.allocate info).2.Frozen ⟨s.varCount⟩ := by
  refine ⟨Nat.lt_of_lt_of_eq (Nat.lt_succ_self s.vars.size) (Array.size_push ..).symm, ?_⟩
  show (infoOf (s.vars.push info) ⟨s.vars.size⟩).frozen = true
  rw [infoOf_push, if_pos rfl]
  exact hf

end Solver

open Solver (Frozen)

theorem Call.run_frozen (c : Call) (hi : s.Inv) (h : s.Frozen v) (hc : ¬ c.Unfreezes v) : (c.run s).Frozen v := by
  cases c with
  | newVar polarity decision => exact h.allocate _
  | setDecision w decision => exact h.setDecision w decision
  | setFrozen w frozen => exact h.setFrozen fun hw => Bool.eq_true_of_not_eq_false fun hf => hc ⟨hw, hf⟩
  | addClause ls => exact h.of_sameFlags (Solver.addClause_sameFlags hi ls)
  | addFormula fml =>
    exact Solver.Frozen.addClauses _ (Solver.ensureVarCount_called hi fml.varCount).inv (h.ensureVarCount fml.varCount)
  | configure u =>
    have hvars : (s.configure u).2.vars = s.vars := by
      unfold Solver.configure
      split <;> rfl
    exact h.of_sameFlags (.of_vars hvars)
  | setDecisionLimit limit => exact h.of_sameFlags (.of_vars rfl)
  | setConflictLimit limit => exact h.of_sameFlags (.of_vars rfl)
  | simplify =>
    have hrewind : Solver.SameFlags s s.rewind := .of_vars rfl
    exact h.of_sameFlags (hrewind.trans
      (Solver.simplifyFormula_sameFlags (Solver.rewind_searched hi).inv (Solver.currentLevel_rewind s) false))
  | eliminate turnOff => exact h.of_sameFlags (Solver.eliminate_sameFlags hi turnOff)
  | solve => exact h.of_sameFlags (Solver.solveWith_sameFlags hi false false)
  | solveWith simplifyFirst turnOff => exact h.of_sameFlags (Solver.solveWith_sameFlags hi simplifyFirst turnOff)

theorem Call.hasEliminated_run_eq_false (c : Call) (hi : s.Inv) (hv : s.hasEliminated v = false)
    (hc : c.Eliminates → s.Frozen v) : (c.run s).hasEliminated v = false := by
  refine Bool.eq_false_iff.2 fun he => ?_
  obtain ⟨⟨turnOff, hcall⟩, hel⟩ := c.eliminates hi hv he
  have hfrozen : s.Frozen v := hc (by rcases hcall with rfl | rfl <;> trivial)
  have hf : (infoOf s.vars v).frozen = false := hel.frozen_eq
  exact Bool.false_ne_true (hf.symm.trans hfrozen.frozen_eq)

section Runs

variable (h : Reachable counting s f) {cs : List Call}
include h

/-- A frozen variable stays frozen and is not eliminated, unless a call takes its protection back. -/
theorem Reachable.frozen_runAll (hf : s.Frozen v) (hv : s.hasEliminated v = false)
    (hcs : ∀ c ∈ cs, ¬ c.Unfreezes v) :
    (Call.runAll s cs).Frozen v ∧ (Call.runAll s cs).hasEliminated v = false := by
  induction cs generalizing s f with
  | nil => exact ⟨hf, hv⟩
  | cons c cs ih =>
    have hf' := c.run_frozen h.inv hf (hcs c List.mem_cons_self)
    have hv' := c.hasEliminated_run_eq_false h.inv hv fun _ => hf
    exact ih (h.call c) hf' hv' fun d hd => hcs d (List.mem_cons_of_mem c hd)

theorem Reachable.hasEliminated_runAll_eq_false (hv : s.hasEliminated v = false) (hcs : ∀ c ∈ cs, ¬ c.Eliminates) :
    (Call.runAll s cs).hasEliminated v = false := by
  induction cs generalizing s f with
  | nil => exact hv
  | cons c cs ih =>
    have hv' := c.hasEliminated_run_eq_false h.inv hv fun hc => absurd hc (hcs c List.mem_cons_self)
    exact ih (h.call c) hv' fun d hd => hcs d (List.mem_cons_of_mem c hd)

end Runs

/-! ## Runs of engines -/

section EngineRuns

open CallableEngine

variable {σ κ : Type} [Engine σ] [SolverEngine σ] [CallableEngine σ κ] {e : σ} (h : EngineReachable e f) {cs : List κ}
include h

/-- A frozen variable is not eliminated by calls on an engine if those on its solver, which the engine picks by the
state it is in, do not take the protection back. -/
theorem EngineReachable.hasEliminated_runCalls_of_frozen (hf : (solver e).Frozen v)
    (hv : (solver e).hasEliminated v = false)
    (hcs : ∀ {e : σ}, v.index < (solver e).varCount → ∀ c ∈ cs, ∀ d ∈ calls e c, ¬ d.Unfreezes v) :
    (solver (runCalls e cs)).hasEliminated v = false := by
  have hkeep := h.keep cs (P := fun e => (solver e).Frozen v ∧ (solver e).hasEliminated v = false) ⟨hf, hv⟩
    fun {e' f'} h' he c hc => by
      rw [solver_run]
      exact h'.solver_reachable.frozen_runAll he.1 he.2 (hcs he.1.index_lt c hc)
  exact hkeep.2

theorem EngineReachable.hasEliminated_runCalls_of_not_eliminates (hv : (solver e).hasEliminated v = false)
    (hcs : ∀ (e : σ), ∀ c ∈ cs, ∀ d ∈ calls e c, ¬ d.Eliminates) :
    (solver (runCalls e cs)).hasEliminated v = false :=
  h.keep cs (P := fun e => (solver e).hasEliminated v = false) hv fun {e' f'} h' he c hc => by
    rw [solver_run]
    exact h'.solver_reachable.hasEliminated_runAll_eq_false he (hcs e' c hc)

end EngineRuns

/-! ## Clauses of variables that are not eliminated -/

theorem Solver.addClause_ne_eliminated (hv : s.hasEliminated v = false) (ls : List Lit) :
    (s.addClause ls).1 ≠ .error (.eliminatedVariable v) := by
  unfold addClause
  cases hc : s.checkClause ls with
  | error err =>
    intro he
    obtain rfl := Except.error.inj he
    obtain ⟨l, -, ⟨hl, -⟩ | ⟨hl, hx⟩⟩ := checkClause_eq_error hc
    · cases hl
    · obtain rfl := SolverError.eliminatedVariable.inj hl
      exact Bool.false_ne_true (hv.symm.trans hx)
  | ok u => exact fun he => by cases he

/-- Numbers that are no literals are refused, but not because of a variable. -/
theorem litsOf_ne_eliminated (numbers : List Int32) : litsOf numbers ≠ .error (.eliminatedVariable v) := by
  have hlit (n : Int32) : litOf n ≠ .error (.eliminatedVariable v) := fun hn => by
    rw [litOf] at hn
    split at hn
    · cases hn
    · split at hn <;> cases hn
  induction numbers with
  | nil => exact fun hn => by cases hn
  | cons n ns ih =>
    rw [litsOf]
    have hn := hlit n
    cases hc : litOf n with
    | error err => exact fun he => hn (hc.trans (congrArg Except.error (Except.error.inj he)))
    | ok l =>
      cases hcs : litsOf ns with
      | error err => exact fun he => ih (hcs.trans (congrArg Except.error (Except.error.inj he)))
      | ok ls => exact fun he => by cases he

/-- A variable that is not eliminated, because of which no clause is refused. -/
structure Usable {σ : Type} [Engine σ] [SolverEngine σ] (e : σ) (v : Var) : Prop where
  hasEliminated_eq : (solver e).hasEliminated v = false
  addClause_ne (numbers : List Int32) : ((Engine.addClause numbers).exec e).1 ≠ .error (.eliminatedVariable v)
  solver_addClause_ne (ls : List Lit) : ((solver e).addClause ls).1 ≠ .error (.eliminatedVariable v)

/-- Clauses that are no lists of literals are refused, but not because of a variable. -/
theorem usable_of_literals {σ : Type} [Engine σ] [SolverEngine σ] {e : σ}
    (hv : (solver e).hasEliminated v = false) (h : ∀ numbers ls, litsOf numbers = .ok ls →
      ((Engine.addClause numbers).exec e).1 ≠ .error (.eliminatedVariable v)) : Usable e v where
  hasEliminated_eq := hv
  addClause_ne numbers := by
    cases hls : litsOf numbers with
    | error err =>
      rw [SolverEngine.addClause_error hls]
      exact fun he => litsOf_ne_eliminated numbers (hls.trans (congrArg Except.error (Except.error.inj he)))
    | ok ls => exact h numbers ls hls
  solver_addClause_ne := Solver.addClause_ne_eliminated hv

/-! ## The simplifying engine -/

theorem SimplifyingEngine.usable {e : SimplifyingEngine} (hv : e.solver.hasEliminated v = false) : Usable e v :=
  usable_of_literals hv fun numbers ls hls => by
    show (e.addClause numbers).1 ≠ _
    rw [addClause_eq hls]
    exact Solver.addClause_ne_eliminated hv ls

/-- A call that takes the protection of a variable back. -/
def SimplifyingCall.Unfreezes (v : Var) : SimplifyingCall → Prop
  | setFrozen number frozen => varOf number = .ok v ∧ frozen = false
  | onSolver c => c.Unfreezes v
  | _ => False

namespace SimplifyingEngine

variable {e : SimplifyingEngine}

theorem not_unfreezes {c : SimplifyingCall} (hx : v.index < e.solver.varCount) (hc : ¬ c.Unfreezes v) :
    ∀ d ∈ e.calls c, ¬ d.Unfreezes v := by
  intro d hd hu
  cases c with
  | newVariable flags =>
    rcases List.mem_cons.1 hd with rfl | hd
    · exact hu
    · obtain rfl := List.mem_singleton.1 hd
      obtain rfl : (⟨e.solver.varCount⟩ : Var) = v := hu.1
      exact Nat.lt_irrefl _ hx
  | addClause numbers =>
    rw [calls] at hd
    split at hd
    · cases hd
    · obtain rfl := List.mem_singleton.1 hd
      exact hu
  | solve =>
    obtain rfl := List.mem_singleton.1 hd
    rw [searchCall] at hu
    split at hu <;> exact hu
  | setDecisionLimit limit =>
    obtain rfl := List.mem_singleton.1 hd
    exact hu
  | setDecision number decision =>
    rw [calls] at hd
    split at hd
    · cases hd
    · obtain rfl := List.mem_singleton.1 hd
      exact hu
  | setFrozen number frozen =>
    rw [calls] at hd
    split at hd
    · cases hd
    · next w hw =>
      obtain rfl := List.mem_singleton.1 hd
      exact hc ⟨hu.1 ▸ hw, hu.2⟩
  | onSolver c =>
    obtain rfl := List.mem_singleton.1 hd
    exact hc hu

end SimplifyingEngine

theorem SimplifyingEngine.usable_of_frozen {e : SimplifyingEngine} (h : EngineReachable e f) (hf : e.solver.Frozen v)
    (hv : e.solver.hasEliminated v = false) {cs : List SimplifyingCall} (hcs : ∀ c ∈ cs, ¬ c.Unfreezes v) :
    Usable (runCalls e cs) v :=
  usable (h.hasEliminated_runCalls_of_frozen hf hv fun hx c hc => not_unfreezes hx (hcs c hc))

/-! ## The plain engine -/

theorem Solver.allocateFor_kept (s : Solver) (ls : List Lit) : Kept s (s.allocateFor ls) := by
  induction ls generalizing s with
  | nil => exact .refl s
  | cons l ls ih => exact (ensureVarCount_kept s (l.var.index + 1)).trans (ih _)

theorem PlainEngine.usable {e : PlainEngine} (hv : e.solver.hasEliminated v = false) : Usable e v :=
  usable_of_literals hv fun numbers ls hls => by
    show (e.addClause numbers).1 ≠ _
    rw [addClause_eq hls]
    exact Solver.addClause_ne_eliminated (((Solver.allocateFor_kept e.solver ls).eliminated_eq v).trans hv) _

namespace PlainCall

/-- A call that takes the protection of a variable back. -/
def Unfreezes (v : Var) : PlainCall → Prop
  | onSolver c => c.Unfreezes v
  | _ => False

/-- A call that eliminates variables. -/
def Eliminates : PlainCall → Prop
  | onSolver c => c.Eliminates
  | _ => False

end PlainCall

namespace PlainEngine

theorem harmless_or_onSolver (e : PlainEngine) (c : PlainCall) :
    (∀ d ∈ e.calls c, ¬ d.Unfreezes v ∧ ¬ d.Eliminates) ∨ ∃ d, c = .onSolver d := by
  have hone {d : Call} (h : ¬ d.Unfreezes v ∧ ¬ d.Eliminates) : ∀ k ∈ [d], ¬ k.Unfreezes v ∧ ¬ k.Eliminates :=
    List.forall_mem_singleton.2 h
  have hsearch : ∀ d ∈ e.searchCalls, ¬ d.Unfreezes v ∧ ¬ d.Eliminates := by
    rw [searchCalls]
    split
    · exact hone ⟨id, id⟩
    · exact fun d hd => absurd hd List.not_mem_nil
  cases c with
  | nextVariable => exact Or.inl (hone ⟨id, id⟩)
  | newVariable flags => exact Or.inl (hone ⟨id, id⟩)
  | put number =>
    refine Or.inl ?_
    rw [calls]
    split
    · exact hone ⟨id, id⟩
    · split
      · exact fun d hd => absurd hd List.not_mem_nil
      · exact hone ⟨id, id⟩
  | addClause numbers =>
    refine Or.inl ?_
    rw [calls]
    split
    · exact fun d hd => absurd hd List.not_mem_nil
    · refine List.forall_mem_append.2 ⟨fun d hd => ?_, hone ⟨id, id⟩⟩
      obtain ⟨l, -, rfl⟩ := List.mem_map.1 hd
      exact ⟨id, id⟩
  | solve => exact Or.inl hsearch
  | solveLimited limit => exact Or.inl (List.forall_mem_cons.2 ⟨⟨id, id⟩, hsearch⟩)
  | setDecisionLimit limit => exact Or.inl (hone ⟨id, id⟩)
  | onSolver c => exact Or.inr ⟨c, rfl⟩

theorem not_unfreezes {e : PlainEngine} {c : PlainCall} (hc : ¬ c.Unfreezes v) : ∀ d ∈ e.calls c, ¬ d.Unfreezes v := by
  rcases e.harmless_or_onSolver c with h | ⟨d, rfl⟩
  · exact fun d hd => (h d hd).1
  · exact List.forall_mem_singleton.2 hc

theorem not_eliminates {e : PlainEngine} {c : PlainCall} (hc : ¬ c.Eliminates) : ∀ d ∈ e.calls c, ¬ d.Eliminates := by
  rcases e.harmless_or_onSolver (v := ⟨0⟩) c with h | ⟨d, rfl⟩
  · exact fun d hd => (h d hd).2
  · exact List.forall_mem_singleton.2 hc

end PlainEngine

section

variable {e : PlainEngine} (h : EngineReachable e f) (hv : e.solver.hasEliminated v = false) {cs : List PlainCall}
include h hv

theorem PlainEngine.usable_of_frozen (hf : e.solver.Frozen v) (hcs : ∀ c ∈ cs, ¬ c.Unfreezes v) :
    Usable (runCalls e cs) v :=
  usable (h.hasEliminated_runCalls_of_frozen hf hv fun _ c hc => not_unfreezes (hcs c hc))

theorem PlainEngine.usable_of_not_eliminates (hcs : ∀ c ∈ cs, ¬ c.Eliminates) : Usable (runCalls e cs) v :=
  usable (h.hasEliminated_runCalls_of_not_eliminates hv fun _ c hc => not_eliminates (hcs c hc))

end

/-! ## Both engines -/

theorem Solver.hasEliminated_allocate (s : Solver) {info : Variable} (he : info.eliminated = false) :
    (s.allocate info).2.hasEliminated ⟨s.varCount⟩ = false := by
  rw [(allocate_kept s he).eliminated_eq]
  show (s.vars.getD s.vars.size {}).eliminated = false
  rw [getD_of_size_le (Nat.le_refl _)]

/-- **Variables stay usable.** A variable that a simplifying engine allocates without the flag for elimination is never
eliminated, and no clause is refused because of it, up to a reset, unless a call takes its protection back. The plain
engine freezes no variables. Its variables, whatever their flags are, stay usable as long as no call on its solver
eliminates, and beyond that if they are frozen by a call. -/
theorem usable_without_eliminate (flags : VarFlags) :
    (∀ (e : SimplifyingEngine) g cs, EngineReachable e g → flags.eliminate = false →
      (∀ c ∈ cs, ¬ c.Unfreezes ⟨e.solver.varCount⟩) →
        Usable (runCalls (e.newVariable flags).2 cs) ⟨e.solver.varCount⟩) ∧
    (∀ (e : PlainEngine) g cs, EngineReachable e g → (∀ c ∈ cs, ¬ c.Eliminates) →
      Usable (runCalls (e.newVariable flags).2 cs) ⟨e.solver.varCount⟩) ∧
    ∀ (e : PlainEngine) g cs, EngineReachable e g → (∀ c ∈ cs, ¬ c.Unfreezes ⟨e.solver.varCount⟩) →
      Usable (runCalls (e.newVariable flags).2 (.onSolver (.setFrozen ⟨e.solver.varCount⟩ true) :: cs))
        ⟨e.solver.varCount⟩ := by
  refine ⟨fun e g cs h hflags hcs => ?_, fun e g cs h hcs => ?_, fun e g cs h hcs => ?_⟩
  · have hnew := h.call (.newVariable flags)
    refine SimplifyingEngine.usable_of_frozen hnew (Solver.allocate_frozen ?_) (e.solver.hasEliminated_allocate rfl) hcs
    exact congrArg (!·) hflags
  · have hnew := h.call (.newVariable flags)
    exact PlainEngine.usable_of_not_eliminates hnew (e.solver.hasEliminated_allocate rfl) hcs
  · have hx : e.solver.varCount < (e.newVariable flags).2.solver.varCount :=
      Nat.lt_of_lt_of_eq (Nat.lt_succ_self e.solver.vars.size) (Array.size_push ..).symm
    have hv : (e.newVariable flags).2.solver.hasEliminated ⟨e.solver.varCount⟩ = false :=
      e.solver.hasEliminated_allocate rfl
    have hnew := (h.call (.newVariable flags)).call (.onSolver (.setFrozen ⟨e.solver.varCount⟩ true))
    exact PlainEngine.usable_of_frozen hnew
      (((Solver.setFrozen_kept _ ⟨e.solver.varCount⟩ true).eliminated_eq _).trans hv) (Solver.frozen_setFrozen hx) hcs

/-- Calls after the first variable that add a clause of it and eliminate. -/
def askToEliminate : List PlainCall := [.newVariable {}, .addClause [1, 2], .onSolver (.eliminate false)]

/-- The first variable is kept by the simplifying engine, and by the plain one after a call that freezes it. -/
theorem usable_without_eliminate_first :
    Usable (runCalls ((SimplifyingEngine.ofMode .always).newVariable {}).2
      [.newVariable {}, .addClause [1, 2], .onSolver (.eliminate false), .solve]) ⟨0⟩ ∧
    let e := (({} : PlainEngine).newVariable {}).2
    Usable (runCalls e [.newVariable {}, .addClause [1, 2], .solve]) ⟨0⟩ ∧
      Usable (runCalls e (.onSolver (.setFrozen ⟨0⟩ true) :: askToEliminate)) ⟨0⟩ := by
  obtain ⟨hsimplifying, hplain, hfrozen⟩ := usable_without_eliminate {}
  exact ⟨hsimplifying _ [] _ (.new ⟨.stable, .always, rfl⟩) rfl (by simp [SimplifyingCall.Unfreezes, Call.Unfreezes]),
    hplain {} [] _ (.new ⟨.stable, rfl⟩) (by simp [PlainCall.Eliminates]),
    hfrozen {} [] _ (.new ⟨.stable, rfl⟩) (by simp [askToEliminate, PlainCall.Unfreezes, Call.Unfreezes])⟩

/-- The plain engine does not keep the first variable, although nobody allowed to eliminate it. -/
theorem eliminated_unasked :
    ¬ ∀ (e : PlainEngine) g flags cs, EngineReachable e g → flags.eliminate = false →
      (∀ c ∈ cs, ¬ c.Unfreezes ⟨e.solver.varCount⟩) →
        Usable (runCalls (e.newVariable flags).2 cs) ⟨e.solver.varCount⟩ := by
  intro h
  have husable := h {} [] {} askToEliminate (.new ⟨.stable, rfl⟩) rfl
    (by simp [askToEliminate, PlainCall.Unfreezes, Call.Unfreezes])
  exact absurd husable.hasEliminated_eq (by decide +kernel)

end ClauseLearning
