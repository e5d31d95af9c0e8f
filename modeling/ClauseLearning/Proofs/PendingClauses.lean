import ClauseLearning.Proofs.EngineCalls
import ClauseLearning.Proofs.PartialModels

/-!
# Clauses and pending literals

* `TrueInModels` : a clause with a true literal in every model that a later call finds;
* `PlainEngine.addClause_trueInModels`, `PlainEngine.endClause_trueInModels`,
  `SimplifyingEngine.addClause_trueInModels` : what is added has one;
* `PlainCall.KeepsPending`, `PlainEngine.pending_runCalls` : the calls that leave pending literals alone;
* `clauses_hold_with_pending` : a clause that the plain engine adds takes the pending literals along, while the
  simplifying engine adds just what it is given. `pending_literals_join` is a pending literal that joins a clause.
-/

namespace ClauseLearning

open SolverEngine (solver)
open CallableEngine (run FindsModel)

section Models

variable {σ κ : Type} [Engine σ] [SolverEngine σ] [CallableEngine σ κ] {e : σ} {f : List (List Lit)} {ls : List Lit}

/-- Up to the next reset, some literal of a clause is true in every model that a call finds with decisions on all
variables. -/
def TrueInModels (e : σ) (ls : List Lit) : Prop :=
  ∀ (cs : List κ) (c : κ), FindsModel (runCalls e cs) c →
    (∀ v : Var, v.index < (solver (run (runCalls e cs) c)).varCount →
      (solver (run (runCalls e cs) c)).hasEliminated v = false →
        (infoOf (solver (run (runCalls e cs) c)).vars v).decision = true) →
    ∃ l ∈ ls, (solver (run (runCalls e cs) c)).modelValue l = .ok (some true)

theorem EngineReachable.trueInModels (h : EngineReachable e f) (hls : ls ∈ f) : TrueInModels e ls :=
  fun cs _ hc hd => (h.runAll cs).exists_true_literal hc hd (List.mem_append_left _ hls)

end Models

/-! ## The plain engine -/

namespace PlainEngine

variable {e e' : PlainEngine} {f : List (List Lit)} {ls : List Lit} {numbers : List Int32} {b : Bool}

theorem litsOf_of_addClause (h : e.addClause numbers = (.ok b, e')) : ∃ ls, litsOf numbers = .ok ls := by
  cases hn : litsOf numbers with
  | error err =>
    rw [addClause, hn] at h
    cases (Prod.mk.inj h).1
  | ok ls => exact ⟨ls, rfl⟩

/-- An added clause has the literals that were pending, too. -/
theorem addClause_trueInModels (h : EngineReachable e f) (hls : litsOf numbers = .ok ls)
    (ha : e.addClause numbers = (.ok b, e')) : e'.pending = [] ∧ TrueInModels e' (e.pending ++ ls) := by
  have hr := h.call (.addClause numbers)
  change EngineReachable (e.addClause numbers).2 _ at hr
  have hcalls : e.calls (.addClause numbers) = ls.map .allocateVar ++ [.addClause (e.pending ++ ls)] := by
    rw [calls, hls]
  rw [ha] at hr
  obtain ⟨hanswer, rfl⟩ := Prod.mk.inj (ha.symm.trans (addClause_eq hls))
  refine ⟨rfl, hr.trueInModels (List.mem_append_right f ?_)⟩
  show _ ∈ Call.acceptedAll e.solver (e.calls (.addClause numbers))
  rw [hcalls, Call.acceptedAll_append, Call.runAll_allocateVar, Call.acceptedAll, accepted_addClause hanswer.symm]
  exact List.mem_append_right _ List.mem_cons_self

/-- The clause that a zero ends has the literals that were pending. -/
theorem endClause_trueInModels (h : EngineReachable e f) (hp : e.put 0 = (.ok (), e')) :
    e'.pending = [] ∧ TrueInModels e' e.pending := by
  have hr := h.call (.put 0)
  change EngineReachable (e.put 0).2 _ at hr
  rw [hp] at hr
  have hend : e.put 0 = (e.endClause.1.map fun _ => (), e.endClause.2) := rfl
  obtain ⟨hanswer, rfl⟩ := Prod.mk.inj (hp.symm.trans hend)
  obtain ⟨b, hb⟩ : ∃ b, (e.solver.addClause e.pending).1 = .ok b := by
    change Except.ok () = (e.solver.addClause e.pending).1.map fun _ => () at hanswer
    generalize (e.solver.addClause e.pending).1 = answer at hanswer
    cases answer with
    | error err => cases hanswer
    | ok b => exact ⟨b, rfl⟩
  refine ⟨rfl, hr.trueInModels (List.mem_append_right f ?_)⟩
  show e.pending ∈ Call.acceptedAll e.solver [.addClause e.pending]
  rw [Call.acceptedAll, accepted_addClause hb]
  exact List.mem_append_left _ (List.mem_singleton_self _)

end PlainEngine

/-- Calls that neither end the pending clause nor add literals to it. -/
def PlainCall.KeepsPending : PlainCall → Prop
  | put _ => False
  | addClause _ => False
  | _ => True

namespace PlainEngine

theorem pending_solve (e : PlainEngine) : e.solve.2.pending = e.pending := by
  rw [solve]
  split <;> rfl

theorem pending_run (e : PlainEngine) {c : PlainCall} (hc : c.KeepsPending) : (e.run c).pending = e.pending := by
  cases c with
  | put number => exact hc.elim
  | addClause numbers => exact hc.elim
  | solve => exact e.pending_solve
  | solveLimited limit => exact (e.setDecisionLimit (limitOf limit)).pending_solve
  | _ => rfl

theorem pending_runCalls (e : PlainEngine) {cs : List PlainCall} (hcs : ∀ c ∈ cs, c.KeepsPending) :
    (runCalls e cs).pending = e.pending := by
  induction cs generalizing e with
  | nil => rfl
  | cons c cs ih =>
    exact (ih (e.run c) fun d hd => hcs d (List.mem_cons_of_mem c hd)).trans (e.pending_run (hcs c List.mem_cons_self))

theorem putAll_of_litsOf {e : PlainEngine} {numbers : List Int32} {ls : List Lit} (h : litsOf numbers = .ok ls) :
    putAll numbers e = (.ok (), { solver := e.solver.allocateFor ls, pending := e.pending ++ ls }) := by
  rw [← List.append_nil numbers, putAll_append (litsOf_eq_ok_iff.1 h)]
  rfl

end PlainEngine

/-! ## The simplifying engine -/

/-- An added clause has just the literals that are given. -/
theorem SimplifyingEngine.addClause_trueInModels {e e' : SimplifyingEngine} {f : List (List Lit)} {ls : List Lit}
    {numbers : List Int32} {b : Bool} (h : EngineReachable e f) (hls : litsOf numbers = .ok ls)
    (ha : e.addClause numbers = (.ok b, e')) : TrueInModels e' ls := by
  have hr := h.call (.addClause numbers)
  change EngineReachable (e.addClause numbers).2 _ at hr
  have hcalls : e.calls (.addClause numbers) = [.addClause ls] := by rw [calls, hls]
  rw [ha] at hr
  obtain ⟨hanswer, rfl⟩ := Prod.mk.inj (ha.symm.trans (addClause_eq hls))
  refine hr.trueInModels (List.mem_append_right f ?_)
  show ls ∈ Call.acceptedAll e.solver (e.calls (.addClause numbers))
  rw [hcalls, Call.acceptedAll, accepted_addClause hanswer.symm]
  exact List.mem_append_left _ (List.mem_singleton_self _)

/-! ## Both engines -/

/-- **Added clauses hold in later models, with pending literals.** A clause that the plain engine adds takes the pending
literals along, and nothing is pending afterwards. So it is just the given clause if nothing was pending. Other calls
leave pending literals alone until a zero makes a clause of them. The simplifying engine adds just the given clause. -/
theorem clauses_hold_with_pending (numbers : List Int32) :
    (∀ (e e' : PlainEngine) f b, EngineReachable e f → e.addClause numbers = (.ok b, e') →
      e'.pending = [] ∧ ∃ ls, litsOf numbers = .ok ls ∧ TrueInModels e' (e.pending ++ ls)) ∧
    (∀ (e : PlainEngine) ls cs, litsOf numbers = .ok ls → (∀ c ∈ cs, c.KeepsPending) →
      (runCalls (PlainEngine.putAll numbers e).2 cs).pending = e.pending ++ ls) ∧
    (∀ (e e' : PlainEngine) f, EngineReachable e f → e.put 0 = (.ok (), e') →
      e'.pending = [] ∧ TrueInModels e' e.pending) ∧
    ∀ (e e' : SimplifyingEngine) f b, EngineReachable e f → e.addClause numbers = (.ok b, e') →
      ∃ ls, litsOf numbers = .ok ls ∧ TrueInModels e' ls := by
  refine ⟨fun e e' f b h ha => ?_, fun e ls cs hls hcs => ?_,
    fun e e' f h hp => PlainEngine.endClause_trueInModels h hp, fun e e' f b h ha => ?_⟩
  · obtain ⟨ls, hls⟩ := PlainEngine.litsOf_of_addClause ha
    obtain ⟨hp, ht⟩ := PlainEngine.addClause_trueInModels h hls ha
    exact ⟨hp, ls, hls, ht⟩
  · rw [PlainEngine.putAll_of_litsOf hls, PlainEngine.pending_runCalls _ hcs]
  · cases hls : litsOf numbers with
    | error err =>
      rw [SimplifyingEngine.addClause, hls] at ha
      cases (Prod.mk.inj ha).1
    | ok ls => exact ⟨ls, rfl, SimplifyingEngine.addClause_trueInModels h hls ha⟩

/-- A plain engine in which the literal 2 is pending. -/
def pendingEngine : PlainEngine := (({} : PlainEngine).put 2).2

theorem reachable_pending : EngineReachable pendingEngine [] := by
  have h : EngineReachable ({} : PlainEngine) [] := .new ⟨.stable, rfl⟩
  exact h.call (.put 2)

/-- The engine after the clause of the literal 1 was added, and a model was searched for. -/
def joinedEngine : PlainEngine := (pendingEngine.addClause [1]).2

theorem addClause_pending : pendingEngine.addClause [1] = (.ok true, joinedEngine) := Prod.ext rfl rfl

theorem findsModel_joined : FindsModel (runCalls joinedEngine []) .solve ∧
    ∀ v : Var, v.index < joinedEngine.solve.2.solver.varCount →
      (infoOf joinedEngine.solve.2.solver.vars v).decision = true := by
  have hsat : joinedEngine.solver.solve.1 = .sat := by decide +kernel
  have hd : ∀ i < joinedEngine.solve.2.solver.varCount,
    (infoOf joinedEngine.solve.2.solver.vars ⟨i⟩).decision = true := by decide +kernel
  exact ⟨congrArg Except.ok hsat, fun v => hd v.index⟩

/-- The pending literal becomes a part of the clause of the literal 1, and one of the two is true in the model. -/
theorem clauses_hold_with_pending_joined :
    joinedEngine.pending = [] ∧ ∃ l ∈ [⟨2⟩, ⟨0⟩], joinedEngine.solve.2.solver.modelValue l = .ok (some true) := by
  obtain ⟨hp, ls, hls, ht⟩ := (clauses_hold_with_pending [1]).1 _ _ _ _ reachable_pending addClause_pending
  obtain rfl : [⟨0⟩] = ls := Except.ok.inj hls
  obtain ⟨hfinds, hd⟩ := findsModel_joined
  exact ⟨hp, ht [] .solve hfinds fun v hv _ => hd v hv⟩

/-- What is added is not just the given clause, and pending literals do not stay pending. -/
theorem pending_literals_join :
    (¬ ∀ (e e' : PlainEngine) f numbers ls b, EngineReachable e f → litsOf numbers = .ok ls →
      e.addClause numbers = (.ok b, e') → TrueInModels e' ls) ∧
    ¬ ∀ (e e' : PlainEngine) f numbers b, EngineReachable e f → e.addClause numbers = (.ok b, e') →
      e'.pending = e.pending := by
  refine ⟨fun h => ?_, fun h => ?_⟩
  · have ht := h _ _ _ _ [⟨0⟩] _ reachable_pending rfl addClause_pending
    obtain ⟨hfinds, hd⟩ := findsModel_joined
    obtain ⟨l, hl, hv⟩ := ht [] .solve hfinds fun v hv _ => hd v hv
    obtain rfl := List.mem_singleton.1 hl
    have hvalue : joinedEngine.solve.2.solver.modelLit ⟨0⟩ = some true := (Solver.modelValue_eq_ok.1 hv).2.2
    exact absurd hvalue (by decide +kernel)
  · have hkept := h _ _ _ _ _ reachable_pending addClause_pending
    exact absurd (congrArg List.length hkept) (by decide +kernel)

end ClauseLearning
