import ClauseLearning.Engine.Created
import ClauseLearning.Proofs.Answers
import ClauseLearning.Proofs.Flags
import ClauseLearning.Proofs.LimitedRuns
import ClauseLearning.Proofs.Numbers

/-!
# Engines are solvers

* `EngineM.exec_bind`, `EngineM.exec_bind_ok` : computations step by step;
* `SolverEngine` : an engine whose calls are those of a solver inside of it. So are the plain engine, the simplifying
  one and those that are created by kind;
* `Solver.created`, `Serves.of_created` : new solvers, and the engines around them;
* `Serves` : an engine that keeps all of its variables, with the clauses that it accepted;
* `Serves.newVariables`, `Serves.addClauses`, `Serves.solve` : what its calls do to the clauses, and what its answers
  mean.
-/

namespace ClauseLearning

/-! ## Computations -/

namespace EngineM

variable {σ α β : Type} {s t : σ} {m : EngineM σ α} {a : α} {f : α → EngineM σ β}

theorem exec_bind (m : EngineM σ α) (f : α → EngineM σ β) (s : σ) : (m >>= f).exec s =
    match m.exec s with
    | (.ok a, t) => (f a).exec t
    | (.error err, t) => (.error err, t) := by
  show (ExceptT.bind m f).run s = _
  unfold exec
  show (ExceptT.bindCont f (m.run s).1) (m.run s).2 = _
  generalize m.run s = out
  obtain ⟨_ | a, t⟩ := out <;> rfl

theorem exec_bind_ok (h : m.exec s = (.ok a, t)) : (m >>= f).exec s = (f a).exec t := by
  rw [exec_bind, h]

end EngineM

/-! ## Engines around a solver -/

/-- An engine around a solver. Unless a clause is pending or a variable may be eliminated, its calls are those of the
solver. -/
class SolverEngine (σ : Type) [Engine σ] where
  solver : σ → Solver
  /-- No clause is pending, and no call eliminates a variable. -/
  Ready : σ → Prop
  newVariable_spec {e : σ} : Ready e → ∃ info e', info.decision = true ∧ info.eliminated = false ∧
    (Engine.newVariable {}).exec e = (.ok (Var.mk (solver e).varCount).number, e') ∧
      solver e' = ((solver e).allocate info).2 ∧ Ready e'
  addClause_spec {e : σ} {numbers : List Int32} {ls : List Lit} : Ready e → (solver e).Inv →
    litsOf numbers = .ok ls → (∀ l ∈ ls, l.var.index < (solver e).varCount) →
      ∃ e', (Engine.addClause numbers).exec e = (((solver e).addClause ls).1, e') ∧
        solver e' = ((solver e).addClause ls).2 ∧ Ready e'
  addClause_error {e : σ} {numbers : List Int32} {err : SolverError} : litsOf numbers = .error err →
    (Engine.addClause numbers).exec e = (.error err, e)
  solve_spec {e : σ} : Ready e → (solver e).Inv → ∃ simplifyFirst turnOff e',
    Engine.solve.exec e = (.ok ((solver e).solveWith simplifyFirst turnOff).1, e') ∧
      solver e' = ((solver e).solveWith simplifyFirst turnOff).2 ∧ Ready e' ∧
        ∀ v, (solver e').hasEliminated v = (solver e).hasEliminated v
  modelValue_eq (e : σ) (number : Int32) : Engine.modelValue e number = (solver e).valueOf number
  solver_report (event : Event) (e : σ) : solver (Engine.report event e) = (solver e).report event

/-! ### The plain engine -/

/-- Allocates the variables of literals. -/
def Solver.allocateFor (s : Solver) (ls : List Lit) : Solver :=
  ls.foldl (fun s l => s.ensureVarCount (l.var.index + 1)) s

theorem Solver.allocateFor_of_lt {s : Solver} {ls : List Lit} (hx : ∀ l ∈ ls, l.var.index < s.varCount) :
    s.allocateFor ls = s := by
  induction ls with
  | nil => rfl
  | cons l ls ih =>
    have hl : s.ensureVarCount (l.var.index + 1) = s := by
      rw [ensureVarCount, Nat.sub_eq_zero_of_le (Nat.succ_le_of_lt (hx l List.mem_cons_self))]
      rfl
    rw [allocateFor, List.foldl_cons, hl]
    exact ih fun k hk => hx k (List.mem_cons_of_mem l hk)

namespace PlainEngine

variable {e : PlainEngine} {ls : List Lit} {numbers rest : List Int32}

theorem putAll_append (h : List.Forall₂ (fun n l => litOf n = .ok l) numbers ls) :
    putAll (numbers ++ rest) e =
      putAll rest { solver := e.solver.allocateFor ls, pending := e.pending ++ ls } := by
  induction h generalizing e with
  | nil =>
    rw [List.nil_append, List.append_nil]
    rfl
  | @cons n l ns ls hn _ ih =>
    have hzero : n ≠ 0 := fun h0 => by
      rw [litOf, if_pos h0] at hn
      cases hn
    have hput : e.put n =
        (.ok (), { solver := e.solver.ensureVarCount (l.var.index + 1), pending := e.pending ++ [l] }) := by
      rw [put, if_neg hzero, hn]
    rw [List.cons_append, putAll, hput]
    dsimp only
    rw [ih, List.append_assoc]
    rfl

theorem addClause_eq (h : litsOf numbers = .ok ls) : e.addClause numbers =
    (((e.solver.allocateFor ls).addClause (e.pending ++ ls)).1,
      { solver := ((e.solver.allocateFor ls).addClause (e.pending ++ ls)).2 }) := by
  rw [addClause, h]
  dsimp only
  rw [putAll_append (litsOf_eq_ok_iff.1 h), putAll, put, if_pos rfl, endClause]
  generalize e.solver.allocateFor ls = s
  dsimp only
  unfold Solver.addClause
  cases s.checkClause (e.pending ++ ls) with
  | error err => rfl
  | ok u => rfl

end PlainEngine

instance : SolverEngine PlainEngine where
  solver := PlainEngine.solver
  Ready e := e.pending = []
  newVariable_spec {e} h := ⟨{}, { e with solver := (e.solver.allocate {}).2 }, rfl, rfl, rfl, rfl, h⟩
  addClause_spec {e numbers ls} h _ hls hx := by
    obtain ⟨s, pending⟩ := e
    obtain rfl : pending = [] := h
    have he := PlainEngine.addClause_eq (e := { solver := s }) hls
    rw [Solver.allocateFor_of_lt hx, List.nil_append] at he
    exact ⟨{ solver := (s.addClause ls).2 }, he, rfl, rfl⟩
  addClause_error {e numbers err} h := by
    show e.addClause numbers = _
    rw [PlainEngine.addClause, h]
  solve_spec {e} h hi := by
    obtain ⟨s, pending⟩ := e
    obtain rfl : pending = [] := h
    refine ⟨false, false, { solver := s.solve.2 }, rfl, rfl, rfl, fun v => ?_⟩
    exact Solver.hasEliminated_solveWith hi false fun h => nomatch h
  modelValue_eq _ _ := rfl
  solver_report _ _ := rfl

/-! ### The simplifying engine -/

theorem Solver.frozen_allocate {s : Solver} {info : Variable} (hf : info.frozen = true)
    (h : ∀ v : Var, v.index < s.varCount → (infoOf s.vars v).frozen = true) {v : Var}
    (hv : v.index < (s.allocate info).2.varCount) : (infoOf (s.allocate info).2.vars v).frozen = true := by
  change v.index < (s.vars.push info).size at hv
  show (infoOf (s.vars.push info) v).frozen = true
  rw [infoOf_push]
  rw [Array.size_push] at hv
  split
  · exact hf
  · next hne => exact h v (show v.index < s.vars.size by omega)

/-- The flags that users set are kept, so frozen variables stay frozen. -/
theorem Solver.SameFlags.frozen {s t : Solver} (h : SameFlags s t)
    (hf : ∀ v : Var, v.index < s.varCount → (infoOf s.vars v).frozen = true) (v : Var) (hv : v.index < t.varCount) :
    (infoOf t.vars v).frozen = true :=
  (h.frozen_eq v).trans (hf v (h.varCount_eq ▸ hv))

namespace SimplifyingEngine

variable {e : SimplifyingEngine} {numbers : List Int32} {ls : List Lit}

theorem addClause_eq (h : litsOf numbers = .ok ls) :
    e.addClause numbers = ((e.solver.addClause ls).1, { e with solver := (e.solver.addClause ls).2 }) := by
  rw [addClause, h]

theorem solve_eq (e : SimplifyingEngine) : ∃ simplifyFirst turnOff simplified,
    e.solve = ((e.solver.solveWith simplifyFirst turnOff).1,
      { e with solver := (e.solver.solveWith simplifyFirst turnOff).2, simplified := simplified }) := by
  obtain ⟨s, mode, simplified⟩ := e
  cases mode with
  | never => exact ⟨false, false, simplified, rfl⟩
  | once => exact ⟨!simplified, !simplified, true, rfl⟩
  | always => exact ⟨true, false, simplified, rfl⟩

end SimplifyingEngine

instance : SolverEngine SimplifyingEngine where
  solver := SimplifyingEngine.solver
  Ready e := ∀ v : Var, v.index < e.solver.varCount → (infoOf e.solver.vars v).frozen = true
  newVariable_spec {e} h :=
    ⟨{ frozen := true }, { e with solver := (e.solver.allocate { frozen := true }).2 }, rfl, rfl, rfl, rfl,
      fun _ => Solver.frozen_allocate rfl h⟩
  addClause_spec {e numbers ls} h hi hls _ :=
    ⟨{ e with solver := (e.solver.addClause ls).2 }, SimplifyingEngine.addClause_eq hls, rfl,
      (Solver.addClause_sameFlags hi ls).frozen h⟩
  addClause_error {e numbers err} h := by
    show e.addClause numbers = _
    rw [SimplifyingEngine.addClause, h]
  solve_spec {e} h hi := by
    obtain ⟨first, off, simplified, he⟩ := e.solve_eq
    refine ⟨first, off, { e with solver := (e.solver.solveWith first off).2, simplified := simplified }, ?_, rfl,
      (Solver.solveWith_sameFlags hi first off).frozen h, fun v => ?_⟩
    · show (Except.ok e.solve.1, e.solve.2) = _
      rw [he]
    · by_cases hx : v.index < e.solver.varCount
      · exact Solver.hasEliminated_solveWith hi off fun _ => h v hx
      · have hx' := (Solver.solveWith_sameFlags hi first off).varCount_eq ▸ hx
        rw [Solver.hasEliminated, Solver.hasEliminated, getD_of_size_le (Nat.le_of_not_lt hx'),
          getD_of_size_le (Nat.le_of_not_lt hx)]
  modelValue_eq _ _ := rfl
  solver_report _ _ := rfl

/-! ### Engines by kind -/

namespace CreatedEngine

variable {α : Type} {onPlain : EngineM PlainEngine α} {onSimplifying : EngineM SimplifyingEngine α}

theorem lift_plain {e e' : PlainEngine} {r : Except SolverError α} (h : onPlain.exec e = (r, e')) :
    (lift onPlain onSimplifying).exec (.plain e) = (r, .plain e') := by
  show ((onPlain.exec e).1, plain (onPlain.exec e).2) = _
  rw [h]

theorem lift_simplifying {e e' : SimplifyingEngine} {r : Except SolverError α} (h : onSimplifying.exec e = (r, e')) :
    (lift onPlain onSimplifying).exec (.simplifying e) = (r, .simplifying e') := by
  show ((onSimplifying.exec e).1, simplifying (onSimplifying.exec e).2) = _
  rw [h]

end CreatedEngine

instance : SolverEngine CreatedEngine where
  solver := CreatedEngine.solver
  Ready
    | .plain e => SolverEngine.Ready e
    | .simplifying e => SolverEngine.Ready e
  newVariable_spec {e} h := by
    cases e with
    | plain e =>
      obtain ⟨info, e', h1, h2, h3, h4⟩ := SolverEngine.newVariable_spec h
      exact ⟨info, .plain e', h1, h2, CreatedEngine.lift_plain h3, h4⟩
    | simplifying e =>
      obtain ⟨info, e', h1, h2, h3, h4⟩ := SolverEngine.newVariable_spec h
      exact ⟨info, .simplifying e', h1, h2, CreatedEngine.lift_simplifying h3, h4⟩
  addClause_spec {e numbers ls} h hi hls hx := by
    cases e with
    | plain e =>
      obtain ⟨e', h1, h2⟩ := SolverEngine.addClause_spec h hi hls hx
      exact ⟨.plain e', CreatedEngine.lift_plain h1, h2⟩
    | simplifying e =>
      obtain ⟨e', h1, h2⟩ := SolverEngine.addClause_spec h hi hls hx
      exact ⟨.simplifying e', CreatedEngine.lift_simplifying h1, h2⟩
  addClause_error {e numbers err} h := by
    cases e with
    | plain e => exact CreatedEngine.lift_plain (SolverEngine.addClause_error h)
    | simplifying e => exact CreatedEngine.lift_simplifying (SolverEngine.addClause_error h)
  solve_spec {e} h hi := by
    cases e with
    | plain e =>
      obtain ⟨first, off, e', h1, h2⟩ := SolverEngine.solve_spec h hi
      exact ⟨first, off, .plain e', CreatedEngine.lift_plain h1, h2⟩
    | simplifying e =>
      obtain ⟨first, off, e', h1, h2⟩ := SolverEngine.solve_spec h hi
      exact ⟨first, off, .simplifying e', CreatedEngine.lift_simplifying h1, h2⟩
  modelValue_eq _ _ := rfl
  solver_report event e := by cases e <;> rfl

/-! ## Serving clauses -/

section Serves

open SolverEngine (solver Ready)

variable {counting : Counting} {s : Solver} {f : List (List Lit)}

theorem Solver.setFrozen_newVar (s : Solver) (polarity : Option Bool) (decision frozen : Bool) :
    ((s.newVar polarity decision).2.setFrozen ⟨s.varCount⟩ frozen).2 =
      (s.allocate { polarity := polarity, decision := decision, frozen := frozen }).2 := by
  have hx : (⟨s.varCount⟩ : Var).index < (s.newVar polarity decision).2.varCount :=
    Nat.lt_of_lt_of_eq (Nat.lt_succ_self _) (Array.size_push ..).symm
  have hvars (info info' : Variable) (g : Variable → Variable) (hg : g info = info') :
      (s.vars.push info).modify s.vars.size g = s.vars.push info' := by
    ext i hi hi'
    · simp
    · by_cases hlt : i = s.vars.size
      · subst hlt
        simp [Array.getElem_modify, hg]
      · have : i < s.vars.size := by simp at hi'; omega
        simp [Array.getElem_push, Array.getElem_modify, this, Ne.symm hlt]
  unfold Solver.setFrozen
  rw [Solver.checkVar_eq_ok.2 hx]
  show ({ (s.newVar polarity decision).2 with vars := (s.vars.push _).modify s.vars.size _ } : Solver) = _
  rw [hvars _ { polarity := polarity, decision := decision, frozen := frozen } _ rfl]
  rfl

theorem Reachable.allocate (h : Reachable counting s f) {info : Variable} (he : info.eliminated = false) :
    Reachable counting (s.allocate info).2 f := by
  obtain ⟨polarity, decision, frozen, eliminated⟩ := info
  obtain rfl : eliminated = false := he
  have hr := h.runAll [.newVar polarity decision, .setFrozen ⟨s.varCount⟩ frozen]
  change Reachable counting ((s.newVar polarity decision).2.setFrozen ⟨s.varCount⟩ frozen).2 (f ++ []) at hr
  rwa [Solver.setFrozen_newVar, List.append_nil] at hr

variable {σ : Type} [Engine σ] [SolverEngine σ] {e : σ} {n : Nat} {limited : Bool} {numbers : List Int32}
  {ls : List Lit}

/-- An engine that decides on all of its `n` variables and eliminates none of them, and the clauses that it accepted.
Searches have a limit only if `limited` holds. -/
structure Serves (limited : Bool) (e : σ) (n : Nat) (f : List (List Lit)) : Prop where
  ready : Ready e
  reachable : Reachable .words (solver e) f
  varCount_eq : (solver e).varCount = n
  decision {v : Var} : v.index < n → (infoOf (solver e).vars v).decision = true
  kept (v : Var) : (solver e).hasEliminated v = false
  unlimited : limited = false →
    (solver e).schedule.decisionLimit = none ∧ (solver e).schedule.conflictLimit = none

/-- A new solver with an updated configuration and a limit on the decisions of each search. -/
def Solver.created (ties : TieOrder) (us : List ConfigUpdate) (limit : Option Nat) : Solver :=
  (us.foldl (fun s u => (s.configure u).2) (Solver.start .words ties)).setDecisionLimit limit

theorem Solver.created_spec (ties : TieOrder) (us : List ConfigUpdate) (limit : Option Nat) :
    Reachable .words (created ties us limit) [] ∧ (created ties us limit).vars = #[] ∧
      (created ties us limit).schedule.decisionLimit = limit ∧
        (created ties us limit).schedule.conflictLimit = none := by
  have hus (s : Solver) (hr : Reachable .words s []) (hv : s.vars = #[]) (hc : s.schedule.conflictLimit = none) :
      let t := us.foldl (fun s u => (s.configure u).2) s
      Reachable .words t [] ∧ t.vars = #[] ∧ t.schedule.conflictLimit = none := by
    induction us generalizing s with
    | nil => exact ⟨hr, hv, hc⟩
    | cons u us ih =>
      have hkeep : (s.configure u).2.vars = s.vars ∧ (s.configure u).2.schedule = s.schedule := by
        unfold configure
        split <;> exact ⟨rfl, rfl⟩
      exact ih _ (hr.call (.configure u)) (hkeep.1.trans hv) (hkeep.2 ▸ hc)
  obtain ⟨hr, hv, hc⟩ := hus _ (.start ties) rfl rfl
  exact ⟨hr.call (.setDecisionLimit limit), hv, rfl, hc⟩

namespace Serves

/-- An engine of a new solver has no variables and no clauses yet. -/
theorem of_created {ties : TieOrder} {us : List ConfigUpdate} {limit : Option Nat} (hr : Ready e)
    (he : solver e = Solver.created ties us limit) : Serves limit.isSome e 0 [] := by
  obtain ⟨hreach, hvars, hd, hc⟩ := Solver.created_spec ties us limit
  refine ⟨hr, he ▸ hreach, ?_, fun hv => absurd hv (Nat.not_lt_zero _), fun v => ?_, fun hl => ?_⟩
  · rw [he, Solver.varCount, hvars]
    rfl
  · rw [he, Solver.hasEliminated, hvars]
    rfl
  · rw [he]
    exact ⟨hd.trans (Option.isNone_iff_eq_none.1 (Option.isSome_eq_false_iff.1 hl)), hc⟩

theorem newVariable (h : Serves limited e n f) : ∃ e',
    (Engine.newVariable {}).exec e = (.ok (Var.mk n).number, e') ∧ Serves limited e' (n + 1) f := by
  obtain ⟨info, e', hd, he, hexec, hsolver, hready⟩ := SolverEngine.newVariable_spec h.ready
  rw [h.varCount_eq] at hexec
  have hsize : (solver e).vars.size = n := h.varCount_eq
  refine ⟨e', hexec, hready, hsolver ▸ h.reachable.allocate he, ?_, fun {v} hv => ?_, fun v => ?_, fun hl => ?_⟩
  · rw [hsolver]
    exact (Array.size_push ..).trans (congrArg (· + 1) hsize)
  · rw [hsolver]
    show (infoOf ((solver e).vars.push info) v).decision = true
    rw [infoOf_push]
    split
    · exact hd
    · exact h.decision (by omega)
  · rw [hsolver]
    exact ((Solver.allocate_kept _ he).eliminated_eq v).trans (h.kept v)
  · rw [hsolver]
    exact h.unlimited hl

/-- The numbers of the variables from `n` on. -/
theorem newVariables (count : Nat) (h : Serves limited e n f) : ∃ e',
    (Engine.newVariables {} count).exec e = (.ok ((List.range' n count).map fun i => (Var.mk i).number), e') ∧
      Serves limited e' (n + count) f := by
  induction count generalizing e n with
  | zero => exact ⟨e, rfl, h⟩
  | succ count ih =>
    obtain ⟨e₁, h1, hs1⟩ := h.newVariable
    obtain ⟨e₂, h2, hs2⟩ := ih hs1
    refine ⟨e₂, ?_, by rwa [Nat.add_assoc, Nat.add_comm 1] at hs2⟩
    rw [Engine.newVariables, EngineM.exec_bind_ok h1, EngineM.exec_bind_ok h2]
    rfl

theorem addClause (h : Serves limited e n f) (hls : litsOf numbers = .ok ls) (hx : ∀ l ∈ ls, l.var.index < n) :
    ∃ b e', (Engine.addClause numbers).exec e = (.ok b, e') ∧ Serves limited e' n (f ++ [ls]) := by
  have hi := h.reachable.inv
  obtain ⟨e', hexec, hsolver, hready⟩ :=
    SolverEngine.addClause_spec h.ready hi hls fun l hl => h.varCount_eq.symm ▸ hx l hl
  have hok : ((solver e).addClause ls).1 = .ok ((solver e).addClause ls).2.okay :=
    Solver.addClause_eq_ok fun l hl => ⟨h.varCount_eq.symm ▸ hx l hl, h.kept l.var⟩
  have hflags := Solver.addClause_sameFlags hi ls
  refine ⟨_, e', hexec.trans (congrArg (·, e') hok), hready, ?_, ?_, fun {v} hv => ?_, fun v => ?_, fun hl => ?_⟩
  · rw [hsolver, ← accepted_addClause hok]
    exact h.reachable.call (.addClause ls)
  · rw [hsolver, hflags.varCount_eq, h.varCount_eq]
  · rw [hsolver, hflags.decision_eq]
    exact h.decision hv
  · rw [hsolver, (Solver.addClause_kept hi ls).eliminated_eq]
    exact h.kept v
  · rw [hsolver, (Solver.addClause_sameTimes _ ls).schedule_eq]
    exact h.unlimited hl

/-- Clauses in turn. All numbers have to be literals. -/
theorem addClauses {cs : List (List Int32)} {g : List (List Lit)} (h : Serves limited e n f)
    (hg : List.Forall₂ (fun c ls => litsOf c = .ok ls) cs g) (hx : ∀ ls ∈ g, ∀ l ∈ ls, l.var.index < n) :
    ∃ e', (Engine.addClauses cs).exec e = (.ok (), e') ∧ Serves limited e' n (f ++ g) := by
  induction hg generalizing e f with
  | nil => exact ⟨e, rfl, by rwa [List.append_nil]⟩
  | cons hc _ ih =>
    obtain ⟨b, e₁, h1, hs1⟩ := h.addClause hc (hx _ List.mem_cons_self)
    obtain ⟨e₂, h2, hs2⟩ := ih hs1 fun ls hls => hx ls (List.mem_cons_of_mem _ hls)
    refine ⟨e₂, ?_, by rwa [List.append_assoc] at hs2⟩
    rw [Engine.addClauses, EngineM.exec_bind_ok h1, h2]

theorem litsOf_of_addClauses {cs : List (List Int32)} {e e' : σ} (h : (Engine.addClauses cs).exec e = (.ok (), e')) :
    ∀ c ∈ cs, ∃ ls, litsOf c = .ok ls := by
  induction cs generalizing e with
  | nil => exact fun c hc => nomatch hc
  | cons c cs ih =>
    rw [Engine.addClauses, EngineM.exec_bind] at h
    cases hc : litsOf c with
    | error err =>
      rw [SolverEngine.addClause_error hc] at h
      cases (Prod.mk.inj h).1
    | ok ls =>
      generalize (Engine.addClause c).exec e = out at h
      obtain ⟨_ | b, e₁⟩ := out
      · cases (Prod.mk.inj h).1
      · exact List.forall_mem_cons.2 ⟨⟨ls, hc⟩, ih h⟩

/-- What a solve call answers: a model of the accepted clauses, that there is none, or nothing because of a limit. -/
structure Answers (limited : Bool) (n : Nat) (f : List (List Lit)) (v : Verdict) (e : σ) : Prop where
  serves : Serves limited e n f
  lastVerdict_eq : (solver e).lastVerdict = some v
  sat : v = .sat → ∃ a, SatisfiesAll a f ∧ ∀ number l, litOf number = .ok l → l.var.index < n →
    Engine.modelValue e number = .ok (if l.Holds a then 1 else -1)
  unsat : v = .unsat → ∀ a, ¬ SatisfiesAll a f
  unknown : v = .unknown → limited = true

theorem solve (h : Serves limited e n f) : ∃ v e', Engine.solve.exec e = (.ok v, e') ∧ Answers limited n f v e' := by
  have hr := h.reachable
  obtain ⟨first, off, e', hexec, hsolver, hready, hkept⟩ := SolverEngine.solve_spec h.ready hr.inv
  have hflags := Solver.solveWith_sameFlags hr.inv first off
  have hcount : ((solver e).solveWith first off).2.varCount = n := hflags.varCount_eq.trans h.varCount_eq
  have hdecision {v : Var} (hv : v.index < n) :
      (infoOf ((solver e).solveWith first off).2.vars v).decision = true :=
    (hflags.decision_eq v).trans (h.decision hv)
  have hreach := hr.solveWith first off
  have hlimits := limits_solveWith hr first off
  refine ⟨_, e', hexec, ⟨hready, hsolver ▸ hreach, by rw [hsolver, hcount],
    fun hv => by rw [hsolver]; exact hdecision hv, fun v => (hkept v).trans (h.kept v), fun hl => ?_⟩,
    by rw [hsolver]; rfl, fun hsat => ?_, fun hunsat => ?_, fun hunk => ?_⟩
  · rw [hsolver, hlimits.1, hlimits.2]
    exact h.unlimited hl
  · obtain ⟨a, ha, hvalue⟩ := hr.exists_model hsat fun v hv _ => hdecision (hcount ▸ hv)
    refine ⟨a, ha, fun number l hl hx => ?_⟩
    rw [SolverEngine.modelValue_eq, hsolver, Solver.valueOf, hl]
    show (((solver e).solveWith first off).2.modelValue l).map signOf = _
    rw [hvalue l (hcount.symm ▸ hx)]
    by_cases hla : l.Holds a
    · simp [hla, Except.map, signOf]
    · simp [hla, Except.map, signOf]
  · exact hreach.represents.not_satisfiesAll (Solver.unsat_of_solveWith hunsat)
  · refine Bool.eq_true_of_not_eq_false fun hl => ?_
    obtain ⟨hd, hc⟩ := h.unlimited hl
    have hnone : (solver e).withLimits (solver e).schedule.decisionLimit (solver e).schedule.conflictLimit =
        solver e := rfl
    rw [hd, hc] at hnone
    have hstatus := search_without_limits hr first off
    rw [hnone] at hstatus
    exact hstatus (Solver.verdict_eq_unknown.1 hunk)

end Serves

end Serves

end ClauseLearning
