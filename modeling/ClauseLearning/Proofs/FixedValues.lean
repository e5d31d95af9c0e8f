import ClauseLearning.Proofs.Engines
import ClauseLearning.Proofs.PartialModels

/-!
# Values of a model can be fixed afterwards

* `Solver.Decisive` : a solver that decides on all variables that it has not eliminated, and searches without limits;
* `Reachable.solveWith_eq_sat` : such a solver finds a model if there is one;
* `fixing`, `Reachable.fixed` : literals that are true in a model of the accepted clauses can be added as clauses;
* `model_values_can_be_fixed` : so can those of the model that a solve call found, unless their variables are
  eliminated, and the next solve call finds a model with the same values for them.
-/

namespace ClauseLearning

variable {counting : Counting} {s t : Solver} {f : List (List Lit)} {l : Lit} {ls : List Lit} {a : Assignment}

/-! ## Solvers that find models -/

namespace Solver

/-- Decisions are made on all variables that are not eliminated, and no limit interrupts a search. -/
structure Decisive (s : Solver) : Prop where
  decision {v : Var} : v.index < s.varCount → s.hasEliminated v = false → (infoOf s.vars v).decision = true
  decisionLimit_eq : s.schedule.decisionLimit = none
  conflictLimit_eq : s.schedule.conflictLimit = none

theorem Decisive.of_sameFlags (h : s.Decisive) (hf : SameFlags s t)
    (he : ∀ v, s.hasEliminated v = true → t.hasEliminated v = true)
    (hd : t.schedule.decisionLimit = s.schedule.decisionLimit)
    (hc : t.schedule.conflictLimit = s.schedule.conflictLimit) : t.Decisive where
  decision {v} hv hn := by
    rw [hf.decision_eq]
    refine h.decision (hf.varCount_eq ▸ hv) (Bool.eq_false_iff.2 fun hs => ?_)
    exact Bool.false_ne_true (hn.symm.trans (he v hs))
  decisionLimit_eq := hd.trans h.decisionLimit_eq
  conflictLimit_eq := hc.trans h.conflictLimit_eq

theorem Decisive.addClause (h : s.Decisive) (hi : s.Inv) (ls : List Lit) : (s.addClause ls).2.Decisive := by
  have hschedule := (addClause_sameTimes s ls).schedule_eq
  refine h.of_sameFlags (addClause_sameFlags hi ls) (fun v hv => ?_) (congrArg _ hschedule) (congrArg _ hschedule)
  exact ((addClause_kept hi ls).eliminated_eq v).trans hv

theorem Decisive.solveWith (h : s.Decisive) (hr : Reachable counting s f) (simplifyFirst turnOff : Bool) :
    (s.solveWith simplifyFirst turnOff).2.Decisive := by
  obtain ⟨hd, hc⟩ := limits_solveWith hr simplifyFirst turnOff
  refine h.of_sameFlags (solveWith_sameFlags hr.inv simplifyFirst turnOff) (fun v hv => ?_) hd hc
  exact (solveWith_called hr.inv simplifyFirst turnOff).hasEliminated hr.inv hv

end Solver

theorem Reachable.okay (h : Reachable counting s f) (ha : SatisfiesAll a f) : s.okay = true := by
  refine Bool.eq_true_of_not_eq_false fun hok => ?_
  exact h.represents.not_satisfiesAll (Solver.okay_eq_false.1 hok) a ha

/-- If there is a model, a solve call finds one. -/
theorem Reachable.solveWith_eq_sat (h : Reachable counting s f) (hd : s.Decisive) (ha : SatisfiesAll a f)
    (simplifyFirst turnOff : Bool) : (s.solveWith simplifyFirst turnOff).1 = .sat := by
  have hfree : s.withLimits none none = s := by
    have hsame : s.withLimits s.schedule.decisionLimit s.schedule.conflictLimit = s := rfl
    rwa [hd.decisionLimit_eq, hd.conflictLimit_eq] at hsame
  have hstatus := search_without_limits h simplifyFirst turnOff
  rw [hfree] at hstatus
  cases hv : (s.solveWith simplifyFirst turnOff).1 with
  | sat => rfl
  | unsat => exact absurd ha ((h.solveWith _ _).represents.not_satisfiesAll (Solver.unsat_of_solveWith hv) a)
  | unknown => exact absurd (Solver.verdict_eq_unknown.1 hv) hstatus

/-! ## Literals as clauses -/

/-- The calls that make literals true, one after the other. -/
def fixing (ls : List Lit) : List Call := ls.map fun l => .addClause [l]

/-- Clauses of one literal each. -/
def units (ls : List Lit) : List (List Lit) := ls.map fun l => [l]

theorem satisfiesAll_units (h : ∀ l ∈ ls, l.Holds a) : SatisfiesAll a (units ls) := by
  intro c hc
  obtain ⟨l, hl, rfl⟩ := List.mem_map.1 hc
  exact ⟨l, List.mem_singleton_self l, h l hl⟩

theorem Reachable.addClause_singleton (h : Reachable counting s f) (ha : SatisfiesAll a f)
    (hx : l.var.index < s.varCount) (he : s.hasEliminated l.var = false) (hl : l.Holds a) :
    (s.addClause [l]).1 = .ok true ∧ Reachable counting (s.addClause [l]).2 (f ++ [[l]]) := by
  have hanswer : (s.addClause [l]).1 = .ok (s.addClause [l]).2.okay :=
    Solver.addClause_eq_ok (List.forall_mem_singleton.2 ⟨hx, he⟩)
  have hr : Reachable counting (s.addClause [l]).2 (f ++ [[l]]) :=
    accepted_addClause hanswer ▸ h.call (.addClause [l])
  have hsat : SatisfiesAll a (f ++ [[l]]) :=
    satisfiesAll_append.2 ⟨ha, satisfiesAll_singleton.2 ⟨l, List.mem_singleton_self l, hl⟩⟩
  exact ⟨hanswer.trans (congrArg Except.ok (hr.okay hsat)), hr⟩

/-- The state after literals were added as clauses. -/
structure Fixed (counting : Counting) (s : Solver) (f : List (List Lit)) (ls : List Lit) (t : Solver) : Prop where
  reachable : Reachable counting t (f ++ units ls)
  flags : Solver.SameFlags s t
  eliminated_eq (v : Var) : t.hasEliminated v = s.hasEliminated v
  decisive : s.Decisive → t.Decisive

theorem Reachable.fixed (h : Reachable counting s f) (ha : SatisfiesAll a f)
    (hls : ∀ l ∈ ls, l.var.index < s.varCount ∧ s.hasEliminated l.var = false ∧ l.Holds a) :
    Fixed counting s f ls (Call.runAll s (fixing ls)) := by
  induction ls generalizing s f with
  | nil => exact ⟨by rwa [units, List.map_nil, List.append_nil], .refl s, fun _ => rfl, id⟩
  | cons l ls ih =>
    obtain ⟨hx, he, hl⟩ := hls l List.mem_cons_self
    obtain ⟨-, hr⟩ := h.addClause_singleton ha hx he hl
    have hflags := Solver.addClause_sameFlags h.inv [l]
    have hkept := (Solver.addClause_kept h.inv [l]).eliminated_eq
    have hsat : SatisfiesAll a (f ++ [[l]]) :=
      satisfiesAll_append.2 ⟨ha, satisfiesAll_singleton.2 ⟨l, List.mem_singleton_self l, hl⟩⟩
    have hrest := ih hr hsat fun k hk => by
      rw [hflags.varCount_eq, hkept]
      exact hls k (List.mem_cons_of_mem l hk)
    refine ⟨?_, hflags.trans hrest.flags, fun v => (hrest.eliminated_eq v).trans (hkept v), fun hd => ?_⟩
    · have hreach := hrest.reachable
      rwa [List.append_assoc] at hreach
    · exact hrest.decisive (hd.addClause h.inv [l])

/-! ## Literals of a model -/

/-- **Values of a model can be fixed.** Let a solve call find a model, in a solver that decides on all variables that
are not eliminated. Literals of such variables that are true in the model are added as clauses, in any order. Each of
them is accepted. Without limits the next solve call, whether it simplifies or not, finds a model in which all of them
are true and which satisfies all earlier clauses. -/
theorem model_values_can_be_fixed (h : Reachable counting s f) (simplifyFirst turnOff : Bool)
    (hsat : (s.solveWith simplifyFirst turnOff).1 = .sat) (hd : (s.solveWith simplifyFirst turnOff).2.Decisive)
    (hls : ∀ l ∈ ls, (s.solveWith simplifyFirst turnOff).2.hasEliminated l.var = false ∧
      (s.solveWith simplifyFirst turnOff).2.modelValue l = .ok (some true)) :
    (∀ before l after, ls = before ++ l :: after →
      ((Call.runAll (s.solveWith simplifyFirst turnOff).2 (fixing before)).addClause [l]).1 = .ok true) ∧
    ∀ simplifyAgain turnOffAgain,
      let answer := (Call.runAll (s.solveWith simplifyFirst turnOff).2 (fixing ls)).solveWith simplifyAgain turnOffAgain
      answer.1 = .sat ∧ (∀ l ∈ ls, answer.2.modelValue l = .ok (some true)) ∧
        ∀ c ∈ f, ∃ l ∈ c, answer.2.modelValue l = .ok (some true) := by
  have hr := h.solveWith simplifyFirst turnOff
  obtain ⟨a, ha, hvalue⟩ := h.exists_model hsat fun v => hd.decision
  generalize (s.solveWith simplifyFirst turnOff).2 = t at hls hd hr hvalue
  have hlits : ∀ l ∈ ls, l.var.index < t.varCount ∧ t.hasEliminated l.var = false ∧ l.Holds a := by
    intro l hl
    obtain ⟨he, hv⟩ := hls l hl
    have hx := (Solver.modelValue_eq_ok.1 hv).1
    rw [hvalue l hx, Except.ok.injEq, Option.some_inj] at hv
    exact ⟨hx, he, of_decide_eq_true hv⟩
  refine ⟨fun before l after hsplit => ?_, fun simplifyAgain turnOffAgain => ?_⟩
  · subst hsplit
    have hbefore := fun k hk => hlits k (List.mem_append_left (l :: after) hk)
    obtain ⟨hx, he, hl⟩ := hlits l (List.mem_append_right before List.mem_cons_self)
    have hfixed := hr.fixed ha hbefore
    have hsat' := satisfiesAll_append.2 ⟨ha, satisfiesAll_units fun k hk => (hbefore k hk).2.2⟩
    exact (hfixed.reachable.addClause_singleton hsat' (hfixed.flags.varCount_eq.symm ▸ hx)
      ((hfixed.eliminated_eq l.var).trans he) hl).1
  · have hfixed := hr.fixed ha hlits
    have hsat' := satisfiesAll_append.2 ⟨ha, satisfiesAll_units fun l hl => (hlits l hl).2.2⟩
    have hdu := hfixed.decisive hd
    have hanswer := hfixed.reachable.solveWith_eq_sat hdu hsat' simplifyAgain turnOffAgain
    have hdecision {v : Var} := (hdu.solveWith hfixed.reachable simplifyAgain turnOffAgain).decision (v := v)
    have hclauses {c : List Lit} := hfixed.reachable.exists_true_literal hanswer (fun _ => hdecision) (c := c)
    refine ⟨hanswer, fun l hl => ?_, fun c hc => hclauses (List.mem_append_left _ hc)⟩
    obtain ⟨k, hk, hv⟩ := hclauses (List.mem_append_right f (List.mem_map_of_mem hl))
    obtain rfl := List.mem_singleton.1 hk
    exact hv

/-- Two of three variables are eliminated. The third one keeps its value, and the clauses stay satisfied. -/
theorem model_values_can_be_fixed_fork :
    let t := (forkSolver.solveWith true false).2
    t.hasEliminated ⟨0⟩ = true ∧ t.modelValue ⟨3⟩ = .ok (some true) ∧ (t.addClause [⟨3⟩]).1 = .ok true ∧
      ((t.addClause [⟨3⟩]).2.solveWith true true).2.modelValue ⟨3⟩ = .ok (some true) ∧
        ∀ c ∈ [[⟨0⟩, ⟨2⟩, ⟨4⟩], [⟨0⟩, ⟨2⟩, ⟨5⟩]], ∃ l ∈ c,
          ((t.addClause [⟨3⟩]).2.solveWith true true).2.modelValue l = .ok (some true) := by
  have hsat : (forkSolver.solveWith true false).1 = .sat := by decide +kernel
  have hd : ∀ i < (forkSolver.solveWith true false).2.varCount,
      (infoOf (forkSolver.solveWith true false).2.vars ⟨i⟩).decision = true := by decide +kernel
  have hv : (forkSolver.solveWith true false).2.modelValue ⟨3⟩ = .ok (some true) :=
    Solver.modelValue_eq_ok.2 (by decide +kernel)
  have hls : ∀ l ∈ [⟨3⟩], (forkSolver.solveWith true false).2.hasEliminated l.var = false ∧
      (forkSolver.solveWith true false).2.modelValue l = .ok (some true) := by
    intro l hl
    obtain rfl := List.mem_singleton.1 hl
    exact ⟨by decide +kernel, hv⟩
  obtain ⟨hadd, hsolve⟩ := model_values_can_be_fixed reachable_fork true false hsat
    ⟨fun {v} hx _ => hd v.index hx, by decide +kernel, by decide +kernel⟩ hls
  obtain ⟨-, hfixed, hclauses⟩ := hsolve true true
  exact ⟨by decide +kernel, hv, hadd [] _ [] rfl, hfixed _ (List.mem_singleton_self _), hclauses⟩

end ClauseLearning
