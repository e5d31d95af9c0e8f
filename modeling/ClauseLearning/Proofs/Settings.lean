import ClauseLearning.Proofs.Unlimited

/-!
# The settings in force

* `Config.update`, `Config.Accepted` : the update that gives all values of a configuration, and the configurations whose
  values an update may give;
* `Solver.SameSettings`, `Call.run_sameSettings` : just updates change the configuration;
* `Reachable.settings` : what calls leave in force.
-/

namespace ClauseLearning

/-! ## Configurations -/

/-- The update that gives all values of a configuration. -/
def Config.update (c : Config) : ConfigUpdate where
  vsidsDecay := some c.vsidsDecay
  clauseActivityDecay := some c.clauseActivityDecay
  reduceLocalsInterval := some c.reduceLocalsInterval
  reduceMidsInterval := some c.reduceMidsInterval
  lubyRestartIntervalScale := some c.lubyRestartIntervalScale
  elimGrowLimit := some c.elimGrowLimit
  elimResolventLimit := some c.elimResolventLimit
  elimOccurrenceLimit := some c.elimOccurrenceLimit
  subsumptionLimit := some c.subsumptionLimit

/-- All values pass the checks of updates. -/
def Config.Accepted (c : Config) : Prop := c.update.problem? = none

namespace ConfigUpdate

variable {setting : String} {u : ConfigUpdate} {c c' : Config}

theorem decayProblem?_getD {new : Option Float32} {old : Float32} (hn : decayProblem? setting new = none)
    (ho : decayProblem? setting (some old) = none) : decayProblem? setting (some (new.getD old)) = none := by
  cases new with
  | none => exact ho
  | some d => exact hn

theorem intervalProblem?_getD {new : Option UInt64} {old : UInt64} (hn : intervalProblem? setting new = none)
    (ho : intervalProblem? setting (some old) = none) : intervalProblem? setting (some (new.getD old)) = none := by
  cases new with
  | none => exact ho
  | some n => exact hn

end ConfigUpdate

namespace Config.Accepted

variable {u : ConfigUpdate} {c c' : Config}

theorem default : ({} : Config).Accepted := rfl

theorem apply_update (h : c.Accepted) (c' : Config) : c.update.apply c' = .ok c := by
  rw [ConfigUpdate.apply, h]
  rfl

theorem apply (h : c.Accepted) (hu : u.apply c = .ok c') : c'.Accepted := by
  unfold ConfigUpdate.apply at hu
  cases hp : u.problem? with
  | some problem =>
    rw [hp] at hu
    cases hu
  | none =>
    rw [hp] at hu
    cases hu
    obtain ⟨h1, h2, h3, h4, h5⟩ := ConfigUpdate.problem?_eq_none_iff.1 hp
    obtain ⟨g1, g2, g3, g4, g5⟩ := ConfigUpdate.problem?_eq_none_iff.1 h
    exact ConfigUpdate.problem?_eq_none_iff.2
      ⟨ConfigUpdate.decayProblem?_getD h1 g1, ConfigUpdate.decayProblem?_getD h2 g2,
        ConfigUpdate.intervalProblem?_getD h3 g3, ConfigUpdate.intervalProblem?_getD h4 g4,
        ConfigUpdate.intervalProblem?_getD h5 g5⟩

theorem clauseActivityDecay (h : c.Accepted) : ConfigUpdate.decayInRange c.clauseActivityDecay := by
  obtain ⟨-, hd, -⟩ := ConfigUpdate.problem?_eq_none_iff.1 h
  change (if _ then _ else _) = none at hd
  by_contra hr
  rw [if_neg hr] at hd
  cases hd

end Config.Accepted

/-! ## What is in force -/

namespace Solver

variable {s s' s'' : Solver}

/-- The configuration stays, and the way to count. -/
structure SameSettings (s s' : Solver) : Prop where
  config_eq : s'.config = s.config
  counting_eq : s'.schedule.counting = s.schedule.counting

theorem SameSettings.trans (h : SameSettings s s') (h' : SameSettings s' s'') : SameSettings s s'' :=
  ⟨h'.config_eq.trans h.config_eq, h'.counting_eq.trans h.counting_eq⟩

theorem SameTimes.sameSettings (h : SameTimes s s') : SameSettings s s' :=
  ⟨h.config_eq, congrArg Schedule.counting h.schedule_eq⟩

theorem counting_planned (s : Solver) : s.planned.counting = s.schedule.counting := by
  unfold planned
  split <;> rfl

theorem searchFuel_sameSettings {fuel : Nat} (h : s.Inv) : SameSettings s (searchFuel fuel s) := by
  induction fuel generalizing s with
  | zero => exact ⟨rfl, rfl⟩
  | succ fuel ih =>
    rw [searchFuel]
    cases hstep : s.step with
    | mk goOn s' =>
      cases goOn with
      | true =>
        obtain ⟨-, -, hs⟩ := step_true h hstep
        have hsame : SameSettings s s' :=
          ⟨hs.searched.config_eq, hs.plan.counting_eq.trans s.counting_planned⟩
        exact hsame.trans (ih hs.searched.inv)
      | false =>
        have hs := step_false h hstep
        exact SameTimes.sameSettings ⟨hs.searched.config_eq, hs.schedule_eq⟩

theorem searchStart_sameSettings (h : s.Inv) (simplifyFirst turnOff : Bool) :
    SameSettings s (s.searchStart simplifyFirst turnOff) := by
  have hfirst : SameSettings s (if simplifyFirst then (s.eliminate turnOff).2 else s) := by
    cases simplifyFirst with
    | false => exact ⟨rfl, rfl⟩
    | true => exact (eliminate_sameTimes h turnOff).sameSettings
  exact ⟨hfirst.config_eq, hfirst.counting_eq⟩

theorem solveWith_sameSettings (h : s.Inv) (simplifyFirst turnOff : Bool) :
    SameSettings s (s.solveWith simplifyFirst turnOff).2 := by
  have hstart := searchStart_sameSettings h simplifyFirst turnOff
  have hi := (searchStart_called h simplifyFirst turnOff).1.inv
  rw [solveWith_eq]
  exact (hstart.trans (searchFuel_sameSettings hi)).trans (conclude_sameTimes _).sameSettings

end Solver

open Solver (SameSettings)

variable {counting : Counting} {s : Solver} {f : List (List Lit)}

/-- Just updates change the configuration. -/
theorem Call.run_sameSettings (c : Call) (h : s.Inv) :
    SameSettings s (c.run s) ∨ ∃ u, c = .configure u ∧ (s.configure u).2 = c.run s := by
  cases c with
  | newVar polarity decision => exact .inl (s.allocate_sameTimes _).sameSettings
  | setDecision v decision => exact .inl (s.setDecision_sameTimes v decision).sameSettings
  | setFrozen v frozen => exact .inl (s.setFrozen_sameTimes v frozen).sameSettings
  | addClause ls => exact .inl (s.addClause_sameTimes ls).sameSettings
  | addFormula fml =>
    exact .inl ((s.ensureVarCount_sameTimes fml.varCount).trans (Solver.addClauses_sameTimes _ _)).sameSettings
  | configure u => exact .inr ⟨u, rfl, rfl⟩
  | setDecisionLimit limit => exact .inl ⟨rfl, rfl⟩
  | setConflictLimit limit => exact .inl ⟨rfl, rfl⟩
  | simplify => exact .inl (Solver.simplifyFormula_sameTimes h false).sameSettings
  | eliminate turnOff => exact .inl (Solver.eliminate_sameTimes h turnOff).sameSettings
  | solve => exact .inl (Solver.solveWith_sameSettings h false false)
  | solveWith simplifyFirst turnOff => exact .inl (Solver.solveWith_sameSettings h simplifyFirst turnOff)

theorem Solver.configure_accepted (h : s.config.Accepted) (u : ConfigUpdate) :
    (s.configure u).2.config.Accepted ∧ (s.configure u).2.schedule = s.schedule := by
  unfold configure
  cases hu : u.apply s.config with
  | error err => exact ⟨h, rfl⟩
  | ok config => exact ⟨h.apply hu, rfl⟩

/-- In every state that calls lead to, the configuration passes the checks of updates, and counting goes on as it
began. -/
theorem Reachable.settings (h : Reachable counting s f) : s.config.Accepted ∧ s.schedule.counting = counting := by
  induction h with
  | start => exact ⟨Config.Accepted.default, rfl⟩
  | @call s f c h ih =>
    rcases c.run_sameSettings h.inv with hc | ⟨u, -, hc⟩
    · exact ⟨hc.config_eq ▸ ih.1, hc.counting_eq.trans ih.2⟩
    · obtain ⟨h1, h2⟩ := Solver.configure_accepted ih.1 u
      rw [← hc, h2]
      exact ⟨h1, ih.2⟩
  | reset _ ih => exact ih

end ClauseLearning
