import ClauseLearning.Proofs.Session

/-!
# The moments of a run

Between two calls a solver is in a `Reachable` state. Inside of a call it goes through further states, in which it
propagates, decides or begins another step of its search.

* `Solver.Simplifying`, `Solver.Searching`, `Solver.Deciding` : the states in which simplification propagates, between
  the steps of a search, and in which the search for a conflict propagates;
* `Solver.LastTurn` : how the search for a conflict ends in the last of these (`Solver.findConflict_lastTurn`);
* `Moment` : the states of a run at which the trail, the clauses and the watch lists are at rest. Those in which a run
  propagates are among them;
* `Moment.inv` : the invariant holds at every moment.
-/

namespace ClauseLearning

namespace Solver

variable {s t : Solver}

/-- The states in which `Solver.simplifyFormula` propagates. -/
inductive Simplifying (eliminate : Bool) (s : Solver) : Solver → Prop
  | start : Simplifying eliminate s s
  | subsumed {t : Solver} : s.settleFacts = (true, t) → Simplifying eliminate s t.subsume
  | eliminated {t u : Solver} : s.settleFacts = (true, t) → t.subsume.settleFacts = (true, u) →
    (eliminate && !u.eliminationOff) = true → Simplifying eliminate s u.eliminateVars

/-- The states before, between and after the steps of a search. -/
inductive Searching (s : Solver) : Solver → Prop
  | start : Searching s s
  | step {t u : Solver} : Searching s t → t.step = (true, u) → Searching s u

/-- The states in which `Solver.findConflict` propagates: the first one, and one after each decision. -/
inductive Deciding (s : Solver) : Solver → Prop
  | start : Deciding s s
  | decision {t u v : Solver} : Deciding s t → t.propagate = (none, u) →
    u.tidyOnLevelZero.schedule.decisionLimitReached = false → u.tidyOnLevelZero.makeDecision = (true, v) →
      Deciding s { v with schedule := v.schedule.countDecision }

theorem Simplifying.inv {eliminate : Bool} (h : s.Inv) (h0 : s.prop.trail.currentLevel = 0)
    (ht : Simplifying eliminate s t) : t.Inv := by
  cases ht with
  | start => exact h
  | subsumed h1 => exact (subsumed_spec h h0 h1).1
  | eliminated h1 h2 _ =>
    obtain ⟨hi, -, hidle⟩ := resettled_spec h h0 h1 h2
    exact (eliminateVars_spec hi hidle).1

theorem Searching.searched (h : s.Inv) (ht : Searching s t) : Searched s t := by
  induction ht with
  | start => exact Searched.refl h
  | step _ hstep ih => exact ih.trans (step_true ih.inv hstep).2.2.searched

theorem Searching.trans {u : Solver} (h : Searching s t) (h' : Searching t u) : Searching s u := by
  induction h' with
  | start => exact h
  | step _ hstep ih => exact ih.step hstep

theorem Deciding.searched (h : s.Inv) (ht : Deciding s t) : Searched s t := by
  induction ht with
  | start => exact Searched.refl h
  | @decision _ _ v _ hp _ hd ih =>
    obtain ⟨h1, hout⟩ := propagate_searched ih.inv
    rw [hp] at h1 hout
    obtain ⟨h2, -, -, hen, hcomp⟩ := tidyOnLevelZero_spec h1.inv hout.enabled (hout.complete rfl)
    have h3 := (makeDecision_true h2.inv hen hcomp hd).1
    have h4 : Searched v { v with schedule := v.schedule.countDecision } :=
      searched_of_core h3.inv rfl rfl rfl Iff.rfl
    exact ((ih.trans (h1.trans h2)).trans h3).trans h4

theorem Deciding.trans {u : Solver} (h : Deciding s t) (h' : Deciding t u) : Deciding s u := by
  induction h' with
  | start => exact h
  | decision _ hp hl hd ih => exact ih.decision hp hl hd

/-- The last turn of the search for a conflict: a clause is false, the decision limit is reached, or no decision is
left. -/
inductive LastTurn (s : Solver) : Outcome × Solver → Prop
  | conflict {r : ClauseRef} {t : Solver} : s.propagate = (some r, t) → LastTurn s (.conflict r, t)
  | interrupted {t : Solver} : s.propagate = (none, t) → t.tidyOnLevelZero.schedule.decisionLimitReached = true →
    LastTurn s (.interrupted, t.tidyOnLevelZero)
  | model {t u : Solver} : s.propagate = (none, t) → t.tidyOnLevelZero.schedule.decisionLimitReached = false →
    t.tidyOnLevelZero.makeDecision = (false, u) → LastTurn s (.model, u)

theorem findConflictFuel_lastTurn {fuel : Nat} (h : s.Inv) (hf : unassignedCount s.varCount s.prop.trail < fuel) :
    ∃ t, s.Deciding t ∧ t.LastTurn (findConflictFuel fuel s) := by
  induction fuel generalizing s with
  | zero => exact absurd hf (Nat.not_lt_zero _)
  | succ fuel ih =>
    obtain ⟨h1, hout⟩ := propagate_searched h
    have he1 : Extends s.prop.trail s.propagate.2.prop.trail := Extends.of_advance hout.advance
    rw [findConflictFuel]
    generalize hp : s.propagate = out at h1 hout he1
    obtain ⟨conflict, s₁⟩ := out
    cases conflict with
    | some r => exact ⟨s, .start, .conflict hp⟩
    | none =>
      obtain ⟨h2, -, he2, hen, hcomp⟩ := tidyOnLevelZero_spec h1.inv hout.enabled (hout.complete rfl)
      dsimp only
      split
      · next hlim => exact ⟨s, .start, .interrupted hp hlim⟩
      · next hlim =>
        have hlim' := Bool.eq_false_iff.2 hlim
        cases hd : s₁.tidyOnLevelZero.makeDecision with
        | mk found s₂ =>
          cases found with
          | false => exact ⟨s, .start, .model hp hlim' hd⟩
          | true =>
            -- the decision leaves fewer variables unassigned
            obtain ⟨h3, -, he3, v, hx, hu, hv⟩ := makeDecision_true h2.inv hen hcomp hd
            have hturn : s.Deciding { s₂ with schedule := s₂.schedule.countDecision } :=
              Deciding.start.decision hp hlim' hd
            have hs := hturn.searched h
            have hlt := unassignedCount_lt he3 hx hu hv
            have hle := unassignedCount_mono s.varCount (he1.trans he2)
            rw [(h1.trans h2).varCount_eq] at hlt
            obtain ⟨t, ht, hlast⟩ := ih hs.inv (by
              rw [hs.varCount_eq]
              show unassignedCount s.varCount s₂.prop.trail < fuel
              omega)
            exact ⟨t, hturn.trans ht, hlast⟩

theorem findConflict_lastTurn (h : s.Inv) : ∃ t, s.Deciding t ∧ t.LastTurn s.findConflict :=
  findConflictFuel_lastTurn h (Nat.lt_succ_of_le (unassignedCount_le _ _))

theorem reduceIfDue_restartIfDue_searched (h : s.Inv) : Searched s s.restartIfDue.reduceIfDue := by
  have h1 := (restartIfDue_spec h).1
  exact h1.trans (reduceIfDue_bumped h1.inv).1.searched

end Solver

/-- The states of a run: between calls, after a clause was stored, and in simplification and search. A clause is added
by itself or after others of a formula. -/
inductive Moment (counting : Counting) : Solver → Prop
  | call {s : Solver} {f : List (List Lit)} : Reachable counting s f → Moment counting s
  | load {s t : Solver} {f cs : List (List Lit)} {n : Nat} {ls : List Lit} : Reachable counting s f →
    (Solver.addClauses cs (s.ensureVarCount n)).2 = t → t.checkClause ls = .ok () → Moment counting (t.load ls)
  | simplify {s t : Solver} {f : List (List Lit)} {eliminate : Bool} : Reachable counting s f →
    s.rewind.Simplifying eliminate t → Moment counting t
  | search {s t : Solver} {f : List (List Lit)} {simplifyFirst turnOff : Bool} : Reachable counting s f →
    (s.searchStart simplifyFirst turnOff).Searching t → Moment counting t
  | decide {s t u : Solver} {f : List (List Lit)} {simplifyFirst turnOff : Bool} : Reachable counting s f →
    (s.searchStart simplifyFirst turnOff).Searching t → t.step.1 = true → t.restartIfDue.reduceIfDue.Deciding u →
      Moment counting u

theorem Moment.inv {counting : Counting} {s : Solver} (h : Moment counting s) : s.Inv := by
  cases h with
  | call h => exact h.inv
  | @load _ _ _ cs n _ h ht hc =>
    have h1 := Solver.ensureVarCount_called h.inv n
    have h2 := ((h.represents.called h1).addClauses cs h1.inv).1
    rw [ht] at h2
    exact (Solver.load_added h2 (Solver.checkClause_eq_ok.1 hc)).inv
  | simplify h ht => exact ht.inv (Solver.rewind_searched h.inv).inv (Solver.currentLevel_rewind _)
  | search h ht => exact (ht.searched (Solver.searchStart_called h.inv _ _).1.inv).inv
  | decide h ht _ hu =>
    have hs := (ht.searched (Solver.searchStart_called h.inv _ _).1.inv).inv
    exact (hu.searched (Solver.reduceIfDue_restartIfDue_searched hs).inv).inv

end ClauseLearning
