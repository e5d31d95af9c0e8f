import ClauseLearning.Proofs.Moments
import ClauseLearning.Proofs.Unlimited
import ClauseLearning.Proofs.Unscheduled

/-!
# Limits are kept, and nothing else ends a search without a verdict

* `Schedule.Counted`, `Schedule.later` : some decisions and conflicts later in the same search;
* `Schedule.Within` : a limit that is not exceeded. What reaches it has used it up;
* `Solver.searchFuel_counted` : a search counts what it does, and leaves its limits as they are;
* `Solver.Metered` : the search has counted no more than its limits allow, and it was interrupted only where a limit was
  reached. A model was found only where none was. Every step keeps this up (`Solver.step_metered`);
* `solveWith_within_limits` : no solve call makes more decisions or meets more conflicts than allowed, and one that
  does not know the answer used a limit up.
-/

namespace ClauseLearning

namespace Schedule

variable {a b e : Schedule} {d c d' c' n : Nat} {limit : Option Nat}

/-- `d` decisions and `c` conflicts later in the same search. -/
structure Counted (d c : Nat) (a b : Schedule) : Prop where
  decisions_eq : b.decisions = a.decisions + d
  conflicts_eq : b.conflicts = a.conflicts + c
  searchDecisions_eq : b.searchDecisions = a.searchDecisions + d
  searchConflicts_eq : b.searchConflicts = a.searchConflicts + c
  decisionLimit_eq : b.decisionLimit = a.decisionLimit
  conflictLimit_eq : b.conflictLimit = a.conflictLimit

theorem Counted.refl (a : Schedule) : Counted 0 0 a a := ⟨rfl, rfl, rfl, rfl, rfl, rfl⟩

theorem Counted.trans (h : Counted d c a b) (h' : Counted d' c' b e) : Counted (d + d') (c + c') a e where
  decisions_eq := by rw [h'.decisions_eq, h.decisions_eq, Nat.add_assoc]
  conflicts_eq := by rw [h'.conflicts_eq, h.conflicts_eq, Nat.add_assoc]
  searchDecisions_eq := by rw [h'.searchDecisions_eq, h.searchDecisions_eq, Nat.add_assoc]
  searchConflicts_eq := by rw [h'.searchConflicts_eq, h.searchConflicts_eq, Nat.add_assoc]
  decisionLimit_eq := h'.decisionLimit_eq.trans h.decisionLimit_eq
  conflictLimit_eq := h'.conflictLimit_eq.trans h.conflictLimit_eq

theorem Counted.conflictLimitReached_eq (h : Counted d 0 a b) : b.conflictLimitReached = a.conflictLimitReached := by
  unfold Schedule.conflictLimitReached
  rw [h.conflictLimit_eq, h.searchConflicts_eq, Nat.add_zero]

/-- `d` decisions and `c` conflicts later in the same search, with nothing else changed. -/
def later (a : Schedule) (d c : Nat) : Schedule :=
  { a with
    decisions := a.decisions + d
    conflicts := a.conflicts + c
    searchDecisions := a.searchDecisions + d
    searchConflicts := a.searchConflicts + c }

theorem later_later (a : Schedule) (d c d' c' : Nat) : (a.later d c).later d' c' = a.later (d + d') (c + c') := by
  simp only [later, Nat.add_assoc]

theorem counted_later (a : Schedule) (d c : Nat) : Counted d c a (a.later d c) := ⟨rfl, rfl, rfl, rfl, rfl, rfl⟩

theorem counted_planRestart (a : Schedule) (scale : UInt64) : Counted 0 0 a (a.planRestart scale) :=
  ⟨rfl, rfl, rfl, rfl, rfl, rfl⟩

/-- A limit that is not exceeded. -/
def Within (limit : Option Nat) (used : Nat) : Prop := ∀ n ∈ limit, used ≤ n

theorem reached_eq_false : reached limit n = false ↔ ∀ m ∈ limit, n < m := by
  cases limit <;> simp [reached]

theorem within_succ (h : reached limit n = false) : Within limit (n + 1) := reached_eq_false.1 h

theorem Within.eq_some (h : Within limit n) (hr : reached limit n = true) : limit = some n := by
  cases limit with
  | none => cases hr
  | some m =>
    have h1 : n ≤ m := h m rfl
    have h2 : m ≤ n := by simpa [reached] using hr
    rw [Nat.le_antisymm h1 h2]

end Schedule

namespace Solver

open Schedule (Counted Within)

variable {s s' t : Solver} {d c k : Nat}

/-! ## Counting -/

theorem schedule_findConflictFuel (fuel : Nat) (s : Solver) :
    ∃ d, (findConflictFuel fuel s).2.schedule = s.schedule.later d 0 := by
  induction fuel generalizing s with
  | zero => exact ⟨0, rfl⟩
  | succ fuel ih =>
    rw [findConflictFuel]
    cases hp : s.propagate with
    | mk conflict t =>
      have ht := schedule_of_propagate hp
      cases conflict with
      | some r => exact ⟨0, ht⟩
      | none =>
        have hu := (schedule_tidyOnLevelZero t).trans ht
        dsimp only
        split
        · exact ⟨0, hu⟩
        · cases hd : t.tidyOnLevelZero.makeDecision with
          | mk made v =>
            have hv := (schedule_of_makeDecision hd).trans hu
            cases made with
            | false => exact ⟨0, hv⟩
            | true =>
              obtain ⟨d, hc⟩ := ih { v with schedule := v.schedule.countDecision }
              refine ⟨1 + d, hc.trans ?_⟩
              rw [← hv]
              exact v.schedule.later_later 1 0 d 0

theorem findConflictFuel_counted (fuel : Nat) (s : Solver) :
    ∃ d, Counted d 0 s.schedule (findConflictFuel fuel s).2.schedule := by
  obtain ⟨d, h⟩ := schedule_findConflictFuel fuel s
  exact ⟨d, h ▸ s.schedule.counted_later d 0⟩

theorem findConflict_counted (s : Solver) : ∃ d, Counted d 0 s.schedule s.findConflict.2.schedule :=
  findConflictFuel_counted (s.varCount + 1) s

/-- One conflict is counted, unless a model is found before or a limit reached. The plan for restarts stays. -/
theorem schedule_conflictStep (s : Solver) : ∃ d c, c ≤ 1 ∧ s.conflictStep.schedule = s.schedule.later d c ∧
    (c = 0 → s.conflictStep.status = .sat ∨ s.conflictStep.interrupted = true) := by
  obtain ⟨d, h⟩ := schedule_findConflictFuel (s.varCount + 1) s
  change s.findConflict.2.schedule = _ at h
  unfold conflictStep
  generalize s.findConflict = out at h
  obtain ⟨outcome, t⟩ := out
  cases outcome with
  | model => exact ⟨d, 0, Nat.zero_le 1, h, fun _ => Or.inl rfl⟩
  | interrupted => exact ⟨d, 0, Nat.zero_le 1, h, fun _ => Or.inr rfl⟩
  | conflict r =>
    refine ⟨d, 1, Nat.le_refl 1, ?_, fun h => (nomatch h)⟩
    dsimp only
    rw [schedule_learn]
    exact congrArg Schedule.countConflict h

theorem conflictStep_counted (s : Solver) : ∃ d c, Counted d c s.schedule s.conflictStep.schedule ∧
    (c = 0 → s.conflictStep.status = .sat ∨ s.conflictStep.interrupted = true) := by
  obtain ⟨d, c, -, h, hover⟩ := s.schedule_conflictStep
  exact ⟨d, c, h ▸ s.schedule.counted_later d c, hover⟩

theorem schedule_reduceIfDue (s : Solver) : s.reduceIfDue.schedule = s.schedule := by
  unfold reduceIfDue
  dsimp only
  split <;> split <;> rfl

theorem restartIfDue_counted (s : Solver) : Counted 0 0 s.schedule s.restartIfDue.schedule := by
  unfold restartIfDue
  split
  · dsimp only
    split <;> exact Schedule.counted_planRestart _ _
  · exact Counted.refl _

theorem begun_counted (s : Solver) : Counted 0 0 s.schedule s.restartIfDue.reduceIfDue.schedule := by
  rw [schedule_reduceIfDue]
  exact s.restartIfDue_counted

theorem step_counted (s : Solver) : ∃ d c, Counted d c s.schedule s.step.2.schedule := by
  unfold step
  split
  · exact ⟨0, 0, Counted.refl _⟩
  · split
    · exact ⟨0, 0, Counted.refl _⟩
    · obtain ⟨d, c, hc, -⟩ := s.restartIfDue.reduceIfDue.conflictStep_counted
      exact ⟨0 + d, 0 + c, s.begun_counted.trans hc⟩

theorem searchFuel_counted (fuel : Nat) (s : Solver) :
    ∃ d c, Counted d c s.schedule (searchFuel fuel s).schedule := by
  induction fuel generalizing s with
  | zero => exact ⟨0, 0, Counted.refl _⟩
  | succ fuel ih =>
    obtain ⟨d, c, hc⟩ := s.step_counted
    rw [searchFuel]
    cases hstep : s.step with
    | mk goOn t =>
      rw [hstep] at hc
      cases goOn with
      | false => exact ⟨d, c, hc⟩
      | true =>
        obtain ⟨d', c', hc'⟩ := ih t
        exact ⟨d + d', c + c', hc.trans hc'⟩

/-! ## Limits -/

theorem Deciding.within (ht : s.Deciding t) (hs : Within s.schedule.decisionLimit s.schedule.searchDecisions) :
    Within t.schedule.decisionLimit t.schedule.searchDecisions := by
  induction ht with
  | start => exact hs
  | @decision t u v _ _ hl hd _ =>
    show Within v.schedule.decisionLimit (v.schedule.searchDecisions + 1)
    rw [schedule_of_makeDecision hd]
    exact Schedule.within_succ hl

theorem LastTurn.within {out : Outcome × Solver} (h : s.LastTurn out)
    (hs : Within s.schedule.decisionLimit s.schedule.searchDecisions) :
    Within out.2.schedule.decisionLimit out.2.schedule.searchDecisions ∧
      (out.1 = .interrupted → out.2.schedule.decisionLimitReached = true) ∧
        (out.1 = .model → out.2.schedule.decisionLimitReached = false) := by
  cases h with
  | @conflict r t hp =>
    rw [← schedule_of_propagate hp] at hs
    exact ⟨hs, fun h => (nomatch h), fun h => (nomatch h)⟩
  | @interrupted t hp hl =>
    rw [← schedule_of_propagate hp, ← schedule_tidyOnLevelZero t] at hs
    exact ⟨hs, fun _ => hl, fun h => (nomatch h)⟩
  | @model t u hp hl hd =>
    rw [← schedule_of_propagate hp, ← schedule_tidyOnLevelZero t, ← schedule_of_makeDecision hd] at hs
    rw [← schedule_of_makeDecision hd] at hl
    exact ⟨hs, fun h => (nomatch h), fun _ => hl⟩

/-- A search that keeps its limits. It is interrupted only where one is reached, without a verdict, and finds a model
only where none is. -/
structure Metered (s : Solver) : Prop where
  decisions : Within s.schedule.decisionLimit s.schedule.searchDecisions
  conflicts : Within s.schedule.conflictLimit s.schedule.searchConflicts
  interrupted : s.interrupted = true → s.status = .unknown ∧
    (s.schedule.decisionLimitReached = true ∨ s.schedule.conflictLimitReached = true)
  model : s.status = .sat → s.schedule.decisionLimitReached = false ∧ s.schedule.conflictLimitReached = false

theorem learn_metered {r : ClauseRef} (h : s.Inv) (hm : s.Metered) (hc : s.prop.Conflict r)
    (he : s.prop.watches.enabled = true) (hs : s.status = .unknown) (hi : s.interrupted = false)
    (hl : s.schedule.conflictLimitReached = false) :
    ({ s with schedule := s.schedule.countConflict }.learn r).Metered := by
  have hcount : Searched s { s with schedule := s.schedule.countConflict } :=
    searched_of_core h rfl rfl rfl Iff.rfl
  have htaught := learn_spec hcount.inv he hc
  have hlearn := schedule_learn { s with schedule := s.schedule.countConflict } r
  generalize Solver.learn _ r = t at htaught hlearn
  refine ⟨?_, ?_, fun h => (nomatch (htaught.counters.interrupted_eq.trans hi).symm.trans h), fun h => ?_⟩
  · rw [hlearn]
    exact hm.decisions
  · rw [hlearn]
    exact Schedule.within_succ hl
  · by_cases h0 : s.prop.trail.currentLevel = 0
    · exact nomatch (htaught.unsat h0).symm.trans h
    · exact nomatch ((htaught.control (Nat.pos_of_ne_zero h0)).1.status_eq.trans hs).symm.trans h

theorem conflictStep_metered (h : s.Inv) (hm : s.Metered) (hs : s.status = .unknown) (hi : s.interrupted = false)
    (hl : s.schedule.conflictLimitReached = false) : s.conflictStep.Metered := by
  obtain ⟨t, ht, hlast⟩ := findConflict_lastTurn h
  obtain ⟨hw, hinterrupted, hmodel⟩ := hlast.within (ht.within hm.decisions)
  obtain ⟨d, hc⟩ := s.findConflict_counted
  have hf := findConflict_spec h
  unfold conflictStep
  generalize s.findConflict = out at hf hw hinterrupted hmodel hc
  obtain ⟨outcome, u⟩ := out
  dsimp only at hw hinterrupted hmodel hc
  have hu : u.interrupted = false := hf.control.interrupted_eq.trans hi
  have hus : u.status = .unknown := hf.control.status_eq.trans hs
  have hul : u.schedule.conflictLimitReached = false := hc.conflictLimitReached_eq.trans hl
  have huw : Within u.schedule.conflictLimit u.schedule.searchConflicts :=
    fun n hn => Nat.le_of_lt (Schedule.reached_eq_false.1 hul n hn)
  have hum : u.Metered := ⟨hw, huw, fun h => (nomatch hu.symm.trans h), fun h => (nomatch hus.symm.trans h)⟩
  cases outcome with
  | model => exact ⟨hw, huw, fun h => (nomatch hu.symm.trans h), fun _ => ⟨hmodel rfl, hul⟩⟩
  | interrupted => exact ⟨hw, huw, fun _ => ⟨hus, Or.inl (hinterrupted rfl)⟩, hum.model⟩
  | conflict r => exact learn_metered hf.searched.inv hum (hf.conflict rfl) hf.enabled hus hu hul

theorem step_metered (h : s.Inv) (hm : s.Metered) : s.step.2.Metered := by
  unfold step
  split
  · exact hm
  · next hgo =>
    rw [not_or, Classical.not_not, Bool.not_eq_true] at hgo
    obtain ⟨hs, hi⟩ := hgo
    split
    · next hl => exact ⟨hm.decisions, hm.conflicts, fun _ => ⟨hs, Or.inr hl⟩, fun h => (nomatch hs.symm.trans h)⟩
    · next hl =>
      obtain ⟨h1, -, h3, h4, -⟩ := restartIfDue_spec h
      obtain ⟨h5, -⟩ := reduceIfDue_bumped h1.inv
      have hc := s.begun_counted
      have hst := h5.control.status_eq.trans (h3.trans hs)
      have hin := h5.control.interrupted_eq.trans (h4.trans hi)
      dsimp only
      generalize s.restartIfDue.reduceIfDue = t at h5 hc hst hin
      have hlt : t.schedule.conflictLimitReached = false :=
        hc.conflictLimitReached_eq.trans (Bool.eq_false_iff.2 hl)
      refine conflictStep_metered h5.searched.inv ?_ hst hin hlt
      refine ⟨?_, ?_, fun h => (nomatch hin.symm.trans h), fun h => (nomatch hst.symm.trans h)⟩
      · rw [hc.decisionLimit_eq, hc.searchDecisions_eq]
        exact hm.decisions
      · rw [hc.conflictLimit_eq, hc.searchConflicts_eq]
        exact hm.conflicts

theorem Searching.metered (h : s.Inv) (hm : s.Metered) (ht : s.Searching t) : t.Metered := by
  induction ht with
  | start => exact hm
  | step ht hstep ih =>
    have hm' := step_metered (ht.searched h).inv ih
    rw [hstep] at hm'
    exact hm'

/-! ## Searches -/

theorem verdict_eq_unknown : s.verdict = .unknown ↔ s.status = .unknown := by
  unfold verdict
  cases s.status <;> simp

theorem searching_afterSteps (hk : ∀ i < k, (afterSteps i s).step.1 = true) : s.Searching (afterSteps k s) := by
  induction k generalizing s with
  | zero => exact .start
  | succ k ih =>
    have hgo : s.step = (true, s.step.2) := Prod.ext (hk 0 (Nat.succ_pos k)) rfl
    exact (Searching.start.step hgo).trans (ih fun i hi => hk (i + 1) (Nat.succ_lt_succ hi))

theorem search_lastStep (h : s.Inv) (ht : s.Timed) : ∃ t, s.Searching t ∧ t.step.1 = false ∧ s.search = t.step.2 := by
  obtain ⟨m, hm, hhalts⟩ := haltsWithin_stepBound h ht
  obtain ⟨k, h1, h2, h3⟩ := hhalts.exists_steps hm
  exact ⟨afterSteps k s, searching_afterSteps h1, h2, h3⟩

theorem step_false_over (hs : s.step.1 = false) : s.step.2.status ≠ .unknown ∨ s.step.2.interrupted = true := by
  unfold step at hs ⊢
  split
  · next hover => exact hover
  · split
    · exact Or.inr rfl
    · next h1 h2 =>
      rw [if_neg h1, if_neg h2] at hs
      cases hs

theorem search_metered (h : s.Inv) (ht : s.Timed) (hm : s.Metered) :
    s.search.Metered ∧ (s.search.status ≠ .unknown ∨ s.search.interrupted = true) := by
  obtain ⟨t, h1, h2, h3⟩ := search_lastStep h ht
  rw [h3]
  exact ⟨step_metered (h1.searched h).inv (h1.metered h hm), step_false_over h2⟩

theorem searchStart_metered (h : s.Inv) (ht : s.Timed) (simplifyFirst turnOff : Bool) :
    (s.searchStart simplifyFirst turnOff).Metered := by
  obtain ⟨-, hs⟩ := searchStart_called h simplifyFirst turnOff
  obtain ⟨-, hsched, hi⟩ := searchStart_timed h ht simplifyFirst turnOff
  refine ⟨?_, ?_, fun h => (nomatch hi.symm.trans h), fun h => absurd h hs⟩
  · rw [hsched]
    exact fun n _ => Nat.zero_le n
  · rw [hsched]
    exact fun n _ => Nat.zero_le n

end Solver

/-! ## Solve calls -/

open Schedule (Counted)

variable {counting : Counting} {s : Solver} {f : List (List Lit)}

theorem search_of_reachable (h : Reachable counting s f) (simplifyFirst turnOff : Bool) :
    (s.searchStart simplifyFirst turnOff).search.Metered ∧
      ((s.searchStart simplifyFirst turnOff).search.status ≠ .unknown ∨
        (s.searchStart simplifyFirst turnOff).search.interrupted = true) ∧
      ∃ d c, Counted d c s.schedule.startSearch (s.searchStart simplifyFirst turnOff).search.schedule := by
  have hi := (Solver.searchStart_called h.inv simplifyFirst turnOff).1.inv
  obtain ⟨ht, hsched, -⟩ := Solver.searchStart_timed h.inv h.timed simplifyFirst turnOff
  obtain ⟨hm, hover⟩ := Solver.search_metered hi ht (Solver.searchStart_metered h.inv h.timed simplifyFirst turnOff)
  rw [← hsched]
  exact ⟨hm, hover, Solver.searchFuel_counted _ _⟩

theorem limits_solveWith (h : Reachable counting s f) (simplifyFirst turnOff : Bool) :
    (s.solveWith simplifyFirst turnOff).2.schedule.decisionLimit = s.schedule.decisionLimit ∧
      (s.solveWith simplifyFirst turnOff).2.schedule.conflictLimit = s.schedule.conflictLimit := by
  obtain ⟨-, -, d, c, hc⟩ := search_of_reachable h simplifyFirst turnOff
  rw [Solver.solveWith_eq, (Solver.conclude_sameTimes _).schedule_eq]
  exact ⟨hc.decisionLimit_eq, hc.conflictLimit_eq⟩

/-- Limits are kept by every solve call, whatever was called before: it makes no more decisions and meets no more
conflicts than allowed. It answers that nothing is known only if it used up one of its limits. -/
theorem solveWith_within_limits (h : Reachable counting s f) (simplifyFirst turnOff : Bool) :
    ∃ d c, (s.solveWith simplifyFirst turnOff).2.schedule.decisions = s.schedule.decisions + d ∧
      (s.solveWith simplifyFirst turnOff).2.schedule.conflicts = s.schedule.conflicts + c ∧
        (∀ n, s.schedule.decisionLimit = some n → d ≤ n) ∧ (∀ n, s.schedule.conflictLimit = some n → c ≤ n) ∧
          ((s.solveWith simplifyFirst turnOff).1 = .unknown →
            s.schedule.decisionLimit = some d ∨ s.schedule.conflictLimit = some c) := by
  obtain ⟨hm, hover, d, c, hc⟩ := search_of_reachable h simplifyFirst turnOff
  rw [Solver.solveWith_eq]
  generalize (s.searchStart simplifyFirst turnOff).search = t at hm hover hc
  have hd : t.schedule.searchDecisions = d := hc.searchDecisions_eq.trans (Nat.zero_add d)
  have hn : t.schedule.searchConflicts = c := hc.searchConflicts_eq.trans (Nat.zero_add c)
  have hdl : t.schedule.decisionLimit = s.schedule.decisionLimit := hc.decisionLimit_eq
  have hcl : t.schedule.conflictLimit = s.schedule.conflictLimit := hc.conflictLimit_eq
  have hw1 := hm.decisions
  have hw2 := hm.conflicts
  rw [hd, hdl] at hw1
  rw [hn, hcl] at hw2
  rw [(Solver.conclude_sameTimes t).schedule_eq]
  refine ⟨d, c, hc.decisions_eq, hc.conflicts_eq, hw1, hw2, fun hv => ?_⟩
  -- without a verdict the search was interrupted, where a limit was reached
  have hst : t.status = .unknown := Solver.verdict_eq_unknown.1 hv
  rcases (hm.interrupted (hover.resolve_left fun hne => hne hst)).2 with hr | hr
  · rw [Schedule.decisionLimitReached, hd, hdl] at hr
    exact Or.inl (hw1.eq_some hr)
  · rw [Schedule.conflictLimitReached, hn, hcl] at hr
    exact Or.inr (hw2.eq_some hr)

theorem solveWith_within_limits_equivalence :
    (equivalenceSolver.setDecisionLimit (some 0)).solve.1 = .unknown ∧
      (equivalenceSolver.setDecisionLimit (some 0)).solve.2.schedule.decisions = 0 := by
  have h := reachable_equivalence.call (.setDecisionLimit (some 0))
  obtain ⟨d, c, hd, -, hle, -⟩ := solveWith_within_limits h false false
  refine ⟨by decide +kernel, hd.trans ?_⟩
  have h0 : d ≤ 0 := hle 0 rfl
  rw [Nat.le_zero.1 h0]
  rfl

end ClauseLearning
