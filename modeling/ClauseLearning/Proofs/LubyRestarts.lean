import Mathlib.Data.Set.Card
import Mathlib.Order.Interval.Finset.Nat
import ClauseLearning.Proofs.SearchSteps

/-!
# Restarts at the partial sums of the sequence

A restart is due when the count of conflicts equals a partial sum of the sequence, scaled. No count is skipped, and the
check comes before any decision of the next step, in the same call or in a later one. A sum beyond 64 bits wraps around
to a count that is past already, so that it is as good as one that is never reached.

* `Luby.after`, `Luby.terms_succ`, `Luby.power_le_sum` : the sequence term by term. No term but the first is more than
  those before it together;
* `restartTime` : the partial sums, scaled;
* `Schedule.OnPlan` : some terms were used up, and the count of conflicts is between the last two partial sums;
* `Solver.Stepping.onPlan` : what one step does to the plan, and `Solver.Course.onPlan` for all steps of a run;
* `Fresh` : the states that runs begin in, new ones and those after a reset;
* `restarts_follow_luby` : the restarts of a run.
-/

namespace ClauseLearning

/-! ## The sequence -/

namespace Luby

/-- The position after some terms. -/
def after : Nat → Luby → Luby
  | 0, l => l
  | n + 1, l => after n l.next.2

theorem after_succ (n : Nat) (l : Luby) : after (n + 1) l = (after n l).next.2 := by
  induction n generalizing l with
  | zero => rfl
  | succ n ih => exact ih l.next.2

theorem terms_succ (n : Nat) (l : Luby) : terms (n + 1) l = terms n l ++ [(after n l).power] := by
  induction n generalizing l with
  | zero => rfl
  | succ n ih => exact congrArg (l.power :: ·) (ih l.next.2)

theorem sum_terms_succ (n : Nat) (l : Luby) : (terms (n + 1) l).sum = (terms n l).sum + (after n l).power := by
  rw [terms_succ, List.sum_append, List.sum_singleton]

theorem power_next (l : Luby) : l.next.2.power = 1 ∨ l.next.2.power = 2 * l.power := by
  unfold Luby.next
  dsimp only
  split
  · exact Or.inl rfl
  · exact Or.inr rfl

theorem Valid.after {l : Luby} (h : l.Valid) (n : Nat) : (Luby.after n l).Valid := by
  induction n generalizing l with
  | zero => exact h
  | succ n ih => exact ih h.next

theorem power_after_pos (n : Nat) : 0 < (after n {}).power := (valid_start.after n).power_pos

/-- No term but the first is more than those before it together. -/
theorem power_le_sum (n : Nat) : (after (n + 1) {}).power ≤ (terms (n + 1) {}).sum := by
  induction n with
  | zero => decide
  | succ n ih =>
    rw [after_succ, sum_terms_succ]
    have hpos := power_after_pos (n + 1)
    rcases power_next (after (n + 1) {}) with h | h <;> omega

end Luby

/-- The number of conflicts at which the first `k` terms of the sequence are over. -/
def restartTime (scale k : Nat) : Nat := scale * (Luby.terms k {}).sum

section RestartTime

variable {scale k n : Nat}

theorem restartTime_one : restartTime scale 1 = scale := Nat.mul_one scale

theorem restartTime_succ : restartTime scale (k + 1) = restartTime scale k + scale * (Luby.after k {}).power := by
  rw [restartTime, Luby.sum_terms_succ, Nat.mul_add]
  rfl

example : (List.range 9).map (restartTime 10) = [0, 10, 20, 40, 50, 60, 80, 120, 130] := by decide

theorem restartTime_strictMono (h : 0 < scale) : StrictMono (restartTime scale) := by
  refine strictMono_nat_of_lt_succ fun k => ?_
  rw [restartTime_succ]
  exact Nat.lt_add_of_pos_right (Nat.mul_pos h (Luby.power_after_pos k))

theorem restartTime_succ_succ_le : restartTime scale (k + 2) ≤ 2 * restartTime scale (k + 1) := by
  rw [restartTime_succ, Nat.two_mul]
  exact Nat.add_le_add_left (Nat.mul_le_mul_left scale (Luby.power_le_sum k)) _

theorem encard_restartTime_le (h : 0 < scale) (h1 : restartTime scale k ≤ n) (h2 : n < restartTime scale (k + 1)) :
    {i | 1 ≤ i ∧ restartTime scale i ≤ n}.encard = k := by
  have hset : {i | 1 ≤ i ∧ restartTime scale i ≤ n} = ↑(Finset.Icc 1 k) := by
    ext i
    rw [Set.mem_ofPred_eq, Finset.mem_coe, Finset.mem_Icc, and_congr_right_iff]
    have hmono := restartTime_strictMono h
    exact fun _ => ⟨fun hi => Nat.lt_succ_iff.1 (hmono.lt_iff_lt.1 (Nat.lt_of_le_of_lt hi h2)),
      fun hi => Nat.le_trans (hmono.monotone hi) h1⟩
  rw [hset, Set.encard_coe_eq_coe_finsetCard, Nat.card_Icc, Nat.add_sub_cancel]

end RestartTime

/-! ## The plan -/

theorem Counting.keep_of_lt {n : Nat} (h : n < UInt64.size) (counting : Counting) : counting.keep n = n := by
  cases counting with
  | words => exact Nat.mod_eq_of_lt h
  | unbounded => rfl

theorem Counting.overflows_of_lt {n : Nat} (h : n < UInt64.size) (counting : Counting) :
    counting.overflows n = false := by
  cases counting with
  | words => exact decide_eq_false (Nat.not_le.2 h)
  | unbounded => rfl

namespace Schedule

variable {a b p : Schedule} {scale : UInt64} {k d c : Nat}

/-- The next restart is planned for the time of the first `k` terms, and the one before it is over. -/
structure OnPlan (scale k : Nat) (a : Schedule) : Prop where
  luby_eq : a.luby = Luby.after k {}
  restarts_eq : a.restarts = k - 1
  nextRestart_eq : a.nextRestart = a.counting.keep (restartTime scale k)
  restartTime_le : restartTime scale (k - 1) ≤ a.conflicts
  le_restartTime : a.conflicts ≤ restartTime scale k

theorem OnPlan.congr (h : a.OnPlan scale.toNat k) (hs : SameRestarts a b) : b.OnPlan scale.toNat k where
  luby_eq := hs.luby_eq.trans h.luby_eq
  restarts_eq := hs.restarts_eq.trans h.restarts_eq
  nextRestart_eq := by rw [hs.nextRestart_eq, h.nextRestart_eq, hs.counting_eq]
  restartTime_le := hs.conflicts_eq ▸ h.restartTime_le
  le_restartTime := hs.conflicts_eq ▸ h.le_restartTime

theorem OnPlan.later (h : a.OnPlan scale.toNat k) (hlt : a.conflicts < restartTime scale.toNat k) (hc : c ≤ 1) :
    (a.later d c).OnPlan scale.toNat k where
  luby_eq := h.luby_eq
  restarts_eq := h.restarts_eq
  nextRestart_eq := h.nextRestart_eq
  restartTime_le := Nat.le_trans h.restartTime_le (Nat.le_add_right ..)
  le_restartTime := Nat.le_trans (Nat.add_le_add_left hc _) hlt

/-- A restart is due when its time has come: a sum that wrapped around is less than the conflicts that are counted
already. -/
theorem OnPlan.restartDue_iff (h : a.OnPlan scale.toNat k) (hlt : a.conflicts < UInt64.size) :
    a.restartDue = true ↔ a.conflicts = restartTime scale.toNat k := by
  rw [Schedule.restartDue_iff, h.nextRestart_eq]
  by_cases hfits : restartTime scale.toNat k < UInt64.size
  · rw [Counting.keep_of_lt hfits]
    exact eq_comm
  · have hle := h.restartTime_le
    have hdouble : restartTime scale.toNat k ≤ 2 * restartTime scale.toNat (k - 1) := by
      match k, hfits with
      | 0, hfits => exact absurd (Nat.two_pow_pos 64) hfits
      | 1, hfits => exact absurd (restartTime_one.symm ▸ scale.toNat_lt) hfits
      | _ + 2, _ => exact restartTime_succ_succ_le
    cases a.counting with
    | unbounded => exact eq_comm
    | words =>
      show restartTime scale.toNat k % UInt64.size = a.conflicts ↔ _
      rw [Nat.mod_eq_sub_mod (Nat.le_of_not_lt hfits), Nat.mod_eq_of_lt (by omega)]
      omega

/-- At a restart the plan goes on with the next term. The first plan is made before any conflict, and no restart is
counted then. -/
theorem OnPlan.planRestart (h : a.OnPlan scale.toNat k) (hs : 0 < scale.toNat) (hd : a.restartDue = true)
    (heq : a.conflicts = restartTime scale.toNat k) : (a.planRestart scale).OnPlan scale.toNat (k + 1) where
  luby_eq := by
    show a.luby.next.2 = _
    rw [h.luby_eq, Luby.after_succ]
  restarts_eq := by
    show (if 0 < a.conflicts then a.restarts + 1 else a.restarts) = k
    rw [h.restarts_eq, heq]
    cases k with
    | zero => rfl
    | succ k =>
      rw [if_pos (Nat.lt_of_le_of_lt (Nat.zero_le _) (restartTime_strictMono hs (Nat.lt_succ_self k)))]
      rfl
  nextRestart_eq := by
    show a.counting.keep (a.nextRestart + scale.toNat * a.luby.power) = _
    rw [Schedule.restartDue_iff.1 hd, heq, h.luby_eq, restartTime_succ]
    rfl
  restartTime_le := Nat.le_of_eq heq.symm
  le_restartTime := heq ▸ Nat.le_of_lt (restartTime_strictMono hs (Nat.lt_succ_self k))

theorem OnPlan.plan (h : a.OnPlan scale.toNat k) (hlt : a.conflicts < UInt64.size) (hs : 0 < scale.toNat)
    (hp : p = if a.restartDue then a.planRestart scale else a) :
    (∃ k, p.OnPlan scale.toNat k ∧ p.conflicts < restartTime scale.toNat k) ∧
      p.restarts = if a.restartDue && decide (0 < a.conflicts) then a.restarts + 1 else a.restarts := by
  subst hp
  cases hd : a.restartDue with
  | false =>
    have hne : a.conflicts ≠ restartTime scale.toNat k := fun he =>
      Bool.false_ne_true (hd.symm.trans ((h.restartDue_iff hlt).2 he))
    exact ⟨⟨k, h, Nat.lt_of_le_of_ne h.le_restartTime hne⟩, rfl⟩
  | true =>
    have heq := (h.restartDue_iff hlt).1 hd
    have hbefore : a.conflicts < restartTime scale.toNat (k + 1) :=
      heq ▸ restartTime_strictMono hs (Nat.lt_succ_self k)
    refine ⟨⟨k + 1, h.planRestart hs hd heq, hbefore⟩, ?_⟩
    rw [if_pos rfl, Bool.true_and]
    simp only [decide_eq_true_eq]
    rfl

end Schedule

/-! ## The steps of a run -/

namespace Solver

variable {s s' t : Solver} {ts : List Solver} {scale : UInt64} {k : Nat}

/-- Whether the step that begins here is made and restarts. Before any conflict nothing is there to give up. -/
def makesRestart (t : Solver) : Bool := t.step.1 && t.schedule.restartDue && decide (0 < t.schedule.conflicts)

/-- What a step does to the plan, and how it counts restarts. -/
theorem Stepping.onPlan (ht : t.Stepping) (h : t.schedule.OnPlan scale.toNat k)
    (hscale : t.config.lubyRestartIntervalScale = scale) (hlt : t.schedule.conflicts < UInt64.size) :
    (∃ k, t.step.2.schedule.OnPlan scale.toNat k) ∧
      {k | 1 ≤ k ∧ restartTime scale.toNat k ≤ t.schedule.conflicts}.encard = t.step.2.schedule.restarts ∧
        t.step.2.schedule.restarts = if t.makesRestart then t.schedule.restarts + 1 else t.schedule.restarts := by
  obtain ⟨d, c, hc, hs, -⟩ := ht.schedule_step
  have hpos : 0 < scale.toNat := hscale ▸ ht.timed.scale_pos
  obtain ⟨⟨k', hk, hbefore⟩, hrestarts⟩ := h.plan (p := t.planned) hlt hpos (hscale ▸ rfl)
  have hcount : t.planned.conflicts = t.schedule.conflicts := t.planned_limits.1
  rw [hs]
  refine ⟨⟨k', hk.later hbefore hc⟩, ?_, ?_⟩
  · show _ = ((t.planned.restarts : Nat) : ℕ∞)
    have hle := hk.restartTime_le
    rw [hcount] at hle hbefore
    rw [hk.restarts_eq]
    refine encard_restartTime_le hpos hle ?_
    cases k' with
    | zero => exact absurd hbefore (Nat.not_lt_zero _)
    | succ k' => exact hbefore
  · show t.planned.restarts = _
    rw [hrestarts, makesRestart, ht.goesOn, Bool.true_and]

theorem Stepping.conflicts_eq_restartTime (h : t.schedule.OnPlan scale.toNat k)
    (hlt : t.schedule.conflicts < UInt64.size) (hr : t.makesRestart = true) :
    t.schedule.conflicts = restartTime scale.toNat (t.schedule.restarts + 1) := by
  rw [makesRestart, Bool.and_eq_true, Bool.and_eq_true, decide_eq_true_iff] at hr
  obtain ⟨⟨-, hdue⟩, hpos⟩ := hr
  have heq := (h.restartDue_iff hlt).1 hdue
  rw [h.restarts_eq]
  cases k with
  | zero => exact absurd heq (Nat.ne_of_gt hpos)
  | succ k => exact heq

theorem Stepping.currentLevel_restart (ht : t.Stepping) (hr : t.makesRestart = true) :
    t.restartIfDue.reduceIfDue.currentLevel = 0 := by
  rw [makesRestart, Bool.and_eq_true, Bool.and_eq_true] at hr
  rw [currentLevel, (reduceIfDue_bumped (restartIfDue_spec ht.inv).1.inv).1.trail_eq, restartIfDue, if_pos hr.1.2]
  exact Trail.currentLevel_backtrack.trans (Nat.zero_min _)

/-- Along a course the restarts come one after the other, each at its time. -/
theorem Course.onPlan (hc : Course s ts s') (hscale : ∀ t ∈ ts, t.config.lubyRestartIntervalScale = scale)
    (hlt : ∀ t ∈ ts, t.schedule.conflicts < UInt64.size) (h : s.schedule.OnPlan scale.toNat k) :
    (∀ t ∈ ts,
      {k | 1 ≤ k ∧ restartTime scale.toNat k ≤ t.schedule.conflicts}.encard = t.step.2.schedule.restarts) ∧
    (List.range s.schedule.restarts).map (fun i => restartTime scale.toNat (i + 1)) ++
        (ts.filter makesRestart).map (·.schedule.conflicts) =
      (List.range s'.schedule.restarts).map fun i => restartTime scale.toNat (i + 1) := by
  induction hc generalizing k with
  | rest hs =>
    rw [hs.restarts_eq]
    exact ⟨fun t ht => (nomatch ht), List.append_nil _⟩
  | @step s t _ _ hs ht _ ih =>
    rw [List.forall_mem_cons] at hscale hlt
    have htp := h.congr hs
    obtain ⟨⟨k', hk⟩, hcard, hrestarts⟩ := ht.onPlan htp hscale.1 hlt.1
    obtain ⟨hall, hlist⟩ := ih hscale.2 hlt.2 hk
    refine ⟨List.forall_mem_cons.2 ⟨hcard, hall⟩, ?_⟩
    rw [← hlist, hrestarts, ← hs.restarts_eq]
    cases hr : t.makesRestart with
    | false => rw [List.filter_cons_of_neg (by rw [hr]; exact Bool.false_ne_true), if_neg Bool.false_ne_true]
    | true =>
      have htime := Stepping.conflicts_eq_restartTime htp hlt.1 hr
      rw [List.filter_cons_of_pos hr, if_pos rfl, List.range_succ, List.map_append, List.append_assoc, List.map_cons,
        htime]
      rfl

end Solver

/-! ## Runs of new solvers -/

/-- A new solver, or one after a reset. -/
inductive Fresh (counting : Counting) : Solver → Prop
  | start (ties : TieOrder) : Fresh counting (Solver.start counting ties)
  | reset {s : Solver} {f : List (List Lit)} : Reachable counting s f → Fresh counting s.reset

variable {counting : Counting} {s : Solver}

theorem Fresh.reachable (h : Fresh counting s) : Reachable counting s [] := by
  cases h with
  | start ties => exact .start ties
  | reset hr => exact .reset hr

theorem Fresh.onPlan (h : Fresh counting s) (scale : Nat) : s.schedule.OnPlan scale 0 := by
  have hkeep := Counting.keep_of_lt (Nat.two_pow_pos 64)
  cases h with
  | start => exact ⟨rfl, rfl, (hkeep _).symm, Nat.le_refl 0, Nat.le_refl 0⟩
  | reset => exact ⟨rfl, rfl, (hkeep _).symm, Nat.le_refl 0, Nat.le_refl 0⟩

/-- **Restarts follow the sequence.** In any calls on a new solver, with a constant scale and counts within 64 bits,
each step has made, when it is over, as many restarts as there are partial sums up to the conflicts that it began with.
The restarts come at these sums, each of them once, and the search goes on from level 0. -/
theorem restarts_follow_luby (h : Fresh counting s) (cs : List Call) (scale : UInt64)
    (hscale : ∀ t ∈ Call.stepsAll s cs, t.config.lubyRestartIntervalScale = scale)
    (hlt : ∀ t ∈ Call.stepsAll s cs, t.schedule.conflicts < UInt64.size) :
    (∀ t ∈ Call.stepsAll s cs,
      {k | 1 ≤ k ∧ restartTime scale.toNat k ≤ t.schedule.conflicts}.encard = t.step.2.schedule.restarts) ∧
    ((Call.stepsAll s cs).filter Solver.makesRestart).map (·.schedule.conflicts) =
      ((List.range (Call.runAll s cs).schedule.restarts).map fun i => restartTime scale.toNat (i + 1)) ∧
    ∀ t ∈ Call.stepsAll s cs, t.makesRestart → t.restartIfDue.reduceIfDue.currentLevel = 0 ∧
      t.step = (true, t.restartIfDue.reduceIfDue.conflictStep) := by
  have hc := h.reachable.course cs
  have hplan := h.onPlan scale.toNat
  obtain ⟨hcount, hlist⟩ := hc.onPlan hscale hlt hplan
  rw [hplan.restarts_eq] at hlist
  refine ⟨hcount, hlist, fun t ht hr => ?_⟩
  have hstepping := hc.stepping t ht
  exact ⟨hstepping.currentLevel_restart hr, Solver.step_eq_conflictStep hstepping.goesOn⟩

/-- Two variables that have to be true, each of which costs a conflict, for a solver that restarts after each. -/
def twoConflicts : List Call :=
  [.configure { lubyRestartIntervalScale := some 1 }, .newVar none true, .newVar none true, .newVar none true,
    .newVar none true, .addClause [⟨0⟩, ⟨2⟩], .addClause [⟨0⟩, ⟨3⟩], .addClause [⟨4⟩, ⟨6⟩], .addClause [⟨4⟩, ⟨7⟩]]

/-- The first solve call stops at its limit just before a restart is due, and the second one makes it. -/
theorem restarts_follow_luby_twoConflicts :
    let cs := twoConflicts ++ [.setConflictLimit (some 1), .solve, .setConflictLimit none, .solve]
    (Call.runAll (Solver.start .words .stable) (cs.take 11)).schedule.restarts = 0 ∧
      ((Call.stepsAll (Solver.start .words .stable) cs).filter Solver.makesRestart).map (·.schedule.conflicts) =
        [1, 2] := by
  intro cs
  have hrestarts : (Call.runAll (Solver.start .words .stable) cs).schedule.restarts = 2 := by decide +kernel
  obtain ⟨-, hlist, -⟩ :=
    restarts_follow_luby (Fresh.start .stable : Fresh .words _) cs 1 (by decide +kernel) (by decide +kernel)
  rw [hrestarts] at hlist
  exact ⟨by decide +kernel, hlist⟩

end ClauseLearning
