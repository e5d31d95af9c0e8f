import ClauseLearning.Proofs.LubyRestarts

/-!
# Where the plan for restarts leaves the range of 64 bits

The count at which the next restart is due is a sum of scaled terms, kept in 64 bits. A term is never more than those
before it together, so under a scale that is not raised the count at most doubles, and there is room for that up to
half the range. A scale that is raised later on multiplies a term that is large already. Then the sum can overflow. A
program that goes on with what is left of it comes to a count that is past, and no restart follows.

* `Solver.Affordable` : the scale was not raised, or it leaves room for a term as large as the conflicts so far;
* `Schedule.Ahead` : the next restart is not overdue, and it is late enough for the next term.
  `Schedule.Ahead.restartSum_lt` : there is room for the sum that is planned;
* `restarts_not_missed` : under affordable scales every sum is exact, and no restart is missed;
* `restarts_missed` : other scales are accepted, too, and restarts are repeated or missed.
-/

namespace ClauseLearning

/-! ## The plan -/

namespace Schedule

variable {a b p : Schedule} {scale : UInt64} {bound d c : Nat}

/-- The next restart is not overdue, and the terms up to it are no less than the next one, each under a scale of at
least `bound`. -/
structure Ahead (bound : Nat) (a : Schedule) : Prop where
  le_nextRestart : a.conflicts ≤ a.nextRestart
  room : a.luby = {} ∧ a.nextRestart = 0 ∨ bound * a.luby.power ≤ a.nextRestart ∧ a.luby.power ≤ a.nextRestart

theorem Ahead.congr (h : a.Ahead bound) (hs : SameRestarts a b) : b.Ahead bound := by
  obtain ⟨hle, hroom⟩ := h
  rw [← hs.nextRestart_eq] at hle hroom
  rw [← hs.luby_eq] at hroom
  exact ⟨hs.conflicts_eq ▸ hle, hroom⟩

theorem Ahead.later (h : a.Ahead bound) (hlt : a.conflicts < a.nextRestart) (hc : c ≤ 1) :
    (a.later d c).Ahead bound :=
  ⟨Nat.le_trans (Nat.add_le_add_left hc _) hlt, h.room⟩

theorem restartSum_of_due (hd : a.restartDue = true) :
    a.restartSum scale = a.conflicts + scale.toNat * a.luby.power := by
  rw [restartSum, restartDue_iff.1 hd]
  rfl

/-- There is room for the sum that is planned at a restart, if the scale is not raised or leaves room for it. -/
theorem Ahead.restartSum_lt (h : a.Ahead bound) (hd : a.restartDue = true) (hlt : a.conflicts < 2 ^ 63)
    (hfits : scale.toNat ≤ bound ∨ (scale.toNat + 1) * a.conflicts < UInt64.size) :
    a.restartSum scale < UInt64.size := by
  have heq := restartDue_iff.1 hd
  rw [restartSum_of_due hd]
  rcases h.room with ⟨hstart, hzero⟩ | ⟨hbound, hpower⟩
  · rw [← heq, hzero, hstart, Nat.zero_add]
    exact (Nat.mul_one scale.toNat).symm ▸ scale.toNat_lt
  · rw [heq] at hbound hpower
    rcases hfits with hle | hsmall
    · calc a.conflicts + scale.toNat * a.luby.power
          ≤ a.conflicts + bound * a.luby.power := Nat.add_le_add_left (Nat.mul_le_mul_right _ hle) _
        _ ≤ a.conflicts + a.conflicts := Nat.add_le_add_left hbound _
        _ < UInt64.size := by rw [UInt64.size]; omega
    · calc a.conflicts + scale.toNat * a.luby.power
          ≤ a.conflicts + scale.toNat * a.conflicts := Nat.add_le_add_left (Nat.mul_le_mul_left _ hpower) _
        _ = (scale.toNat + 1) * a.conflicts := by rw [Nat.succ_mul, Nat.add_comm]
        _ < UInt64.size := hsmall

theorem Ahead.planRestart (h : a.Ahead bound) (hd : a.restartDue = true) (hluby : a.luby.Valid)
    (hs : 0 < scale.toNat) (hsum : (a.planRestart scale).nextRestart = a.conflicts + scale.toNat * a.luby.power) :
    (a.planRestart scale).Ahead (min bound scale.toNat) := by
  have heq := restartDue_iff.1 hd
  have hscale : scale.toNat ≤ scale.toNat * a.luby.power := Nat.le_mul_of_pos_right _ hluby.power_pos
  have hpower : a.luby.power ≤ scale.toNat * a.luby.power := Nat.le_mul_of_pos_left _ hs
  refine ⟨hsum ▸ Nat.le_add_right .., Or.inr ?_⟩
  show min bound scale.toNat * a.luby.next.2.power ≤ _ ∧ a.luby.next.2.power ≤ _
  rw [hsum]
  rcases a.luby.power_next with hone | hdouble
  · rw [hone, Nat.mul_one]
    omega
  · -- a term that doubles is not the second one
    rcases h.room with ⟨hstart, -⟩ | ⟨hroom, hroom'⟩
    · rw [hstart] at hdouble
      exact absurd hdouble (by decide)
    · rw [heq] at hroom hroom'
      have hbound : min bound scale.toNat * a.luby.power ≤ bound * a.luby.power :=
        Nat.mul_le_mul_right _ (Nat.min_le_left ..)
      have hle : min bound scale.toNat * a.luby.power ≤ scale.toNat * a.luby.power :=
        Nat.mul_le_mul_right _ (Nat.min_le_right ..)
      rw [hdouble, Nat.mul_left_comm]
      omega

end Schedule

/-! ## The steps of a run -/

namespace Solver

variable {s s' t : Solver} {ts : List Solver} {bound : Nat}

/-- The scale is not greater than those under which earlier steps have planned restarts, or it leaves room for a term
as large as all conflicts so far. -/
def Affordable (earlier : List Solver) (t : Solver) : Prop :=
  (∀ u ∈ earlier, u.schedule.restartDue → t.config.lubyRestartIntervalScale ≤ u.config.lubyRestartIntervalScale) ∨
    (t.config.lubyRestartIntervalScale.toNat + 1) * t.schedule.conflicts < UInt64.size

theorem overflowed_restartIfDue (s : Solver) : s.restartIfDue.overflowed = (s.overflowed || s.schedule.restartDue &&
    s.schedule.counting.overflows (s.schedule.restartSum s.config.lubyRestartIntervalScale)) := by
  unfold restartIfDue
  split
  · next hd =>
    have hreport (e : Event) (b : Prop) [Decidable b] (t : Solver) :
        ((if b then t.report e else t).backtrack 0).overflowed = t.overflowed := by
      split <;> rfl
    rw [hd, Bool.true_and]
    exact hreport _ _ s.planRestart
  · next hd => simp [hd]

/-- The restart that is due is not missed, and the next one is planned for a count of conflicts that is not reached
yet, without an overflow. -/
structure InTime (t : Solver) : Prop where
  le_nextRestart : t.schedule.conflicts ≤ t.schedule.nextRestart
  lt_nextRestart : t.schedule.conflicts < t.restartIfDue.schedule.nextRestart
  sum_eq : t.schedule.restartDue → t.restartIfDue.schedule.nextRestart =
    t.schedule.conflicts + t.config.lubyRestartIntervalScale.toNat * t.schedule.luby.power
  overflowed_eq : t.restartIfDue.overflowed = t.overflowed

theorem Stepping.inTime (ht : t.Stepping) (h : t.schedule.Ahead bound) (hlt : t.schedule.conflicts < 2 ^ 63)
    (hfits : t.schedule.restartDue → t.config.lubyRestartIntervalScale.toNat ≤ bound ∨
      (t.config.lubyRestartIntervalScale.toNat + 1) * t.schedule.conflicts < UInt64.size) :
    t.InTime ∧ t.step.2.schedule.Ahead
      (if t.schedule.restartDue then min bound t.config.lubyRestartIntervalScale.toNat else bound) := by
  obtain ⟨d, c, hc, hs, -⟩ := ht.schedule_step
  obtain ⟨-, hplan, -⟩ := restartIfDue_spec ht.inv
  rw [hs]
  cases hd : t.schedule.restartDue with
  | false =>
    have hp : t.planned = t.schedule := by rw [planned, hd]; rfl
    have hbefore : t.schedule.conflicts < t.schedule.nextRestart :=
      Nat.lt_of_le_of_ne h.le_nextRestart fun he =>
        Bool.false_ne_true (hd.symm.trans (Schedule.restartDue_iff.2 he.symm))
    rw [hp] at hplan ⊢
    refine ⟨⟨h.le_nextRestart, hplan ▸ hbefore, fun h' => absurd (hd.symm.trans h') Bool.false_ne_true, ?_⟩,
      h.later hbefore hc⟩
    rw [overflowed_restartIfDue, hd, Bool.false_and, Bool.or_false]
  | true =>
    have hp : t.planned = t.schedule.planRestart t.config.lubyRestartIntervalScale := if_pos hd
    have hpos := ht.timed.scale_pos
    have hluby := ht.timed.timely.luby
    have hroom := h.restartSum_lt hd hlt (hfits hd)
    have hsum : (t.schedule.planRestart t.config.lubyRestartIntervalScale).nextRestart =
        t.schedule.conflicts + t.config.lubyRestartIntervalScale.toNat * t.schedule.luby.power := by
      rw [← Schedule.restartSum_of_due hd]
      exact Counting.keep_of_lt hroom _
    have hbefore : t.schedule.conflicts < t.planned.nextRestart := by
      rw [hp, hsum]
      exact Nat.lt_add_of_pos_right (Nat.mul_pos hpos hluby.power_pos)
    refine ⟨⟨h.le_nextRestart, hplan ▸ hbefore, fun _ => hplan ▸ hp ▸ hsum, ?_⟩, ?_⟩
    · rw [overflowed_restartIfDue, Counting.overflows_of_lt hroom, Bool.and_false, Bool.or_false]
    · rw [hp] at hbefore ⊢
      exact (h.planRestart hd hluby hpos hsum).later hbefore hc

/-- Along a course no restart is missed, if each scale is no greater than a bound and the scales before it, or leaves
room. -/
theorem Course.inTime (hc : Course s ts s') (hlt : ∀ t ∈ ts, t.schedule.conflicts < 2 ^ 63)
    (hfits : ∀ earlier t later, ts = earlier ++ t :: later → t.schedule.restartDue → t.Affordable earlier)
    (hbound : ∀ t ∈ ts, t.schedule.restartDue → t.config.lubyRestartIntervalScale.toNat ≤ bound ∨
      (t.config.lubyRestartIntervalScale.toNat + 1) * t.schedule.conflicts < UInt64.size)
    (h : s.schedule.Ahead bound) : (∀ t ∈ ts, t.InTime) ∧ s'.schedule.conflicts ≤ s'.schedule.nextRestart := by
  induction hc generalizing bound with
  | rest hs => exact ⟨fun t ht => (nomatch ht), (h.congr hs).le_nextRestart⟩
  | @step s t _ ts hs ht _ ih =>
    rw [List.forall_mem_cons] at hlt hbound
    obtain ⟨htime, hnext⟩ := ht.inTime (h.congr hs) hlt.1 hbound.1
    have hlater : ∀ earlier u later, ts = earlier ++ u :: later → u.schedule.restartDue → u.Affordable earlier :=
      fun earlier u later heq hd => (hfits (t :: earlier) u later (heq ▸ rfl) hd).imp_left fun hle v hv =>
        hle v (List.mem_cons_of_mem t hv)
    -- the bound for the steps that follow accounts for this one
    have hbounds : ∀ u ∈ ts, u.schedule.restartDue → u.config.lubyRestartIntervalScale.toNat ≤
        (if t.schedule.restartDue then min bound t.config.lubyRestartIntervalScale.toNat else bound) ∨
          (u.config.lubyRestartIntervalScale.toNat + 1) * u.schedule.conflicts < UInt64.size := by
      intro u hu hd
      obtain ⟨earlier, later, heq⟩ := List.append_of_mem hu
      refine (hbound.2 u hu hd).elim (fun hle => ?_) Or.inr
      refine (hfits (t :: earlier) u later (heq ▸ rfl) hd).imp_left fun hall => ?_
      split
      · next htd => exact Nat.le_min.2 ⟨hle, UInt64.le_iff_toNat_le.1 (hall t List.mem_cons_self htd)⟩
      · exact hle
    obtain ⟨hall, hend⟩ := ih hlt.2 hlater hbounds hnext
    exact ⟨List.forall_mem_cons.2 ⟨htime, hall⟩, hend⟩

end Solver

/-! ## Runs of new solvers -/

variable {counting : Counting} {s : Solver}

theorem Fresh.ahead (h : Fresh counting s) (bound : Nat) : s.schedule.Ahead bound := by
  cases h with
  | start => exact ⟨Nat.le_refl 0, Or.inl ⟨rfl, rfl⟩⟩
  | reset => exact ⟨Nat.le_refl 0, Or.inl ⟨rfl, rfl⟩⟩

/-- **No restart is missed under affordable scales.** In any calls on a new solver, with any changes of the
configuration, a plan for the next restart is exact and ahead of the conflicts so far, as long as there are less than
`2 ^ 63` of them and a scale is raised only if it leaves room for a term as large as these. -/
theorem restarts_not_missed (h : Fresh counting s) (cs : List Call)
    (hlt : ∀ t ∈ Call.stepsAll s cs, t.schedule.conflicts < 2 ^ 63)
    (hfits : ∀ earlier t later, Call.stepsAll s cs = earlier ++ t :: later → t.schedule.restartDue →
      t.Affordable earlier) :
    (∀ t ∈ Call.stepsAll s cs, t.InTime) ∧
      (Call.runAll s cs).schedule.conflicts ≤ (Call.runAll s cs).schedule.nextRestart :=
  (h.reachable.course cs).inTime hlt hfits
    (fun t _ _ => Or.inl (Nat.le_of_lt t.config.lubyRestartIntervalScale.toNat_lt)) (h.ahead UInt64.size)

/-- A scale is raised after the first of two conflicts. -/
theorem restarts_not_missed_twoConflicts :
    let cs := twoConflicts ++ [.setConflictLimit (some 1), .solve, .configure { lubyRestartIntervalScale := some 9 },
      .setConflictLimit none, .solve]
    (Call.runAll (Solver.start .words .stable) cs).schedule.conflicts = 2 ∧
      2 ≤ (Call.runAll (Solver.start .words .stable) cs).schedule.nextRestart ∧
        ∀ t ∈ Call.stepsAll (Solver.start .words .stable) cs, t.InTime := by
  intro cs
  have hcount : (Call.runAll (Solver.start .words .stable) cs).schedule.conflicts = 2 := by decide +kernel
  have hsmall : ∀ t ∈ Call.stepsAll (Solver.start .words .stable) cs,
      (t.config.lubyRestartIntervalScale.toNat + 1) * t.schedule.conflicts < UInt64.size := by decide +kernel
  obtain ⟨hsteps, hend⟩ := restarts_not_missed (Fresh.start .stable : Fresh .words _) cs (by decide +kernel)
    fun earlier t later heq _ => Or.inr (hsmall t (heq ▸ List.mem_append_right _ List.mem_cons_self))
  exact ⟨hcount, hcount ▸ hend, hsteps⟩

/-- Two solve calls, the second one with another scale. -/
def rescaled (limit : Nat) (scale : UInt64) : List Call :=
  twoConflicts ++ [.setConflictLimit (some limit), .solve, .configure { lubyRestartIntervalScale := some scale },
    .setConflictLimit none, .solve]

/-- Greater scales are accepted, and a sum overflows. If the program goes on nevertheless, then after two conflicts the
next restart is planned for two conflicts again, or after one conflict for none. -/
theorem restarts_missed :
    (¬ ∀ (s : Solver) (cs : List Call), Fresh .words s →
      (∀ t ∈ Call.stepsAll s cs, t.schedule.conflicts < 2 ^ 63) → ∀ t ∈ Call.stepsAll s cs,
        t.overflowed = false → t.schedule.restartDue →
          t.restartIfDue.overflowed = false ∨ t.schedule.conflicts < t.restartIfDue.schedule.nextRestart) ∧
    ¬ ∀ (s : Solver) (cs : List Call), Fresh .words s →
      (∀ t ∈ Call.stepsAll s cs, t.schedule.conflicts < 2 ^ 63) → (Call.runAll s cs).overflowed = false ∨
        (Call.runAll s cs).schedule.conflicts ≤ (Call.runAll s cs).schedule.nextRestart := by
  refine ⟨fun h => ?_, fun h => ?_⟩
  · exact absurd (h _ (rescaled 2 (2 ^ 63)) (.start .stable) (by decide +kernel)) (by decide +kernel)
  · exact absurd (h _ (rescaled 1 0xFFFFFFFFFFFFFFFF) (.start .stable) (by decide +kernel)) (by decide +kernel)

end ClauseLearning
