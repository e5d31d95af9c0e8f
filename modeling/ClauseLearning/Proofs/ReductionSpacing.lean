import ClauseLearning.Proofs.SearchSteps

/-!
# The conflicts between reductions

A step reduces a tier when the count of conflicts is a multiple of the tier's interval. Within one solve call every
multiple is met once. A call that ends without another conflict leaves the count where it is, and if it is a multiple,
the next call reduces again.

* `Solver.reducesLocals`, `Solver.reducesMids` : the step that begins here reduces a tier, before it looks for a
  conflict (`Solver.step_of_reductions`);
* `Solver.LastWithoutConflict` : the last step of a search, without a conflict;
* `Call.Spaced` : how the reductions of a run are spaced;
* `reductions_spaced` : both tiers are reduced like this.
-/

namespace ClauseLearning

namespace Solver

variable {t u : Solver} {ts : List Solver} {interval : Config → UInt64} {n : Nat}

/-! ## Reductions as parts of steps -/

/-- Whether the step that begins here is made and reduces a tier with this interval. -/
def reducesAt (interval : Config → UInt64) (t : Solver) : Bool :=
  t.step.1 && t.restartIfDue.schedule.reductionDue (interval t.restartIfDue.config)

/-- Whether the step that begins here reduces the local clauses. -/
def reducesLocals (t : Solver) : Bool := t.reducesAt (·.reduceLocalsInterval)

/-- Whether the step that begins here reduces the clauses of the mid tier. -/
def reducesMids (t : Solver) : Bool := t.reducesAt (·.reduceMidsInterval)

/-- After a reduction of the local clauses. -/
def afterLocals (s : Solver) : Solver := 
  { s with prop := (s.prop.reduceLocals s.ties).2 }.report (s.prop.reduceLocals s.ties).1

/-- After a reduction of the clauses of the mid tier. -/
def afterMids (s : Solver) : Solver := { s with prop := s.prop.reduceMids.2 }.report s.prop.reduceMids.1

/-- A step that is made restarts, reduces and looks for a conflict. -/
theorem step_of_reductions (h : t.step.1 = true) :
    t.step.2 =
      let s := if t.reducesLocals then t.restartIfDue.afterLocals else t.restartIfDue
      (if t.reducesMids then s.afterMids else s).conflictStep := by
  rw [step_eq_conflictStep h, reducesLocals, reducesMids, reducesAt, reducesAt, h, Bool.true_and, Bool.true_and]
  generalize t.restartIfDue = s
  show s.reduceIfDue.conflictStep = _
  unfold reduceIfDue
  dsimp only
  split <;> rfl

theorem reductionDue_iff {s : Schedule} {interval : UInt64} :
    s.reductionDue interval = true ↔ 0 < s.conflicts ∧ interval.toNat ∣ s.conflicts := by
  rw [Schedule.reductionDue, Bool.and_eq_true, decide_eq_true_iff, beq_iff_eq, Nat.dvd_iff_mod_eq_zero]

theorem Stepping.reducesAt_iff (h : t.Stepping) : t.reducesAt interval = true ↔
    0 < t.schedule.conflicts ∧ (interval t.config).toNat ∣ t.schedule.conflicts := by
  obtain ⟨hsearched, hplan, -⟩ := restartIfDue_spec h.inv
  rw [reducesAt, h.goesOn, Bool.true_and, reductionDue_iff, hplan, t.planned_limits.1, hsearched.config_eq]

/-! ## Steps between reductions -/

/-- The step that begins here is the last of its search, and meets no conflict. -/
def LastWithoutConflict (t : Solver) : Prop :=
  t.step.2.schedule.conflicts = t.schedule.conflicts ∧ t.step.2.step.1 = false

theorem Stepping.reductions_apart (ht : t.Stepping) (hu : u.Stepping)
    (hle : t.step.2.schedule.conflicts ≤ u.schedule.conflicts) (hti : (interval t.config).toNat = n)
    (hui : (interval u.config).toNat = n) (h : t.reducesAt interval) (h' : u.reducesAt interval) :
    t.schedule.conflicts + n ≤ u.schedule.conflicts ∨
      u.schedule.conflicts = t.schedule.conflicts ∧ t.LastWithoutConflict := by
  have htd : n ∣ t.schedule.conflicts := hti ▸ (ht.reducesAt_iff.1 h).2
  have hud : n ∣ u.schedule.conflicts := hui ▸ (hu.reducesAt_iff.1 h').2
  have hfar (hlt : t.schedule.conflicts < u.schedule.conflicts) :
      t.schedule.conflicts + n ≤ u.schedule.conflicts := by
    have hn : n ≤ u.schedule.conflicts - t.schedule.conflicts :=
      Nat.le_of_dvd (Nat.sub_pos_of_lt hlt) (Nat.dvd_sub hud htd)
    omega
  rcases ht.conflicts_step with hc | ⟨hc, hover⟩
  · exact Or.inl (hfar (by omega))
  · rcases Nat.lt_or_eq_of_le (hc ▸ hle) with hlt | heq
    · exact Or.inl (hfar hlt)
    · exact Or.inr ⟨heq.symm, hc, hover⟩

end Solver

/-! ## Reductions of a run -/

namespace Call

/-- How the steps that reduce a tier are spaced in some calls. -/
structure Spaced (reduces : Solver → Bool) (interval : Nat) (s : Solver) (cs : List Call) : Prop where
  /-- Between two of them there are as many conflicts as the interval says, or none. If there are none, the search of
  the first one ends with it. -/
  apart : (stepsAll s cs).Pairwise fun t u => reduces t → reduces u →
    t.schedule.conflicts + interval ≤ u.schedule.conflicts ∨
      u.schedule.conflicts = t.schedule.conflicts ∧ t.LastWithoutConflict
  /-- Within one call there are always as many as the interval says. -/
  apartWithin : ∀ before c after, cs = before ++ c :: after → (c.steps (runAll s before)).Pairwise fun t u =>
    reduces t → reduces u → t.schedule.conflicts + interval ≤ u.schedule.conflicts
  /-- No multiple of the interval is left out. -/
  complete : ∀ u ∈ stepsAll s cs, ∀ n, s.schedule.conflicts ≤ n → n ≤ u.schedule.conflicts → 0 < n → interval ∣ n →
    ∃ t ∈ stepsAll s cs, reduces t ∧ t.schedule.conflicts = n

end Call

variable {counting : Counting} {s : Solver} {f : List (List Lit)}

/-- The reductions of a tier, as long as its interval stays the same. -/
theorem Reachable.spaced (h : Reachable counting s f) (cs : List Call) {interval : Config → UInt64} {n : Nat}
    (hn : ∀ t ∈ Call.stepsAll s cs, (interval t.config).toNat = n) :
    Call.Spaced (Solver.reducesAt interval) n s cs := by
  have hc := h.course cs
  refine ⟨?_, ?_, fun u hu m hs hm hpos hd => ?_⟩
  · refine hc.pairwise_le.imp_of_mem fun {t u} ht hu hle => ?_
    exact (hc.stepping t ht).reductions_apart (hc.stepping u hu) hle (hn t ht) (hn u hu)
  · rintro before c after rfl
    have hcall := c.course (h.runAll before).inv (h.runAll before).timed
    refine (hcall.pairwise_le.and (c.steps_pairwise _)).imp_of_mem fun {t u} ht hu ⟨hle, hgo⟩ h1 h2 => ?_
    have htn := hn t (Call.mem_stepsAll ht)
    have hun := hn u (Call.mem_stepsAll hu)
    rcases (hcall.stepping t ht).reductions_apart (hcall.stepping u hu) hle htn hun h1 h2 with hfar | ⟨-, -, hover⟩
    · exact hfar
    · exact nomatch hgo.symm.trans hover
  · obtain ⟨t, ht, rfl⟩ := hc.exists_conflicts hs hu hm
    exact ⟨t, ht, (hc.stepping t ht).reducesAt_iff.2 ⟨hpos, (hn t ht).symm ▸ hd⟩, rfl⟩

/-- **Reductions come at the multiples of their intervals.** A step reduces a tier or not, and looks for a conflict
then. In any calls during which the intervals stay the same, each multiple is served, and within one solve call just
once. Two reductions are nearer to each other than the interval only if they come at the same count of conflicts: a
solve call ended without a conflict after it had reduced, and a later one reduces again. -/
theorem reductions_spaced (h : Reachable counting s f) (cs : List Call) (locals mids : Nat)
    (hlocals : ∀ t ∈ Call.stepsAll s cs, t.config.reduceLocalsInterval.toNat = locals)
    (hmids : ∀ t ∈ Call.stepsAll s cs, t.config.reduceMidsInterval.toNat = mids) :
    Call.Spaced Solver.reducesLocals locals s cs ∧ Call.Spaced Solver.reducesMids mids s cs ∧
      ∀ t ∈ Call.stepsAll s cs, t.step.2 =
        let u := if t.reducesLocals then t.restartIfDue.afterLocals else t.restartIfDue
        (if t.reducesMids then u.afterMids else u).conflictStep :=
  ⟨h.spaced cs hlocals, h.spaced cs hmids,
    fun t ht => Solver.step_of_reductions ((h.course cs).stepping t ht).goesOn⟩

/-- Two clauses that need the first variable, for a solver that reduces after each conflict. -/
def eager : List Call :=
  [.configure { reduceLocalsInterval := some 1, reduceMidsInterval := some 1 }, .newVar none true, .newVar none true,
    .addClause [⟨0⟩, ⟨2⟩], .addClause [⟨0⟩, ⟨3⟩]]

/-- A solver that reduces after each conflict, and will meet one. -/
def eagerSolver : Solver := Call.runAll (Solver.start .words .stable) eager

theorem reachable_eager : Reachable .words eagerSolver [[⟨0⟩, ⟨2⟩], [⟨0⟩, ⟨3⟩]] :=
  (Reachable.start .stable).runAll eager

/-- Two solve calls meet one conflict, which the first call reduces after. -/
theorem reductions_spaced_eager :
    (Call.stepsAll eagerSolver [.solve, .solve]).map (·.schedule.conflicts) = [0, 1, 1] ∧
      Call.Spaced Solver.reducesLocals 1 eagerSolver [.solve, .solve] ∧
        ∃ t ∈ Call.stepsAll eagerSolver [.solve, .solve], t.reducesLocals ∧ t.schedule.conflicts = 1 := by
  have hsteps : (Call.stepsAll eagerSolver [.solve, .solve]).map (·.schedule.conflicts) = [0, 1, 1] := by
    decide +kernel
  obtain ⟨hspaced, -, -⟩ := reductions_spaced reachable_eager [.solve, .solve] 1 1 (by decide +kernel)
    (by decide +kernel)
  obtain ⟨u, hu, hn⟩ := List.mem_map.1 (hsteps ▸ List.mem_cons_of_mem 0 List.mem_cons_self)
  exact ⟨hsteps, hspaced,
    hspaced.complete u hu 1 (Nat.zero_le 1) (Nat.le_of_eq hn.symm) Nat.one_pos (Nat.dvd_refl 1)⟩

/-- The second solve call reduces again, although no conflict came after the first reduction. -/
theorem reduced_again : ¬ ∀ (s : Solver) (f : List (List Lit)) (cs : List Call) (locals : Nat), Reachable .words s f →
    (∀ t ∈ Call.stepsAll s cs, t.config.reduceLocalsInterval.toNat = locals) →
      (Call.stepsAll s cs).Pairwise fun t u => t.reducesLocals → u.reducesLocals →
        t.schedule.conflicts + locals ≤ u.schedule.conflicts := by
  intro h
  exact absurd (h eagerSolver _ [.solve, .solve] 1 reachable_eager (by decide +kernel)) (by decide +kernel)

end ClauseLearning
