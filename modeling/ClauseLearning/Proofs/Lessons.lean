import ClauseLearning.Proofs.Moments
import Mathlib.Data.List.MinMax
import Mathlib.Order.Nat

/-!
# What the search learns from a conflict

* `Lesson.Asserting` : the clause of a lesson is implied and false, and one of its literals belongs to the conflict's
  level. The level to backtrack to is the highest one of the others;
* `Solver.Asserts` : after learning, the trail is the one up to that level, with the first literal of the clause behind
  it;
* `conflict_teaches` : so it is for every conflict above level 0 that a search meets. On level 0 a conflict refutes the
  clauses.
-/

namespace ClauseLearning

/-! ## Lessons -/

section Asserting

variable {p : Propagator} {lesson : Lesson}

/-- What a conflict above level 0 has to teach: a clause that the clauses and the facts imply, and that becomes unit on
an earlier level. -/
structure Lesson.Asserting (p : Propagator) (lesson : Lesson) : Prop where
  implied {g : Assignment} : p.ModelsAll g → Satisfies g lesson.clause
  nodup : (lesson.clause.map Lit.var).Nodup
  ne_nil : lesson.clause ≠ []
  isFalse {l : Lit} : l ∈ lesson.clause → p.trail.isFalse l
  level_pos {l : Lit} : l ∈ lesson.clause → 0 < p.trail.level l.var
  current_iff {i : Nat} {l : Lit} : lesson.clause[i]? = some l → (p.trail.level l.var = p.trail.currentLevel ↔ i = 0)
  backtrackTo_eq : lesson.backtrackTo = ((lesson.clause.drop 1).map fun l => p.trail.level l.var).foldr max 0
  backtrackTo_lt : lesson.backtrackTo < p.trail.currentLevel
  level_second {l : Lit} : lesson.clause[1]? = some l → p.trail.level l.var = lesson.backtrackTo

variable {first : Lit} {rest : List Lit} (h : lesson.Asserts p first rest)
include h

namespace Lesson.Asserts

theorem backtrackTo_eq :
    lesson.backtrackTo = ((lesson.clause.drop 1).map fun l => p.trail.level l.var).foldr max 0 := by
  rw [h.clause_eq, List.drop_one, List.tail_cons]
  apply Nat.le_antisymm
  · cases hr : rest with
    | nil => exact Nat.le_of_eq (h.single hr)
    | cons s rest' =>
      exact List.le_max_of_le' 0 (List.mem_map_of_mem List.mem_cons_self) (Nat.le_of_eq (h.second hr).symm)
  · have hle : ∀ m ∈ rest.map fun l => p.trail.level l.var, m ≤ lesson.backtrackTo := by
      intro m hm
      obtain ⟨l, hl, rfl⟩ := List.mem_map.1 hm
      exact (h.rest_level hl).2
    exact List.max_le_of_forall_le _ _ hle

theorem asserting (hpos : 0 < p.trail.currentLevel) : lesson.Asserting p := by
  refine
    { implied := h.implied
      nodup := h.nodup
      ne_nil := fun hn => nomatch hn.symm.trans h.clause_eq
      isFalse := fun {l} hl => ?_
      level_pos := fun {l} hl => ?_
      current_iff := fun {i l} hi => ?_
      backtrackTo_eq := h.backtrackTo_eq
      backtrackTo_lt := h.backtrackTo_lt
      level_second := fun {l} hl => ?_ }
  · rw [h.clause_eq] at hl
    rcases List.mem_cons.1 hl with rfl | hl
    · exact h.first_false
    · exact h.rest_false hl
  · rw [h.clause_eq] at hl
    rcases List.mem_cons.1 hl with rfl | hl
    · exact h.first_level ▸ hpos
    · exact (h.rest_level hl).1
  · rw [h.clause_eq] at hi
    cases i with
    | zero =>
      obtain rfl : first = l := Option.some.inj hi
      exact iff_of_true h.first_level rfl
    | succ i =>
      have hle := (h.rest_level (List.mem_of_getElem? (i := i) hi)).2
      have hlt := h.backtrackTo_lt
      exact iff_of_false (by omega) (Nat.succ_ne_zero i)
  · rw [h.clause_eq] at hl
    cases hr : rest with
    | nil =>
      rw [hr] at hl
      cases hl
    | cons s rest' =>
      rw [hr] at hl
      obtain rfl : s = l := Option.some.inj hl
      exact h.second hr

end Lesson.Asserts

end Asserting

/-! ## After learning -/

namespace Solver

variable {s s' : Solver} {first : Lit} {rest : List Lit} {lesson : Lesson} {r : ClauseRef}

/-- The trail up to the level to backtrack to, with the first literal of the lesson's clause behind it. Unless that is
all of the clause, the stored clause is the reason. -/
structure Asserts (s s' : Solver) (lesson : Lesson) : Prop where
  lits_eq : s'.prop.trail.lits.toList = s.prop.trail.upTo lesson.backtrackTo ++ lesson.clause.take 1
  currentLevel_eq : s'.prop.trail.currentLevel = lesson.backtrackTo
  isTrue_iff {l : Lit} : s'.prop.trail.isTrue l ↔
    lesson.clause[0]? = some l ∨ s.prop.trail.isTrue l ∧ s.prop.trail.level l.var ≤ lesson.backtrackTo
  unit {l : Lit} : lesson.clause = [l] → s'.prop.trail.reason l.var = .unit
  stored {l k : Lit} {ls : List Lit} : lesson.clause = l :: k :: ls → ∃ c : ClauseRef,
    s'.prop.trail.reason l.var = .clause c ∧ s'.prop.clauses.isLive c ∧ (s'.prop.clauses.get c).lits = lesson.clause

section AssertLearned

variable {p : Propagator} (h : s.Inv) (ht : s.prop.trail = p.trail) (hl : lesson.Asserts p first rest)
include h ht hl

theorem asserts_of_assign {t : Reason}
    (hs' : s'.prop.trail = (s.backtrack lesson.backtrackTo).prop.trail.assign first t)
    (hunit : rest = [] → t = .unit)
    (hstored : rest ≠ [] → ∃ c : ClauseRef,
      t = .clause c ∧ s'.prop.clauses.isLive c ∧ (s'.prop.clauses.get c).lits = lesson.clause) :
    Asserts s s' lesson := by
  have hb := (backtrack_searched h lesson.backtrackTo).inv.prop.trail
  have hx : first.var.index < s.varCount := index_lt_of_mem_clause h ht hl (hl.clause_eq ▸ List.mem_cons_self)
  have hu := not_isAssigned_first h ht hl
  have hreason : s'.prop.trail.reason first.var = t := by
    rw [hs', Trail.reason_assign (hb.reasons_size.symm ▸ hx), if_pos rfl]
  refine ⟨?_, ?_, fun {l} => ?_, fun {l} hc => ?_, fun {l k ls} hc => ?_⟩
  · rw [hs', hl.clause_eq]
    show ((s.backtrack lesson.backtrackTo).prop.trail.lits.push first).toList = _
    rw [Array.toList_push]
    exact congrArg (· ++ [first]) h.prop.trail.lits_backtrack
  · rw [hs']
    exact currentLevel_backtrack_lesson ht hl
  · rw [hs', hb.isTrue_assign hx hu, hl.clause_eq]
    exact or_congr (eq_comm.trans Option.some_inj.symm) h.prop.trail.isTrue_backtrack
  · obtain ⟨rfl, hr⟩ := List.cons.inj (hl.clause_eq.symm.trans hc)
    exact hreason.trans (hunit hr)
  · obtain ⟨rfl, hr⟩ := List.cons.inj (hl.clause_eq.symm.trans hc)
    obtain ⟨c, rfl, hc'⟩ := hstored (hr ▸ List.cons_ne_nil k ls)
    exact ⟨c, hreason, hc'⟩

theorem assertLearned_asserts : Asserts s ((s.backtrack lesson.backtrackTo).assertLearned lesson.clause) lesson := by
  rw [show assertLearned _ lesson.clause = assertLearned _ (first :: rest) from congrArg _ hl.clause_eq]
  cases hr : rest with
  | nil => exact asserts_of_assign h ht hl rfl (fun _ => rfl) fun hne => absurd hr hne
  | cons second others =>
    refine asserts_of_assign h ht hl rfl (fun hn => nomatch hr.symm.trans hn) fun _ => ⟨_, rfl, ?_, ?_⟩
    · exact Database.isLive_iff.2 (by
        show Clause.deleted (Database.get (Database.add _ _).2 _) = false
        rw [Database.get_add, if_pos rfl])
    · show Clause.lits (Database.get (Database.add _ _).2 _) = _
      rw [Database.get_add, if_pos rfl, hl.clause_eq, hr]
      rfl

end AssertLearned

theorem learn_asserts (h : s.Inv) (hc : s.prop.Conflict r) (hpos : 0 < s.currentLevel) :
    (s.lesson r).Asserting s.prop ∧ Asserts s (s.learn r) (s.lesson r) := by
  obtain ⟨⟨first, rest, hl⟩, -⟩ := analyze_spec h.prop.toLinked h.candidates.valid h.varMarks hc hpos
  change (s.lesson r).Asserts s.prop first rest at hl
  obtain ⟨s₁, hb, hs₁⟩ := learn_bumped h hc
  have ha := assertLearned_asserts hb.searched.inv hb.trail_eq hl
  rw [hs₁]
  refine ⟨hl.asserting hpos, ?_⟩
  have htrail := hb.trail_eq
  exact
    { lits_eq := htrail ▸ ha.lits_eq
      currentLevel_eq := ha.currentLevel_eq
      isTrue_iff := htrail ▸ ha.isTrue_iff
      unit := ha.unit
      stored := ha.stored }

end Solver

/-! ## The conflicts of a run -/

variable {counting : Counting} {s t u : Solver} {f : List (List Lit)} {r : ClauseRef}

theorem Solver.step_of_conflict (hgo : t.step.1 = true)
    (hf : t.restartIfDue.reduceIfDue.findConflict = (.conflict r, u)) :
    t.step.2 = { u with schedule := u.schedule.countConflict }.learn r := by
  rw [Solver.step_eq_conflictStep hgo, Solver.conflictStep, hf]

/-- **Conflicts teach the right clauses.** For every conflict above level 0 that a search meets, the learned clause
follows from the clauses and the facts, and is false. Its variables are distinct, and none was assigned on level 0. Just
its first literal belongs to the conflict's level. The others belong to the level to backtrack to or below, and the
second one belongs to that level. After learning, the trail is the old one up to there, followed by the first literal,
with the stored clause as its reason. On level 0 the learned clause is empty and the clauses are refuted. -/
theorem conflict_teaches (h : Reachable counting s f) (simplifyFirst turnOff : Bool)
    (ht : (s.searchStart simplifyFirst turnOff).Searching t) (hgo : t.step.1 = true)
    (hf : t.restartIfDue.reduceIfDue.findConflict = (.conflict r, u)) :
    (0 < u.currentLevel → (u.lesson r).Asserting u.prop ∧ u.Asserts t.step.2 (u.lesson r)) ∧
      (u.currentLevel = 0 → (u.lesson r).clause = [] ∧ t.step.2.status = .unsat) := by
  have hinv := (ht.searched (Solver.searchStart_called h.inv simplifyFirst turnOff).1.inv).inv
  have hfound := Solver.findConflict_spec (Solver.reduceIfDue_restartIfDue_searched hinv).inv
  rw [hf] at hfound
  have hc : u.prop.Conflict r := hfound.conflict rfl
  -- counting the conflict does not change what is learned
  have hcount : Solver.Searched u { u with schedule := u.schedule.countConflict } :=
    Solver.searched_of_core hfound.searched.inv rfl rfl rfl Iff.rfl
  rw [Solver.step_of_conflict hgo hf]
  refine ⟨fun hpos => ?_, fun h0 => ⟨?_, ?_⟩⟩
  · obtain ⟨h1, h2⟩ := Solver.learn_asserts hcount.inv hc hpos
    exact ⟨h1, h2.lits_eq, h2.currentLevel_eq, h2.isTrue_iff, h2.unit, h2.stored⟩
  · rw [Solver.lesson_level_zero h0]
  · exact (Solver.learn_spec hcount.inv hfound.enabled hc).unsat h0

/-- After two decisions the second clause is false. Then one of the first two variables has to be true. -/
theorem conflict_teaches_fork : ∃ u : Solver,
    (forkSolver.searchStart false false).restartIfDue.reduceIfDue.findConflict = (.conflict 1, u) ∧
      u.currentLevel = 2 ∧ (u.lesson 1).clause = [⟨2⟩, ⟨0⟩] ∧ (u.lesson 1).Asserting u.prop ∧
        u.Asserts (forkSolver.searchStart false false).step.2 (u.lesson 1) := by
  have hgo : (forkSolver.searchStart false false).step.1 = true := by decide +kernel
  have hr : (forkSolver.searchStart false false).restartIfDue.reduceIfDue.findConflict.1 = .conflict 1 := by
    decide +kernel
  have hlevel : (forkSolver.searchStart false false).restartIfDue.reduceIfDue.findConflict.2.currentLevel = 2 := by
    decide +kernel
  have hclause : ((forkSolver.searchStart false false).restartIfDue.reduceIfDue.findConflict.2.lesson 1).clause =
      [⟨2⟩, ⟨0⟩] := by decide +kernel
  generalize hf : (forkSolver.searchStart false false).restartIfDue.reduceIfDue.findConflict = out
    at hr hlevel hclause
  obtain ⟨outcome, u⟩ := out
  obtain rfl : outcome = .conflict 1 := hr
  obtain ⟨h, -⟩ := conflict_teaches reachable_fork false false .start hgo hf
  exact ⟨u, rfl, hlevel, hclause, h (hlevel ▸ Nat.two_pos)⟩

end ClauseLearning
