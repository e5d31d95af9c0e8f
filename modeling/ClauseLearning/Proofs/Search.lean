import ClauseLearning.Search
import ClauseLearning.Proofs.Reduction
import ClauseLearning.Proofs.State

/-!
# The search keeps the invariant and the models

* `Solver.Found` : how the search for a conflict ends. If no candidate is left, all variables that decisions can be made
  on are assigned (`Solver.findConflict_spec`);
* `Solver.lesson` : what is learned from a conflict, before it is stored (`Solver.learn_bumped`);
* `Solver.learn_spec` : learning from a conflict. On level 0 it ends the search, above it the first literal of the
  learned clause becomes true after backtracking;
* `Solver.Stepped`, `Solver.Stopped` : what a step does, and what is left when the search ends;
* `Solver.search_searched` : the search as a whole.
-/

namespace ClauseLearning.Solver

variable {s s' : Solver} {r : ClauseRef} {l : Lit} {v : Var}

/-! ## Decisions -/

/-- What is true stays so, on the same level. -/
def Extends (t u : Trail) : Prop := ∀ l, t.isTrue l → u.isTrue l ∧ u.level l.var = t.level l.var

theorem Extends.refl (t : Trail) : Extends t t := fun _ h => ⟨h, rfl⟩

theorem Extends.trans {t u w : Trail} (h : Extends t u) (h' : Extends u w) : Extends t w := by
  intro l hl
  obtain ⟨h1, h2⟩ := h l hl
  obtain ⟨h3, h4⟩ := h' l h1
  exact ⟨h3, h4.trans h2⟩

theorem Extends.isAssigned {t u : Trail} (h : Extends t u) (hv : t.isAssigned v) : u.isAssigned v := by
  obtain ⟨l, rfl, hl⟩ := Trail.exists_isTrue_of_isAssigned hv
  exact Trail.isAssigned_of_isTrue (h l hl).1

theorem Extends.of_grows {t u : Trail} (g : Trail.Grows l t u) : Extends t u := fun _ hl =>
  ⟨g.isTrue_of hl, g.level_eq_of_isTrue hl⟩

theorem Extends.of_advance {p q : Propagator} (h : Propagator.Advance p q) : Extends p.trail q.trail :=
  fun _ hl => ⟨h.isTrue_mono hl, h.level_eq (Trail.isAssigned_of_isTrue hl)⟩

/-- The same plan for restarts, and the same limits. -/
structure SamePlan (a b : Schedule) : Prop where
  nextRestart_eq : b.nextRestart = a.nextRestart
  luby_eq : b.luby = a.luby
  counting_eq : b.counting = a.counting
  conflictLimit_eq : b.conflictLimit = a.conflictLimit
  decisionLimit_eq : b.decisionLimit = a.decisionLimit

theorem SamePlan.refl (a : Schedule) : SamePlan a a := ⟨rfl, rfl, rfl, rfl, rfl⟩

theorem SamePlan.trans {a b c : Schedule} (h : SamePlan a b) (h' : SamePlan b c) : SamePlan a c :=
  ⟨h'.nextRestart_eq.trans h.nextRestart_eq, h'.luby_eq.trans h.luby_eq, h'.counting_eq.trans h.counting_eq,
    h'.conflictLimit_eq.trans h.conflictLimit_eq, h'.decisionLimit_eq.trans h.decisionLimit_eq⟩

/-- The same counters and limits, but for the number of decisions. -/
structure SameCounters (s s' : Solver) : Prop where
  interrupted_eq : s'.interrupted = s.interrupted
  conflicts_eq : s'.schedule.conflicts = s.schedule.conflicts
  plan : SamePlan s.schedule s'.schedule

theorem SameCounters.refl (s : Solver) : SameCounters s s := ⟨rfl, rfl, SamePlan.refl _⟩

theorem SameCounters.trans {s₁ s₂ s₃ : Solver} (h : SameCounters s₁ s₂) (h' : SameCounters s₂ s₃) :
    SameCounters s₁ s₃ :=
  ⟨h'.interrupted_eq.trans h.interrupted_eq, h'.conflicts_eq.trans h.conflicts_eq, h.plan.trans h'.plan⟩

/-- What propagation, facts and decisions leave alone. -/
structure SameControl (s s' : Solver) : Prop extends SameCounters s s' where
  status_eq : s'.status = s.status

theorem SameControl.of_eq (hs : s'.schedule = s.schedule) (hi : s'.interrupted = s.interrupted)
    (hu : s'.status = s.status) : SameControl s s' :=
  ⟨⟨hi, congrArg Schedule.conflicts hs, hs ▸ SamePlan.refl _⟩, hu⟩

theorem SameControl.refl (s : Solver) : SameControl s s := .of_eq rfl rfl rfl

theorem SameControl.trans {s₁ s₂ s₃ : Solver} (h : SameControl s₁ s₂) (h' : SameControl s₂ s₃) : SameControl s₁ s₃ :=
  ⟨h.toSameCounters.trans h'.toSameCounters, h'.status_eq.trans h.status_eq⟩

theorem makeDecision_true (h : s.Inv) (he : s.prop.watches.enabled = true) (hc : s.prop.Complete)
    (hd : s.makeDecision = (true, s')) :
    Searched s s' ∧ SameControl s s' ∧ Extends s.prop.trail s'.prop.trail ∧
      ∃ v : Var, v.index < s.varCount ∧ ¬ s.prop.trail.isAssigned v ∧ s'.prop.trail.isAssigned v := by
  have hf := DecisionHeap.find?_found h.candidates.valid fun v => !s.prop.trail.isAssigned v
  rw [makeDecision] at hd
  generalize s.heap.find? _ = out at hd hf
  obtain ⟨candidate, heap⟩ := out
  cases candidate with
  | none => cases (Prod.mk.inj hd).1
  | some v =>
    obtain ⟨hx, hen, hg⟩ := hf.found_good rfl
    have hu : ¬ s.prop.trail.isAssigned v := by simpa using hg
    obtain rfl := (Prod.mk.inj hd).2
    generalize hb : preferredValue _ v = b
    have hxl : (v.lit b).var.index < s.varCount := (Lit.var_lit v b).symm ▸ hx
    have hul : ¬ s.prop.trail.isAssigned (v.lit b).var := (Lit.var_lit v b).symm ▸ hu
    have g := h.prop.trail.grows_decide (r := .unit) hxl hul
    have hp := h.prop.decide he hc hxl hul
    have hv : (s.prop.trail.openLevel.assign (v.lit b) .unit).isAssigned v := by
      have := Trail.isAssigned_of_isTrue (g.isTrue_iff.2 (Or.inl rfl))
      rwa [Lit.var_lit] at this
    refine ⟨⟨?_, ?_, rfl, rfl, rfl, rfl, ?_⟩, .of_eq rfl rfl rfl, Extends.of_grows g, v, hx, hu, hv⟩
    · refine ⟨⟨hp, ⟨hf.valid, fun hv' => hf.isEnabled_eq.trans (h.candidates.enabled hv'), ?_⟩,
        h.varMarks, h.eliminations⟩, h.litMarks⟩
      intro w hwe hwu
      have hwu' : ¬ s.prop.trail.isAssigned w := fun hw => hwu (g.isAssigned_of hw)
      have hwe' := hf.isEnabled_eq.symm.trans hwe
      rcases hf.waits (h.candidates.waits hwe' hwu') hwe' (by simpa using hwu') with hw | hw
      · exact hw
      · exact absurd (Option.some.inj hw ▸ hv) hwu
    · exact Faithful.of_prop (Propagator.Faithful.of_fact (fun _ => h.prop.trail.fact_decide hxl hul) rfl) rfl Iff.rfl
    · intro hr w hw hmw
      -- eliminated variables are no candidates
      have hmw' : ({ s.prop with trail := s.prop.trail.openLevel.assign (v.lit b) .unit } : Propagator).Mentions w :=
        hmw
      rcases hmw'.grow g with hmw | rfl
      · exact hr w hw hmw
      · rw [Lit.var_lit] at hw
        have hdec := (h.candidates.enabled hx).symm.trans hen
        rw [show (infoOf s.vars v).eliminated = true from hw, Bool.not_true, Bool.and_false] at hdec
        cases hdec

theorem makeDecision_false (h : s.Inv) (hd : s.makeDecision = (false, s')) :
    Searched s s' ∧ SameControl s s' ∧ s'.prop = s.prop ∧
      ∀ v, s'.heap.isEnabled v → s'.prop.trail.isAssigned v := by
  have hf := DecisionHeap.find?_found h.candidates.valid fun v => !s.prop.trail.isAssigned v
  rw [makeDecision] at hd
  generalize s.heap.find? _ = out at hd hf
  obtain ⟨candidate, heap⟩ := out
  cases candidate with
  | some v => cases (Prod.mk.inj hd).1
  | none =>
    obtain rfl := (Prod.mk.inj hd).2
    have hall (v : Var) (hv : heap.isEnabled v) : s.prop.trail.isAssigned v := by
      have hv' := hf.isEnabled_eq.symm.trans hv
      apply Classical.byContradiction
      intro hu
      have := hf.waits_none rfl (h.candidates.waits hv' hu) hv'
      exact hu (by simpa using this)
    refine ⟨⟨⟨⟨h.prop, ⟨hf.valid, ?_, fun hwe hwu => absurd (hall _ hwe) hwu⟩, h.varMarks, h.eliminations⟩,
      h.litMarks⟩, ?_, rfl, rfl, rfl, rfl, id⟩, .of_eq rfl rfl rfl, rfl, hall⟩
    · exact fun hv => hf.isEnabled_eq.trans (h.candidates.enabled hv)
    · exact Faithful.of_prop (Propagator.Faithful.refl _) rfl Iff.rfl

/-! ## The next conflict -/

/-- The number of unassigned variables among the first `n`. -/
def unassignedCount (n : Nat) (t : Trail) : Nat := (List.range n).countP fun i => !t.isAssigned ⟨i⟩

theorem unassignedCount_le (n : Nat) (t : Trail) : unassignedCount n t ≤ n :=
  Nat.le_trans List.countP_le_length (Nat.le_of_eq List.length_range)

theorem unassignedCount_mono {t u : Trail} (n : Nat) (h : Extends t u) : unassignedCount n u ≤ unassignedCount n t := by
  apply List.countP_mono_left
  intro i _ hi
  have hi' : ¬ u.isAssigned ⟨i⟩ := by simpa using hi
  simpa using fun ht => hi' (h.isAssigned ht)

theorem countP_lt_countP {α : Type} {xs : List α} {f g : α → Bool} (hfg : ∀ x ∈ xs, f x = true → g x = true) {y : α}
    (hy : y ∈ xs) (hf : f y = false) (hg : g y = true) : xs.countP f < xs.countP g := by
  induction xs with
  | nil => cases hy
  | cons x xs ih =>
    have hle : xs.countP f ≤ xs.countP g :=
      List.countP_mono_left fun z hz => hfg z (List.mem_cons_of_mem x hz)
    rw [List.countP_cons, List.countP_cons]
    rcases List.mem_cons.1 hy with rfl | hy
    · rw [hf, hg]
      simp
      omega
    · have h1 := ih (fun z hz => hfg z (List.mem_cons_of_mem x hz)) hy
      have h2 := hfg x List.mem_cons_self
      cases hfx : f x
      · simp
        omega
      · rw [h2 hfx]
        simp
        omega

theorem unassignedCount_lt {t u : Trail} {n : Nat} (h : Extends t u) (hx : v.index < n) (ht : ¬ t.isAssigned v)
    (hu : u.isAssigned v) : unassignedCount n u < unassignedCount n t := by
  refine countP_lt_countP (y := v.index) ?_ (List.mem_range.2 hx) ?_ ?_
  · intro i _ hi
    have hi' : ¬ u.isAssigned ⟨i⟩ := by simpa using hi
    simpa using fun ht => hi' (h.isAssigned ht)
  · simpa using hu
  · simpa using ht

theorem tidyOnLevelZero_spec (h : s.Inv) (he : s.prop.watches.enabled = true) (hc : s.prop.Complete) :
    Searched s s.tidyOnLevelZero ∧ SameControl s s.tidyOnLevelZero ∧
      Extends s.prop.trail s.tidyOnLevelZero.prop.trail ∧ s.tidyOnLevelZero.prop.watches.enabled = true ∧
      s.tidyOnLevelZero.prop.Complete := by
  unfold tidyOnLevelZero
  split
  · next h0 =>
    have ht := tidy_spec h he hc h0
    obtain ⟨h1, h2, h3⟩ := Propagator.enableWatches_spec ht.searched.inv.prop
    have htrail := Propagator.trail_enableWatches s.tidy.prop
    refine ⟨ht.searched.trans (searched_of_prop ht.searched.inv h1 (Propagator.Faithful.of_advance h2 h1.toLinked)
      (fun _ => h2.isAssigned_mono) fun _ => h2.mentions_of_isAssigned h1.toLinked),
      ⟨⟨ht.interrupted_eq, congrArg Schedule.conflicts ht.schedule_eq, ?_⟩, ht.status_eq⟩, ?_, h3, ?_⟩
    · show SamePlan s.schedule s.tidy.schedule
      rw [ht.schedule_eq]
      exact SamePlan.refl _
    · intro l hl
      show s.tidy.prop.enableWatches.trail.isTrue l ∧ s.tidy.prop.enableWatches.trail.level l.var = _
      rw [htrail, ht.isTrue_eq, ht.level_eq]
      exact ⟨hl, rfl⟩
    · show s.tidy.prop.enableWatches.trail.head = s.tidy.prop.enableWatches.trail.lits.size
      have hle := h1.trail.head_le
      rw [htrail, ht.lits_eq] at hle ⊢
      exact Nat.le_zero.1 hle
  · exact ⟨Searched.refl h, SameControl.refl s, Extends.refl _, he, hc⟩

/-- How the search for a conflict ends. -/
structure Found (s : Solver) (out : Outcome × Solver) : Prop where
  searched : Searched s out.2
  control : SameControl s out.2
  extend : Extends s.prop.trail out.2.prop.trail
  enabled : out.2.prop.watches.enabled = true
  conflict {r : ClauseRef} : out.1 = .conflict r → out.2.prop.Conflict r
  model : out.1 = .model → out.2.prop.Complete ∧ ∀ v, out.2.heap.isEnabled v → out.2.prop.trail.isAssigned v
  interrupted : out.1 = .interrupted → s.schedule.decisionLimit ≠ none

/-- Each decision assigns a variable, so the search comes to an end. -/
theorem findConflictFuel_spec {fuel : Nat} (h : s.Inv) (hf : unassignedCount s.varCount s.prop.trail < fuel) :
    Found s (findConflictFuel fuel s) := by
  induction fuel generalizing s with
  | zero => exact absurd hf (Nat.not_lt_zero _)
  | succ fuel ih =>
    obtain ⟨h1, hp⟩ := propagate_searched h
    have hc1 : SameControl s s.propagate.2 := .of_eq rfl rfl rfl
    have he1 : Extends s.prop.trail s.propagate.2.prop.trail := Extends.of_advance hp.advance
    rw [findConflictFuel]
    generalize s.propagate = out at h1 hp hc1 he1
    obtain ⟨conflict, s₁⟩ := out
    cases conflict with
    | some r =>
      refine ⟨h1, hc1, he1, hp.enabled, fun hr => ?_, fun h => (nomatch h), fun h => (nomatch h)⟩
      obtain rfl := Outcome.conflict.inj hr
      exact hp.conflict rfl
    | none =>
      obtain ⟨h2, hc2, he2, hen, hcomp⟩ := tidyOnLevelZero_spec h1.inv hp.enabled (hp.complete rfl)
      dsimp only
      split
      · next hlim =>
        refine ⟨h1.trans h2, hc1.trans hc2, he1.trans he2, hen, fun h => (nomatch h), fun h => (nomatch h),
          ?_⟩
        intro _ hn
        have hn' := (hc1.trans hc2).plan.decisionLimit_eq.trans hn
        rw [Schedule.decisionLimitReached, hn'] at hlim
        cases hlim
      · generalize hd : s₁.tidyOnLevelZero.makeDecision = out
        obtain ⟨found, s₂⟩ := out
        cases found with
        | false =>
          obtain ⟨h3, hc3, hp3, hall⟩ := makeDecision_false h2.inv hd
          refine ⟨(h1.trans h2).trans h3, (hc1.trans hc2).trans hc3, ?_, ?_, fun h => (nomatch h), fun _ => ⟨?_, hall⟩,
            fun h => (nomatch h)⟩
          · rw [hp3]
            exact he1.trans he2
          · rw [hp3]
            exact hen
          · rw [hp3]
            exact hcomp
        | true =>
          obtain ⟨h3, hc3, he3, v, hx, hu, hv⟩ := makeDecision_true h2.inv hen hcomp hd
          have h4 : Searched s₂ { s₂ with schedule := s₂.schedule.countDecision } :=
            searched_of_core h3.inv rfl rfl rfl Iff.rfl
          have hc4 : SameControl s₂ { s₂ with schedule := s₂.schedule.countDecision } :=
            ⟨⟨rfl, rfl, rfl, rfl, rfl, rfl, rfl⟩, rfl⟩
          have hs := ((h1.trans h2).trans h3).trans h4
          have hlt := unassignedCount_lt he3 hx hu hv
          have hle := unassignedCount_mono s.varCount (he1.trans he2)
          rw [(h1.trans h2).varCount_eq] at hlt
          have hout := ih h4.inv (by
            rw [hs.varCount_eq]
            show unassignedCount s.varCount s₂.prop.trail < fuel
            omega)
          refine ⟨hs.trans hout.searched, (((hc1.trans hc2).trans hc3).trans hc4).trans hout.control,
            ((he1.trans he2).trans he3).trans hout.extend, hout.enabled, hout.conflict, hout.model, ?_⟩
          intro hi
          have := hout.interrupted hi
          rw [(((hc1.trans hc2).trans hc3).trans hc4).plan.decisionLimit_eq] at this
          exact this

theorem findConflict_spec (h : s.Inv) : Found s s.findConflict :=
  findConflictFuel_spec h (Nat.lt_succ_of_le (unassignedCount_le _ _))

/-! ## Bookkeeping after a conflict -/

/-- Bookkeeping: clauses change, but not in their literals, and trail and watches stay as they are. Reasons are not
deleted. -/
structure Bumped (s s' : Solver) : Prop where
  searched : Searched s s'
  control : SameControl s s'
  trail_eq : s'.prop.trail = s.prop.trail
  watches_eq : s'.prop.watches = s.prop.watches
  pruned : Database.Pruned s.prop.IsReason s.prop.clauses s'.prop.clauses

theorem Bumped.refl (h : s.Inv) : Bumped s s := ⟨Searched.refl h, SameControl.refl s, rfl, rfl, .refl _⟩

theorem Bumped.trans {s₁ s₂ s₃ : Solver} (h : Bumped s₁ s₂) (h' : Bumped s₂ s₃) : Bumped s₁ s₃ where
  searched := h.searched.trans h'.searched
  control := h.control.trans h'.control
  trail_eq := h'.trail_eq.trans h.trail_eq
  watches_eq := h'.watches_eq.trans h.watches_eq
  pruned := by
    have hp := h'.pruned
    unfold Propagator.IsReason at hp
    rw [h.trail_eq] at hp
    exact h.pruned.trans hp

theorem bumped_of_pruned {d : Database} (h : s.Inv) (hp : Database.Pruned s.prop.IsReason s.prop.clauses d) :
    Bumped s (s.withClauses d) :=
  ⟨searched_of_prop h (h.prop.prune hp) (Propagator.Faithful.of_pruned hp) (fun _ => id) fun _ => Or.inl,
    .of_eq rfl rfl rfl, rfl, rfl, hp⟩

theorem bumped_of_core (h : s.Inv) (hc : s'.core = s.core) (hf : s'.config = s.config)
    (ho : s'.eliminationOff = s.eliminationOff) (hs : SameControl s s') : Bumped s s' := by
  have hprop := prop_of_core hc
  exact ⟨searched_of_core h hc hf ho (by rw [hs.status_eq]), hs, by rw [hprop], by rw [hprop],
    by rw [hprop]; exact .refl _⟩

theorem report_bumped (h : s.Inv) (e : Event) : Bumped s (s.report e) :=
  bumped_of_core h rfl rfl rfl (.of_eq rfl rfl rfl)

theorem glue_bumped (h : s.Inv) (ls : List Lit) : Bumped s (s.glue ls).2 := by
  have hm := h.litMarks.countDistinct (ls.map fun l => s.prop.trail.level l.var)
  unfold glue
  exact ⟨⟨⟨⟨h.prop, h.candidates, h.varMarks, h.eliminations⟩, hm⟩,
    Faithful.of_prop (Propagator.Faithful.refl _) rfl Iff.rfl, rfl, rfl, rfl, rfl, id⟩,
    .of_eq rfl rfl rfl, rfl, rfl, .refl _⟩

theorem prop_glue (s : Solver) (ls : List Lit) : (s.glue ls).2.prop = s.prop := rfl

theorem tier_ofGlue_ne (glue : Nat) : Tier.ofGlue glue ≠ .irredundant := by
  unfold Tier.ofGlue
  split
  · exact fun h => by cases h
  · split <;> exact fun h => by cases h

theorem pruned_regrade {keep : ClauseRef → Prop} {d : Database} (r : ClauseRef) (hl : (d.get r).learned)
    (glue old : Nat) :
    Database.Pruned keep d
      (if glue < old then
        ((d.modify r ({ · with active := true })).modify r ({ · with glue := Clause.storedGlue glue })).setTier r
          (Tier.ofGlue glue)
      else d.modify r ({ · with active := true })) := by
  have hm : Database.Pruned keep d (d.modify r ({ · with active := true })) :=
    Database.Pruned.modify _ r ⟨rfl, rfl, rfl⟩
  have hlm : ((d.modify r ({ · with active := true })).get r).learned := Database.LearnedStay.modify _ r id r hl
  generalize d.modify r ({ · with active := true }) = e at hm hlm
  split
  · have hg : Database.Pruned keep e (e.modify r ({ · with glue := Clause.storedGlue glue })) :=
      Database.Pruned.modify _ r ⟨rfl, rfl, rfl⟩
    have hlg : ((e.modify r ({ · with glue := Clause.storedGlue glue })).get r).learned :=
      Database.LearnedStay.modify _ r id r hlm
    exact (hm.trans hg).trans (Database.Pruned.setTier hlg (tier_ofGlue_ne glue))
  · exact hm

theorem bumpClause_bumped (h : s.Inv) (r : ClauseRef) : Bumped s (s.bumpClause r) := by
  have hb := bumped_of_pruned h (Database.Pruned.bumpActivity s.prop.clauses s.clauseScale r)
  have h1 : Bumped s { s.withClauses (s.prop.clauses.bumpActivity s.clauseScale r).1 with
      clauseScale := (s.prop.clauses.bumpActivity s.clauseScale r).2 } :=
    hb.trans (bumped_of_core hb.searched.inv rfl rfl rfl (.of_eq rfl rfl rfl))
  dsimp only [bumpClause]
  split
  · next hl =>
    have h2 := glue_bumped h1.searched.inv
      ((s.withClauses (s.prop.clauses.bumpActivity s.clauseScale r).1).prop.clauses.get r).lits
    have h3 (glue old : Nat) := bumped_of_pruned h2.searched.inv (pruned_regrade r hl glue old)
    simp only [apply_ite (withClauses _)] at h3
    exact (h1.trans h2).trans (h3 _ _)
  · exact h1

theorem foldl_bumpClause_bumped (h : s.Inv) (rs : List ClauseRef) : Bumped s (rs.foldl bumpClause s) := by
  induction rs generalizing s with
  | nil => exact Bumped.refl h
  | cons r rs ih =>
    have h1 := bumpClause_bumped h r
    exact h1.trans (ih h1.searched.inv)

theorem decay_bumped (h : s.Inv) : Bumped s s.decay := by
  have hb := bumped_of_pruned h (Database.Pruned.decayActivities s.prop.clauses s.clauseScale)
  unfold decay
  refine ⟨⟨⟨⟨hb.searched.inv.prop, ?_, h.varMarks, hb.searched.inv.eliminations⟩, h.litMarks⟩, ?_, rfl, rfl, rfl, rfl,
    hb.searched.retired⟩, .of_eq rfl rfl rfl, rfl, rfl, hb.pruned⟩
  · exact h.candidates.same h.candidates.valid.decay
  · exact ⟨hb.searched.faithful.modelsAll, hb.searched.faithful.admits⟩

/-! ## Learning -/

/-- What an analysis changes besides its lesson: activities of variables. -/
theorem analyzed_bumped (h : s.Inv) {heap : DecisionHeap} {marks : VarMarks}
    (hh : DecisionHeap.Same s.varCount s.heap heap) (hm : marks.Clear s.varCount) :
    Bumped s { s with heap := heap, varMarks := marks } :=
  ⟨⟨⟨⟨h.prop, h.candidates.same hh, hm, h.eliminations⟩, h.litMarks⟩,
    Faithful.of_prop (Propagator.Faithful.refl _) rfl Iff.rfl, rfl, rfl, rfl, rfl, id⟩,
    .of_eq rfl rfl rfl, rfl, rfl, .refl _⟩

/-- Backtracking to level `b` makes way for `v` on that level. -/
structure Learned (s s' : Solver) (b : Nat) (v : Var) : Prop where
  keeps {l : Lit} : s.prop.trail.isTrue l → s.prop.trail.level l.var ≤ b →
    s'.prop.trail.isTrue l ∧ s'.prop.trail.level l.var = s.prop.trail.level l.var
  above : s.prop.trail.isAssigned v ∧ b < s.prop.trail.level v
  assigned : s'.prop.trail.isAssigned v ∧ s'.prop.trail.level v = b

section AssertLearned

variable {p : Propagator} {first : Lit} {rest : List Lit} {lesson : Lesson} (h : s.Inv) (ht : s.prop.trail = p.trail)
  (hl : lesson.Asserts p first rest)
include h ht hl

theorem not_isAssigned_first : ¬ (s.backtrack lesson.backtrackTo).prop.trail.isAssigned first.var := by
  intro ha
  obtain ⟨k, hk, hkt⟩ := Trail.exists_isTrue_of_isAssigned ha
  have hle := (h.prop.trail.isTrue_backtrack.1 hkt).2
  rw [hk, ht, hl.first_level] at hle
  exact absurd hl.backtrackTo_lt (Nat.not_lt_of_le hle)

theorem isFalse_rest (hm : l ∈ rest) : (s.backtrack lesson.backtrackTo).prop.trail.isFalse l := by
  rw [Trail.isFalse_iff_neg]
  refine h.prop.trail.isTrue_backtrack.2 ⟨?_, ?_⟩
  · rw [ht]
    exact Trail.isFalse_iff_neg.1 (hl.rest_false hm)
  · rw [Lit.var_neg, ht]
    exact (hl.rest_level hm).2

omit h in
theorem isAssigned_of_mem_clause (hm : l ∈ lesson.clause) : s.prop.trail.isAssigned l.var := by
  rw [ht]
  rw [hl.clause_eq] at hm
  rcases List.mem_cons.1 hm with rfl | hm
  · exact Trail.isAssigned_of_isFalse hl.first_false
  · exact Trail.isAssigned_of_isFalse (hl.rest_false hm)

theorem index_lt_of_mem_clause (hm : l ∈ lesson.clause) : l.var.index < s.varCount :=
  h.prop.trail.index_lt (isAssigned_of_mem_clause ht hl hm)

omit h in
theorem currentLevel_backtrack_lesson :
    (s.backtrack lesson.backtrackTo).prop.trail.currentLevel = lesson.backtrackTo := by
  refine Trail.currentLevel_backtrack.trans (Nat.min_eq_left ?_)
  rw [ht]
  exact Nat.le_of_lt hl.backtrackTo_lt

theorem fits_clause {c : Clause} (hc : c.lits = lesson.clause) :
    c.Fits s.varCount (s.backtrack lesson.backtrackTo).prop.trail where
  nodup := hc ▸ hl.nodup
  index_lt hm := index_lt_of_mem_clause h ht hl (hc ▸ hm)
  placed {l} hm ha := by
    rw [hc, hl.clause_eq] at hm
    rcases List.mem_cons.1 hm with rfl | hm
    · exact absurd ha (not_isAssigned_first h ht hl)
    · have hf := Trail.isFalse_iff_neg.1 (isFalse_rest h ht hl hm)
      have hpos : 0 < (s.backtrack lesson.backtrackTo).prop.trail.level (-l).var := by
        rw [Lit.var_neg]
        apply Nat.lt_of_lt_of_eq (hl.rest_level hm).1
        rw [← ht]
        exact Trail.level_backtrack.symm
      obtain ⟨i, hi⟩ := (backtrack_searched h lesson.backtrackTo).inv.prop.trail.at_of_level_pos hf hpos
      exact ⟨i, -l, hi, Lit.var_neg l⟩

theorem level_assign_first (t : Reason) :
    ((s.backtrack lesson.backtrackTo).prop.trail.assign first t).level first.var = lesson.backtrackTo := by
  have hi := (backtrack_searched h lesson.backtrackTo).inv
  have hx : first.var.index < s.varCount := index_lt_of_mem_clause h ht hl (hl.clause_eq ▸ List.mem_cons_self)
  rw [Trail.level_assign (hi.prop.trail.levels_size.symm ▸ hx), if_pos rfl, currentLevel_backtrack_lesson ht hl]

theorem learned_of_grows {u : Trail} (g : Trail.Grows first (s.backtrack lesson.backtrackTo).prop.trail u)
    (hlev : u.level first.var = lesson.backtrackTo) (hs : s'.prop.trail = u) :
    Learned s s' lesson.backtrackTo first.var where
  keeps {k} hk hle := by
    have hk' : (s.backtrack lesson.backtrackTo).prop.trail.isTrue k := h.prop.trail.isTrue_backtrack.2 ⟨hk, hle⟩
    rw [hs]
    exact ⟨g.isTrue_of hk', (g.level_eq_of_isTrue hk').trans Trail.level_backtrack⟩
  above := by
    rw [ht, hl.first_level]
    exact ⟨Trail.isAssigned_of_isFalse hl.first_false, hl.backtrackTo_lt⟩
  assigned := by
    rw [hs]
    exact ⟨Trail.isAssigned_of_isTrue (g.isTrue_iff.2 (Or.inl rfl)), hlev⟩

/-- What asserting a learned clause after backtracking comes to. -/
structure Asserted (s s' : Solver) (lesson : Lesson) (v : Var) : Prop where
  inv : s'.Inv
  control : SameControl s s'
  vars_eq : s'.vars = s.vars
  witnesses_eq : s'.witnesses = s.witnesses
  config_eq : s'.config = s.config
  eliminationOff_eq : s'.eliminationOff = s.eliminationOff
  mentions {u : Var} : s'.prop.Mentions u → s.prop.Mentions u
  learned : Learned s s' lesson.backtrackTo v
  enabled_eq : s'.prop.watches.enabled = s.prop.watches.enabled
  modelsAll {a : Assignment} : s.prop.ModelsAll a → Satisfies a lesson.clause → s'.prop.ModelsAll a
  admits {m : PartialAssignment} : s'.prop.Admits m → s.prop.Admits m

theorem assert_single (hr : rest = []) :
    Asserted s ((s.backtrack lesson.backtrackTo).assign first .unit) lesson first.var := by
  have h1 := backtrack_searched h lesson.backtrackTo
  have hf := Propagator.Faithful.backtrack h.prop.toLinked lesson.backtrackTo
  have hu := not_isAssigned_first h ht hl
  have hx : first.var.index < s.varCount := index_lt_of_mem_clause h ht hl (hl.clause_eq ▸ List.mem_cons_self)
  have h0 := (currentLevel_backtrack_lesson ht hl).trans (hl.single hr)
  have g := h1.inv.prop.trail.grows_assign (r := .unit) hx hu
  have hlev := level_assign_first h ht hl .unit
  refine ⟨⟨⟨h1.inv.prop.assignFact h0 hx hu, ?_, h.varMarks, h1.inv.eliminations⟩, h.litMarks⟩,
    .of_eq rfl rfl rfl, rfl, rfl, rfl, rfl, fun {u} hu => ?_, learned_of_grows h ht hl g hlev rfl,
    rfl, ?_, ?_⟩
  · exact h1.inv.candidates.of_trail fun _ => g.isAssigned_of
  · rcases Propagator.Mentions.grow hu g with hu | rfl
    · exact mentions_of_backtrack h _ hu
    · exact Or.inl (isAssigned_of_mem_clause ht hl (hl.clause_eq ▸ List.mem_cons_self))
  · intro a ha hs
    apply Propagator.ModelsAll.grow (hf.modelsAll ha) g
    intro _
    rw [hl.clause_eq, hr] at hs
    obtain ⟨k, hk, hkh⟩ := hs
    exact List.mem_singleton.1 hk ▸ hkh
  · intro a ha
    exact hf.admits (Propagator.Admits.of_grow ha g)

theorem inv_learn_clause (he : s.prop.watches.enabled = true) {c : Clause} (hc : c.lits = lesson.clause)
    (hd : c.deleted = false) :
    (((s.backtrack lesson.backtrackTo).prop.addClause c).2.assign first
      (.clause ((s.backtrack lesson.backtrackTo).prop.addClause c).1)).Inv s.varCount := by
  have hi := (backtrack_searched h lesson.backtrackTo).inv
  have hfirst : c.first = first := (List.cons.inj (hc.trans hl.clause_eq)).1
  have hrest : c.lits.drop 1 = rest := (List.cons.inj (hc.trans hl.clause_eq)).2
  have hfalse : ∀ x ∈ c.lits.drop 1, (s.backtrack lesson.backtrackTo).prop.trail.isFalse x :=
    fun x hx => isFalse_rest h ht hl (hrest ▸ hx)
  have hsecond : (s.backtrack lesson.backtrackTo).prop.trail.level c.second.var =
      (s.backtrack lesson.backtrackTo).prop.trail.currentLevel := by
    rw [currentLevel_backtrack_lesson ht hl, ← hl.second hrest.symm, ← ht]
    exact Trail.level_backtrack
  have hp := hi.prop.learn he (fits_clause h ht hl hc) hd (hfirst ▸ not_isAssigned_first h ht hl) hfalse hsecond
  rw [hfirst] at hp
  exact hp

theorem assert_clause (he : s.prop.watches.enabled = true) {c : Clause} (hc : c.lits = lesson.clause)
    (hd : c.deleted = false) (hn : c.learned) {s₁ : Solver} (hs₁ : Bumped (s.backtrack lesson.backtrackTo) s₁)
    (hp₁ : s₁.prop = (s.backtrack lesson.backtrackTo).prop) :
    Asserted s { s₁ with prop := (s₁.prop.addClause c).2.assign first (.clause (s₁.prop.addClause c).1) } lesson
      first.var := by
  have h1 := backtrack_searched h lesson.backtrackTo
  have hf := Propagator.Faithful.backtrack h.prop.toLinked lesson.backtrackTo
  have hu := not_isAssigned_first h ht hl
  have hx : first.var.index < s.varCount := index_lt_of_mem_clause h ht hl (hl.clause_eq ▸ List.mem_cons_self)
  have hb : 0 < lesson.backtrackTo := by
    have hsecond : c.second ∈ rest := (List.cons.inj (hc.trans hl.clause_eq)).2 ▸ List.mem_cons_self
    obtain ⟨h2, h3⟩ := hl.rest_level hsecond
    exact Nat.lt_of_lt_of_le h2 h3
  have hp := inv_learn_clause h ht hl he hc hd
  rw [← hp₁] at hp
  generalize (s₁.prop.addClause c).1 = r at hp ⊢
  have g := h1.inv.prop.trail.grows_assign (r := .clause r) hx hu
  have hlev := level_assign_first h ht hl (.clause r)
  have hcount : s₁.varCount = s.varCount := hs₁.searched.varCount_eq.trans h1.varCount_eq
  have htrail : ((s₁.prop.addClause c).2.assign first (.clause r)).trail =
      (s.backtrack lesson.backtrackTo).prop.trail.assign first (.clause r) := by
    show s₁.prop.trail.assign first (.clause r) = _
    rw [hp₁]
  have hcontrol : SameControl s s₁ := by
    have h0 : SameControl s (s.backtrack lesson.backtrackTo) := .of_eq rfl rfl rfl
    exact h0.trans hs₁.control
  refine
    { inv := ⟨⟨?_, ?_, hs₁.searched.inv.varMarks, ?_⟩, hs₁.searched.inv.litMarks⟩
      control := ⟨⟨hcontrol.interrupted_eq, hcontrol.conflicts_eq, hcontrol.plan⟩, hcontrol.status_eq⟩
      vars_eq := hs₁.searched.vars_eq
      witnesses_eq := hs₁.searched.witnesses_eq
      config_eq := hs₁.searched.config_eq
      eliminationOff_eq := hs₁.searched.eliminationOff_eq
      mentions := fun {u} hm => ?_
      learned := learned_of_grows h ht hl g hlev htrail
      enabled_eq := Propagator.Inv.enabled_addClause.trans (by rw [hp₁]; rfl)
      modelsAll := ?_
      admits := ?_ }
  · show ((s₁.prop.addClause c).2.assign first (.clause r)).Inv s₁.varCount
    rw [hcount]
    exact hp
  · apply hs₁.searched.inv.candidates.of_trail
    intro v hv
    rw [htrail]
    exact g.isAssigned_of (hp₁ ▸ hv)
  · exact hs₁.searched.inv.eliminations.addClause fun hn' => nomatch hn.symm.trans hn'
  · change ((s₁.prop.addClause c).2.assign first (.clause r)).Mentions u at hm
    rw [hp₁] at hm
    rcases Propagator.Mentions.grow hm g with hm | rfl
    · rcases hm.addClause with hm | ⟨l, hlc, rfl⟩
      · exact mentions_of_backtrack h _ hm
      · exact Or.inl (isAssigned_of_mem_clause ht hl (hc ▸ hlc))
    · exact Or.inl (isAssigned_of_mem_clause ht hl (hl.clause_eq ▸ List.mem_cons_self))
  · intro a ha hs
    show ((s₁.prop.addClause c).2.assign first (.clause r)).ModelsAll a
    rw [hp₁]
    exact (hf.modelsAll ha).learn (hc ▸ hs) g (hlev.symm ▸ hb)
  · intro a ha
    change ((s₁.prop.addClause c).2.assign first (.clause r)).Admits a at ha
    rw [hp₁] at ha
    exact hf.admits (ha.of_learn g)

theorem assertLearned_spec (he : s.prop.watches.enabled = true) :
    Asserted s ((s.backtrack lesson.backtrackTo).assertLearned lesson.clause) lesson first.var := by
  have h1 := backtrack_searched h lesson.backtrackTo
  rw [hl.clause_eq]
  cases hr : rest with
  | nil => exact assert_single h ht hl hr
  | cons b others =>
    dsimp only [assertLearned]
    have hg := glue_bumped h1.inv (first :: b :: others)
    have hprop := prop_glue (s.backtrack lesson.backtrackTo) (first :: b :: others)
    generalize (s.backtrack lesson.backtrackTo).glue (first :: b :: others) = out at hg hprop ⊢
    obtain ⟨glue, s₁⟩ := out
    generalize hc : ({ first := first, second := b, others := others, tier := _, glue := _ } : Clause) = c
    have hlits : c.lits = lesson.clause := by
      rw [← hc, hl.clause_eq, hr]
      rfl
    have hd : c.deleted = false := by rw [← hc]
    have hn : c.learned = true := by
      rw [← hc]
      exact bne_iff_ne.2 (tier_ofGlue_ne _)
    exact assert_clause h ht hl he hlits hd hn hg hprop

end AssertLearned

/-- The lesson of a conflict. -/
def lesson (s : Solver) (r : ClauseRef) : Lesson := (analyze s.prop s.heap s.varMarks r).1

/-- What a conflict teaches. On level 0 it ends the search. -/
structure Taught (s s' : Solver) : Prop where
  searched : Searched s s'
  counters : SameCounters s s'
  enabled_eq : s'.prop.watches.enabled = s.prop.watches.enabled
  unsat : s.prop.trail.currentLevel = 0 → s'.status = .unsat
  control : 0 < s.prop.trail.currentLevel → SameControl s s' ∧
    ∃ b v, b < s.prop.trail.currentLevel ∧ Learned s s' b v

theorem Learned.of_trail_eq {s₁ : Solver} {b : Nat} (h : Learned s₁ s' b v) (ht : s₁.prop.trail = s.prop.trail) :
    Learned s s' b v where
  keeps hl hle := by
    rw [← ht] at hl hle ⊢
    exact h.keeps hl hle
  above := ht ▸ h.above
  assigned := h.assigned

theorem analyze_same (h : s.Inv) (hc : s.prop.Conflict r) :
    DecisionHeap.Same s.varCount s.heap (analyze s.prop s.heap s.varMarks r).2.1 ∧
      (analyze s.prop s.heap s.varMarks r).2.2.Clear s.varCount := by
  by_cases h0 : s.prop.trail.currentLevel = 0
  · rw [analyze_level_zero h0]
    exact ⟨DecisionHeap.Same.refl h.candidates.valid, h.varMarks⟩
  · exact (analyze_spec h.prop.toLinked h.candidates.valid h.varMarks hc (Nat.pos_of_ne_zero h0)).2

/-- Learning is bookkeeping, and then backtracking to make the first literal of the lesson's clause true. -/
theorem learn_bumped (h : s.Inv) (hc : s.prop.Conflict r) : ∃ s₁, Bumped s s₁ ∧
    s.learn r = (s₁.backtrack (s.lesson r).backtrackTo).assertLearned (s.lesson r).clause := by
  have ha := analyze_same h hc
  dsimp only [lesson, learn]
  generalize analyze s.prop s.heap s.varMarks r = out at ha ⊢
  obtain ⟨lesson, heap, marks⟩ := out
  have h1 := analyzed_bumped h ha.1 ha.2
  have h2 := h1.trans (report_bumped h1.searched.inv (.learned s.currentLevel lesson.clause lesson.backtrackTo))
  have h3 := h2.trans (foldl_bumpClause_bumped h2.searched.inv lesson.involved)
  exact ⟨_, h3.trans (decay_bumped h3.searched.inv), rfl⟩

theorem lesson_level_zero (h0 : s.prop.trail.currentLevel = 0) :
    s.lesson r = { clause := [], backtrackTo := 0, involved := [] } := by
  rw [lesson, analyze_level_zero h0]

theorem learn_spec (h : s.Inv) (he : s.prop.watches.enabled = true) (hc : s.prop.Conflict r) :
    Taught s (s.learn r) := by
  obtain ⟨s₁, h4, hs₁⟩ := learn_bumped h hc
  rw [hs₁]
  by_cases h0 : s.prop.trail.currentLevel = 0
  · rw [lesson_level_zero h0]
    have h5 := h4.searched.trans (backtrack_searched h4.searched.inv 0)
    refine ⟨⟨?_, ?_, h5.vars_eq, h5.witnesses_eq, h5.config_eq, h5.eliminationOff_eq, h5.retired⟩, ?_,
      congrArg Watches.enabled h4.watches_eq, fun _ => rfl, fun hpos => absurd h0 (Nat.ne_of_gt hpos)⟩
    · exact ⟨⟨h5.inv.prop, h5.inv.candidates, h5.inv.varMarks, h5.inv.eliminations⟩, h5.inv.litMarks⟩
    · exact Faithful.of_unsat (fun a ha => hc.not_modelsAll h.prop.toLinked h0 ha.2) h5.witnesses_eq rfl
    · exact ⟨h4.control.interrupted_eq, h4.control.conflicts_eq, h4.control.plan⟩
  · have hpos : 0 < s.prop.trail.currentLevel := Nat.pos_of_ne_zero h0
    obtain ⟨⟨first, rest, hl⟩, -⟩ := analyze_spec h.prop.toLinked h.candidates.valid h.varMarks hc hpos
    change (s.lesson r).Asserts s.prop first rest at hl
    generalize s.lesson r = lesson at hl
    have ha := assertLearned_spec h4.searched.inv h4.trail_eq hl (by rw [h4.watches_eq]; exact he)
    refine ⟨⟨ha.inv, ?_, ha.vars_eq.trans h4.searched.vars_eq, ha.witnesses_eq.trans h4.searched.witnesses_eq,
      ha.config_eq.trans h4.searched.config_eq, ha.eliminationOff_eq.trans h4.searched.eliminationOff_eq,
      fun hr => (h4.searched.retired hr).of_mentions ha.vars_eq fun _ => ha.mentions⟩,
      (h4.control.trans ha.control).toSameCounters,
      ha.enabled_eq.trans (congrArg Watches.enabled h4.watches_eq), fun h => absurd h h0, fun _ =>
        ⟨h4.control.trans ha.control, lesson.backtrackTo, first.var, hl.backtrackTo_lt,
          ha.learned.of_trail_eq h4.trail_eq⟩⟩
    have hs := (h4.control.trans ha.control).status_eq
    refine ⟨?_, [], ha.witnesses_eq.trans h4.searched.witnesses_eq, ?_⟩
    · intro a hm
      exact ⟨fun h => hm.1 (hs.symm.trans h), ha.modelsAll (h4.searched.faithful.modelsAll hm).2 (hl.implied hm.2)⟩
    · intro a hm
      exact h4.searched.admits ⟨fun h => hm.1 (ha.control.status_eq.trans h), ha.admits hm.2⟩

/-! ## Steps -/

/-- A verdict that there is a model is backed by one: no clause is false and no decision is left. -/
def Settled (s : Solver) : Prop :=
  s.status = .sat →
    s.prop.watches.enabled = true ∧ s.prop.Complete ∧ ∀ v, s.heap.isEnabled v → s.prop.trail.isAssigned v

/-- Counters and limits after the restart that is due was planned. -/
def planned (s : Solver) : Schedule :=
  if s.schedule.restartDue then s.schedule.planRestart s.config.lubyRestartIntervalScale else s.schedule

theorem planned_limits (s : Solver) : s.planned.conflicts = s.schedule.conflicts ∧
    s.planned.conflictLimit = s.schedule.conflictLimit ∧ s.planned.decisionLimit = s.schedule.decisionLimit := by
  unfold planned
  split <;> exact ⟨rfl, rfl, rfl⟩

theorem restartIfDue_spec (h : s.Inv) : Searched s s.restartIfDue ∧ s.restartIfDue.schedule = s.planned ∧
    s.restartIfDue.status = s.status ∧ s.restartIfDue.interrupted = s.interrupted ∧
      (s.schedule.restartDue = false → s.restartIfDue = s) := by
  unfold restartIfDue planned
  split
  · next hd =>
    have hplan : Searched s s.planRestart := searched_of_core h rfl rfl rfl Iff.rfl
    have hreport (e : Event) (b : Prop) [Decidable b] {s₁ : Solver} (h₁ : s₁.Inv) :
        Bumped s₁ (if b then s₁.report e else s₁) ∧ (if b then s₁.report e else s₁).schedule = s₁.schedule := by
      split
      · exact ⟨report_bumped h₁ e, rfl⟩
      · exact ⟨Bumped.refl h₁, rfl⟩
    obtain ⟨h1, h2⟩ := hreport (.restarted s.planRestart.schedule.restarts s.planRestart.schedule.conflicts)
      (0 < s.planRestart.schedule.conflicts) hplan.inv
    exact ⟨(hplan.trans h1.searched).trans (backtrack_searched h1.searched.inv 0), h2, h1.control.status_eq,
      h1.control.interrupted_eq, fun hn => absurd (hn.symm.trans hd) Bool.false_ne_true⟩
  · exact ⟨Searched.refl h, rfl, rfl, rfl, fun _ => rfl⟩

theorem reduceIfDue_bumped (h : s.Inv) : Bumped s s.reduceIfDue ∧ s.reduceIfDue.schedule = s.schedule := by
  have hlocals : Bumped s { s with prop := (s.prop.reduceLocals s.ties).2 } := by
    obtain ⟨e, he, hp⟩ := Propagator.reduceLocals_pruned s.ties h.prop.toLinked
    rw [he]
    exact bumped_of_pruned h hp
  have hmids {s : Solver} (h : s.Inv) : Bumped s { s with prop := s.prop.reduceMids.2 } := by
    obtain ⟨e, he, hp⟩ := Propagator.reduceMids_pruned s.prop
    rw [he]
    exact bumped_of_pruned h hp
  dsimp only [reduceIfDue]
  generalize hs₁ : (if s.schedule.reductionDue s.config.reduceLocalsInterval = true then _ else s) = s₁
  have h1 : Bumped s s₁ ∧ s₁.schedule = s.schedule := by
    rw [← hs₁]
    split
    · exact ⟨hlocals.trans (report_bumped hlocals.searched.inv _), rfl⟩
    · exact ⟨Bumped.refl h, rfl⟩
  obtain ⟨h2, h3⟩ := h1
  split
  · have h4 := hmids h2.searched.inv
    exact ⟨(h2.trans h4).trans (report_bumped h4.searched.inv _), h3⟩
  · exact ⟨h2, h3⟩

/-- The search goes on: a conflict was counted, and unless the trail was given up for a restart it grew up to the
conflict. -/
structure Continued (s s' : Solver) : Prop where
  conflicts_eq : s'.schedule.conflicts = s.schedule.conflicts + 1
  progress : ∃ s₁ : Solver, s₁.Inv ∧ s₁.varCount = s.varCount ∧
    (s.schedule.restartDue = false → Extends s.prop.trail s₁.prop.trail) ∧
      ∃ b v, b < s₁.prop.trail.currentLevel ∧ Learned s₁ s' b v

/-- What one step of the search does. -/
structure Stepped (s s' : Solver) : Prop where
  searched : Searched s s'
  settled : s'.Settled
  interrupted : s'.interrupted = true → s.schedule.decisionLimit ≠ none
  plan : SamePlan s.planned s'.schedule
  conflicts_le : s'.schedule.conflicts ≤ s.schedule.conflicts + 1
  continued : s'.status = .unknown → s'.interrupted = false → Continued s s'

theorem conflictStep_spec (h : s.Inv) (hs : s.status = .unknown) (hi : s.interrupted = false) :
    Searched s s.conflictStep ∧ s.conflictStep.Settled ∧
      (s.conflictStep.interrupted = true → s.schedule.decisionLimit ≠ none) ∧
      SamePlan s.schedule s.conflictStep.schedule ∧
      s.conflictStep.schedule.conflicts ≤ s.schedule.conflicts + 1 ∧
      (s.conflictStep.status = .unknown → s.conflictStep.interrupted = false →
        s.conflictStep.schedule.conflicts = s.schedule.conflicts + 1 ∧ ∃ s₁ : Solver, s₁.Inv ∧
          s₁.varCount = s.varCount ∧ Extends s.prop.trail s₁.prop.trail ∧
            ∃ b v, b < s₁.prop.trail.currentLevel ∧ Learned s₁ s.conflictStep b v) := by
  have hf := findConflict_spec h
  unfold conflictStep
  generalize s.findConflict = out at hf
  obtain ⟨outcome, s₁⟩ := out
  have h1 := hf.searched
  have hk := hf.control
  have hst : s₁.status = .unknown := hk.status_eq.trans hs
  have hin : s₁.interrupted = false := hk.interrupted_eq.trans hi
  have hle : s₁.schedule.conflicts ≤ s.schedule.conflicts + 1 := hk.conflicts_eq ▸ Nat.le_succ _
  cases outcome with
  | model =>
    refine ⟨h1.trans (searched_of_core h1.inv rfl rfl rfl ?_), ?_, ?_, hk.plan, hle,
      ?_⟩
    · rw [show s₁.status = .unknown from hst]
      exact iff_of_false (fun h => by cases h) fun h => by cases h
    · intro _
      exact ⟨hf.enabled, (hf.model rfl).1, (hf.model rfl).2⟩
    · intro h'
      exact absurd (hin.symm.trans h') Bool.false_ne_true
    · intro h'
      cases h'
  | interrupted =>
    refine ⟨h1.trans (searched_of_core h1.inv rfl rfl rfl Iff.rfl), ?_,
      fun _ => hf.interrupted rfl, hk.plan, hle, ?_⟩
    · intro h'
      exact nomatch hst.symm.trans h'
    · intro _ h'
      cases h'
  | conflict r =>
    dsimp only
    have hc : Searched s₁ { s₁ with schedule := s₁.schedule.countConflict } :=
      searched_of_core h1.inv rfl rfl rfl Iff.rfl
    have hl := learn_spec hc.inv hf.enabled (hf.conflict rfl)
    generalize Solver.learn _ r = s' at hl
    have hcount : s'.schedule.conflicts = s.schedule.conflicts + 1 :=
      hl.counters.conflicts_eq.trans (congrArg (· + 1) hk.conflicts_eq)
    have hplan : SamePlan s.schedule s'.schedule :=
      hk.plan.trans (SamePlan.trans (b := s₁.schedule.countConflict) ⟨rfl, rfl, rfl, rfl, rfl⟩ hl.counters.plan)
    refine ⟨(h1.trans hc).trans hl.searched, ?_, ?_, hplan, Nat.le_of_eq hcount, ?_⟩
    · intro h'
      by_cases h0 : s₁.prop.trail.currentLevel = 0
      · exact nomatch (hl.unsat h0).symm.trans h'
      · exact nomatch ((hl.control (Nat.pos_of_ne_zero h0)).1.status_eq.trans hst).symm.trans h'
    · intro h'
      exact absurd ((hl.counters.interrupted_eq.trans hin).symm.trans h') Bool.false_ne_true
    · intro h' _
      by_cases h0 : s₁.prop.trail.currentLevel = 0
      · exact nomatch (hl.unsat h0).symm.trans h'
      · obtain ⟨-, b, v, hb, hv⟩ := hl.control (Nat.pos_of_ne_zero h0)
        exact ⟨hcount, s₁, h1.inv, h1.varCount_eq, hf.extend, b, v, hb, hv.keeps, hv.above, hv.assigned⟩

theorem step_eq_conflictStep (h : s.step.1 = true) : s.step = (true, s.restartIfDue.reduceIfDue.conflictStep) := by
  unfold step at h ⊢
  split at h
  · cases h
  · next h1 =>
    split at h
    · cases h
    · next h2 => rw [if_neg h1, if_neg h2]

theorem step_true (h : s.Inv) (hs : s.step = (true, s')) :
    s.status = .unknown ∧ s.interrupted = false ∧ Stepped s s' := by
  unfold step at hs
  split at hs
  · cases (Prod.mk.inj hs).1
  · next hgo =>
    have hst : s.status = .unknown := Classical.not_not.1 fun hn => hgo (Or.inl hn)
    have hin : s.interrupted = false := by
      apply Bool.eq_false_iff.2
      exact fun hi => hgo (Or.inr hi)
    split at hs
    · cases (Prod.mk.inj hs).1
    · obtain rfl := (Prod.mk.inj hs).2
      obtain ⟨h1, h2, h3, h4, h5⟩ := restartIfDue_spec h
      obtain ⟨h6, h7⟩ := reduceIfDue_bumped h1.inv
      have hpl : s.restartIfDue.reduceIfDue.schedule = s.planned := h7.trans h2
      obtain ⟨h8, h9, h10, h11, h12, h13⟩ := conflictStep_spec h6.searched.inv
        (h6.control.status_eq.trans (h3.trans hst)) (h6.control.interrupted_eq.trans (h4.trans hin))
      obtain ⟨hconflicts, -, hlimit⟩ := s.planned_limits
      rw [hpl, hlimit] at h10
      rw [hpl] at h11
      rw [hpl, hconflicts] at h12 h13
      refine ⟨hst, hin, (h1.trans h6.searched).trans h8, h9, h10, h11, h12, ?_⟩
      intro hu hi
      obtain ⟨hc, s₁, hs₁, hn, he, hb⟩ := h13 hu hi
      refine ⟨hc, s₁, hs₁, hn.trans (h1.trans h6.searched).varCount_eq, ?_, hb⟩
      intro hd
      rw [h6.trail_eq, h5 hd] at he
      exact he

/-- What is left when the search ends: a verdict, or an interruption at a limit. -/
structure Stopped (s s' : Solver) : Prop where
  searched : Searched s s'
  prop_eq : s'.prop = s.prop
  heap_eq : s'.heap = s.heap
  schedule_eq : s'.schedule = s.schedule
  status_eq : s'.status = s.status
  limited : s.status = .unknown → s.interrupted = false → s.schedule.conflictLimit ≠ none

theorem step_false (h : s.Inv) (hs : s.step = (false, s')) : Stopped s s' := by
  unfold step at hs
  split at hs
  · next hstop =>
    obtain rfl := (Prod.mk.inj hs).2
    refine ⟨Searched.refl h, rfl, rfl, rfl, rfl, ?_⟩
    intro hu hi
    rcases hstop with hst | hin
    · exact absurd hu hst
    · exact absurd (hi.symm.trans hin) Bool.false_ne_true
  · split at hs
    · next hl =>
      obtain rfl := (Prod.mk.inj hs).2
      refine ⟨searched_of_core h rfl rfl rfl Iff.rfl, rfl, rfl, rfl, rfl, ?_⟩
      intro _ _ hn
      rw [Schedule.conflictLimitReached, hn] at hl
      cases hl
    · cases (Prod.mk.inj hs).1

theorem searchFuel_searched {fuel : Nat} (h : s.Inv) (hs : s.Settled) :
    Searched s (searchFuel fuel s) ∧ (searchFuel fuel s).Settled := by
  induction fuel generalizing s with
  | zero => exact ⟨Searched.refl h, hs⟩
  | succ fuel ih =>
    rw [searchFuel]
    cases hstep : s.step with
    | mk goOn s' =>
      cases goOn with
      | true =>
        obtain ⟨-, -, h1⟩ := step_true h hstep
        obtain ⟨h2, h3⟩ := ih h1.searched.inv h1.settled
        exact ⟨h1.searched.trans h2, h3⟩
      | false =>
        have h1 := step_false h hstep
        refine ⟨h1.searched, ?_⟩
        intro hsat
        obtain ⟨h2, h3, h4⟩ := hs (h1.status_eq.symm.trans hsat)
        show s'.prop.watches.enabled = true ∧ s'.prop.Complete ∧ _
        rw [h1.prop_eq, h1.heap_eq]
        exact ⟨h2, h3, h4⟩

theorem search_searched (h : s.Inv) (hs : s.Settled) : Searched s s.search ∧ s.search.Settled :=
  searchFuel_searched h hs

end ClauseLearning.Solver
