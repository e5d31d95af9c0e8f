import ClauseLearning.Proofs.Session

/-!
# How clauses are loaded

A clause is refused because of its first literal of a variable that is unknown or eliminated. Else it is compared to the
facts, which are the literals that are true on level 0. The assignment that a search left does not matter.

* `Solver.Accepts`, `Solver.refusal` : the literals that a clause can have, and the error for others;
* `Superfluous`, `Remaining` : clauses that hold anyway, and what facts leave of the others;
* `Solver.Stores`, `Solver.Loaded` : what becomes of a clause;
* `Solver.load_loaded` : a clause is loaded so, from any state;
* `addClause_exact` : adding a clause, with the answer.
-/

namespace ClauseLearning

/-! ## Clauses and facts -/

/-- A clause is a tautology, or a fact makes it true. -/
def Superfluous (t : Trail) (ls : List Lit) : Prop := (∃ l ∈ ls, -l ∈ ls) ∨ ∃ l ∈ ls, t.Fact l

/-- The literals of a clause that no fact makes false, each once and by increasing code. -/
structure Remaining (t : Trail) (ls c : List Lit) : Prop where
  ascending : Lit.Ascending c
  mem_iff {l : Lit} : l ∈ c ↔ l ∈ ls ∧ ¬ t.Fact (-l)

section Remaining

variable {t : Trail} {ls c d : List Lit}

theorem ascending_nodup (h : Lit.Ascending c) : c.Nodup := by
  refine h.imp fun {a b} hab heq => ?_
  rw [heq] at hab
  exact Nat.lt_irrefl _ hab

theorem Remaining.unique (h : Remaining t ls c) (h' : Remaining t ls d) : c = d := by
  have hperm : c.Perm d := by
    refine (List.perm_ext_iff_of_nodup (ascending_nodup h.ascending) (ascending_nodup h'.ascending)).2 fun l => ?_
    rw [h.mem_iff, h'.mem_iff]
  refine hperm.eq_of_pairwise (fun a b _ _ hab hba => ?_) h.ascending h'.ascending
  omega

theorem hasOpposites_distinct : Lit.hasOpposites (Lit.distinct ls) = true ↔ ∃ l ∈ ls, -l ∈ ls := by
  constructor
  · intro h
    obtain ⟨l, hl, hn⟩ := Lit.exists_opposites h
    exact ⟨l, Lit.mem_distinct.1 hl, Lit.mem_distinct.1 hn⟩
  · rintro ⟨l, hl, hn⟩
    by_contra h
    have hv := Lit.distinct_vars (Lit.distinct_ascending ls) (Bool.eq_false_iff.2 h)
    have hsame := List.inj_on_of_nodup_map hv (Lit.mem_distinct.2 hn) (Lit.mem_distinct.2 hl) (Lit.var_neg l)
    exact Lit.neg_ne l hsame

end Remaining

namespace Solver

variable {s t : Solver} {ls before after c : List Lit} {l k : Lit}

/-! ## Refusals -/

/-- The literal is of a variable that is allocated and was not eliminated. -/
def Accepts (s : Solver) (l : Lit) : Prop := l.var.index < s.varCount ∧ s.hasEliminated l.var = false

instance (s : Solver) (l : Lit) : Decidable (s.Accepts l) := inferInstanceAs (Decidable (_ ∧ _))

/-- The error for a literal that a clause cannot have. -/
def refusal (s : Solver) (l : Lit) : SolverError :=
  if l.var.index < s.varCount then .eliminatedVariable l.var else .unknownVariable l.var

theorem checkLit_of_not_accepts (h : ¬ s.Accepts l) : s.checkLit l = .error (s.refusal l) := by
  unfold checkLit checkVar refusal
  by_cases hx : l.var.index < s.varCount
  · rw [if_pos hx, if_pos hx]
    exact if_pos (Bool.not_eq_false _ ▸ fun he => h ⟨hx, he⟩)
  · rw [if_neg hx, if_neg hx]

theorem checkClause_append (hb : ∀ k ∈ before, s.Accepts k) (hl : ¬ s.Accepts l) :
    s.checkClause (before ++ l :: after) = .error (s.refusal l) := by
  induction before with
  | nil =>
    rw [List.nil_append, checkClause, checkLit_of_not_accepts hl]
  | cons k before ih =>
    obtain ⟨hk, hb⟩ := List.forall_mem_cons.1 hb
    have hok : s.checkClause [k] = .ok () := checkClause_eq_ok.2 (List.forall_mem_singleton.2 hk)
    rw [List.cons_append, checkClause]
    rw [checkClause] at hok
    cases hc : s.checkLit k with
    | error e =>
      rw [hc] at hok
      cases hok
    | ok u => exact ih hb

theorem addClause_refused (hb : ∀ k ∈ before, s.Accepts k) (hl : ¬ s.Accepts l) :
    s.addClause (before ++ l :: after) = (.error (s.refusal l), s) := by
  rw [addClause, checkClause_append hb hl]

theorem exists_first_refused (h : ∃ l ∈ ls, ¬ s.Accepts l) :
    ∃ before l after, ls = before ++ l :: after ∧ (∀ k ∈ before, s.Accepts k) ∧ ¬ s.Accepts l := by
  induction ls with
  | nil => exact absurd h (by simp)
  | cons k ls ih =>
    by_cases hk : s.Accepts k
    · obtain ⟨before, l, after, rfl, hb, hl⟩ := ih (by simpa [hk] using h)
      exact ⟨k :: before, l, after, rfl, List.forall_mem_cons.2 ⟨hk, hb⟩, hl⟩
    · exact ⟨[], k, ls, rfl, by simp, hk⟩

/-! ## Loading -/

/-- What becomes of a clause of which `c` remains: a contradiction, a fact, or one new irredundant clause. The other
facts and clauses stay as they are. -/
inductive Stores (s : Solver) : List Lit → Solver → Prop
  | empty {t : Solver} : t.status = .unsat → t.prop.clauses = s.prop.clauses →
    (∀ k, t.prop.trail.Fact k ↔ s.prop.trail.Fact k) → Stores s [] t
  | fact {l : Lit} {t : Solver} : t.status ≠ .unsat → t.prop.clauses = s.prop.clauses →
    (∀ k, t.prop.trail.Fact k ↔ k = l ∨ s.prop.trail.Fact k) → Stores s [l] t
  | clause {c : List Lit} {t : Solver} : 2 ≤ c.length → t.status ≠ .unsat →
    t.prop.clauses.isLive s.prop.clauses.slots.size → (t.prop.clauses.get s.prop.clauses.slots.size).lits = c →
    (t.prop.clauses.get s.prop.clauses.slots.size).tier = .irredundant →
    (∀ r ≠ s.prop.clauses.slots.size, t.prop.clauses.get r = s.prop.clauses.get r) →
    (∀ k, t.prop.trail.Fact k ↔ s.prop.trail.Fact k) → Stores s c t

/-- What loading a clause comes to. All decisions are undone, and nothing but facts is true. -/
structure Loaded (ls : List Lit) (s t : Solver) : Prop where
  currentLevel_eq : t.prop.trail.currentLevel = 0
  fact {k : Lit} : t.prop.trail.isTrue k → t.prop.trail.Fact k
  superfluous : Superfluous s.prop.trail ls → t.status ≠ .unsat ∧ t.prop.clauses = s.prop.clauses ∧
    ∀ k, t.prop.trail.Fact k ↔ s.prop.trail.Fact k
  remaining : ¬ Superfluous s.prop.trail ls → ∃ c, Remaining s.prop.trail ls c
  stores {c : List Lit} : ¬ Superfluous s.prop.trail ls → Remaining s.prop.trail ls c → Stores s c t
  frame : ∃ p st, t = { s.rewind with prop := p, status := st }

theorem isTrue_rewind (h : s.Inv) : s.rewind.prop.trail.isTrue l ↔ s.prop.trail.Fact l := by
  have hb : s.rewind.prop.trail = (s.prop.trail.backtrack 0).1 := rfl
  rw [hb, h.prop.trail.isTrue_backtrack, Nat.le_zero]
  rfl

theorem remaining_filter (h : s.Inv) (ls : List Lit) :
    Remaining s.prop.trail ls ((Lit.distinct ls).filter fun l => !s.rewind.prop.trail.isFalse l) where
  ascending := (Lit.distinct_ascending ls).filter _
  mem_iff {l} := by
    rw [List.mem_filter, Lit.mem_distinct, Bool.not_eq_true', ← Bool.not_eq_true, Trail.isFalse_iff_neg,
      isTrue_rewind h]

theorem superfluous_iff (h : s.Inv) : Superfluous s.prop.trail ls ↔
    (Lit.hasOpposites (Lit.distinct ls) || (Lit.distinct ls).any s.rewind.prop.trail.isTrue) = true := by
  rw [Bool.or_eq_true, hasOpposites_distinct, List.any_eq_true]
  simp only [Lit.mem_distinct, isTrue_rewind h]
  rfl

theorem status_rewind_ne (hs : s.status ≠ .unsat) : s.rewind.status ≠ .unsat := by
  rw [status_rewind]
  split
  · simp
  · exact hs

theorem load_stores (h : s.Inv) (hs : s.status ≠ .unsat) (hl : ∀ l ∈ ls, s.Accepts l)
    (hsup : ¬ Superfluous s.prop.trail ls) :
    Stores s ((Lit.distinct ls).filter fun l => !s.rewind.prop.trail.isFalse l) (s.load ls) := by
  have h1 := rewind_searched h
  have hclauses : s.rewind.prop.clauses = s.prop.clauses := rfl
  have hfact (k : Lit) : (s.load ls).prop.trail.Fact k ↔ (s.load ls).prop.trail.isTrue k :=
    (load_stored h hs hl).sound.prop.trail.fact_iff (currentLevel_load hs)
  have hnone : ∀ l ∈ Lit.distinct ls, ¬ s.rewind.prop.trail.isTrue l := fun l hm ht =>
    hsup (Or.inr ⟨l, Lit.mem_distinct.1 hm, (isTrue_rewind h).1 ht⟩)
  have hstatus := status_rewind_ne hs
  generalize hload : s.load ls = t at hfact
  rw [load, if_neg hs] at hload
  dsimp only at hload
  rw [if_neg (mt (superfluous_iff h).2 hsup)] at hload
  generalize hks : (Lit.distinct ls).filter (fun l => !s.rewind.prop.trail.isFalse l) = ks at hload
  match ks, hks with
  | [], _ =>
    subst hload
    exact .empty rfl hclauses fun k => (hfact k).trans (isTrue_rewind h)
  | [l], hks =>
    subst hload
    obtain ⟨hm, hu⟩ := not_isAssigned_of_mem hks hnone List.mem_cons_self
    have hx := h1.varCount_eq ▸ (hl l (Lit.mem_distinct.1 hm)).1
    have g := h1.inv.prop.trail.grows_assign (r := .unit) hx hu
    refine .fact hstatus hclauses fun k => ?_
    rw [hfact, ← isTrue_rewind h]
    exact g.isTrue_iff
  | a :: b :: rest, hks =>
    subst hload
    have hget : (s.rewind.prop.addClause { first := a, second := b, others := rest }).2.clauses.get
        s.prop.clauses.slots.size = { first := a, second := b, others := rest } :=
      Database.get_add.trans (if_pos rfl)
    refine .clause (by simp) hstatus (Database.isLive_iff.2 (congrArg Clause.deleted hget)) (congrArg Clause.lits hget)
      (congrArg Clause.tier hget) (fun r hr => Database.get_add.trans (if_neg hr)) fun k => ?_
    rw [hfact]
    exact isTrue_rewind h

theorem load_loaded (h : s.Inv) (hs : s.status ≠ .unsat) (hl : ∀ l ∈ ls, s.Accepts l) : Loaded ls s (s.load ls) := by
  have hstored := load_stored h hs hl
  have h0 : (s.load ls).prop.trail.currentLevel = 0 := currentLevel_load hs
  have hfact (k : Lit) : (s.load ls).prop.trail.Fact k ↔ (s.load ls).prop.trail.isTrue k :=
    hstored.sound.prop.trail.fact_iff h0
  have hremaining := remaining_filter h ls
  refine ⟨h0, fun hk => (hfact _).2 hk, fun hsup => ?_, fun _ => ⟨_, hremaining⟩, fun {c} hsup hc => ?_,
    hstored.frame⟩
  · have hload : s.load ls = s.rewind := by
      rw [load, if_neg hs]
      exact if_pos ((superfluous_iff h).1 hsup)
    have hclauses : s.rewind.prop.clauses = s.prop.clauses := rfl
    refine ⟨hload ▸ status_rewind_ne hs, hload ▸ hclauses, fun k => ?_⟩
    rw [hfact, hload, isTrue_rewind h]
  · rw [hc.unique hremaining]
    exact load_stores h hs hl hsup

/-! ## Propagation -/

theorem propagateFacts_of_unsat (hs : s.status = .unsat) : s.propagateFacts = s := if_pos hs

theorem propagateFacts_eq (hs : s.status ≠ .unsat) : s.propagateFacts =
    if s.propagate.1 = none then s.propagate.2 else s.propagate.2.markUnsat := by
  rw [propagateFacts, if_neg hs]
  obtain ⟨_ | r, t⟩ := s.propagate <;> rfl

end Solver

variable {counting : Counting} {s : Solver} {f : List (List Lit)}

/-- **Loading a clause is exact.** A clause is refused if it has a literal of a variable that is unknown or eliminated;
the first one makes the error, and nothing changes. Otherwise, unless there was a contradiction before, the clause is
loaded: nothing is stored if it is superfluous, else what facts leave of it. Then facts are propagated, and the answer
is whether there is no contradiction. -/
theorem addClause_exact (h : Reachable counting s f) (ls : List Lit) :
    ((∃ e, (s.addClause ls).1 = .error e) ↔ ∃ l ∈ ls, ¬ s.Accepts l) ∧
    (∀ before l after, ls = before ++ l :: after → (∀ k ∈ before, s.Accepts k) → ¬ s.Accepts l →
      s.addClause ls = (.error (s.refusal l), s)) ∧
    ((∀ l ∈ ls, s.Accepts l) → s.status = .unsat → s.addClause ls = (.ok false, s)) ∧
    ((∀ l ∈ ls, s.Accepts l) → s.status ≠ .unsat → ∃ t, Solver.Loaded ls s t ∧
      (t.status = .unsat → s.addClause ls = (.ok false, t)) ∧
      (t.status ≠ .unsat → t.propagate.1 = none → s.addClause ls = (.ok true, t.propagate.2)) ∧
      (t.status ≠ .unsat → t.propagate.1 ≠ none → s.addClause ls = (.ok false, t.propagate.2.markUnsat))) := by
  have hrefused : ∀ before l after, ls = before ++ l :: after → (∀ k ∈ before, s.Accepts k) → ¬ s.Accepts l →
      s.addClause ls = (.error (s.refusal l), s) := by
    rintro before l after rfl hb hl
    exact Solver.addClause_refused hb hl
  have haccepted : (∀ l ∈ ls, s.Accepts l) →
      s.addClause ls = (.ok (s.load ls).propagateFacts.okay, (s.load ls).propagateFacts) := by
    intro hl
    rw [Solver.addClause, Solver.checkClause_eq_ok.2 hl]
  refine ⟨⟨fun herror => ?_, fun hl => ?_⟩, hrefused, fun hl hs => ?_, fun hl hs => ?_⟩
  · obtain ⟨e, he⟩ := herror
    by_contra hall
    rw [haccepted fun l hm => by_contra fun hn => hall ⟨l, hm, hn⟩] at he
    cases he
  · obtain ⟨before, l, after, hls, hb, hn⟩ := Solver.exists_first_refused hl
    exact ⟨s.refusal l, by rw [hrefused before l after hls hb hn]⟩
  · rw [haccepted hl, Solver.load_of_unsat hs, Solver.propagateFacts_of_unsat hs, Solver.okay, hs]
    rfl
  · rw [haccepted hl]
    refine ⟨s.load ls, Solver.load_loaded h.inv hs hl, fun hu => ?_, fun hu hp => ?_, fun hu hp => ?_⟩
    · rw [Solver.propagateFacts_of_unsat hu, Solver.okay, hu]
      rfl
    · have hstatus : (s.load ls).propagate.2.status = (s.load ls).status := rfl
      rw [Solver.propagateFacts_eq hu, if_pos hp, Solver.okay, hstatus, bne_iff_ne.2 hu]
    · rw [Solver.propagateFacts_eq hu, if_neg hp]
      rfl

/-- A state that a search left on a decision level. -/
def solvedForkSolver : Solver := Call.run forkSolver .solve

theorem reachable_solvedFork : Reachable .words solvedForkSolver [[⟨0⟩, ⟨2⟩, ⟨4⟩], [⟨0⟩, ⟨2⟩, ⟨5⟩]] :=
  reachable_fork.call .solve

/-- The first unknown variable is the one of the error. A clause with a repetition is loaded after the decisions are
undone. -/
theorem addClause_exact_fork :
    solvedForkSolver.currentLevel ≠ 0 ∧
      solvedForkSolver.addClause [⟨0⟩, ⟨20⟩, ⟨22⟩] = (.error (.unknownVariable ⟨10⟩), solvedForkSolver) ∧
      ∃ t, Solver.Loaded [⟨1⟩, ⟨3⟩, ⟨1⟩] solvedForkSolver t ∧
        solvedForkSolver.addClause [⟨1⟩, ⟨3⟩, ⟨1⟩] = (.ok true, t.propagate.2) := by
  obtain ⟨-, hrefused, -⟩ := addClause_exact reachable_solvedFork [⟨0⟩, ⟨20⟩, ⟨22⟩]
  obtain ⟨-, -, -, hloaded⟩ := addClause_exact reachable_solvedFork [⟨1⟩, ⟨3⟩, ⟨1⟩]
  have hanswer : (solvedForkSolver.addClause [⟨1⟩, ⟨3⟩, ⟨1⟩]).1.toOption = some true := by decide +kernel
  have hunknown : ¬ (Lit.mk 20).var.index < solvedForkSolver.varCount := by decide +kernel
  have herror := hrefused [⟨0⟩] ⟨20⟩ [⟨22⟩] rfl (by decide +kernel) fun h => hunknown h.1
  rw [Solver.refusal, if_neg hunknown] at herror
  obtain ⟨t, ht, hempty, hok, hconflict⟩ := hloaded (by decide +kernel) (by decide +kernel)
  refine ⟨by decide +kernel, herror, t, ht, ?_⟩
  by_cases hs : t.status = .unsat
  · rw [hempty hs] at hanswer
    cases hanswer
  · by_cases hp : t.propagate.1 = none
    · exact hok hs hp
    · rw [hconflict hs hp] at hanswer
      cases hanswer

end ClauseLearning
