import ClauseLearning.Proofs.Eliminated
import ClauseLearning.Proofs.UnitClosure

/-!
# The implication graph

The reasons of the literals on the trail form a graph. It is acyclic, as the other literals of a reason became false
before the literal that they imply became true.

* `Propagator.ImplicationGraph` : values, levels and reasons fit the trail. The invariant implies it
  (`Propagator.Inv.implicationGraph`);
* `Propagator.Restored` : what is left after backtracking;
* `Propagator.KeepsReasons` : the reasons of literals that stay on the trail are not deleted, moved or changed;
* `Propagator.Operation`, `Solver.Passing` : the operations on trail, clauses and watch lists, and the states in the
  course of subsumption and elimination;
* `Instant` : all of these states, besides the moments of a run;
* `implicationGraph_throughout` : the graph is right at every instant, and no operation takes a reason away.
-/

namespace ClauseLearning

/-! ## The graph -/

namespace Propagator

variable {p q : Propagator} {n i m s : Nat} {l x : Lit} {r : ClauseRef}

/-- Values, levels and reasons fit the trail. -/
structure ImplicationGraph (p : Propagator) : Prop where
  /-- What is true is on the trail, once, or a fact that left it. -/
  placed {l : Lit} : p.trail.isTrue l →
    l ∈ p.trail.lits.toList ∧ (p.trail.lits.toList.map Lit.var).count l.var = 1 ∨
      l.var ∉ p.trail.lits.toList.map Lit.var ∧ p.trail.level l.var = 0 ∧ p.trail.reason l.var = .unit
  isTrue {l : Lit} : l ∈ p.trail.lits.toList → p.trail.isTrue l
  /-- Levels count the decisions up to a literal. -/
  level_eq {i : Nat} {l : Lit} : p.trail.At i l → p.trail.level l.var = p.trail.starts.toList.countP (· ≤ i)
  /-- A level begins with its decision, which is the only literal of the level without a reason clause. -/
  decision {m s : Nat} : p.trail.starts[m]? = some s → ∃ l, p.trail.At s l ∧ p.trail.level l.var = m + 1 ∧
    p.trail.reason l.var = .unit ∧
      ∀ i k, p.trail.At i k → p.trail.level k.var = m + 1 → s ≤ i ∧ (p.trail.reason k.var = .unit → k = l)
  /-- A reason has the literal in front. All others became false before. -/
  reason {l : Lit} {r : ClauseRef} : p.trail.isTrue l → p.trail.reason l.var = .clause r →
    p.clauses.isLive r ∧ (p.clauses.get r).first = l ∧
      ∃ i, p.trail.At i l ∧ ∀ x ∈ (p.clauses.get r).lits.drop 1, p.trail.isFalse x ∧ ∃ j < i, p.trail.At j (-x)

theorem mem_lits : l ∈ p.trail.lits.toList ↔ ∃ i, p.trail.At i l := by
  rw [List.mem_iff_getElem?]
  simp only [Array.getElem?_toList, Trail.At]

theorem countP_eq_of_getElem? {f : Nat → Bool} {ns : List Nat} {k : Nat} (hk : k ≤ ns.length)
    (h : ∀ (m s : Nat), ns[m]? = some s → (m < k ↔ f s = true)) : ns.countP f = k := by
  induction ns generalizing k with
  | nil => exact (Nat.le_zero.1 hk).symm
  | cons s ns ih =>
    cases k with
    | zero =>
      have hs : ¬ f s = true := fun hs => Nat.not_lt_zero 0 ((h 0 s rfl).2 hs)
      rw [List.countP_cons_of_neg hs]
      exact ih (Nat.zero_le _) fun m s' hs' =>
        iff_of_false (Nat.not_lt_zero m) fun hf => Nat.not_lt_zero (m + 1) ((h (m + 1) s' hs').2 hf)
    | succ k =>
      have hs : f s = true := (h 0 s rfl).1 (Nat.succ_pos k)
      rw [List.countP_cons_of_pos hs]
      have hrec := ih (Nat.le_of_succ_le_succ hk) fun m s' hs' => Nat.succ_lt_succ_iff.symm.trans (h (m + 1) s' hs')
      rw [hrec]

section Inv

variable (h : p.Inv n)
include h

theorem Inv.level_eq_countP (hi : p.trail.At i l) :
    p.trail.level l.var = p.trail.starts.toList.countP (· ≤ i) := by
  refine (countP_eq_of_getElem? (h.trail.level_le hi) fun m s hs => ?_).symm
  rw [Array.getElem?_toList] at hs
  exact (h.trail.level_iff hs hi).trans decide_eq_true_iff.symm

theorem Inv.enabled_of_level_pos (hpos : 0 < p.trail.currentLevel) : p.watches.enabled = true := by
  refine Classical.byContradiction fun hen => ?_
  rw [(h.idle (Bool.eq_false_iff.2 hen)).currentLevel_eq] at hpos
  exact Nat.lt_irrefl 0 hpos

theorem Inv.level_start (hs : p.trail.starts[m]? = some s) (hi : p.trail.At s l) : p.trail.level l.var = m + 1 := by
  have hlt := (h.trail.level_iff hs hi).2 (Nat.le_refl s)
  have hle := h.trail.level_le hi
  by_cases hm : m + 1 < p.trail.currentLevel
  · obtain ⟨s', hs'⟩ := Trail.exists_start hm
    have hmono := h.trail.starts_mono hs hs' (Nat.lt_succ_self m)
    have := h.trail.level_iff hs' hi
    omega
  · omega

/-- A level begins with a decision: the other literals of a reason would belong to the levels below, and the second
one of them would have made the literal true there. -/
theorem Inv.reason_start (hs : p.trail.starts[m]? = some s) (hi : p.trail.At s l) :
    p.trail.reason l.var = .unit := by
  cases hr : p.trail.reason l.var with
  | unit => rfl
  | clause r =>
    obtain ⟨hlive, hfirst, hfalse⟩ := h.clause_reason hi hr
    have hen := h.enabled_of_level_pos (Nat.zero_lt_of_lt (Array.getElem?_eq_some_iff.1 hs).1)
    obtain ⟨j, hj, hx⟩ := hfalse (p.clauses.get r).second List.mem_cons_self
    obtain ⟨y, hy, hyt, hle⟩ := h.guarded hen hlive _ j (Or.inr rfl) hx
      (Nat.lt_of_lt_of_le hj (h.trail.starts_le_head hs))
    have hyl : y = l := by
      rcases List.mem_cons.1 hy with rfl | hy
      · exact hfirst
      · obtain ⟨k, -, hk⟩ := hfalse y hy
        exact absurd (Trail.isFalse_iff_neg.2 (h.trail.isTrue hk)) (Trail.not_isFalse_of_isTrue hyt)
    have hbelow := (h.trail.lt_start_iff hs hx).1 hj
    have hlevel := h.level_start hs hi
    rw [Lit.var_neg] at hbelow
    rw [hyl] at hle
    omega

theorem Inv.implicationGraph : p.ImplicationGraph where
  placed {l} hl := by
    rcases h.trail.placed hl with ⟨i, hi⟩ | h0
    · have hm := mem_lits.2 ⟨i, hi⟩
      exact Or.inl ⟨hm, List.count_eq_one_of_mem h.trail.vars_nodup (List.mem_map_of_mem hm)⟩
    · by_cases hm : l.var ∈ p.trail.lits.toList.map Lit.var
      · obtain ⟨k, hk, hkv⟩ := List.mem_map.1 hm
        obtain ⟨i, hi⟩ := mem_lits.1 hk
        obtain rfl := Trail.eq_of_isTrue (h.trail.isTrue hi) hl hkv
        exact Or.inl ⟨hk, List.count_eq_one_of_mem h.trail.vars_nodup hm⟩
      · exact Or.inr ⟨hm, h0⟩
  isTrue hl := by
    obtain ⟨i, hi⟩ := mem_lits.1 hl
    exact h.trail.isTrue hi
  level_eq := h.level_eq_countP
  decision {m s} hs := by
    obtain ⟨l, hl⟩ := Trail.exists_at (h.trail.starts_lt hs)
    refine ⟨l, hl, h.level_start hs hl, h.reason_start hs hl, fun i k hi hk => ⟨?_, fun hr => ?_⟩⟩
    · exact (h.trail.level_iff hs hi).1 (by omega)
    · rcases h.unit_reason hi hr with h0 | hs'
      · omega
      · rw [hk, Nat.add_sub_cancel, hs] at hs'
        obtain rfl := Option.some.inj hs'
        exact hi.eq hl
  reason {l r} hl hr := by
    rcases h.trail.placed hl with ⟨i, hi⟩ | ⟨-, hu⟩
    · obtain ⟨h1, h2, h3⟩ := h.clause_reason hi hr
      refine ⟨h1, h2, i, hi, fun x hx => ?_⟩
      obtain ⟨j, hj, hj'⟩ := h3 x hx
      exact ⟨Trail.isFalse_iff_neg.2 (h.trail.isTrue hj'), j, hj, hj'⟩
    · rw [hu] at hr
      cases hr

end Inv

/-! ## Backtracking -/

/-- What is left after backtracking from `p` to level `m`: the beginning of the trail and the facts that left it.
Nothing more follows from that by unit propagation, and no clause is false. Variables that became unassigned have their
values as phases. -/
structure Restored (p : Propagator) (m : Nat) (q : Propagator) : Prop where
  lits_eq : q.trail.lits.toList = p.trail.upTo m
  currentLevel_eq : q.trail.currentLevel = m
  level_eq {v : Var} : q.trail.level v = p.trail.level v
  reason_eq {v : Var} : q.trail.reason v = p.trail.reason v
  isTrue_iff {l : Lit} : q.trail.isTrue l ↔
    l ∈ p.trail.upTo m ∨ p.trail.isTrue l ∧ l.var ∉ p.trail.lits.toList.map Lit.var
  pending_eq : q.trail.pending? = none
  closed {l : Lit} : q.UnitClosure l → q.trail.isTrue l
  not_isFalse {r : ClauseRef} : q.clauses.isLive r → ∃ l ∈ (q.clauses.get r).lits, ¬ q.trail.isFalse l
  phase_eq {l : Lit} : p.trail.isTrue l → ¬ q.trail.isAssigned l.var → q.trail.phase l.var = l.isPositive

theorem Inv.isTrue_backtrack (h : p.Inv n) : (p.trail.backtrack m).1.isTrue l ↔
    l ∈ p.trail.upTo m ∨ p.trail.isTrue l ∧ l.var ∉ p.trail.lits.toList.map Lit.var := by
  have hb := (h.backtrack m).implicationGraph
  have hlits : (p.trail.backtrack m).1.lits.toList = p.trail.upTo m := h.trail.lits_backtrack
  constructor
  · intro hl
    obtain ⟨hlt, hle⟩ := h.trail.isTrue_backtrack.1 hl
    rcases h.implicationGraph.placed hlt with ⟨hmem, -⟩ | ⟨hout, -⟩
    · obtain ⟨i, hi⟩ := mem_lits.1 hmem
      refine Or.inl (hlits ▸ mem_lits (p := { p with trail := (p.trail.backtrack m).1 }).2 ⟨i, ?_⟩)
      exact h.trail.at_backtrack.2 ⟨hi, hle⟩
    · exact Or.inr ⟨hlt, hout⟩
  · rintro (hl | ⟨hl, hout⟩)
    · exact hb.isTrue (hlits.symm ▸ hl)
    · rcases h.implicationGraph.placed hl with ⟨hmem, -⟩ | ⟨-, h0, -⟩
      · exact absurd (List.mem_map_of_mem hmem) hout
      · exact h.trail.isTrue_backtrack.2 ⟨hl, h0 ▸ Nat.zero_le m⟩

theorem Inv.restored (h : p.Inv n) (hm : m < p.trail.currentLevel) :
    p.Restored m { p with trail := (p.trail.backtrack m).1 } := by
  have hb := h.backtrack m
  have hen := h.enabled_of_level_pos (Nat.zero_lt_of_lt hm)
  have hhead := h.trail.head_backtrack hm
  refine
    { lits_eq := h.trail.lits_backtrack
      currentLevel_eq := Trail.currentLevel_backtrack.trans (Nat.min_eq_left (Nat.le_of_lt hm))
      level_eq := Trail.level_backtrack
      reason_eq := Trail.reason_backtrack
      isTrue_iff := h.isTrue_backtrack
      pending_eq := Array.getElem?_eq_none_iff.2 (Nat.le_of_eq hhead.symm)
      closed := fun {l} hl => ?_
      not_isFalse := hb.exists_not_isFalse hen hhead
      phase_eq := fun {l} hl hu => ?_ }
  · induction hl with
    | start hl => exact hl
    | unit hr _ _ ih =>
      exact hb.isTrue_of_unit hen hhead hr fun k hk hkl => Trail.isFalse_iff_neg.2 (ih k hk hkl)
  · refine h.trail.phase_backtrack hl (Nat.lt_of_not_le fun hle => hu ?_)
    exact Trail.isAssigned_of_isTrue (h.trail.isTrue_backtrack.2 ⟨hl, hle⟩)

/-! ## Reasons stay -/

/-- The reason clauses of literals that stay on the trail are neither deleted nor moved, and keep their literals. -/
def KeepsReasons (p q : Propagator) : Prop :=
  ∀ i l r, p.trail.At i l → q.trail.At i l → p.trail.reason l.var = .clause r →
    q.trail.reason l.var = .clause r ∧ q.clauses.isLive r ∧ (q.clauses.get r).lits.Perm (p.clauses.get r).lits

/-- The operations on trail, clauses and watch lists, where they may be used. Decisions are made after propagation, and
so facts are applied, on level 0. Storage is compacted when the trail is empty. -/
inductive Operation (p : Propagator) : Propagator → Prop
  | assignFact {l : Lit} : p.trail.currentLevel = 0 → l.var.index < p.trail.values.size →
    ¬ p.trail.isAssigned l.var → Operation p (p.assign l .unit)
  | decide {l : Lit} : p.watches.enabled = true → p.Complete → l.var.index < p.trail.values.size →
    ¬ p.trail.isAssigned l.var → Operation p ({ p with trail := p.trail.openLevel }.assign l .unit)
  | addClause {c : Clause} : c.Fits p.trail.values.size p.trail → c.deleted = false →
    (∀ x, x = c.first ∨ x = c.second → ¬ p.trail.isFalse x) → Operation p (p.addClause c).2
  | propagate : Operation p p.propagate.2
  | enableWatches : Operation p p.enableWatches
  | backtrack (m : Nat) : Operation p { p with trail := (p.trail.backtrack m).1 }
  | reduceLocals (ties : TieOrder) : Operation p (p.reduceLocals ties).2
  | reduceMids : Operation p p.reduceMids.2
  | applyFacts : p.watches.enabled = true → p.Complete → p.trail.currentLevel = 0 → Operation p p.applyFacts
  | compact : p.trail.currentLevel = 0 → p.trail.lits = #[] →
    Operation p { p with clauses := p.clauses.compact.2, watches := p.watches.disable }

theorem KeepsReasons.of_grows (h : p.Inv n) {u : Trail} (g : Trail.Grows l p.trail u) :
    p.KeepsReasons { p with trail := u } := by
  intro i k r hi _ hr
  have hr' := (g.reason_eq_of_isAssigned (Trail.isAssigned_of_isTrue (h.trail.isTrue hi))).trans hr
  exact ⟨hr', (h.clause_reason hi hr).1, List.Perm.refl _⟩

theorem KeepsReasons.of_advance (h : p.Linked n) (ha : Advance p q) (hq : q.Linked n) : p.KeepsReasons q := by
  intro i l r hi hi' hr
  have hr' := (ha.reason_eq (Trail.isAssigned_of_isTrue (h.trail.isTrue hi))).trans hr
  exact ⟨hr', (hq.clause_reason hi' hr').1, (ha.reordered r).perm⟩

theorem KeepsReasons.of_pruned {d : Database} (h : p.Inv n) (hd : Database.Pruned p.IsReason p.clauses d) :
    p.KeepsReasons { p with clauses := d } := by
  intro i l r hi _ hr
  have hlive := hd.kept (h.clause_reason hi hr).1 (Or.inr ⟨i, l, hi, hr⟩)
  exact ⟨hr, hlive, List.Perm.of_eq (hd.lits_eq hlive)⟩

theorem KeepsReasons.of_lits_eq_empty (h : q.trail.lits = #[]) : p.KeepsReasons q := by
  intro i l r _ hi
  have := hi.lt
  rw [h] at this
  exact absurd this (Nat.not_lt_zero i)

theorem Operation.inv (ho : p.Operation q) (h : p.Inv n) : q.Inv n := by
  cases ho with
  | assignFact h0 hx hu => exact h.assignFact h0 (h.trail.values_size ▸ hx) hu
  | decide he hc hx hu => exact h.decide he hc (h.trail.values_size ▸ hx) hu
  | addClause hc hd hf => exact h.addClause (h.trail.values_size ▸ hc) hd hf
  | propagate => exact (propagate_spec h).inv
  | enableWatches => exact (enableWatches_spec h).1
  | backtrack m => exact h.backtrack m
  | reduceLocals ties =>
    obtain ⟨d, he, hd⟩ := reduceLocals_pruned ties h.toLinked
    exact he ▸ h.prune hd
  | reduceMids =>
    obtain ⟨d, he, hd⟩ := reduceMids_pruned p
    exact he ▸ h.prune hd
  | applyFacts he hc h0 => exact h.applyFacts he hc h0
  | compact h0 hl => exact h.moved h0 hl (Database.compact_moved h.listed)

theorem Operation.keepsReasons (ho : p.Operation q) (h : p.Inv n) : p.KeepsReasons q := by
  have hq := ho.inv h
  cases ho with
  | assignFact _ hx hu => exact .of_grows h (h.trail.grows_assign (h.trail.values_size ▸ hx) hu)
  | decide _ _ hx hu => exact .of_grows h (h.trail.grows_decide (h.trail.values_size ▸ hx) hu)
  | addClause =>
    intro i l r hi _ hr
    obtain ⟨hlive, hget⟩ := get_addClause_of_isLive (h.clause_reason hi hr).1
    exact ⟨hr, hlive, List.Perm.of_eq (congrArg Clause.lits hget)⟩
  | propagate => exact .of_advance h.toLinked (propagate_spec h).advance hq.toLinked
  | enableWatches => exact .of_advance h.toLinked (enableWatches_spec h).2.1 hq.toLinked
  | backtrack m =>
    intro i l r hi _ hr
    exact ⟨Trail.reason_backtrack.trans hr, (h.clause_reason hi hr).1, List.Perm.refl _⟩
  | reduceLocals ties =>
    obtain ⟨d, he, hd⟩ := reduceLocals_pruned ties h.toLinked
    exact he ▸ .of_pruned h hd
  | reduceMids =>
    obtain ⟨d, he, hd⟩ := reduceMids_pruned p
    exact he ▸ .of_pruned h hd
  | applyFacts => exact .of_lits_eq_empty rfl
  | compact _ hl => exact .of_lits_eq_empty hl

end Propagator

/-! ## Learning and simplification -/

namespace Solver

variable {s t : Solver} {r : ClauseRef}

/-- The states in the course of a pass over settled clauses, and after it: subsumption by some candidates, and
elimination of some, with which learned clauses go. -/
inductive Passing (s : Solver) : Solver → Prop
  | subsuming {rs : List ClauseRef} : (∀ r ∈ rs, r ∈ s.buildOccurrences.2.subsumptionCandidates) →
    Passing s (rs.foldl SubsumptionPass.useClause
      { solver := s.buildOccurrences.2, occurrences := s.buildOccurrences.1 }).solver
  | eliminating {vs : List Var} :
    (∀ v ∈ vs, v ∈ s.buildOccurrences.2.eliminationCandidates s.buildOccurrences.1) →
      Passing s (eliminateList vs 0 s.buildOccurrences.1 s.buildOccurrences.2).2
  | purged {vs : List Var} :
    (∀ v ∈ vs, v ∈ s.buildOccurrences.2.eliminationCandidates s.buildOccurrences.1) →
      Passing s (eliminateList vs 0 s.buildOccurrences.1 s.buildOccurrences.2).2.dropLearnedWithEliminated

theorem Passing.inv (ht : s.Passing t) (h : s.Inv) (hi : s.prop.trail.Idle) :
    t.prop.Inv t.varCount ∧ t.prop.watches.enabled = false := by
  obtain ⟨h1, h2, h3, h4⟩ := buildOccurrences_spec h hi
  rw [← h2.varCount_eq] at h4
  have helim {vs : List Var}
      (hv : ∀ v ∈ vs, v ∈ s.buildOccurrences.2.eliminationCandidates s.buildOccurrences.1) :
      ∃ o, Eliminating s.buildOccurrences.2 o (eliminateList vs 0 s.buildOccurrences.1 s.buildOccurrences.2).2 :=
    eliminateList_spec vs 0 ⟨h1, h3, h4, Rewritten.refl _, id⟩ fun v hm => (mem_eliminationCandidates (hv v hm)).1
  cases ht with
  | @subsuming rs hr =>
    have hpass : SubsumptionPass.Valid s.buildOccurrences.2 s.buildOccurrences.1
        { solver := s.buildOccurrences.2, occurrences := s.buildOccurrences.1 } :=
      ⟨h1.toSound, h3, h4, id, Rewritten.refl _, rfl, id⟩
    obtain ⟨h5, -⟩ := hpass.foldl_useClause rs (fun r hm => mem_subsumptionCandidates h1.prop.listed h4 (hr r hm))
      h1.litMarks
    exact ⟨h5.sound.prop, h5.disabled⟩
  | eliminating hv =>
    obtain ⟨o, h5⟩ := helim hv
    exact ⟨h5.inv.prop, h5.disabled⟩
  | purged hv =>
    obtain ⟨o, h5⟩ := helim hv
    exact ⟨(dropLearnedWithEliminated_spec h5.inv h5.disabled).1.prop, h5.disabled⟩

theorem not_isReason_of_settled (h : s.Inv) (hi : s.prop.trail.Idle) (ht : t = s ∨ s.Passing t) :
    ¬ t.prop.IsReason r := by
  rcases ht with rfl | ht
  · rintro ⟨i, l, hl, hr⟩
    rw [hi.reason_eq hl] at hr
    cases hr
  · obtain ⟨h1, h2⟩ := ht.inv h hi
    exact h1.not_isReason h2

section AssertLearned

variable {p : Propagator} {first : Lit} {rest : List Lit} {lesson : Lesson} (h : s.Inv) (ht : s.prop.trail = p.trail)
  (hl : lesson.Asserts p first rest)
include h ht hl

theorem keepsReasons_of_assign {w : Reason}
    (htrail : t.prop.trail = (s.backtrack lesson.backtrackTo).prop.trail.assign first w)
    (hkept : ∀ r, s.prop.clauses.isLive r → t.prop.clauses.isLive r ∧ t.prop.clauses.get r = s.prop.clauses.get r) :
    s.prop.KeepsReasons t.prop := by
  have hb := (backtrack_searched h lesson.backtrackTo).inv.prop.trail
  have hx : first.var.index < s.varCount := index_lt_of_mem_clause h ht hl (hl.clause_eq ▸ List.mem_cons_self)
  intro i l r hi hi' hr
  rw [htrail] at hi' ⊢
  obtain ⟨hlive, hget⟩ := hkept r (h.prop.clause_reason hi hr).1
  refine ⟨?_, hlive, List.Perm.of_eq (congrArg Clause.lits hget)⟩
  rcases Trail.at_assign.1 hi' with hi' | ⟨-, rfl⟩
  · rw [Trail.reason_assign (hb.reasons_size.symm ▸ hx),
      if_neg (hb.var_ne_of_at (not_isAssigned_first h ht hl) hi')]
    exact Trail.reason_backtrack.trans hr
  · -- the first literal of a lesson was false
    exact absurd (ht ▸ hl.first_false) (Trail.not_isFalse_of_isTrue (h.prop.trail.isTrue hi))

theorem assertLearned_keepsReasons :
    s.prop.KeepsReasons ((s.backtrack lesson.backtrackTo).assertLearned lesson.clause).prop := by
  rw [hl.clause_eq]
  cases hr : rest with
  | nil => exact keepsReasons_of_assign h ht hl rfl fun r hlive => ⟨hlive, rfl⟩
  | cons second others => exact keepsReasons_of_assign h ht hl rfl fun r => Propagator.get_addClause_of_isLive

end AssertLearned

theorem learn_keepsReasons (h : s.Inv) (hc : s.prop.Conflict r) : s.prop.KeepsReasons (s.learn r).prop := by
  obtain ⟨s₁, hb, hs₁⟩ := learn_bumped h hc
  have hk : s₁.prop.KeepsReasons (s.learn r).prop := by
    rw [hs₁]
    by_cases h0 : s.prop.trail.currentLevel = 0
    · rw [lesson_level_zero h0]
      exact (Propagator.Operation.backtrack 0).keepsReasons hb.searched.inv.prop
    · obtain ⟨⟨first, rest, hl⟩, -⟩ :=
        analyze_spec h.prop.toLinked h.candidates.valid h.varMarks hc (Nat.pos_of_ne_zero h0)
      exact assertLearned_keepsReasons hb.searched.inv hb.trail_eq hl
  intro i l q hi hi' hr
  have hlive := hb.pruned.kept (h.prop.clause_reason hi hr).1 (Or.inr ⟨i, l, hi, hr⟩)
  obtain ⟨h1, h2, h3⟩ := hk i l q (hb.trail_eq ▸ hi) hi' (hb.trail_eq ▸ hr)
  exact ⟨h1, h2, h3.trans (List.Perm.of_eq (hb.pruned.lits_eq hlive))⟩

end Solver

/-! ## The instants of a run -/

/-- The states of trail, clauses and watch lists at the moments of a run, after operations that begin there, and in the
course of simplification. -/
inductive Instant (counting : Counting) : Propagator → Prop
  | moment {s : Solver} : Moment counting s → Instant counting s.prop
  | operation {p q : Propagator} : Instant counting p → p.Operation q → Instant counting q
  | passing {s t u : Solver} : Moment counting s → s.currentLevel = 0 → s.settleFacts = (true, t) → t.Passing u →
    Instant counting u.prop

variable {counting : Counting}

theorem Instant.inv {p : Propagator} (h : Instant counting p) : ∃ n, p.Inv n := by
  induction h with
  | moment h => exact ⟨_, h.inv.prop⟩
  | operation _ ho ih =>
    obtain ⟨n, hn⟩ := ih
    exact ⟨n, ho.inv hn⟩
  | passing h h0 ht hu =>
    obtain ⟨hi, -, hidle⟩ := Solver.settled_spec h.inv h0 ht
    exact ⟨_, (hu.inv hi hidle).1⟩

/-- **The implication graph is consistent throughout.** At every instant of a run, values, levels and reasons fit the
trail, and backtracking to an earlier level restores what was true there, with nothing left to propagate. As long as a
literal stays on the trail, no operation deletes, moves or changes its reason, nor does learning. Subsumption and
elimination find no reasons, because the trail was emptied before. -/
theorem implicationGraph_throughout (counting : Counting) :
    (∀ p, Instant counting p → p.ImplicationGraph ∧
      (∀ m < p.trail.currentLevel, p.Restored m { p with trail := (p.trail.backtrack m).1 }) ∧
      ∀ q, p.Operation q → p.KeepsReasons q) ∧
    ∀ s, Moment counting s →
      (∀ r, s.propagate.1 = some r → s.propagate.2.prop.KeepsReasons (s.propagate.2.learn r).prop) ∧
      ∀ t u, s.currentLevel = 0 → s.settleFacts = (true, t) → u = t ∨ t.Passing u → ∀ r, ¬ u.prop.IsReason r := by
  refine ⟨fun p h => ?_, fun s h => ⟨fun r hr => ?_, fun t u h0 ht hu r => ?_⟩⟩
  · obtain ⟨n, hn⟩ := h.inv
    exact ⟨hn.implicationGraph, fun m hm => hn.restored hm, fun q ho => ho.keepsReasons hn⟩
  · obtain ⟨hs, hp⟩ := Solver.propagate_searched h.inv
    exact Solver.learn_keepsReasons hs.inv (hp.conflict hr)
  · obtain ⟨hi, -, hidle⟩ := Solver.settled_spec h.inv h0 ht
    exact Solver.not_isReason_of_settled hi hidle hu

/-- After a conflict between two clauses, a third one is the reason of the second variable. It outlasts a reduction of
the learned clauses. -/
theorem implicationGraph_throughout_fork : ∃ s, Moment .words s ∧ s.prop.trail.reason ⟨1⟩ = .clause 2 ∧
    s.prop.ImplicationGraph ∧ (s.prop.reduceLocals .stable).2.clauses.isLive 2 ∧
      s.prop.Restored 0 { s.prop with trail := (s.prop.trail.backtrack 0).1 } := by
  have hgo : (forkSolver.searchStart false false).step.1 = true := by decide +kernel
  have hlevel : (forkSolver.searchStart false false).step.2.prop.trail.currentLevel = 1 := by decide +kernel
  have hr : (forkSolver.searchStart false false).step.2.prop.trail.reason ⟨1⟩ = .clause 2 := by decide +kernel
  have hat : (forkSolver.searchStart false false).step.2.prop.trail.lits[1]? = some ⟨2⟩ := by decide +kernel
  have hat' : ((forkSolver.searchStart false false).step.2.prop.reduceLocals .stable).2.trail.lits[1]? = some ⟨2⟩ := by
    decide +kernel
  generalize hs : (forkSolver.searchStart false false).step = out at hgo hlevel hr hat hat'
  obtain ⟨goOn, s⟩ := out
  obtain rfl : goOn = true := hgo
  have hm : Moment .words s := .search reachable_fork (.step .start hs)
  obtain ⟨hg, hb, hk⟩ := (implicationGraph_throughout .words).1 _ (.moment hm)
  exact ⟨s, hm, hr, hg, (hk _ (.reduceLocals .stable) 1 ⟨2⟩ 2 hat hat' hr).2.1, hb 0 (hlevel ▸ Nat.one_pos)⟩

end ClauseLearning
