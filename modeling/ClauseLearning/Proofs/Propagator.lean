import ClauseLearning.Propagation
import ClauseLearning.Proofs.Trail
import ClauseLearning.Proofs.Watch

/-!
# The invariant of trail, clauses and watches

* `Clause.Fits` : a clause over the variables of the solver, without repetitions and settled facts;
* `Propagator.Linked` : reasons are clauses that made their first literal true;
* `Propagator.Guarded` : a watched literal that became false before the head of the trail did so beside a true literal;
* `Propagator.Inv` : all of this, and the watch lists mention what they should. While they are off, only facts are
  assigned;
* `Propagator.Inv.assignFact`, `Propagator.Inv.decide`, `Propagator.Inv.addClause`, `Propagator.Inv.learn`,
  `Propagator.Inv.backtrack`, `Propagator.Inv.prune`, … : it holds after every change.
-/

namespace ClauseLearning

/-- A clause over `n` variables that mentions none of them twice. Those that are assigned are on the trail. -/
structure Clause.Fits (n : Nat) (t : Trail) (c : Clause) : Prop where
  nodup : (c.lits.map Lit.var).Nodup
  index_lt {l : Lit} : l ∈ c.lits → l.var.index < n
  placed {l : Lit} : l ∈ c.lits → t.isAssigned l.var → ∃ i k, t.At i k ∧ k.var = l.var

namespace Clause.Fits

variable {n : Nat} {t u : Trail} {c d : Clause} {l : Lit}

theorem of_perm (h : c.Fits n t) (hp : d.lits.Perm c.lits) : d.Fits n t where
  nodup := (hp.map Lit.var).nodup_iff.2 h.nodup
  index_lt hl := h.index_lt (hp.mem_iff.1 hl)
  placed hl := h.placed (hp.mem_iff.1 hl)

theorem of_trail (h : c.Fits n t)
    (hp : ∀ v, u.isAssigned v → (t.isAssigned v → ∃ i k, t.At i k ∧ k.var = v) → ∃ i k, u.At i k ∧ k.var = v) :
    c.Fits n u :=
  ⟨h.nodup, h.index_lt, fun hl ha => hp _ ha fun ha => h.placed hl ha⟩

theorem at_of_isFalse (h : c.Fits n t) (ht : t.Consistent n) (hm : l ∈ c.lits) (hl : t.isFalse l) :
    ∃ i, t.At i (-l) := by
  obtain ⟨i, k, hi, hv⟩ := h.placed hm (Trail.isAssigned_of_isFalse hl)
  exact ⟨i, Trail.eq_of_isTrue (ht.isTrue hi) (Trail.isFalse_iff_neg.1 hl) (hv.trans (Lit.var_neg l).symm) ▸ hi⟩

theorem first_ne_second (h : c.Fits n t) : c.first ≠ c.second := Clause.first_ne_second h.nodup

theorem first_blocks (h : c.Fits n t) (hs : c.second = -l) : c.Blocks l c.first := by
  have hb := Clause.first_blocks h.first_ne_second
  rwa [hs, Lit.neg_neg] at hb

end Clause.Fits

/-- Nothing but facts is assigned, and nothing is propagated yet. -/
structure Trail.Idle (t : Trail) : Prop where
  currentLevel_eq : t.currentLevel = 0
  head_eq : t.head = 0
  reason_eq {i : Nat} {l : Lit} : t.At i l → t.reason l.var = .unit

namespace Propagator

variable {p : Propagator} {n i m : Nat} {l x : Lit} {r : ClauseRef} {c : Clause} {d e : Database}

/-- The trail and the clauses fit together. A literal without a reason clause is a fact or the decision of its level; a
reason clause has the literal in front, and all others became false before. -/
structure Linked (p : Propagator) (n : Nat) : Prop where
  trail : p.trail.Consistent n
  listed : p.clauses.Listed
  fits {r : ClauseRef} : p.clauses.isLive r → (p.clauses.get r).Fits n p.trail
  unit_reason {i : Nat} {l : Lit} : p.trail.At i l → p.trail.reason l.var = .unit →
    p.trail.level l.var = 0 ∨ p.trail.starts[p.trail.level l.var - 1]? = some i
  clause_reason {i : Nat} {l : Lit} {r : ClauseRef} : p.trail.At i l → p.trail.reason l.var = .clause r →
    p.clauses.isLive r ∧ (p.clauses.get r).first = l ∧
      ∀ x ∈ (p.clauses.get r).lits.drop 1, ∃ j < i, p.trail.At j (-x)

/-- If a watched literal became false before the head of the trail, another literal was true by then. -/
def Guarded (p : Propagator) (r : ClauseRef) : Prop :=
  ∀ x i, (x = (p.clauses.get r).first ∨ x = (p.clauses.get r).second) → p.trail.At i (-x) → i < p.trail.head →
    ∃ y ∈ (p.clauses.get r).lits, p.trail.isTrue y ∧ p.trail.level y.var ≤ p.trail.level x.var

/-- The watch lists as a function. -/
def watching (p : Propagator) (q : Lit) : List Watch := (p.watches.list q).toList

/-- The invariant of trail, clauses and watches over `n` variables. -/
structure Inv (p : Propagator) (n : Nat) : Prop extends Linked p n where
  lists_size : p.watches.lists.size = 2 * n
  watched : p.watches.enabled = true → Watched [] p.clauses p.watching
  guarded {r : ClauseRef} : p.watches.enabled = true → p.clauses.isLive r → p.Guarded r
  idle : p.watches.enabled = false → p.trail.Idle

/-- All assigned literals are propagated. -/
def Complete (p : Propagator) : Prop := p.trail.head = p.trail.lits.size

theorem inv_empty : ({} : Propagator).Inv 0 where
  trail := Trail.consistent_empty
  listed := Database.listed_empty
  fits h := absurd (Database.lt_of_isLive h) (Nat.not_lt_zero _)
  unit_reason h := absurd h.lt (Nat.not_lt_zero _)
  clause_reason h := absurd h.lt (Nat.not_lt_zero _)
  lists_size := rfl
  watched _ :=
    { ref_lt := fun h => absurd h List.not_mem_nil
      count := fun _ h => absurd (Database.lt_of_isLive h) (Nat.not_lt_zero _)
      blocking := fun h => absurd h List.not_mem_nil }
  guarded _ h := absurd (Database.lt_of_isLive h) (Nat.not_lt_zero _)
  idle h := by cases h

/-! ## Growing trails -/

theorem Linked.grow (h : p.Linked n) {u : Trail} (hu : u.Consistent n) (g : Trail.Grows l p.trail u)
    (hunit : u.reason l.var = .unit → u.level l.var = 0 ∨ u.starts[u.level l.var - 1]? = some p.trail.lits.size)
    (hclause : ∀ r, u.reason l.var = .clause r → p.clauses.isLive r ∧ (p.clauses.get r).first = l ∧
      ∀ x ∈ (p.clauses.get r).lits.drop 1, ∃ j, p.trail.At j (-x)) :
    { p with trail := u }.Linked n where
  trail := hu
  listed := h.listed
  fits hr := by
    apply (h.fits hr).of_trail
    intro v hv hp
    rcases g.isAssigned_cases hv with rfl | hv
    · exact ⟨_, l, g.at_iff.2 (Or.inr ⟨rfl, rfl⟩), rfl⟩
    · obtain ⟨i, k, hi, hk⟩ := hp hv
      exact ⟨i, k, g.at_iff.2 (Or.inl hi), hk⟩
  unit_reason hi hr := by
    rcases g.at_iff.1 hi with hi | ⟨rfl, rfl⟩
    · have ha := Trail.isAssigned_of_isTrue (h.trail.isTrue hi)
      have hr' := h.unit_reason hi (g.reason_eq_of_isAssigned ha ▸ hr)
      show u.level _ = 0 ∨ _
      rw [g.level_eq_of_isAssigned ha]
      exact hr'.imp_right g.start
    · exact hunit hr
  clause_reason {i k r} hi hr := by
    rcases g.at_iff.1 hi with hi | ⟨rfl, rfl⟩
    · have ha := Trail.isAssigned_of_isTrue (h.trail.isTrue hi)
      obtain ⟨h1, h2, h3⟩ := h.clause_reason hi (g.reason_eq_of_isAssigned ha ▸ hr)
      refine ⟨h1, h2, ?_⟩
      intro x hx
      obtain ⟨j, hj, hj'⟩ := h3 x hx
      exact ⟨j, hj, g.at_iff.2 (Or.inl hj')⟩
    · obtain ⟨h1, h2, h3⟩ := hclause r hr
      refine ⟨h1, h2, ?_⟩
      intro x hx
      obtain ⟨j, hj⟩ := h3 x hx
      exact ⟨j, hj.lt, g.at_iff.2 (Or.inl hj)⟩

theorem Guarded.grow (h : p.Guarded r) (ht : p.trail.Consistent n) {u : Trail} (g : Trail.Grows l p.trail u) :
    { p with trail := u }.Guarded r := by
  intro x i hx hi hlt
  have hlt' : i < p.trail.head := g.head_eq ▸ hlt
  have hi' : p.trail.At i (-x) := by
    rcases g.at_iff.1 hi with hi | ⟨rfl, -⟩
    · exact hi
    · have := ht.head_le
      omega
  obtain ⟨y, hy, hyt, hle⟩ := h x i hx hi' hlt'
  have hax : p.trail.isAssigned x.var := Lit.var_neg x ▸ Trail.isAssigned_of_isTrue (ht.isTrue hi')
  refine ⟨y, hy, g.isTrue_of hyt, ?_⟩
  show u.level y.var ≤ u.level x.var
  rw [g.level_eq_of_isTrue hyt, g.level_eq_of_isAssigned hax]
  exact hle

namespace Inv

/-- A new fact. -/
theorem assignFact (h : p.Inv n) (h0 : p.trail.currentLevel = 0) (hx : l.var.index < n)
    (hu : ¬ p.trail.isAssigned l.var) : (p.assign l .unit).Inv n := by
  have g := h.trail.grows_assign (r := .unit) hx hu
  refine
    { toLinked := h.grow (h.trail.assign hx hu) g ?_ ?_
      lists_size := h.lists_size
      watched := h.watched
      guarded := fun he hr => (h.guarded he hr).grow h.trail g
      idle := fun he => ⟨h0, (h.idle he).head_eq, ?_⟩ }
  · intro _
    rw [Trail.level_assign (h.trail.levels_size.symm ▸ hx), if_pos rfl]
    exact Or.inl h0
  · intro r hr
    rw [Trail.reason_assign (h.trail.reasons_size.symm ▸ hx), if_pos rfl] at hr
    cases hr
  · intro i k hi
    show (p.trail.assign l .unit).reason k.var = .unit
    rw [Trail.reason_assign (h.trail.reasons_size.symm ▸ hx)]
    split
    · rfl
    · next hv =>
      rcases Trail.at_assign.1 hi with hi | ⟨-, rfl⟩
      · exact (h.idle he).reason_eq hi
      · exact absurd rfl hv

/-- A decision after propagation. -/
theorem decide (h : p.Inv n) (he : p.watches.enabled = true) (hc : p.Complete) (hx : l.var.index < n)
    (hu : ¬ p.trail.isAssigned l.var) :
    ({ p with trail := p.trail.openLevel }.assign l .unit).Inv n := by
  have g := h.trail.grows_decide (r := .unit) hx hu
  refine
    { toLinked := h.grow (h.trail.decide hc hx hu) g ?_ ?_
      lists_size := h.lists_size
      watched := h.watched
      guarded := fun he hr => (h.guarded he hr).grow h.trail g
      idle := fun he' => Bool.noConfusion (he.symm.trans he') }
  · intro _
    rw [h.trail.level_decide hx, if_pos rfl]
    apply Or.inr
    show (p.trail.starts.push p.trail.lits.size)[p.trail.starts.size + 1 - 1]? = _
    rw [Nat.add_sub_cancel, Array.getElem?_push_size]
  · intro r hr
    rw [Trail.reason_assign (by rw [Trail.openLevel, h.trail.reasons_size]; exact hx), if_pos rfl] at hr
    cases hr

end Inv

/-! ## New clauses -/

theorem Linked.addClause (h : p.Linked n) (hc : c.Fits n p.trail) : (p.addClause c).2.Linked n where
  trail := h.trail
  listed := h.listed.add c
  fits {r} hr := by
    rw [Propagator.addClause, Database.isLive] at hr
    rw [Propagator.addClause]
    dsimp only at hr ⊢
    rw [Database.get_add] at hr ⊢
    split at hr
    · next he => rw [if_pos he]; exact hc
    · next he => rw [if_neg he]; exact h.fits hr
  unit_reason := h.unit_reason
  clause_reason {i l r} hi hr := by
    obtain ⟨h1, h2⟩ := h.clause_reason hi hr
    have hne : r ≠ p.clauses.slots.size := Nat.ne_of_lt (Database.lt_of_isLive h1)
    have hg : (p.clauses.add c).2.get r = p.clauses.get r := by rw [Database.get_add, if_neg hne]
    refine ⟨?_, ?_⟩
    · show (p.clauses.add c).2.isLive r
      rw [Database.isLive, hg]
      exact h1
    · show ((p.clauses.add c).2.get r).first = _ ∧ ∀ x ∈ ((p.clauses.add c).2.get r).lits.drop 1, _
      rw [hg]
      exact h2

namespace Inv

theorem code_lt (h : p.Inv n) (hx : l.var.index < n) : l.code < p.watches.lists.size := by
  rw [h.lists_size]
  exact Lit.code_lt hx

theorem code_neg_lt (h : p.Inv n) (hx : l.var.index < n) : (-l).code < p.watches.lists.size := by
  rw [← Lit.var_neg l] at hx
  exact h.code_lt hx

theorem watched_addClause (h : p.Inv n) (hc : c.Fits n p.trail) (hd : c.deleted = false)
    (he : p.watches.enabled = true) : Watched [] (p.clauses.add c).2 (p.addClause c).2.watching := by
  have hget : (p.clauses.add c).2.get p.clauses.slots.size = c := by rw [Database.get_add, if_pos rfl]
  refine Watched.pair ((h.watched he).add c) List.not_mem_nil ?_ ?_ ?_
  · rw [Database.isLive_iff, hget]
    exact hd
  · rw [hget]
    exact hc.first_ne_second
  · intro q
    have hw : (p.addClause c).2.watches = p.watches.watchPair p.clauses.slots.size c.first c.second := if_pos he
    rw [watching, hw, hget, Watches.toList_list_watchPair, watching]
    · exact h.code_neg_lt (hc.index_lt c.first_mem)
    · exact h.code_neg_lt (hc.index_lt c.second_mem)

theorem lists_size_addClause (h : p.Inv n) : (p.addClause c).2.watches.lists.size = 2 * n := by
  show (p.watches.watch _ _ _).lists.size = 2 * n
  unfold Watches.watch
  split
  · rw [Watches.size_watchPair, h.lists_size]
  · exact h.lists_size

theorem enabled_addClause : (p.addClause c).2.watches.enabled = p.watches.enabled := by
  show (p.watches.watch _ _ _).enabled = _
  unfold Watches.watch
  split <;> rfl

theorem guarded_addClause (h : p.Inv n) (he : p.watches.enabled = true) (hr : (p.addClause c).2.clauses.isLive r)
    (hne : r ≠ p.clauses.slots.size) : (p.addClause c).2.Guarded r := by
  have hg : (p.clauses.add c).2.get r = p.clauses.get r := by rw [Database.get_add, if_neg hne]
  have hl : p.clauses.isLive r := by
    rw [Database.isLive, ← hg]
    exact hr
  intro x i
  show (x = ((p.clauses.add c).2.get r).first ∨ x = ((p.clauses.add c).2.get r).second) → p.trail.At i (-x) →
    i < p.trail.head →
      ∃ y ∈ ((p.clauses.add c).2.get r).lits, p.trail.isTrue y ∧ p.trail.level y.var ≤ p.trail.level x.var
  rw [hg]
  exact h.guarded he hl x i

/-- A new clause, neither of whose watched literals became false before the head of the trail. -/
theorem addClause (h : p.Inv n) (hc : c.Fits n p.trail) (hd : c.deleted = false)
    (hg : ∀ x, x = c.first ∨ x = c.second → ¬ p.trail.isFalse x) : (p.addClause c).2.Inv n where
  toLinked := h.toLinked.addClause hc
  lists_size := h.lists_size_addClause
  watched he := h.watched_addClause hc hd (enabled_addClause ▸ he)
  guarded {r} he hr := by
    rw [enabled_addClause] at he
    by_cases hne : r = p.clauses.slots.size
    · have hget : (p.addClause c).2.clauses.get r = c := by
        rw [hne]
        exact Database.get_add.trans (if_pos rfl)
      intro x i hx hi
      rw [hget] at hx
      exact absurd (Trail.isFalse_iff_neg.2 (h.trail.isTrue hi)) (hg x hx)
    · exact h.guarded_addClause he hr hne
  idle he := by
    rw [enabled_addClause] at he
    exact h.idle he

/-- A new clause makes its first literal true. All others are false, the second one on the current level. -/
theorem learn (h : p.Inv n) (he : p.watches.enabled = true) (hc : c.Fits n p.trail) (hd : c.deleted = false)
    (hu : ¬ p.trail.isAssigned c.first.var) (hf : ∀ x ∈ c.lits.drop 1, p.trail.isFalse x)
    (hl : p.trail.level c.second.var = p.trail.currentLevel) :
    ((p.addClause c).2.assign c.first (.clause (p.addClause c).1)).Inv n := by
  have hx := hc.index_lt c.first_mem
  have g := h.trail.grows_assign (r := .clause p.clauses.slots.size) hx hu
  have hget : (p.clauses.add c).2.get p.clauses.slots.size = c := Database.get_add.trans (if_pos rfl)
  have hcons := h.trail.assign (r := .clause p.clauses.slots.size) hx hu
  refine
    { toLinked := (h.toLinked.addClause hc).grow hcons g ?_ ?_
      lists_size := h.lists_size_addClause
      watched := fun _ => h.watched_addClause hc hd he
      guarded := fun {r} _ hr => ?_
      idle := fun he' => Bool.noConfusion (he.symm.trans (enabled_addClause.symm.trans he')) }
  · intro hr
    rw [Trail.reason_assign (h.trail.reasons_size.symm ▸ hx), if_pos rfl] at hr
    cases hr
  · intro r hr
    rw [Trail.reason_assign (h.trail.reasons_size.symm ▸ hx), if_pos rfl] at hr
    obtain rfl := Reason.clause.inj hr
    show (p.clauses.add c).2.isLive p.clauses.slots.size ∧
      ((p.clauses.add c).2.get p.clauses.slots.size).first = c.first ∧
        ∀ x ∈ ((p.clauses.add c).2.get p.clauses.slots.size).lits.drop 1, ∃ j, p.trail.At j (-x)
    rw [Database.isLive_iff, hget]
    refine ⟨hd, rfl, ?_⟩
    intro x hx
    exact hc.at_of_isFalse h.trail (List.mem_of_mem_drop hx) (hf x hx)
  · by_cases hne : r = p.clauses.slots.size
    · subst hne
      intro x i hxx hi hlt
      change x = ((p.clauses.add c).2.get _).first ∨ x = ((p.clauses.add c).2.get _).second at hxx
      show ∃ y ∈ ((p.clauses.add c).2.get _).lits, _
      rw [hget] at hxx ⊢
      refine ⟨c.first, c.first_mem, g.isTrue_iff.2 (Or.inl rfl), ?_⟩
      show (p.trail.assign _ _).level _ ≤ (p.trail.assign _ _).level _
      rcases hxx with rfl | rfl
      · exact Nat.le_refl _
      · have hv : c.second.var ≠ c.first.var := fun hv =>
          hu (hv ▸ Trail.isAssigned_of_isFalse (hf _ List.mem_cons_self))
        apply Nat.le_of_eq
        rw [Trail.level_assign (h.trail.levels_size.symm ▸ hx), if_pos rfl,
          Trail.level_assign (h.trail.levels_size.symm ▸ hx), if_neg hv, hl]
    · exact (h.guarded_addClause he hr hne).grow h.trail g

end Inv

/-! ## Allocation and backtracking -/

namespace Inv

theorem list_addVar (w : Watches) (q : Lit) : w.addVar.list q = w.list q := by
  unfold Watches.addVar Watches.list
  rw [getD_push_default, getD_push_default]

theorem addVar (h : p.Inv n) : p.addVar.Inv (n + 1) where
  trail := h.trail.addVar
  listed := h.listed
  fits hr :=
    { nodup := (h.fits hr).nodup
      index_lt := fun hl => Nat.lt_succ_of_lt ((h.fits hr).index_lt hl)
      placed := fun hl ha => by
        rw [Trail.isAssigned, Propagator.addVar, Trail.value_addVar] at ha
        exact (h.fits hr).placed hl ha }
  unit_reason hi hr := by
    rw [Propagator.addVar, Trail.reason_addVar] at hr
    rw [Propagator.addVar, Trail.level_addVar]
    exact h.unit_reason hi hr
  clause_reason hi hr := by
    rw [Propagator.addVar, Trail.reason_addVar] at hr
    exact h.clause_reason hi hr
  lists_size := by
    rw [Propagator.addVar, Watches.addVar, Array.size_push, Array.size_push, h.lists_size]
    omega
  watched he := by
    have hw : p.addVar.watching = p.watching := by
      funext q
      rw [watching, Propagator.addVar, list_addVar, watching]
    rw [hw]
    exact h.watched he
  guarded {r} he hr := by
    intro x i hx hi hlt
    obtain ⟨y, hy, hyt, hle⟩ := h.guarded he hr x i hx hi hlt
    refine ⟨y, hy, ?_, ?_⟩
    · rw [Propagator.addVar, Trail.isTrue_addVar]
      exact hyt
    · rw [Propagator.addVar, Trail.level_addVar, Trail.level_addVar]
      exact hle
  idle he :=
    { currentLevel_eq := (h.idle he).currentLevel_eq
      head_eq := (h.idle he).head_eq
      reason_eq := fun hi => by
        rw [Propagator.addVar, Trail.reason_addVar]
        exact (h.idle he).reason_eq hi }

end Inv

theorem Linked.backtrack (h : p.Linked n) (m : Nat) : { p with trail := (p.trail.backtrack m).1 }.Linked n where
  trail := h.trail.backtrack m
  listed := h.listed
  fits hr := by
    apply (h.fits hr).of_trail
    intro v hv hp
    obtain ⟨k, rfl, hk⟩ := Trail.exists_isTrue_of_isAssigned hv
    obtain ⟨hk, hle⟩ := h.trail.isTrue_backtrack.1 hk
    obtain ⟨i, k', hi, hv'⟩ := hp (Trail.isAssigned_of_isTrue hk)
    exact ⟨i, k', h.trail.at_backtrack.2 ⟨hi, hv' ▸ hle⟩, hv'⟩
  unit_reason {i l} hi hr := by
    obtain ⟨hi, hle⟩ := h.trail.at_backtrack.1 hi
    rw [Trail.reason_backtrack] at hr
    rw [Trail.level_backtrack]
    rcases h.unit_reason hi hr with h0 | hs
    · exact Or.inl h0
    · by_cases hm : p.trail.currentLevel ≤ m
      · rw [Trail.backtrack_of_le hm]
        exact Or.inr hs
      · obtain ⟨s, hs'⟩ := Trail.exists_start (Nat.lt_of_not_le hm)
        obtain ⟨values, phases, -, -, he⟩ := Trail.backtrack_frame hs'
        by_cases h0 : p.trail.level l.var = 0
        · exact Or.inl h0
        · apply Or.inr
          rw [he]
          show (p.trail.starts.take m)[p.trail.level l.var - 1]? = some i
          rw [getElem?_take, if_pos (by omega)]
          exact hs
  clause_reason {i l r} hi hr := by
    obtain ⟨hi, hle⟩ := h.trail.at_backtrack.1 hi
    rw [Trail.reason_backtrack] at hr
    obtain ⟨h1, h2, h3⟩ := h.clause_reason hi hr
    refine ⟨h1, h2, ?_⟩
    intro x hx
    obtain ⟨j, hj, hj'⟩ := h3 x hx
    exact ⟨j, hj, h.trail.at_backtrack.2 ⟨hj', Nat.le_trans (h.trail.level_mono hj' hi (Nat.le_of_lt hj)) hle⟩⟩

/-- What guards a literal is assigned on a level that is not higher, and stays as long. -/
theorem Guarded.backtrack (h : p.Guarded r) (ht : p.trail.Consistent n) (m : Nat) :
    { p with trail := (p.trail.backtrack m).1 }.Guarded r := by
  intro x i hx hi hlt
  obtain ⟨hi', hle⟩ := ht.at_backtrack.1 hi
  have hlt' : i < p.trail.head := by
    by_cases hm : p.trail.currentLevel ≤ m
    · rw [Trail.backtrack_of_le hm] at hlt
      exact hlt
    · obtain ⟨s, hs⟩ := Trail.exists_start (Nat.lt_of_not_le hm)
      have h1 := ht.starts_le_head hs
      have h2 := (ht.lt_start_iff hs hi').2 hle
      omega
  obtain ⟨y, hy, hyt, hyl⟩ := h x i hx hi' hlt'
  rw [Lit.var_neg] at hle
  refine ⟨y, hy, ht.isTrue_backtrack.2 ⟨hyt, Nat.le_trans hyl hle⟩, ?_⟩
  rw [Trail.level_backtrack, Trail.level_backtrack]
  exact hyl

theorem Inv.backtrack (h : p.Inv n) (m : Nat) : { p with trail := (p.trail.backtrack m).1 }.Inv n where
  toLinked := h.toLinked.backtrack m
  lists_size := h.lists_size
  watched := h.watched
  guarded he hr := (h.guarded he hr).backtrack h.trail m
  idle he := by
    have hi := h.idle he
    rw [Trail.backtrack_of_le (Nat.le_trans (Nat.le_of_eq hi.currentLevel_eq) (Nat.zero_le m))]
    exact hi

/-! ## Fewer clauses -/

/-- A clause that is the reason of a literal on the trail. -/
def IsReason (p : Propagator) (r : ClauseRef) : Prop := ∃ i l, p.trail.At i l ∧ p.trail.reason l.var = .clause r

theorem first_eq_of_lits_eq {c d : Clause} (h : c.lits = d.lits) : c.first = d.first := (List.cons.inj h).1

theorem second_eq_of_lits_eq {c d : Clause} (h : c.lits = d.lits) : c.second = d.second :=
  (List.cons.inj (List.cons.inj h).2).1

theorem Linked.thin (h : p.Linked n) (ht : Database.Thinned p.clauses e) (hk : ∀ r, p.IsReason r → e.isLive r) :
    { p with clauses := e }.Linked n where
  trail := h.trail
  listed := ht.listed h.listed
  fits {r} hr := (h.fits (ht.isLive hr)).of_perm (by
    show (e.get r).lits.Perm _
    rw [ht.lits_eq hr])
  unit_reason := h.unit_reason
  clause_reason {i l r} hi hr := by
    obtain ⟨-, h2, h3⟩ := h.clause_reason hi hr
    have hl := hk r ⟨i, l, hi, hr⟩
    have he := ht.lits_eq hl
    refine ⟨hl, (first_eq_of_lits_eq he).trans h2, ?_⟩
    show ∀ x ∈ (e.get r).lits.drop 1, _
    rw [he]
    exact h3

theorem Inv.thin (h : p.Inv n) (ht : Database.Thinned p.clauses e) (hk : ∀ r, p.IsReason r → e.isLive r) :
    { p with clauses := e }.Inv n where
  toLinked := h.toLinked.thin ht hk
  lists_size := h.lists_size
  watched he := (h.watched he).thinned ht
  guarded {r} he hr := by
    have hl := ht.lits_eq hr
    intro x i hx hi hlt
    show ∃ y ∈ (e.get r).lits, _
    rw [hl]
    refine h.guarded he (ht.isLive hr) x i ?_ hi hlt
    rw [← first_eq_of_lits_eq hl, ← second_eq_of_lits_eq hl]
    exact hx
  idle := h.idle

/-- Learned clauses may go as long as reasons stay. -/
theorem Inv.prune (h : p.Inv n) (hp : Database.Pruned p.IsReason p.clauses e) : { p with clauses := e }.Inv n := by
  apply h.thin hp.toThinned
  intro r hr
  have ⟨i, l, hi, hr'⟩ := hr
  exact hp.kept (h.clause_reason hi hr').1 (Or.inr hr)

theorem Inv.not_isReason (h : p.Inv n) (he : p.watches.enabled = false) : ¬ p.IsReason r := by
  rintro ⟨i, l, hi, hr⟩
  rw [(h.idle he).reason_eq hi] at hr
  cases hr

theorem Inv.thin_of_idle (h : p.Inv n) (he : p.watches.enabled = false) (ht : Database.Thinned p.clauses e) :
    { p with clauses := e }.Inv n := h.thin ht fun _ hr => absurd hr (h.not_isReason he)

end Propagator

end ClauseLearning
