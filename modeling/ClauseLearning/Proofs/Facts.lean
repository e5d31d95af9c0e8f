import ClauseLearning.Facts
import ClauseLearning.Proofs.Models

/-!
# Facts and compaction keep the models

* `Database.Descends` : every clause comes from one with the same and perhaps more literals;
* `Propagator.Mentions` : the variables that are assigned or in a clause;
* `Propagator.Faithful` : a change that loses no model of all clauses, and none of whose partial models makes a fact or
  an irredundant clause false that was there before;
* `Trail.remainder_none`, `Trail.remainder_some` : what facts make of a clause after propagation;
* `Propagator.Inv.applyFacts`, `Propagator.applyFacts_faithful` : satisfied clauses and false literals can go;
* `Propagator.Inv.moved`, `Propagator.moved_faithful` : storage can be compacted when nothing is on the trail.
-/

namespace ClauseLearning

/-- Every clause comes from one with the same and perhaps more literals, which is irredundant if the clause is. -/
def Database.Descends (d e : Database) : Prop :=
  ∀ r, e.isLive r → ∃ q, d.isLive q ∧ ((e.get r).learned = false → (d.get q).learned = false) ∧
    ∀ l ∈ (e.get r).lits, l ∈ (d.get q).lits

namespace Database.Descends

variable {d e f : Database}

theorem refl (d : Database) : Descends d d := fun r hr => ⟨r, hr, id, fun _ => id⟩

theorem of_thinned (h : Thinned d e) : Descends d e :=
  fun r hr => ⟨r, h.isLive hr, (h.learned_eq hr).symm.trans, fun _ hl => h.lits_eq hr ▸ hl⟩

theorem of_moved (h : Moved d e) : Descends d e := by
  intro r hr
  obtain ⟨q, hq, he⟩ := h.old hr
  exact ⟨q, hq, fun hn => he ▸ hn, fun _ hl => he ▸ hl⟩

end Database.Descends

namespace Propagator

variable {p q s : Propagator} {n : Nat} {a : Assignment} {m : PartialAssignment} {l : Lit} {r : ClauseRef}
  {c c' : Clause} {d e : Database}

/-- A variable that is assigned or in a clause. -/
def Mentions (p : Propagator) (v : Var) : Prop :=
  p.trail.isAssigned v ∨ ∃ r, p.clauses.isLive r ∧ ∃ l ∈ (p.clauses.get r).lits, l.var = v

theorem Mentions.descends {v : Var} (h : q.Mentions v) (ha : q.trail.isAssigned v → p.Mentions v)
    (hd : Database.Descends p.clauses q.clauses) : p.Mentions v := by
  rcases h with h | ⟨r, hr, l, hl, rfl⟩
  · exact ha h
  · obtain ⟨r', hr', -, hs⟩ := hd r hr
    exact Or.inr ⟨r', hr', l, hs l hl, rfl⟩

theorem Advance.mentions_of_isAssigned (h : Advance p q) (hq : q.Linked n) {v : Var} (hv : q.trail.isAssigned v) :
    p.Mentions v := by
  obtain ⟨l, rfl, hl⟩ := Trail.exists_isTrue_of_isAssigned hv
  rcases h.new hl with hp | ⟨r, hr⟩
  · exact Or.inl (Trail.isAssigned_of_isTrue hp)
  · rcases hq.trail.placed hl with ⟨i, hi⟩ | ⟨-, hu⟩
    · obtain ⟨hlive, hfirst, -⟩ := hq.clause_reason hi hr
      have hm : l ∈ (q.clauses.get r).lits := hfirst ▸ Clause.first_mem _
      exact Or.inr ⟨r, h.isLive_eq r ▸ hlive, l, (h.reordered r).mem_iff.1 hm, rfl⟩
    · rw [hu] at hr
      cases hr

/-- A change that loses no model of all clauses, and after which nothing is admitted that was not before. -/
structure Faithful (p q : Propagator) : Prop where
  modelsAll {a : Assignment} : p.ModelsAll a → q.ModelsAll a
  admits {m : PartialAssignment} : q.Admits m → p.Admits m
  descends : Database.Descends p.clauses q.clauses

namespace Faithful

theorem refl (p : Propagator) : Faithful p p := ⟨id, id, Database.Descends.refl _⟩

theorem of_fact (hf : ∀ l, q.trail.Fact l ↔ p.trail.Fact l) (hc : q.clauses = p.clauses) : Faithful p q where
  modelsAll ha := ⟨fun hl => ha.fact ((hf _).1 hl), fun hr => by rw [hc] at hr ⊢; exact ha.clause hr⟩
  admits hm := ⟨fun hl => hm.fact ((hf _).2 hl), fun hr hn => by rw [← hc] at hr hn ⊢; exact hm.clause hr hn⟩
  descends := by
    rw [hc]
    exact Database.Descends.refl _

theorem of_advance (h : Advance p q) (hq : q.Linked n) : Faithful p q where
  modelsAll := h.modelsAll hq
  admits := h.admits
  descends r hr :=
    ⟨r, h.isLive_eq r ▸ hr, (h.reordered r).learned_eq.symm.trans, fun _ hl => (h.reordered r).mem_iff.1 hl⟩

theorem of_pruned {keep : ClauseRef → Prop} (h : Database.Pruned keep p.clauses e) :
    Faithful p { p with clauses := e } where
  modelsAll ha :=
    { fact := ha.fact
      clause := fun {r} hr => by
        show Satisfies _ (e.get r).lits
        rw [h.lits_eq hr]
        exact ha.clause (h.isLive hr) }
  admits {m} hm :=
    { fact := hm.fact
      clause := fun {r} hr hn => by
        have hl := h.kept hr (Or.inl hn)
        have := hm.clause (r := r) hl ((h.learned_eq hl).trans hn)
        change m.Meets (e.get r).lits at this
        rwa [h.lits_eq hl] at this }
  descends := Database.Descends.of_thinned h.toThinned

theorem backtrack (hp : p.Linked n) (m : Nat) : Faithful p { p with trail := (p.trail.backtrack m).1 } := by
  refine of_fact ?_ rfl
  intro l
  show (p.trail.backtrack m).1.Fact l ↔ _
  rw [Trail.Fact, Trail.level_backtrack, hp.trail.isTrue_backtrack, Trail.Fact]
  constructor
  · exact fun h => ⟨h.1.1, h.2⟩
  · exact fun h => ⟨⟨h.1, h.2 ▸ Nat.zero_le m⟩, h.2⟩

end Faithful

/-! ## Facts -/

theorem Inv.not_isAssigned_watched (h : p.Inv n) (he : p.watches.enabled = true) (hc : p.Complete)
    (hr : p.clauses.isLive r) (hn : ∀ l ∈ (p.clauses.get r).lits, ¬ p.trail.isTrue l)
    (hl : l = (p.clauses.get r).first ∨ l = (p.clauses.get r).second) (hm : l ∈ (p.clauses.get r).lits) :
    ¬ p.trail.isAssigned l.var := by
  intro ha
  rcases Trail.isAssigned_iff.1 ha with ht | hf
  · exact hn l hm ht
  · obtain ⟨i, hi⟩ := (h.fits hr).at_of_isFalse h.trail hm hf
    have hlt : i < p.trail.head := by
      rw [show p.trail.head = p.trail.lits.size from hc]
      exact hi.lt
    obtain ⟨y, hy, hyt, -⟩ := h.guarded he hr l i hl hi hlt
    exact hn y hy hyt

theorem Inv.exists_not_isFalse (h : p.Inv n) (he : p.watches.enabled = true) (hc : p.Complete)
    (hr : p.clauses.isLive r) : ∃ l ∈ (p.clauses.get r).lits, ¬ p.trail.isFalse l := by
  refine Classical.byContradiction fun hall => ?_
  have hf {l : Lit} (hl : l ∈ (p.clauses.get r).lits) : p.trail.isFalse l :=
    Classical.byContradiction fun hn => hall ⟨l, hl, hn⟩
  have hn : ∀ l ∈ (p.clauses.get r).lits, ¬ p.trail.isTrue l := fun l hl ht =>
    Trail.not_isFalse_of_isTrue ht (hf hl)
  exact h.not_isAssigned_watched he hc hr hn (Or.inl rfl) (Clause.first_mem _)
    (Trail.isAssigned_of_isFalse (hf (Clause.first_mem _)))

theorem withLits?_some {ls : List Lit} (h : c.withLits? ls = some c') :
    c'.lits = ls ∧ c'.tier = c.tier ∧ c'.deleted = c.deleted ∧ c'.marked = c.marked := by
  match ls, h with
  | [], h => cases h
  | [_], h => cases h
  | a :: b :: rest, h =>
    obtain rfl := Option.some.inj h
    exact ⟨rfl, rfl, rfl, rfl⟩

theorem remainder_none {t : Trail} (h : t.remainder c = none) : ∃ l ∈ c.lits, t.isTrue l := by
  unfold Trail.remainder at h
  split at h
  · next ht => exact List.any_eq_true.1 ht
  · cases h

/-- What is left of a clause after propagation is its unassigned part. -/
theorem remainder_some (h : p.Inv n) (he : p.watches.enabled = true) (hc : p.Complete) (hr : p.clauses.isLive r)
    (hs : p.trail.remainder (p.clauses.get r) = some c') :
    c'.lits = (p.clauses.get r).lits.filter (fun l => !p.trail.isAssigned l.var) ∧
      c'.tier = (p.clauses.get r).tier ∧ c'.deleted = false ∧ ∀ l ∈ (p.clauses.get r).lits, ¬ p.trail.isTrue l := by
  unfold Trail.remainder at hs
  split at hs
  · cases hs
  · next hn =>
    have hn' : ∀ l ∈ (p.clauses.get r).lits, ¬ p.trail.isTrue l := fun l hl ht => hn (List.any_eq_true.2 ⟨l, hl, ht⟩)
    have h1 := h.not_isAssigned_watched he hc hr hn' (Or.inl rfl) (Clause.first_mem _)
    have h2 := h.not_isAssigned_watched he hc hr hn' (Or.inr rfl) (Clause.second_mem _)
    have hw : ∃ c'', (p.clauses.get r).withLits?
        ((p.clauses.get r).lits.filter fun l => !p.trail.isAssigned l.var) = some c'' := by
      rw [Clause.lits, List.filter_cons_of_pos (by simpa using h1), List.filter_cons_of_pos (by simpa using h2)]
      exact ⟨_, rfl⟩
    obtain ⟨c'', hw⟩ := hw
    rw [hw] at hs
    obtain rfl := Option.some.inj hs
    obtain ⟨h3, h4, h5, -⟩ := withLits?_some hw
    exact ⟨h3, h4, h5.trans (Database.isLive_iff.1 hr), hn'⟩

theorem get_applyFacts (h : p.Inv n) : p.applyFacts.clauses.get r =
    if p.clauses.isLive r then Database.swept p.trail.remainder (p.clauses.get r) else p.clauses.get r :=
  Database.get_sweep h.listed _

theorem isLive_applyFacts (h : p.Inv n) (hr : p.applyFacts.clauses.isLive r) :
    p.clauses.isLive r ∧ p.trail.remainder (p.clauses.get r) = some (p.applyFacts.clauses.get r) := by
  rw [Database.isLive_iff, get_applyFacts h] at hr
  rw [get_applyFacts h]
  by_cases hl : p.clauses.isLive r
  · rw [if_pos hl] at hr ⊢
    refine ⟨hl, ?_⟩
    cases hs : p.trail.remainder (p.clauses.get r) with
    | none =>
      rw [Database.swept, hs] at hr
      cases hr
    | some c => rw [Database.swept, hs, Option.getD_some]
  · rw [if_neg hl] at hr
    exact absurd (Database.isLive_iff.2 hr) hl

theorem isAssigned_settle {t : Trail} {v : Var} : t.settle.isAssigned v = t.isAssigned v := by
  obtain ⟨reasons, -, -, he⟩ := Trail.settle_frame t
  rw [he]
  rfl

theorem Inv.applyFacts (h : p.Inv n) (he : p.watches.enabled = true) (hc : p.Complete)
    (h0 : p.trail.currentLevel = 0) : p.applyFacts.Inv n where
  trail := h.trail.settle h0
  listed := h.listed.sweep _
  fits {r} hr := by
    obtain ⟨hl, hs⟩ := isLive_applyFacts h hr
    obtain ⟨hlits, -, -, -⟩ := remainder_some h he hc hl hs
    have hfit := h.fits hl
    refine ⟨?_, fun hm => ?_, fun {l} hm ha => ?_⟩
    · rw [hlits]
      exact (List.filter_sublist.map _).nodup hfit.nodup
    · rw [hlits, List.mem_filter] at hm
      exact hfit.index_lt hm.1
    · rw [hlits, List.mem_filter] at hm
      have ha' : p.trail.isAssigned l.var := isAssigned_settle.symm.trans ha
      rw [ha'] at hm
      cases hm.2
  unit_reason hi := absurd hi.lt (Nat.not_lt_zero _)
  clause_reason hi := absurd hi.lt (Nat.not_lt_zero _)
  lists_size := h.lists_size
  watched he := by cases he
  guarded he := by cases he
  idle _ := ⟨Trail.currentLevel_settle.trans h0, rfl, fun hi => absurd hi.lt (Nat.not_lt_zero _)⟩

theorem applyFacts_faithful (h : p.Inv n) (he : p.watches.enabled = true) (hc : p.Complete)
    (h0 : p.trail.currentLevel = 0) : Faithful p p.applyFacts := by
  have hfact (l : Lit) : p.applyFacts.trail.Fact l ↔ p.trail.Fact l := by
    show p.trail.settle.Fact l ↔ _
    rw [Trail.Fact, Trail.isTrue_settle, Trail.level_settle, Trail.Fact]
  refine ⟨fun {a} ha => ⟨fun hl => ha.fact ((hfact _).1 hl), ?_⟩,
    fun {m} hm => ⟨fun hl => hm.fact ((hfact _).2 hl), ?_⟩, ?_⟩
  · intro r hr
    obtain ⟨hl, hs⟩ := isLive_applyFacts h hr
    obtain ⟨hlits, -, -, ht⟩ := remainder_some h he hc hl hs
    rw [hlits, satisfies_filter]
    · exact ha.clause hl
    · -- what a remainder leaves out is false
      intro l hm hp
      rw [Bool.not_eq_false'] at hp
      have hf := (Trail.isAssigned_iff.1 hp).resolve_left (ht l hm)
      rw [← Lit.holds_neg]
      exact ha.fact ((h.trail.fact_iff h0).2 (Trail.isFalse_iff_neg.1 hf))
  · intro r hr hn
    cases hs : p.trail.remainder (p.clauses.get r) with
    | none =>
      obtain ⟨l, hl, ht⟩ := remainder_none hs
      exact ⟨l, hl, hm.fact ((hfact l).2 ((h.trail.fact_iff h0).2 ht))⟩
    | some c =>
      obtain ⟨hlits, htier, hd, -⟩ := remainder_some h he hc hr hs
      have hget : p.applyFacts.clauses.get r = c := by rw [get_applyFacts h, if_pos hr, Database.swept, hs]; rfl
      have := hm.clause (r := r) (Database.isLive_iff.2 (hget ▸ hd))
        (by rw [hget, Clause.learned, htier]; exact hn)
      rw [hget, hlits] at this
      exact this.mono fun l hl => (List.mem_filter.1 hl).1
  · intro r hr
    obtain ⟨hl, hs⟩ := isLive_applyFacts h hr
    obtain ⟨hlits, htier, -, -⟩ := remainder_some h he hc hl hs
    refine ⟨r, hl, fun hn => by rw [← hn, Clause.learned, Clause.learned, htier], ?_⟩
    intro l hm
    rw [hlits] at hm
    exact (List.mem_filter.1 hm).1

/-! ## Compaction -/

theorem idle_of_lits_eq_empty {t : Trail} (h : t.Consistent n) (h0 : t.currentLevel = 0) (hl : t.lits = #[]) :
    t.Idle := by
  refine ⟨h0, ?_, ?_⟩
  · have := h.head_le
    rw [hl] at this
    exact Nat.le_zero.1 this
  · intro i l hi
    have := hi.lt
    rw [hl] at this
    exact absurd this (Nat.not_lt_zero i)

theorem Inv.moved (h : p.Inv n) (h0 : p.trail.currentLevel = 0) (hl : p.trail.lits = #[])
    (hm : Database.Moved p.clauses e) : { p with clauses := e, watches := p.watches.disable }.Inv n where
  trail := h.trail
  listed := hm.listed
  fits {r} hr := by
    obtain ⟨q, hq, he⟩ := hm.old hr
    show (e.get r).Fits n p.trail
    rw [he]
    exact h.fits hq
  unit_reason := h.unit_reason
  clause_reason {i l r} hi := by
    have := hi.lt
    rw [show ({ p with clauses := e, watches := p.watches.disable } : Propagator).trail.lits = #[] from hl] at this
    exact absurd this (Nat.not_lt_zero i)
  lists_size := h.lists_size
  watched he := by cases he
  guarded he := by cases he
  idle _ := idle_of_lits_eq_empty h.trail h0 hl

theorem moved_faithful (hm : Database.Moved p.clauses e) {v : Watches} :
    Faithful p { p with clauses := e, watches := v } where
  modelsAll ha :=
    { fact := ha.fact
      clause := fun {r} hr => by
        obtain ⟨q, hq, he⟩ := hm.old hr
        show Satisfies _ (e.get r).lits
        rw [he]
        exact ha.clause hq }
  admits {m} ha :=
    { fact := ha.fact
      clause := fun {r} hr hn => by
        obtain ⟨q, hq, he⟩ := hm.new hr
        have := ha.clause (r := q) hq (by rw [← hn, ← he])
        change m.Meets (e.get q).lits at this
        rwa [he] at this }
  descends := Database.Descends.of_moved hm

theorem Inv.disable (h : p.Inv n) (hi : p.trail.Idle) : { p with watches := p.watches.disable }.Inv n where
  toLinked := ⟨h.trail, h.listed, h.fits, h.unit_reason, h.clause_reason⟩
  lists_size := h.lists_size
  watched he := by cases he
  guarded he := by cases he
  idle _ := hi

/-! ## Additions -/

theorem get_addClause_of_isLive (hr : p.clauses.isLive r) :
    (p.addClause c).2.clauses.isLive r ∧ (p.addClause c).2.clauses.get r = p.clauses.get r := by
  have hg : (p.addClause c).2.clauses.get r = p.clauses.get r :=
    Database.get_add.trans (if_neg (Nat.ne_of_lt (Database.lt_of_isLive hr)))
  refine ⟨?_, hg⟩
  rw [Database.isLive, hg]
  exact hr

theorem addClause_cases (hr : (p.addClause c).2.clauses.isLive r) :
    (p.addClause c).2.clauses.get r = c ∨ p.clauses.isLive r ∧ (p.addClause c).2.clauses.get r = p.clauses.get r := by
  have hg : (p.addClause c).2.clauses.get r = if r = p.clauses.slots.size then c else p.clauses.get r :=
    Database.get_add
  by_cases he : r = p.clauses.slots.size
  · exact Or.inl (hg.trans (if_pos he))
  · rw [if_neg he] at hg
    rw [Database.isLive, hg] at hr
    exact Or.inr ⟨hr, hg⟩

theorem ModelsAll.addClause (h : p.ModelsAll a) (hc : Satisfies a c.lits) : (p.addClause c).2.ModelsAll a where
  fact := h.fact
  clause {r} hr := by
    rcases addClause_cases hr with he | ⟨hl, he⟩ <;> rw [he]
    · exact hc
    · exact h.clause hl

theorem Admits.of_addClause (h : (p.addClause c).2.Admits m) : p.Admits m where
  fact := h.fact
  clause {r} hr hn := by
    obtain ⟨hl, he⟩ := get_addClause_of_isLive (c := c) hr
    exact he ▸ h.clause hl (he.symm ▸ hn)

theorem Admits.meets_addClause (h : (p.addClause c).2.Admits m) (hd : c.deleted = false) (hn : c.learned = false) :
    m.Meets c.lits := by
  have he : (p.addClause c).2.clauses.get p.clauses.slots.size = c := Database.get_add.trans (if_pos rfl)
  have := h.clause (r := p.clauses.slots.size) (Database.isLive_iff.2 (he.symm ▸ hd)) (he.symm ▸ hn)
  rwa [he] at this

theorem Mentions.addClause {v : Var} (h : (p.addClause c).2.Mentions v) :
    p.Mentions v ∨ ∃ l ∈ c.lits, l.var = v := by
  rcases h with h | ⟨r, hr, l, hl, rfl⟩
  · exact Or.inl (Or.inl h)
  · rcases addClause_cases hr with he | ⟨hr', he⟩
    · exact Or.inr ⟨l, he ▸ hl, rfl⟩
    · exact Or.inl (Or.inr ⟨r, hr', l, he ▸ hl, rfl⟩)

theorem Mentions.grow {u : Trail} {v : Var} (h : { p with trail := u }.Mentions v) (g : Trail.Grows l p.trail u) :
    p.Mentions v ∨ l.var = v := by
  rcases h with h | h
  · rcases g.isAssigned_cases h with rfl | h
    · exact Or.inr rfl
    · exact Or.inl (Or.inl h)
  · exact Or.inl (Or.inr h)

theorem ModelsAll.grow {u : Trail} (h : p.ModelsAll a) (g : Trail.Grows l p.trail u)
    (hl : u.level l.var = 0 → l.Holds a) : { p with trail := u }.ModelsAll a where
  fact {k} hk := by
    rcases g.isTrue_iff.1 hk.1 with rfl | ht
    · exact hl hk.2
    · exact h.fact ⟨ht, (g.level_eq_of_isTrue ht).symm.trans hk.2⟩
  clause := h.clause

theorem Admits.of_grow {u : Trail} (h : { p with trail := u }.Admits m) (g : Trail.Grows l p.trail u) : p.Admits m where
  fact hk := h.fact ⟨g.isTrue_of hk.1, (g.level_eq_of_isTrue hk.1).trans hk.2⟩
  clause := h.clause

theorem ModelsAll.learn {t : Reason} (h : p.ModelsAll a) (hc : Satisfies a c.lits)
    (g : Trail.Grows l p.trail (p.trail.assign l t)) (hl : 0 < (p.trail.assign l t).level l.var) :
    ((p.addClause c).2.assign l t).ModelsAll a :=
  (h.addClause hc).grow g fun h0 => absurd h0 (Nat.ne_of_gt hl)

theorem Admits.of_learn {t : Reason} (h : ((p.addClause c).2.assign l t).Admits m)
    (g : Trail.Grows l p.trail (p.trail.assign l t)) : p.Admits m := by
  have h1 : (p.addClause c).2.Admits m := Admits.of_grow h g
  exact h1.of_addClause

end Propagator

end ClauseLearning
