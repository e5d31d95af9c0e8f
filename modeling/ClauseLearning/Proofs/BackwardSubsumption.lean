import ClauseLearning.Proofs.Session

/-!
# Backward subsumption misses nothing

A clause is used against the clauses that share its rarest variable, and these are all that it can subsume or
strengthen.

* `Strengthens`, `Related` : what a clause can do to another one;
* `relate_subsumed_iff`, `relate_strengthened_iff` : the relation that is found is the one that holds;
* `Derives`, `TakesDerived` : what becomes of a derived clause, and of the state that takes it;
* `SubsumptionPass.Used` : what the use of a clause does to a pass. One step does it (`Using.apply_used`), and all
  steps do (`Using.foldl_apply_used`), after which nothing is left to do among the clauses tried;
* `mem_partners_of_related` : the clauses tried are all that matter;
* `subsumption_exact` : when a clause was used, it can subsume and strengthen no other clause, and those that are gone
  are those that it subsumed or strengthened.
-/

namespace ClauseLearning

/-! ## Relations between clauses -/

/-- A clause strengthens another one that has the opposite of one of its literals, `l`, and all its others. -/
structure Strengthens (c d : List Lit) (l : Lit) : Prop where
  mem : l ∈ d
  neg_mem : -l ∈ c
  subset {k : Lit} : k ∈ c → k ≠ -l → k ∈ d

/-- A clause subsumes or strengthens another one. -/
def Related (c d : List Lit) : Prop := c ⊆ d ∨ ∃ l, Strengthens c d l

section Relations

variable {c d : List Lit} {l k : Lit} {marks : Marks}

theorem Related.mem_or_neg_mem (h : Related c d) (hl : l ∈ c) : l ∈ d ∨ -l ∈ d := by
  obtain hs | ⟨k, hs⟩ := h
  · exact Or.inl (hs hl)
  · by_cases hk : l = -k
    · rw [hk, Lit.neg_neg]
      exact Or.inr hs.mem
    · exact Or.inl (hs.subset hl hk)

theorem Related.length_le (h : Related c d) (hc : (c.map Lit.var).Nodup) : c.length ≤ d.length := by
  have hsub : (c.map Lit.var).Subperm (d.map Lit.var) := by
    refine List.subperm_of_subset hc fun v hv => ?_
    obtain ⟨l, hl, rfl⟩ := List.mem_map.1 hv
    rcases h.mem_or_neg_mem hl with hl | hl
    · exact List.mem_map_of_mem hl
    · exact Lit.var_neg l ▸ List.mem_map_of_mem hl
  simpa using hsub.length_le

theorem not_related_of_var (hl : l ∈ c) (hv : ∀ k ∈ d, k.var ≠ l.var) : ¬ Related c d := by
  intro h
  rcases h.mem_or_neg_mem hl with hd | hd
  · exact hv l hd rfl
  · exact hv (-l) hd (Lit.var_neg l)

theorem matchMarked_append (marks : Marks) (before after : List Lit) (count : Nat) (negated : Option Lit)
    (h : ∀ l ∈ before, marks.has l.code ∨ ¬ marks.has (-l).code) : matchMarked marks (before ++ after) count negated =
      matchMarked marks after (count + (before.filter fun l => marks.has l.code).length) negated := by
  induction before generalizing count with
  | nil => rfl
  | cons l before ih =>
    have ih := fun count => ih count fun k hk => h k (List.mem_cons_of_mem l hk)
    rw [List.cons_append, matchMarked.eq_def marks (l :: _), List.filter_cons]
    dsimp only
    by_cases hl : marks.has l.code
    · rw [if_pos hl, if_pos hl, ih, List.length_cons, Nat.add_assoc, Nat.add_comm 1]
    · have hn := (h l List.mem_cons_self).resolve_left hl
      rw [if_neg hl, if_neg hl, if_neg hn, ih]

variable (hm : ∀ l : Lit, marks.has l.code ↔ l ∈ c) (hc : (c.map Lit.var).Nodup) (hd : (d.map Lit.var).Nodup)
include hm hc hd

theorem relate_of_subset (h : c ⊆ d) : relate marks c.length d = .subsumed := by
  have hperm : (d.filter fun l => marks.has l.code).Perm c := by
    refine (List.perm_ext_iff_of_nodup ((hd.of_map Lit.var).filter _) (hc.of_map Lit.var)).2 fun l => ?_
    rw [List.mem_filter, hm]
    exact ⟨And.right, fun hl => ⟨h hl, hl⟩⟩
  have hnone : ∀ l ∈ d, marks.has l.code ∨ ¬ marks.has (-l).code := by
    intro l hl
    rw [hm (-l)]
    exact Or.inr fun hn => neg_not_mem hd hl (h hn)
  have hmatch := matchMarked_append marks d [] 0 none hnone
  rw [List.append_nil, hperm.length_eq, Nat.zero_add] at hmatch
  rw [relate, hmatch]
  exact if_pos rfl

theorem relate_of_strengthens (h : Strengthens c d l) : relate marks c.length d = .strengthened l := by
  have hlc : l ∉ c := fun hl => neg_not_mem hc hl h.neg_mem
  have hperm : (-l :: d.filter fun k => marks.has k.code).Perm c := by
    have hnot : -l ∉ d.filter fun k => marks.has k.code := fun hn => neg_not_mem hd h.mem (List.mem_filter.1 hn).1
    refine (List.perm_ext_iff_of_nodup (List.nodup_cons.2 ⟨hnot, (hd.of_map Lit.var).filter _⟩)
      (hc.of_map Lit.var)).2 fun k => ?_
    rw [List.mem_cons, List.mem_filter, hm]
    constructor
    · rintro (rfl | ⟨-, hk⟩)
      · exact h.neg_mem
      · exact hk
    · intro hk
      by_cases hkl : k = -l
      · exact Or.inl hkl
      · exact Or.inr ⟨h.subset hk hkl, hk⟩
  -- the literal is the only one whose opposite is marked
  have hnone : ∀ k ∈ d, k ≠ l → marks.has k.code ∨ ¬ marks.has (-k).code := by
    intro k hk hkl
    rw [hm (-k)]
    exact Or.inr fun hn => neg_not_mem hd hk (h.subset hn fun he => hkl (Lit.neg_inj.1 he))
  obtain ⟨before, after, rfl⟩ := List.append_of_mem h.mem
  have hnodup := hd.of_map Lit.var
  rw [List.nodup_append] at hnodup
  obtain ⟨-, hafter, hbefore⟩ := hnodup
  have h1 := matchMarked_append marks before (l :: after) 0 none fun k hk =>
    hnone k (List.mem_append_left _ hk) (hbefore k hk l List.mem_cons_self)
  have h2 := fun count => matchMarked_append marks after [] count (some l) fun k hk =>
    hnone k (List.mem_append_right _ (List.mem_cons_of_mem l hk)) fun he =>
      (List.nodup_cons.1 hafter).1 (he ▸ hk)
  have hlen := hperm.length_eq
  rw [List.length_cons, List.filter_append, List.filter_cons, if_neg (mt (hm l).1 hlc), List.length_append] at hlen
  rw [relate, h1, matchMarked, if_neg (mt (hm l).1 hlc), if_pos ((hm (-l)).2 h.neg_mem)]
  have h3 := h2 (0 + (before.filter fun k => marks.has k.code).length)
  rw [List.append_nil] at h3
  rw [h3, matchMarked]
  exact if_pos (by omega)

theorem relate_subsumed_iff : relate marks c.length d = .subsumed ↔ c ⊆ d :=
  ⟨fun h _ hl => relate_subsumed hm hd h _ hl, relate_of_subset hm hc hd⟩

theorem relate_strengthened_iff : relate marks c.length d = .strengthened l ↔ Strengthens c d l := by
  refine ⟨fun h => ?_, relate_of_strengthens hm hc hd⟩
  obtain ⟨hmem, -, hsub⟩ := relate_strengthened hm hd h
  refine ⟨hmem, ?_, fun hk hkl => (hsub _ hk).resolve_left hkl⟩
  -- without the opposite literal the clause would be subsumed
  by_contra hn
  have hs := relate_of_subset hm hc hd fun k hk => (hsub k hk).resolve_left fun he => hn (he ▸ hk)
  rw [hs] at h
  cases h

theorem relate_unrelated_iff : relate marks c.length d = .unrelated ↔ ¬ Related c d := by
  cases h : relate marks c.length d with
  | unrelated =>
    refine iff_of_true rfl ?_
    rintro (hs | ⟨l, hs⟩)
    · rw [relate_of_subset hm hc hd hs] at h
      cases h
    · rw [relate_of_strengthens hm hc hd hs] at h
      cases h
  | subsumed => exact iff_of_false (by simp) (not_not_intro (Or.inl ((relate_subsumed_iff hm hc hd).1 h)))
  | strengthened l =>
    exact iff_of_false (by simp) (not_not_intro (Or.inr ⟨l, (relate_strengthened_iff hm hc hd).1 h⟩))

end Relations

/-! ## Derived clauses -/

/-- What became of a clause that was derived under a trail. It was satisfied then, or it is there but for the literals
that were false then: as a contradiction, as a fact, or as a clause under a new reference. -/
inductive Derives (n : ClauseRef) (t : Trail) (ls : List Lit) (s : Solver) : Prop
  | satisfied {l : Lit} : l ∈ ls → t.isTrue l → Derives n t ls s
  | empty : (ls.filter fun l => !t.isFalse l) = [] → s.status = .unsat → Derives n t ls s
  | fact {l : Lit} : (ls.filter fun l => !t.isFalse l) = [l] → s.prop.trail.isTrue l → Derives n t ls s
  | clause {r : ClauseRef} : n ≤ r → s.prop.clauses.isLive r → (s.prop.clauses.get r).learned = false →
    (s.prop.clauses.get r).lits = (ls.filter fun l => !t.isFalse l) → Derives n t ls s

namespace SubsumptionPass

open Solver (Extends)

variable {s s' s'' : Solver} {o : Occurrences} {p : SubsumptionPass} {ref other r : ClauseRef} {c ls : List Lit}
  {m : Marks} {n : Nat} {t u : Trail}

/-- A clause was deleted because `c` subsumes it, or replaced because `c` strengthens it. -/
def Superseded (n : ClauseRef) (c ls : List Lit) (s s' : Solver) : Prop :=
  c ⊆ ls ∨ ∃ l t, Strengthens c ls l ∧ Extends s.prop.trail t ∧ Extends t s'.prop.trail ∧
    Derives n t (ls.filter (· != l)) s'

/-- What the use of the clause `ref`, of literals `c`, does. New clauses do not have one of its variables. Just
irredundant clauses with references below `n` are deleted, when they are superseded. -/
structure Used (n ref : ClauseRef) (c : List Lit) (s s' : Solver) : Prop where
  extend : Extends s.prop.trail s'.prop.trail
  unsat : s.status = .unsat → s'.status = .unsat
  size_le : s.prop.clauses.slots.size ≤ s'.prop.clauses.slots.size
  descends {r : ClauseRef} : s'.prop.clauses.isLive r →
    s.prop.clauses.isLive r ∧ s'.prop.clauses.get r = s.prop.clauses.get r ∨
      s.prop.clauses.slots.size ≤ r ∧ ∃ l ∈ c, ∀ k ∈ (s'.prop.clauses.get r).lits, k.var ≠ l.var
  gone {r : ClauseRef} : s.prop.clauses.isLive r → ¬ s'.prop.clauses.isLive r →
    r < n ∧ r ≠ ref ∧ (s.prop.clauses.get r).learned = false ∧ Superseded n c (s.prop.clauses.get r).lits s s'

theorem Used.refl (n ref : ClauseRef) (c : List Lit) (s : Solver) : Used n ref c s s :=
  ⟨Extends.refl _, id, Nat.le_refl _, fun hr => Or.inl ⟨hr, rfl⟩, fun hr hn => absurd hr hn⟩

theorem Used.get_eq (h : Used n ref c s s') (hr : s.prop.clauses.isLive r) (hr' : s'.prop.clauses.isLive r) :
    s'.prop.clauses.get r = s.prop.clauses.get r := by
  rcases h.descends hr' with ⟨-, hg⟩ | ⟨hge, -⟩
  · exact hg
  · exact absurd (Database.lt_of_isLive hr) (Nat.not_lt.2 hge)

theorem Derives.used (hd : Derives n t ls s) (h : Used n ref c s s') : Derives n t ls s' := by
  cases hd with
  | satisfied hl ht => exact .satisfied hl ht
  | empty he hs => exact .empty he (h.unsat hs)
  | fact he hl => exact .fact he (h.extend _ hl).1
  | @clause r hn hr hl he =>
    have hr' : s'.prop.clauses.isLive r := by
      by_contra hgone
      exact absurd (h.gone hr hgone).1 (Nat.not_lt.2 hn)
    have hg := h.get_eq hr hr'
    exact .clause hn hr' (hg ▸ hl) (hg ▸ he)

theorem Used.trans (h : Used n ref c s s') (h' : Used n ref c s' s'') : Used n ref c s s'' where
  extend := h.extend.trans h'.extend
  unsat hs := h'.unsat (h.unsat hs)
  size_le := Nat.le_trans h.size_le h'.size_le
  descends {r} hr := by
    rcases h'.descends hr with ⟨hr', hg'⟩ | ⟨hge, hv⟩
    · rw [hg']
      exact h.descends hr'
    · exact Or.inr ⟨Nat.le_trans h.size_le hge, hv⟩
  gone {r} hr hr'' := by
    by_cases hr' : s'.prop.clauses.isLive r
    · have hg := h.get_eq hr hr'
      obtain ⟨hlt, hne, hl, hs⟩ := h'.gone hr' hr''
      rw [hg] at hl hs
      refine ⟨hlt, hne, hl, hs.imp_right ?_⟩
      rintro ⟨l, t, hst, h1, h2, hd⟩
      exact ⟨l, t, hst, h.extend.trans h1, h2, hd⟩
    · obtain ⟨hlt, hne, hl, hs⟩ := h.gone hr hr'
      refine ⟨hlt, hne, hl, hs.imp_right ?_⟩
      rintro ⟨l, t, hst, h1, h2, hd⟩
      exact ⟨l, t, hst, h1, h2.trans h'.extend, Derives.used hd h'⟩

/-- A clause can no longer be subsumed or strengthened by `c`, or it does not matter. -/
def Spared (c : List Lit) (s : Solver) (r : ClauseRef) : Prop :=
  s.status = .unsat ∨ (s.prop.clauses.isLive r → ¬ Related c (s.prop.clauses.get r).lits)

theorem Used.spared (h : Used n ref c s s') (hr : r < s.prop.clauses.slots.size) (hs : Spared c s r) :
    Spared c s' r := by
  refine hs.imp h.unsat fun hs hlive => ?_
  rcases h.descends hlive with ⟨hlive, hg⟩ | ⟨hge, -⟩
  · rw [hg]
    exact hs hlive
  · exact absurd hr (Nat.not_lt.2 hge)

/-! ## One step -/

/-- A derived clause is dropped, or it goes to the state but for its false literals. Nothing else changes. -/
structure TakesDerived (n : ClauseRef) (ls : List Lit) (s s' : Solver) : Prop where
  derives : Derives n s.prop.trail ls s'
  extend : Extends s.prop.trail s'.prop.trail
  unsat : s.status = .unsat → s'.status = .unsat
  size_le : s.prop.clauses.slots.size ≤ s'.prop.clauses.slots.size
  isLive {r : ClauseRef} : s.prop.clauses.isLive r → s'.prop.clauses.isLive r
  descends {r : ClauseRef} : s'.prop.clauses.isLive r →
    s.prop.clauses.isLive r ∧ s'.prop.clauses.get r = s.prop.clauses.get r ∨
      s.prop.clauses.slots.size ≤ r ∧ ∀ k ∈ (s'.prop.clauses.get r).lits, k ∈ ls

theorem takesDerived_addDerived (h : s.Sound) (ls : List Lit) (hi : ∀ l ∈ ls, l.var.index < s.varCount)
    (hn : n ≤ s.prop.clauses.slots.size) : TakesDerived n ls s (s.addDerived o ls).2 := by
  unfold Solver.addDerived
  split
  · next ht =>
    obtain ⟨l, hl, ht⟩ := List.any_eq_true.1 ht
    exact ⟨.satisfied hl ht, Extends.refl _, id, Nat.le_refl _, id, fun hr => Or.inl ⟨hr, rfl⟩⟩
  · next hnone =>
    have hnone : ∀ l ∈ ls, ¬ s.prop.trail.isTrue l := fun l hl ht => hnone (List.any_eq_true.2 ⟨l, hl, ht⟩)
    split
    · next hks =>
      exact ⟨.empty hks rfl, Extends.refl _, fun _ => rfl, Nat.le_refl _, id, fun hr => Or.inl ⟨hr, rfl⟩⟩
    · next l hks =>
      obtain ⟨hl, hu⟩ := Solver.not_isAssigned_of_mem hks hnone List.mem_cons_self
      have g := h.prop.trail.grows_assign (r := .unit) (hi l hl) hu
      exact ⟨.fact hks (g.isTrue_iff.2 (Or.inl rfl)), Extends.of_grows g, id, Nat.le_refl _, id,
        fun hr => Or.inl ⟨hr, rfl⟩⟩
    · next a b rest hks =>
      dsimp only
      have hget : (s.prop.addClause { first := a, second := b, others := rest }).2.clauses.get
          s.prop.clauses.slots.size = { first := a, second := b, others := rest } :=
        Database.get_add.trans (if_pos rfl)
      have hlive : (s.prop.addClause { first := a, second := b, others := rest }).2.clauses.isLive
          s.prop.clauses.slots.size := Database.isLive_iff.2 (congrArg Clause.deleted hget)
      refine ⟨.clause hn hlive (congrArg Clause.learned hget) ((congrArg Clause.lits hget).trans hks.symm),
        Extends.refl _, id, ?_, fun hr => (Propagator.get_addClause_of_isLive hr).1, fun {r} hr => ?_⟩
      · exact Nat.le_trans (Nat.le_succ _) (Nat.le_of_eq Database.size_add.symm)
      · by_cases hr' : r = s.prop.clauses.slots.size
        · subst hr'
          refine Or.inr ⟨Nat.le_refl _, fun k hk => ?_⟩
          rw [hget] at hk
          change k ∈ a :: b :: rest at hk
          rw [← hks] at hk
          exact (List.mem_filter.1 hk).1
        · have hold : (s.prop.addClause { first := a, second := b, others := rest }).2.clauses.get r =
              s.prop.clauses.get r := Database.get_add.trans (if_neg hr')
          refine Or.inl ⟨?_, hold⟩
          rw [Database.isLive, hold] at hr
          exact hr

theorem used_delete (hr : other < n) (hne : other ≠ ref) (hl : (s.prop.clauses.get other).learned = false)
    (hs : c ⊆ (s.prop.clauses.get other).lits) : Used n ref c s (s.withClauses (s.prop.clauses.delete other)) where
  extend := Extends.refl _
  unsat := id
  size_le := Nat.le_of_eq Database.size_delete.symm
  descends {r} hr := by
    obtain ⟨hr, hne⟩ := Database.isLive_delete.1 hr
    exact Or.inl ⟨hr, Database.get_delete_ne hne⟩
  gone {r} hlive hgone := by
    obtain rfl : r = other := by
      by_contra hne
      exact hgone (Database.isLive_delete.2 ⟨hlive, hne⟩)
    exact ⟨hr, hne, hl, Or.inl hs⟩

theorem used_strengthen {l : Lit} (h : s.Sound) (he : s.prop.watches.enabled = false)
    (hn : n ≤ s.prop.clauses.slots.size) (hr : other < n) (hne : other ≠ ref) (hlive : s.prop.clauses.isLive other)
    (hl : (s.prop.clauses.get other).learned = false) (hs : Strengthens c (s.prop.clauses.get other).lits l) :
    Used n ref c s ((s.withClauses (s.prop.clauses.delete other)).addDerived o
        ((s.prop.clauses.get other).lits.filter (· != l))).2 ∧
      ¬ ((s.withClauses (s.prop.clauses.delete other)).addDerived o
        ((s.prop.clauses.get other).lits.filter (· != l))).2.prop.clauses.isLive other := by
  have hfit := h.prop.fits hlive
  have ht := Database.Thinned.delete s.prop.clauses other
  have hlt : n ≤ (s.prop.clauses.delete other).slots.size := Nat.le_trans hn (Nat.le_of_eq Database.size_delete.symm)
  have htaken := takesDerived_addDerived (o := o) (h.thin ht he)
    ((s.prop.clauses.get other).lits.filter (· != l)) (fun k hk => hfit.index_lt (List.mem_filter.1 hk).1) hlt
  generalize Solver.addDerived _ _ _ = out at htaken
  refine ⟨⟨htaken.extend, htaken.unsat, Nat.le_trans (Nat.le_of_eq Database.size_delete.symm) htaken.size_le,
    fun {r} hr => ?_, fun {r} hr hgone => ?_⟩, fun hstays => ?_⟩
  · rcases htaken.descends hr with ⟨hr', hg⟩ | ⟨hge, hsub⟩
    · obtain ⟨hr', hne⟩ := Database.isLive_delete.1 hr'
      exact Or.inl ⟨hr', hg.trans (Database.get_delete_ne hne)⟩
    · refine Or.inr ⟨Nat.le_trans (Nat.le_of_eq Database.size_delete.symm) hge, -l, hs.neg_mem, fun k hk hv => ?_⟩
      obtain ⟨hk, hkl⟩ := List.mem_filter.1 (hsub k hk)
      exact bne_iff_ne.1 hkl (List.inj_on_of_nodup_map hfit.nodup hk hs.mem (hv.trans (Lit.var_neg l)))
  · obtain rfl : r = other := by
      by_contra hne
      exact hgone (htaken.isLive (Database.isLive_delete.2 ⟨hr, hne⟩))
    exact ⟨‹_›, hne, hl, Or.inr ⟨l, s.prop.trail, hs, Extends.refl _, htaken.extend, htaken.derives⟩⟩
  · rcases htaken.descends hstays with ⟨hstays, -⟩ | ⟨hge, -⟩
    · exact (Database.isLive_delete.1 hstays).2 rfl
    · exact Nat.lt_irrefl n (Nat.lt_of_le_of_lt (Nat.le_trans hlt hge) hr)

/-- What one step does, and that it leaves nothing to do for the clause that it looks at. -/
theorem Using.apply_used (h : Using s o m ref c p) (hm : ∀ l : Lit, m.has l.code ↔ l ∈ c)
    (hn : n ≤ p.solver.prop.clauses.slots.size) (hr : other < n)
    (ho : p.solver.prop.clauses.isLive other → (p.solver.prop.clauses.get other).learned = false) :
    Used n ref c p.solver (SubsumptionPass.apply c.length ref p other).solver ∧
      (other ≠ ref → Spared c (SubsumptionPass.apply c.length ref p other).solver other) := by
  have hc : (c.map Lit.var).Nodup := h.lits_eq ▸ (h.sound.prop.fits h.isLive).nodup
  unfold SubsumptionPass.apply
  dsimp only
  split
  · next hskip =>
    refine ⟨Used.refl .., fun hne => ?_⟩
    rcases hskip with hs | hs | hs | hs
    · exact Or.inl hs
    · exact absurd hs hne
    · exact Or.inr fun hlive => absurd hs (Bool.eq_false_iff.1 (Database.isLive_iff.1 hlive))
    · exact Or.inr fun _ hrel => absurd (hrel.length_le hc) (Nat.not_le.2 hs)
  · next hgo =>
    rw [not_or, not_or, not_or] at hgo
    obtain ⟨-, hne, hd, -⟩ := hgo
    have hlive : p.solver.prop.clauses.isLive other := Database.isLive_iff.2 (Bool.eq_false_iff.2 hd)
    have hv := (h.sound.prop.fits hlive).nodup
    rw [h.marks]
    cases hrel : relate m c.length (p.solver.prop.clauses.get other).lits with
    | unrelated => exact ⟨Used.refl .., fun _ => Or.inr fun _ => (relate_unrelated_iff hm hc hv).1 hrel⟩
    | subsumed =>
      refine ⟨used_delete hr hne (ho hlive) ((relate_subsumed_iff hm hc hv).1 hrel), fun _ => Or.inr fun hstays => ?_⟩
      exact absurd rfl (Database.isLive_delete.1 hstays).2
    | strengthened l =>
      have hs := (relate_strengthened_iff hm hc hv).1 hrel
      obtain ⟨hu, hgone⟩ := used_strengthen (o := p.occurrences) h.sound h.disabled hn hr hne hlive (ho hlive) hs
      exact ⟨hu, fun _ => Or.inr fun hstays => absurd hstays hgone⟩

/-! ## All steps -/

/-- What all steps do, and that they leave nothing to do for the clauses that they look at. -/
theorem Using.foldl_apply_used (h : Using s o m ref c p) (hm : ∀ l : Lit, m.has l.code ↔ l ∈ c)
    (hn : n ≤ p.solver.prop.clauses.slots.size) (rs : List ClauseRef) (hr : ∀ r ∈ rs, r < n ∧ ∃ l, r ∈ o.of l) :
    Used n ref c p.solver (rs.foldl (SubsumptionPass.apply c.length ref) p).solver ∧
      ∀ r ∈ rs, r ≠ ref → Spared c (rs.foldl (SubsumptionPass.apply c.length ref) p).solver r := by
  induction rs generalizing p with
  | nil => exact ⟨Used.refl .., fun r hr => absurd hr List.not_mem_nil⟩
  | cons r rs ih =>
    obtain ⟨hlt, l, hl⟩ := hr r List.mem_cons_self
    have hirr : p.solver.prop.clauses.isLive r → (p.solver.prop.clauses.get r).learned = false :=
      fun hlive => ((h.exact.mem_iff hlive).1 (h.grown hl)).1
    obtain ⟨hstep, hspared⟩ := h.apply_used hm hn hlt hirr
    have hn' := Nat.le_trans hn hstep.size_le
    obtain ⟨hrest, hall⟩ := ih (h.apply hm hirr) hn' fun q hq => hr q (List.mem_cons_of_mem r hq)
    refine ⟨hstep.trans hrest, fun q hq hne => ?_⟩
    rcases List.mem_cons.1 hq with rfl | hq
    · exact hrest.spared (Nat.lt_of_lt_of_le hlt hn') (hspared hne)
    · exact hall q hq hne

theorem Used.of_eq (hp : s'.prop = s.prop) (hs : s'.status = s.status) : Used n ref c s s' where
  extend := by
    rw [hp]
    exact Extends.refl _
  unsat h := hs.trans h
  size_le := Nat.le_of_eq (by rw [hp])
  descends {r} hr := by
    rw [hp] at hr ⊢
    exact Or.inl ⟨hr, rfl⟩
  gone {r} hr hn := by
    rw [hp] at hn
    exact absurd hr hn

/-- A clause with literals is tried against all that it can subsume or strengthen. -/
theorem mem_partners_of_related {d : Database} (ho : o.Exact n d) (hc : c ≠ []) (hr : d.isLive r)
    (hl : (d.get r).learned = false) (h : Related c (d.get r).lits) : r ∈ partners o c := by
  unfold partners
  split
  · next l hmin =>
    rw [List.mem_append, ho.mem_iff hr, ho.mem_iff hr]
    exact (h.mem_or_neg_mem (mem_of_firstMin hmin)).imp (fun hm => ⟨hl, hm⟩) fun hm => ⟨hl, hm⟩
  · next hnone =>
    obtain ⟨l, c, rfl⟩ := List.exists_cons_of_ne_nil hc
    unfold firstMin? at hnone
    split at hnone
    · cases hnone
    · split at hnone <;> cases hnone

/-! ## A whole turn -/

/-- What the turn of a clause does. Afterwards it can subsume and strengthen no other irredundant clause, unless all is
over. What is gone was subsumed or strengthened by it. -/
structure Exhausted (ref : ClauseRef) (s s' : Solver) : Prop where
  isLive : s'.prop.clauses.isLive ref
  get_eq : s'.prop.clauses.get ref = s.prop.clauses.get ref
  unrelated : s'.status ≠ .unsat → ∀ r, s'.prop.clauses.isLive r → (s'.prop.clauses.get r).learned = false → r ≠ ref →
    ¬ Related (s.prop.clauses.get ref).lits (s'.prop.clauses.get r).lits
  superseded : ∀ r, s.prop.clauses.isLive r → ¬ s'.prop.clauses.isLive r → (s.prop.clauses.get r).learned = false ∧
    Superseded s.prop.clauses.slots.size (s.prop.clauses.get ref).lits (s.prop.clauses.get r).lits s s'

/-- The pass with the literals of a clause marked. -/
def marking (p : SubsumptionPass) (c : List Lit) : SubsumptionPass :=
  { p with solver := { p.solver with litMarks := p.solver.litMarks.markAll (c.map Lit.code) } }

theorem useClause_eq_foldl (hs : p.solver.status ≠ .unsat) (hl : p.solver.prop.clauses.isLive ref)
    (hc : (p.solver.prop.clauses.get ref).lits = c) :
    (p.useClause ref).solver.prop =
        ((partners p.occurrences c).foldl (SubsumptionPass.apply c.length ref) (p.marking c)).solver.prop ∧
      (p.useClause ref).solver.status =
        ((partners p.occurrences c).foldl (SubsumptionPass.apply c.length ref) (p.marking c)).solver.status := by
  have hgo : ¬ (p.solver.status = .unsat ∨ (p.solver.prop.clauses.get ref).deleted = true) :=
    not_or.2 ⟨hs, Bool.eq_false_iff.1 (Database.isLive_iff.1 hl)⟩
  have hsize : (p.solver.prop.clauses.get ref).size = c.length := congrArg List.length hc
  unfold SubsumptionPass.useClause
  dsimp only
  rw [if_neg hgo, hc, hsize]
  exact ⟨rfl, rfl⟩

theorem Valid.used_useClause (h : Valid s o p) (hm : p.solver.litMarks.Clear (2 * p.solver.varCount + 1))
    (hr : ∃ l, ref ∈ o.of l) (hs : p.solver.status ≠ .unsat) (hl : p.solver.prop.clauses.isLive ref)
    (hc : (p.solver.prop.clauses.get ref).lits = c) :
    Used p.solver.prop.clauses.slots.size ref c p.solver (p.useClause ref).solver ∧
      ∀ r ∈ partners p.occurrences c, r ≠ ref → Spared c (p.useClause ref).solver r := by
  obtain ⟨hmarks, hu⟩ := h.marked hm hl hr hc
  have hold : ∀ r ∈ partners p.occurrences c,
      r < p.solver.prop.clauses.slots.size ∧ ∃ l, r ∈ p.occurrences.of l := by
    intro r hr
    obtain ⟨l, hl⟩ := mem_partners hr
    exact ⟨h.exact.lt hl, l, hl⟩
  have hbegin : Used p.solver.prop.clauses.slots.size ref c p.solver (p.marking c).solver := Used.of_eq rfl rfl
  obtain ⟨hused, hspared⟩ := hu.foldl_apply_used hmarks hbegin.size_le _ hold
  obtain ⟨hprop, hstatus⟩ := useClause_eq_foldl hs hl hc
  refine ⟨(hbegin.trans hused).trans (Used.of_eq hprop hstatus), fun r hr hne => ?_⟩
  unfold Spared
  rw [hprop, hstatus]
  exact hspared r hr hne

theorem Valid.useClause_exhausted (h : Valid s o p) (hm : p.solver.litMarks.Clear (2 * p.solver.varCount + 1))
    (hr : ∃ l, ref ∈ o.of l) (hs : p.solver.status ≠ .unsat) (hl : p.solver.prop.clauses.isLive ref) :
    Exhausted ref p.solver (p.useClause ref).solver := by
  generalize hc : (p.solver.prop.clauses.get ref).lits = c
  have hne : c ≠ [] := hc ▸ List.cons_ne_nil _ _
  obtain ⟨hused, hspared⟩ := h.used_useClause hm hr hs hl hc
  have hstays : (p.useClause ref).solver.prop.clauses.isLive ref := by
    by_contra hgone
    exact (hused.gone hl hgone).2.1 rfl
  refine ⟨hstays, hused.get_eq hl hstays, fun hsat r hr hn hrne hrel => ?_, fun r hr hgone => ?_⟩
  · rw [hc] at hrel
    rcases hused.descends hr with ⟨hold, hg⟩ | ⟨-, l, hlc, hv⟩
    · have hpartner := mem_partners_of_related h.exact hne hold (hg ▸ hn) (hg ▸ hrel)
      exact (hspared r hpartner hrne).resolve_left hsat hr hrel
    · exact not_related_of_var hlc hv hrel
  · rw [hc]
    exact (hused.gone hr hgone).2.2

end SubsumptionPass

/-! ## All turns -/

namespace Solver

variable {s : Solver} {ref : ClauseRef} {p : SubsumptionPass}

/-- What a pass of subsumption begins with. -/
def subsumptionStart (s : Solver) : SubsumptionPass :=
  { solver := s.buildOccurrences.2, occurrences := s.buildOccurrences.1 }

/-- The states in which simplification comes to a clause that it may use against others. -/
inductive SubsumptionTurn (s : Solver) (ref : ClauseRef) (p : SubsumptionPass) : Prop
  | mk {s₁ : Solver} {before after : List ClauseRef} : s.settleFacts = (true, s₁) →
    s₁.subsumptionStart.solver.subsumptionCandidates = before ++ ref :: after →
      before.foldl SubsumptionPass.useClause s₁.subsumptionStart = p → SubsumptionTurn s ref p

theorem SubsumptionTurn.exhausted (h : s.Inv) (h0 : s.prop.trail.currentLevel = 0) (ht : s.SubsumptionTurn ref p)
    (hs : p.solver.status ≠ .unsat) (hl : p.solver.prop.clauses.isLive ref) :
    SubsumptionPass.Exhausted ref p.solver (p.useClause ref).solver := by
  obtain ⟨h1, hc, rfl⟩ := ht
  obtain ⟨hi, -, hidle⟩ := settled_spec h h0 h1
  obtain ⟨hi', hw, hen, hex⟩ := buildOccurrences_spec hi hidle
  rw [← hw.varCount_eq] at hex
  have hmem := fun r hr => mem_subsumptionCandidates (r := r) hi'.prop.listed hex (hc ▸ hr)
  obtain ⟨hvalid, hclear⟩ := SubsumptionPass.Valid.foldl_useClause (p := subsumptionStart _) _
    (fun r hr => hmem r (List.mem_append_left _ hr)) ⟨hi'.toSound, hen, hex, id, Rewritten.refl _, rfl, id⟩ hi'.litMarks
  exact hvalid.useClause_exhausted hclear (hmem ref (List.mem_append_right _ List.mem_cons_self)) hs hl

theorem subsumptionTurn_first (h1 : s.settleFacts.1 = true)
    (hc : s.settleFacts.2.subsumptionStart.solver.subsumptionCandidates.head? = some ref) :
    s.SubsumptionTurn ref s.settleFacts.2.subsumptionStart := by
  have hs₁ : s.settleFacts = (true, s.settleFacts.2) := by rw [← h1]
  obtain ⟨after, hafter⟩ := List.head?_eq_some_iff.1 hc
  exact .mk hs₁ (hafter.trans (List.nil_append _).symm) rfl

end Solver

/-- **Backward subsumption is exact and misses nothing.** Of two clauses that are no tautologies and have no
repetitions, the relation is found that holds. Simplification settles facts and then uses its candidates in turn. When
it used a clause, the clause can subsume and strengthen no other irredundant clause, unless a contradiction was found.
All clauses that are gone were subsumed by it, or were strengthened and replaced by their other literals, but for those
that were false, unless one of them was true. -/
theorem subsumption_exact (counting : Counting) :
    (∀ (marks : Marks) (c d : List Lit), c.Nodup → (∀ l ∈ c, -l ∉ c) → d.Nodup → (∀ l ∈ d, -l ∉ d) →
      (∀ l : Lit, marks.has l.code ↔ l ∈ c) →
        (relate marks c.length d = .subsumed ↔ c ⊆ d) ∧
        (∀ l, relate marks c.length d = .strengthened l ↔ Strengthens c d l) ∧
        (relate marks c.length d = .unrelated ↔ ¬ Related c d)) ∧
    (∀ s s₁ : Solver, s.settleFacts = (true, s₁) →
      (∃ event, s₁.subsume = (s₁.subsumptionStart.solver.subsumptionCandidates.foldl SubsumptionPass.useClause
        s₁.subsumptionStart).solver.report event) ∧
      ∀ before ref after, s₁.subsumptionStart.solver.subsumptionCandidates = before ++ ref :: after →
        s.SubsumptionTurn ref (before.foldl SubsumptionPass.useClause s₁.subsumptionStart)) ∧
    ∀ s f, Reachable counting s f → ∀ ref p, s.rewind.SubsumptionTurn ref p → p.solver.status ≠ .unsat →
      p.solver.prop.clauses.isLive ref → SubsumptionPass.Exhausted ref p.solver (p.useClause ref).solver := by
  refine ⟨fun marks c d hc htc hd htd hm => ?_, fun s s₁ hs => ⟨⟨_, rfl⟩, fun _ _ _ hc => .mk hs hc rfl⟩,
    fun s f h ref p ht hs hl => ?_⟩
  · have hc := nodup_vars hc htc
    have hd := nodup_vars hd htd
    exact ⟨relate_subsumed_iff hm hc hd, fun l => relate_strengthened_iff hm hc hd, relate_unrelated_iff hm hc hd⟩
  · exact ht.exhausted (Solver.rewind_searched h.inv).inv (Solver.currentLevel_rewind s) hs hl

/-- A clause of two literals, one that contains it, and one that contains it but for a literal that it has negated. -/
def overlap : List Call :=
  List.replicate 4 (.newVar none true) ++
    [.addClause [⟨0⟩, ⟨2⟩], .addClause [⟨0⟩, ⟨2⟩, ⟨4⟩], .addClause [⟨1⟩, ⟨2⟩, ⟨6⟩]]

def overlapSolver : Solver := Call.runAll (Solver.start .words .stable) overlap

/-- The third literal of a clause is the opposite of a marked one. The first clause of a formula supersedes the other
two, and what it strengthens is stored as a fourth one. -/
theorem subsumption_exact_overlap :
    relate ((({} : Marks).extend 8).markAll [0, 3, 4]) 3 [⟨6⟩, ⟨5⟩, ⟨3⟩, ⟨0⟩] = .strengthened ⟨5⟩ ∧
      SubsumptionPass.Exhausted 0 overlapSolver.rewind.settleFacts.2.subsumptionStart.solver
        (overlapSolver.rewind.settleFacts.2.subsumptionStart.useClause 0).solver ∧
      (overlapSolver.rewind.settleFacts.2.subsumptionStart.useClause 0).solver.prop.clauses.live = [0, 3] := by
  obtain ⟨hrelate, -, hturn⟩ := subsumption_exact .words
  have hmarks : ∀ l : Lit, ((({} : Marks).extend 8).markAll [0, 3, 4]).has l.code ↔
      l ∈ ([⟨0⟩, ⟨3⟩, ⟨4⟩] : List Lit) := by
    rintro ⟨code⟩
    rw [Marks.has_markAll (by decide), (Marks.clear_empty.extend 8).has_eq]
    simp
  obtain ⟨-, hstrengthened, -⟩ := hrelate _ [⟨0⟩, ⟨3⟩, ⟨4⟩] [⟨6⟩, ⟨5⟩, ⟨3⟩, ⟨0⟩] (by decide) (by decide) (by decide)
    (by decide) hmarks
  have ht : overlapSolver.rewind.SubsumptionTurn 0 overlapSolver.rewind.settleFacts.2.subsumptionStart :=
    Solver.subsumptionTurn_first (by decide +kernel) (by decide +kernel)
  refine ⟨(hstrengthened ⟨5⟩).2 ⟨by decide, by decide, by decide⟩, ?_, by decide +kernel⟩
  exact hturn _ _ ((Reachable.start .stable).runAll overlap) _ _ ht (by decide +kernel) (by decide +kernel)

end ClauseLearning
