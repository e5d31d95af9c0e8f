import Mathlib.Data.List.Perm.Subperm
import ClauseLearning.Simplification.Subsumption
import ClauseLearning.Proofs.Occurrences
import ClauseLearning.Proofs.Sorting

/-!
# Subsumption and strengthening keep the models

* `matchMarked_spec`, `relate_subsumed`, `relate_strengthened` : what the relations between clauses mean, in literals;
* `SubsumptionPass.Using` : the state while one clause is used against the others;
* `Solver.subsume_spec` : removed clauses contain another one, and strengthened clauses are resolvents. No variable is
  eliminated or mentioned anew.
-/

namespace ClauseLearning

/-! ## Relations between clauses -/

section Relate

variable {marks : Marks} {c ls : List Lit} {l : Lit}

/-- Counting finds the marked literals, and the one whose opposite is marked. -/
theorem matchMarked_spec (marks : Marks) (ls : List Lit) (count : Nat) (negated : Option Lit) {out : Nat × Option Lit}
    (h : matchMarked marks ls count negated = some out) :
    out.1 = count + (ls.filter fun l => marks.has l.code).length ∧
      (out.2 = negated ∨ ∃ l ∈ ls, out.2 = some l ∧ ¬ marks.has l.code ∧ marks.has (-l).code) := by
  induction ls generalizing count negated with
  | nil =>
    obtain rfl := Option.some.inj h
    exact ⟨rfl, Or.inl rfl⟩
  | cons l ls ih =>
    unfold matchMarked at h
    by_cases hl : marks.has l.code
    · rw [if_pos hl] at h
      obtain ⟨h1, h2⟩ := ih _ _ h
      refine ⟨?_, h2.imp_right fun ⟨k, hk, hk'⟩ => ⟨k, List.mem_cons_of_mem l hk, hk'⟩⟩
      rw [h1, List.filter_cons, if_pos hl, List.length_cons]
      omega
    · rw [if_neg hl] at h
      rw [List.filter_cons, if_neg hl]
      by_cases hn : marks.has (-l).code
      · rw [if_pos hn] at h
        cases negated with
        | some k => cases h
        | none =>
          obtain ⟨h1, h2⟩ := ih _ _ h
          refine ⟨h1, Or.inr ?_⟩
          rcases h2 with h2 | ⟨k, hk, hk'⟩
          · exact ⟨l, List.mem_cons_self, h2, hl, hn⟩
          · exact ⟨k, List.mem_cons_of_mem l hk, hk'⟩
      · rw [if_neg hn] at h
        obtain ⟨h1, h2⟩ := ih _ _ h
        exact ⟨h1, h2.imp_right fun ⟨k, hk, hk'⟩ => ⟨k, List.mem_cons_of_mem l hk, hk'⟩⟩

variable (hm : ∀ l : Lit, marks.has l.code ↔ l ∈ c) (hv : (ls.map Lit.var).Nodup)
include hm hv

theorem relate_subsumed (h : relate marks c.length ls = .subsumed) : ∀ l ∈ c, l ∈ ls := by
  unfold relate at h
  split at h
  · next count hs =>
    split at h
    · next hc =>
      obtain ⟨h1, -⟩ := matchMarked_spec marks ls 0 none hs
      have hsub : (ls.filter fun l => marks.has l.code).Subperm c :=
        List.subperm_of_subset ((List.Nodup.of_map _ hv).filter _) fun l hl => (hm l).1 (List.mem_filter.1 hl).2
      have hp := hsub.perm_of_length_le (by omega)
      exact fun l hl => (List.mem_filter.1 (hp.mem_iff.2 hl)).1
    · cases h
  · split at h <;> cases h
  · cases h

theorem relate_strengthened (h : relate marks c.length ls = .strengthened l) :
    l ∈ ls ∧ l ∉ c ∧ ∀ k ∈ c, k = -l ∨ k ∈ ls := by
  unfold relate at h
  split at h
  · split at h <;> cases h
  · next count k hs =>
    split at h
    · next hc =>
      obtain rfl := Relation.strengthened.inj h
      obtain ⟨h1, h2⟩ := matchMarked_spec marks ls 0 none hs
      obtain ⟨k', hk, he, hn, hneg⟩ := h2.resolve_left (by rintro ⟨⟩)
      obtain rfl := Option.some.inj he
      have hnot : -k ∉ ls.filter fun l => marks.has l.code := by
        intro hmem
        have := List.inj_on_of_nodup_map hv (List.mem_filter.1 hmem).1 hk (Lit.var_neg k)
        exact Lit.neg_ne k this
      have hsub : (-k :: ls.filter fun l => marks.has l.code).Subperm c := by
        refine List.subperm_of_subset (List.nodup_cons.2 ⟨hnot, (List.Nodup.of_map _ hv).filter _⟩) ?_
        intro l hl
        rcases List.mem_cons.1 hl with rfl | hl
        · exact (hm _).1 hneg
        · exact (hm l).1 (List.mem_filter.1 hl).2
      have hp := hsub.perm_of_length_le (by
        rw [List.length_cons]
        change count = _ at h1
        omega)
      refine ⟨hk, fun hkc => hn ((hm k).2 hkc), ?_⟩
      intro l hl
      rcases List.mem_cons.1 (hp.mem_iff.2 hl) with rfl | hl
      · exact Or.inl rfl
      · exact Or.inr (List.mem_filter.1 hl).1
    · cases h
  · cases h

omit hm hv in
theorem satisfies_strengthened {a : Assignment} (hl : l ∉ c) (hs : ∀ k ∈ c, k = -l ∨ k ∈ ls) (hc : Satisfies a c)
    (ho : Satisfies a ls) : Satisfies a (ls.filter (· != l)) := by
  obtain ⟨k, hk, hka⟩ := ho
  by_cases hkl : k = l
  · obtain ⟨j, hj, hja⟩ := hc
    rcases hs j hj with rfl | hjl
    · exact absurd (hkl ▸ hka) (Lit.holds_neg.1 hja)
    · refine ⟨j, List.mem_filter.2 ⟨hjl, ?_⟩, hja⟩
      exact bne_iff_ne.2 fun h => hl (h ▸ hj)
  · exact ⟨k, List.mem_filter.2 ⟨hk, bne_iff_ne.2 hkl⟩, hka⟩

end Relate

namespace SubsumptionPass

open Solver (Rewritten)

variable {s : Solver} {o : Occurrences} {p : SubsumptionPass} {ref other : ClauseRef} {ls : List Lit}

/-- The state of a pass that began with `s` and `o`. -/
structure Valid (s : Solver) (o : Occurrences) (p : SubsumptionPass) : Prop where
  sound : p.solver.Sound
  disabled : p.solver.prop.watches.enabled = false
  exact : p.occurrences.Exact p.solver.varCount p.solver.prop.clauses
  grown {r : ClauseRef} {l : Lit} : r ∈ o.of l → r ∈ p.occurrences.of l
  rewritten : Rewritten s p.solver
  vars_eq : p.solver.vars = s.vars
  mentions {v : Var} : p.solver.prop.Mentions v → s.prop.Mentions v

/-- While a clause of the literals `ls` is used, it stays as it is and its literals are marked. -/
structure Using (s : Solver) (o : Occurrences) (m : Marks) (ref : ClauseRef) (ls : List Lit)
    (p : SubsumptionPass) : Prop extends Valid s o p where
  marks : p.solver.litMarks = m
  isLive : p.solver.prop.clauses.isLive ref
  lits_eq : (p.solver.prop.clauses.get ref).lits = ls
  learned_eq : (p.solver.prop.clauses.get ref).learned = false

variable {m : Marks} (h : Using s o m ref ls p)
include h

theorem Using.meets {d : Database} {a : PartialAssignment} (ht : Database.Thinned p.solver.prop.clauses d)
    (hl : d.isLive ref) (ha : (p.solver.withClauses d).Admits a) : a.Meets ls := by
  have := ha.2.clause (r := ref) hl ((ht.learned_eq hl).trans h.learned_eq)
  change a.Meets (d.get ref).lits at this
  rwa [ht.lits_eq hl, h.lits_eq] at this

theorem Using.remove (hne : other ≠ ref) (hs : ∀ l ∈ ls, l ∈ (p.solver.prop.clauses.get other).lits) :
    Using s o m ref ls { p with
      solver := p.solver.withClauses (p.solver.prop.clauses.delete other)
      count := { p.count with removed := p.count.removed + 1 } } := by
  have ht := Database.Thinned.delete p.solver.prop.clauses other
  have hl : (p.solver.prop.clauses.delete other).isLive ref := Database.isLive_delete.2 ⟨h.isLive, hne.symm⟩
  exact
    { sound := h.sound.thin ht h.disabled
      disabled := h.disabled
      exact := h.exact.thinned ht
      grown := h.grown
      rewritten := h.rewritten.trans ⟨⟨fun ha => ha.thin ht, [], rfl, fun _ ha =>
        ha.of_delete ((h.meets ht hl ha).mono hs)⟩, rfl, rfl, rfl, rfl, id, id, id⟩
      vars_eq := h.vars_eq
      mentions := fun hv => h.mentions (hv.descends Or.inl (Database.Descends.of_thinned ht))
      marks := h.marks
      isLive := hl
      lits_eq := (ht.lits_eq hl).trans h.lits_eq
      learned_eq := (ht.learned_eq hl).trans h.learned_eq }

theorem Using.strengthen {l : Lit} (hne : other ≠ ref) (ho : p.solver.prop.clauses.isLive other)
    (hn : (p.solver.prop.clauses.get other).learned = false) (hl : l ∉ ls)
    (hs : ∀ k ∈ ls, k = -l ∨ k ∈ (p.solver.prop.clauses.get other).lits) {count : SubsumptionCount} :
    Using s o m ref ls
      { solver := ((p.solver.withClauses (p.solver.prop.clauses.delete other)).addDerived p.occurrences
          ((p.solver.prop.clauses.get other).lits.filter (· != l))).2
        occurrences := ((p.solver.withClauses (p.solver.prop.clauses.delete other)).addDerived p.occurrences
          ((p.solver.prop.clauses.get other).lits.filter (· != l))).1
        count := count } := by
  have ht := Database.Thinned.delete p.solver.prop.clauses other
  have hlr : (p.solver.prop.clauses.delete other).isLive ref := Database.isLive_delete.2 ⟨h.isLive, hne.symm⟩
  have hfit := h.sound.prop.fits ho
  have hmem {k : Lit} (hk : k ∈ (p.solver.prop.clauses.get other).lits.filter (· != l)) :
      k ∈ (p.solver.prop.clauses.get other).lits := (List.mem_filter.1 hk).1
  obtain ⟨h1, h2, h3⟩ := Solver.addDerived_spec (h.sound.thin ht h.disabled) h.disabled (h.exact.thinned ht)
    (fun k hk => hfit.index_lt (hmem hk)) ((List.filter_sublist.map _).nodup hfit.nodup)
    (fun k hk => h.sound.eliminations.purged ho hn (hmem hk))
  generalize Solver.addDerived _ _ _ = out at h1 h2 h3
  obtain ⟨o', s'⟩ := out
  obtain ⟨q, st, he⟩ := h1.frame
  dsimp only at h1 h2 h3 he ⊢
  obtain ⟨hl', hg'⟩ := h1.kept hlr
  have hg : s'.prop.clauses.get ref = p.solver.prop.clauses.get ref :=
    hg'.trans (Database.get_delete_ne hne.symm)
  have hcount : s'.varCount = p.solver.varCount := by rw [he]; rfl
  refine
    { sound := h1.sound
      disabled := h1.enabled_eq.trans h.disabled
      exact := hcount.symm ▸ h2
      grown := fun hr => h3 _ _ (h.grown hr)
      rewritten := h.rewritten.trans ⟨⟨fun {a} ha => ?_, [], ?_, fun a ha => ?_⟩, hcount, ?_, ?_, ?_, h1.unsat,
        h1.not_sat, fun h0 => h1.currentLevel_eq.trans h0⟩
      vars_eq := ?_
      mentions := fun {v} hv => ?_
      marks := ?_
      isLive := hl'
      lits_eq := by rw [hg]; exact h.lits_eq
      learned_eq := by rw [hg]; exact h.learned_eq }
  · refine h1.modelsAll (ha.thin ht) (satisfiesAll_singleton.2 ?_)
    exact satisfies_strengthened hl hs (h.lits_eq ▸ ha.2.clause h.isLive) (ha.2.clause ho)
  · rw [he]
    rfl
  · obtain ⟨ha', hs'⟩ := h1.admits ha
    exact ha'.of_delete ((PartialAssignment.meetsAll_singleton.1 hs').mono fun k => hmem)
  · rw [he]
    rfl
  · rw [he]
    rfl
  · rw [he]
    rfl
  · rw [he]
    exact h.vars_eq
  · rcases h1.mentions hv with hv | ⟨ks, hks, k, hk, rfl⟩
    · exact h.mentions (hv.descends Or.inl (Database.Descends.of_thinned ht))
    · obtain rfl := List.mem_singleton.1 hks
      exact h.mentions (Or.inr ⟨other, ho, k, hmem hk, rfl⟩)
  · rw [he]
    exact h.marks

theorem Using.apply (hm : ∀ l : Lit, m.has l.code ↔ l ∈ ls)
    (ho : p.solver.prop.clauses.isLive other → (p.solver.prop.clauses.get other).learned = false) :
    Using s o m ref ls (apply ls.length ref p other) := by
  unfold SubsumptionPass.apply
  dsimp only
  split
  · exact h
  · next hgo =>
    rw [not_or, not_or, not_or] at hgo
    obtain ⟨-, hne, hd, -⟩ := hgo
    have hl : p.solver.prop.clauses.isLive other := Database.isLive_iff.2 (Bool.eq_false_iff.2 hd)
    have hv := (h.sound.prop.fits hl).nodup
    rw [h.marks]
    split
    · exact h
    · next hr => exact h.remove hne (relate_subsumed hm hv hr)
    · next l hr =>
      obtain ⟨-, h1, h2⟩ := relate_strengthened hm hv hr
      exact h.strengthen hne hl (ho hl) h1 h2

omit h in
theorem Using.foldl_apply (hm : ∀ l : Lit, m.has l.code ↔ l ∈ ls) (rs : List ClauseRef)
    (hr : ∀ r ∈ rs, ∃ l, r ∈ o.of l) (h : Using s o m ref ls p) :
    Using s o m ref ls (rs.foldl (SubsumptionPass.apply ls.length ref) p) := by
  induction rs generalizing p with
  | nil => exact h
  | cons r rs ih =>
    obtain ⟨l, hl⟩ := hr r List.mem_cons_self
    exact ih (fun q hq => hr q (List.mem_cons_of_mem r hq))
      (h.apply hm fun hlive => ((h.exact.mem_iff hlive).1 (h.grown hl)).1)

omit h in
theorem mem_partners {o : Occurrences} {r : ClauseRef} (hr : r ∈ partners o ls) : ∃ l, r ∈ o.of l := by
  unfold partners at hr
  split at hr
  · rcases List.mem_append.1 hr with hr | hr
    · exact ⟨_, hr⟩
    · exact ⟨_, hr⟩
  · cases hr

omit h in
theorem Valid.marked (h : Valid s o p) (hm : p.solver.litMarks.Clear (2 * p.solver.varCount + 1))
    (hl : p.solver.prop.clauses.isLive ref) (hr : ∃ l, ref ∈ o.of l)
    (hls : (p.solver.prop.clauses.get ref).lits = ls) :
    (∀ k : Lit, (p.solver.litMarks.markAll (ls.map Lit.code)).has k.code ↔ k ∈ ls) ∧
      Using p.solver p.occurrences (p.solver.litMarks.markAll (ls.map Lit.code)) ref ls
        { p with solver := { p.solver with litMarks := p.solver.litMarks.markAll (ls.map Lit.code) } } := by
  obtain ⟨l, hrl⟩ := hr
  have hcode : ∀ i ∈ ls.map Lit.code, i < p.solver.litMarks.bits.size := by
    intro i hi
    obtain ⟨k, hk, rfl⟩ := List.mem_map.1 hi
    have := Lit.code_lt ((h.sound.prop.fits hl).index_lt (hls.symm ▸ hk))
    rw [hm.size_eq]
    omega
  refine ⟨fun k => ?_, ?_⟩
  · rw [Marks.has_markAll hcode, hm.has_eq, List.mem_map]
    constructor
    · rintro (⟨j, hj, hjk⟩ | hf)
      · exact Lit.ext_code hjk ▸ hj
      · cases hf
    · exact fun hk => Or.inl ⟨k, hk, rfl⟩
  · exact
      { sound := ⟨h.sound.prop, h.sound.candidates, h.sound.varMarks, h.sound.eliminations⟩
        disabled := h.disabled
        exact := h.exact
        grown := id
        rewritten := ⟨⟨id, [], rfl, fun _ => id⟩, rfl, rfl, rfl, rfl, id, id, id⟩
        vars_eq := rfl
        mentions := id
        marks := rfl
        isLive := hl
        lits_eq := hls
        learned_eq := ((h.exact.mem_iff hl).1 (h.grown hrl)).1 }

omit h in
theorem Valid.useClause (h : Valid s o p) (hm : p.solver.litMarks.Clear (2 * p.solver.varCount + 1))
    (hr : ∃ l, ref ∈ o.of l) : Valid s o (p.useClause ref) ∧
      (p.useClause ref).solver.litMarks.Clear (2 * (p.useClause ref).solver.varCount + 1) := by
  unfold SubsumptionPass.useClause
  dsimp only
  split
  · exact ⟨h, hm⟩
  · next hgo =>
    rw [not_or] at hgo
    have hl : p.solver.prop.clauses.isLive ref := Database.isLive_iff.2 (Bool.eq_false_iff.2 hgo.2)
    generalize hls : (p.solver.prop.clauses.get ref).lits = ls
    have hsize : (p.solver.prop.clauses.get ref).size = ls.length := by rw [← hls]; rfl
    obtain ⟨hmarks, hu⟩ := h.marked hm hl hr hls
    rw [hsize]
    have hf := Using.foldl_apply hmarks (partners p.occurrences ls) (fun r hr => mem_partners hr) hu
    generalize List.foldl _ _ _ = p' at hf
    refine ⟨?_, ?_⟩
    · exact
        { sound := ⟨hf.sound.prop, hf.sound.candidates, hf.sound.varMarks, hf.sound.eliminations⟩
          disabled := hf.disabled
          exact := hf.exact
          grown := fun hr => hf.grown (h.grown hr)
          rewritten :=
            (h.rewritten.trans hf.rewritten).trans ⟨⟨id, [], rfl, fun _ => id⟩, rfl, rfl, rfl, rfl, id, id, id⟩
          vars_eq := hf.vars_eq.trans h.vars_eq
          mentions := fun hv => h.mentions (hf.mentions hv) }
    · show (p'.solver.litMarks.unmarkAll _).Clear (2 * p'.solver.varCount + 1)
      rw [hf.marks, hf.rewritten.varCount_eq]
      exact hm.unmarkAll_markAll

omit h in
theorem Valid.foldl_useClause (rs : List ClauseRef) (hr : ∀ r ∈ rs, ∃ l, r ∈ o.of l) (h : Valid s o p)
    (hm : p.solver.litMarks.Clear (2 * p.solver.varCount + 1)) :
    Valid s o (rs.foldl SubsumptionPass.useClause p) ∧
      (rs.foldl SubsumptionPass.useClause p).solver.litMarks.Clear
        (2 * (rs.foldl SubsumptionPass.useClause p).solver.varCount + 1) := by
  induction rs generalizing p with
  | nil => exact ⟨h, hm⟩
  | cons r rs ih =>
    obtain ⟨h1, h2⟩ := h.useClause hm (hr r List.mem_cons_self)
    exact ih (fun q hq => hr q (List.mem_cons_of_mem r hq)) h1 h2

end SubsumptionPass

namespace Solver

variable {s : Solver}

theorem mem_subsumptionCandidates {o : Occurrences} {r : ClauseRef} (hl : s.prop.clauses.Listed)
    (ho : o.Exact s.varCount s.prop.clauses) (hr : r ∈ s.subsumptionCandidates) : ∃ l, r ∈ o.of l := by
  unfold subsumptionCandidates at hr
  dsimp only at hr
  rw [mem_sortBy, List.mem_filter, hl.mem_live, Bool.and_eq_true, Bool.not_eq_true'] at hr
  exact ⟨_, (ho.mem_iff hr.1).2 ⟨hr.2.1, Clause.first_mem _⟩⟩

theorem subsume_spec (h : s.Inv) (hi : s.prop.trail.Idle) : s.subsume.Inv ∧ Rewritten s s.subsume ∧
    s.subsume.vars = s.vars ∧ ∀ v, s.subsume.prop.Mentions v → s.prop.Mentions v := by
  obtain ⟨h1, h2, h3, h4⟩ := buildOccurrences_spec h hi
  have hvars : s.buildOccurrences.2.vars = s.vars := rfl
  have hm (v : Var) : s.buildOccurrences.2.prop.Mentions v → s.prop.Mentions v := id
  rw [← h2.varCount_eq] at h4
  unfold subsume
  dsimp only
  generalize s.buildOccurrences = out at h1 h2 h3 h4 hvars hm
  obtain ⟨o, s₁⟩ := out
  dsimp only at h1 h2 h3 h4 hvars hm ⊢
  obtain ⟨h5, h6⟩ := SubsumptionPass.Valid.foldl_useClause s₁.subsumptionCandidates
    (fun r hr => mem_subsumptionCandidates h1.prop.listed h4 hr)
    (p := { solver := s₁, occurrences := o }) ⟨h1.toSound, h3, h4, id, Rewritten.refl s₁, rfl, id⟩ h1.litMarks
  generalize List.foldl _ _ _ = p at h5 h6
  exact ⟨⟨⟨h5.sound.prop, h5.sound.candidates, h5.sound.varMarks, h5.sound.eliminations⟩, h6⟩,
    (h2.trans h5.rewritten).trans ⟨⟨id, [], rfl, fun _ => id⟩, rfl, rfl, rfl, rfl, id, id, id⟩,
    h5.vars_eq.trans hvars, fun v hv => hm v (h5.mentions hv)⟩

end Solver

end ClauseLearning
