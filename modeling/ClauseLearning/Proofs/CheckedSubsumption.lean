import ClauseLearning.Proofs.CheckedState
import ClauseLearning.Proofs.Subsumption

/-!
# Subsumption within its bounds

* `Solver.buildOccurrencesChecked`, `Solver.addDerivedChecked`, `Solver.settleFactsChecked` : what the passes of
  simplification share, with its checks. Facts are settled on level 0;
* `Solver.subsumeChecked` : subsumption with its checks. A clause that is deleted was not deleted before, although the
  occurrence lists mention deleted clauses;
* `Solver.Inv.subsumeChecked` : no check of subsumption fails, unless there is no room for a strengthened clause.
-/

namespace ClauseLearning

/-! ## Bounds -/

theorem Marks.covers_code {m : Marks} {l : Lit} {n : Nat} (hs : m.bits.size = 2 * n + 1) (hx : l.var.index < n) :
    m.Covers l.code := Nat.lt_of_lt_of_eq (Nat.lt_succ_of_lt (Lit.code_lt hx)) hs.symm

namespace Occurrences

/-- There is a list of the clauses that contain the literal. -/
def Knows (o : Occurrences) (l : Lit) : Prop := l.code < o.lists.size

instance (o : Occurrences) (l : Lit) : Decidable (o.Knows l) := inferInstanceAs (Decidable (_ < _))

theorem knows_of_index_lt {o : Occurrences} {l : Lit} {n : Nat} (ho : o.lists.size = 2 * n) (hx : l.var.index < n) :
    o.Knows l := Nat.lt_of_lt_of_eq (Lit.code_lt hx) ho.symm

end Occurrences

/-! ## Operations that check their bounds -/

variable [Build]

namespace Occurrences

def addChecked (o : Occurrences) (r : ClauseRef) (ls : List Lit) : Fallible Occurrences := do
  require (∀ l ∈ ls, o.Knows l) .outOfRange
  return o.add r ls

def addFromChecked (d : Database) (o : Occurrences) (r : ClauseRef) : Fallible Occurrences := do
  let c ← d.getChecked r
  if c.learned then return o else o.addChecked r c.lits

def ofDatabaseChecked (varCount : Nat) (d : Database) : Fallible Occurrences := do
  let live ← d.liveChecked
  live.foldlM (addFromChecked d) { lists := Array.replicate (2 * varCount) #[] }

end Occurrences

namespace Solver

def buildOccurrencesChecked (s : Solver) : Fallible (Occurrences × Solver) := do
  let o ← Occurrences.ofDatabaseChecked s.varCount s.prop.clauses
  return (o, { s with prop := { s.prop with watches := s.prop.watches.disable } })

def addDerivedChecked (s : Solver) (o : Occurrences) (ls : List Lit) : Fallible (Occurrences × Solver) := do
  require (s.prop.trail.KnowsAll ls) .outOfRange
  if ls.any s.prop.trail.isTrue then return (o, s)
  else
    match ls.filter fun l => !s.prop.trail.isFalse l with
    | [] => return (o, s.markUnsat)
    | [l] =>
      let s ← s.assignChecked l .unit
      return (o, s)
    | a :: b :: rest =>
      let (r, prop) ← s.prop.storeChecked (a :: b :: rest) .irredundant 0
      let o ← o.addChecked r (a :: b :: rest)
      return (o, { s with prop := prop })

def settleFactsChecked (s : Solver) : Fallible (Bool × Solver) := do
  if s.status = .unsat then return (false, s)
  else
    require (s.currentLevel = 0) .assertion
    match ← s.propagateChecked with
    | (some _, s) => return (false, s.markUnsat)
    | (none, s) =>
      let s ← s.tidyChecked
      return (true, s)

end Solver

namespace SubsumptionPass

def applyChecked (size : Nat) (ref : ClauseRef) (p : SubsumptionPass) (other : ClauseRef) :
    Fallible SubsumptionPass := do
  let c ← p.solver.prop.clauses.getChecked other
  if p.solver.status = .unsat ∨ other = ref ∨ c.deleted ∨ c.size < size then return p
  else
    require (∀ l ∈ c.lits, p.solver.litMarks.Covers l.code ∧ p.solver.litMarks.Covers (-l).code) .outOfRange
    match relate p.solver.litMarks size c.lits with
    | .unrelated => return p
    | .subsumed =>
      let clauses ← p.solver.prop.clauses.deleteChecked other
      return { p with
        solver := p.solver.withClauses clauses
        count := { p.count with removed := p.count.removed + 1 } }
    | .strengthened l =>
      let clauses ← p.solver.prop.clauses.deleteChecked other
      let (o, s) ← (p.solver.withClauses clauses).addDerivedChecked p.occurrences (c.lits.filter (· != l))
      return {
        solver := s
        occurrences := o
        count := { p.count with strengthened := p.count.strengthened + 1 } }

def useStoredChecked (p : SubsumptionPass) (ref : ClauseRef) : Fallible SubsumptionPass := do
  let c ← p.solver.prop.clauses.getChecked ref
  if p.solver.status = .unsat ∨ c.deleted then return p
  else
    let codes := c.lits.map Lit.code
    require (∀ l ∈ c.lits, p.occurrences.Knows l ∧ p.occurrences.Knows (-l)) .outOfRange
    let others := partners p.occurrences c.lits
    require (∀ i ∈ codes, p.solver.litMarks.Covers i) .outOfRange
    let p := { p with solver := { p.solver with litMarks := p.solver.litMarks.markAll codes } }
    let p ← others.foldlM (applyChecked c.size ref) p
    return { p with solver := { p.solver with litMarks := p.solver.litMarks.unmarkAll codes } }

def useClauseChecked (p : SubsumptionPass) (ref : ClauseRef) : Fallible SubsumptionPass :=
  p.solver.inspecting (p.useStoredChecked ref) SubsumptionPass.solver

end SubsumptionPass

def Solver.subsumeChecked (s : Solver) : Fallible Solver := do
  let (o, s) ← s.buildOccurrencesChecked
  let _ ← s.prop.clauses.liveChecked
  let p ← s.subsumptionCandidates.foldlM SubsumptionPass.useClauseChecked { solver := s, occurrences := o }
  return p.solver.report (.subsumption p.count.removed p.count.strengthened)

/-! ## The checks succeed -/

namespace Occurrences

variable {o : Occurrences} {d : Database} {ls : List Lit} {n : Nat}

theorem addChecked_eq (ho : o.lists.size = 2 * n) (hl : ∀ l ∈ ls, l.var.index < n) (r : ClauseRef) :
    o.addChecked r ls = .ok (o.add r ls) := by
  have hknows : ∀ l ∈ ls, o.Knows l := fun l hm => knows_of_index_lt ho (hl l hm)
  exact require_bind hknows _

theorem foldlM_addFromChecked (rs : List ClauseRef) (ho : o.lists.size = 2 * n)
    (hr : ∀ r ∈ rs, r < d.slots.size ∧ ∀ l ∈ (d.get r).lits, l.var.index < n) :
    rs.foldlM (addFromChecked d) o = .ok (rs.foldl (addFrom d) o) := by
  refine (foldlM_ok (P := fun o => o.lists.size = 2 * n) (fun o r hm ho => ⟨?_, size_addFrom.trans ho⟩) ho).1
  obtain ⟨hlt, hl⟩ := hr r hm
  rw [addFromChecked, Database.getChecked_eq hlt, ok_bind, addFrom]
  split
  · rfl
  · exact addChecked_eq ho hl r

theorem ofDatabaseChecked_eq (h : d.Listed) (hl : ∀ r, d.isLive r → ∀ l ∈ (d.get r).lits, l.var.index < n) :
    ofDatabaseChecked n d = .ok (ofDatabase n d) := by
  rw [ofDatabaseChecked, h.liveChecked, ok_bind]
  refine foldlM_addFromChecked _ Array.size_replicate fun r hr => ?_
  have hlive := h.mem_live.1 hr
  exact ⟨Database.lt_of_isLive hlive, hl r hlive⟩

end Occurrences

namespace Solver

variable {s : Solver} {o : Occurrences} {ls : List Lit}

theorem Inv.buildOccurrencesChecked (h : s.Inv) (hb : s.Bounded) :
    s.buildOccurrencesChecked = .ok s.buildOccurrences ∧ s.buildOccurrences.2.Bounded := by
  rw [Solver.buildOccurrencesChecked,
    Occurrences.ofDatabaseChecked_eq h.prop.listed fun r hr l hl => (h.prop.fits hr).index_lt hl]
  exact ⟨rfl, hb.of_extent rfl⟩

theorem addDerivedChecked_yields (h : s.prop.Inv s.varCount) (hb : s.Bounded) (ho : o.lists.size = 2 * s.varCount)
    (hi : ∀ l ∈ ls, l.var.index < s.varCount) (hv : (ls.map Lit.var).Nodup) :
    Yields (s.addDerivedChecked o ls) (s.addDerived o ls) fun out => out.2.Bounded := by
  have hknows : s.prop.trail.KnowsAll ls := fun l hl => h.trail.knows (hi l hl)
  unfold addDerivedChecked addDerived
  rw [require_bind hknows]
  split
  · exact .answers rfl hb
  · next hn =>
    have hn : ∀ l ∈ ls, ¬ s.prop.trail.isTrue l := fun l hl ht => hn (List.any_eq_true.2 ⟨l, hl, ht⟩)
    have hsub := List.filter_sublist (l := ls) (p := fun l => !s.prop.trail.isFalse l)
    generalize hks : (ls.filter fun l => !s.prop.trail.isFalse l) = ks at hsub
    have hindex : ∀ l ∈ ks, l.var.index < s.varCount := fun l hl => hi l (hsub.subset hl)
    have hnodup := (hsub.map Lit.var).nodup hv
    split
    · exact .answers rfl (hb.of_extent rfl)
    · next l =>
      have hu := (not_isAssigned_of_mem hks hn List.mem_cons_self).2
      obtain ⟨h1, h2⟩ := hb.assignChecked (h.trail.knows (hindex l List.mem_cons_self)) hu .unit
      rw [h1]
      exact .answers rfl h2
    · next a b rest =>
      have hstored : Solver.Bounded
          { s with prop := (s.prop.addClause { first := a, second := b, others := rest }).2 } :=
        hb.addClause rfl rfl hindex
      refine (Propagator.storeChecked_yields (P := fun out => Solver.Bounded { s with prop := out.2 }) hb.varCount_le
        h.lists_size hnodup hindex _ _ hstored).bind fun hb₁ => ?_
      dsimp only
      rw [Occurrences.addChecked_eq ho hindex, ok_bind]
      exact .answers rfl hb₁

theorem Inv.settleFactsChecked (h : s.Inv) (hb : s.Bounded) (h0 : s.status ≠ .unsat → s.currentLevel = 0) :
    s.settleFactsChecked = .ok s.settleFacts ∧ s.settleFacts.2.Bounded := by
  unfold Solver.settleFactsChecked settleFacts
  split
  · exact ⟨rfl, hb⟩
  · next hs =>
    obtain ⟨hpropagate, hb₁⟩ := h.propagateChecked hb
    obtain ⟨h₁, hp⟩ := propagate_searched h
    rw [require_bind (h0 hs), hpropagate, ok_bind]
    generalize s.propagate = out at hb₁ h₁ hp ⊢
    obtain ⟨conflict, s₁⟩ := out
    cases conflict with
    | some r => exact ⟨rfl, hb₁.of_extent rfl⟩
    | none =>
      obtain ⟨htidy, hb₂⟩ := h₁.inv.tidyChecked hb₁ hp.enabled (hp.complete rfl)
        (hp.advance.currentLevel_eq.trans (h0 hs))
      dsimp only
      rw [htidy]
      exact ⟨rfl, hb₂⟩

end Solver

namespace SubsumptionPass

variable {s : Solver} {o : Occurrences} {p : SubsumptionPass} {ref other : ClauseRef} {ls : List Lit} {m : Marks}

theorem Using.applyChecked (h : Using s o m ref ls p) (hb : p.solver.Bounded)
    (hs : m.bits.size = 2 * s.varCount + 1) {l : Lit} (ho : other ∈ o.of l) :
    Yields (SubsumptionPass.applyChecked ls.length ref p other) (SubsumptionPass.apply ls.length ref p other)
      fun q => q.solver.Bounded := by
  unfold SubsumptionPass.applyChecked SubsumptionPass.apply
  rw [Database.getChecked_eq (h.exact.lt (h.grown ho)), ok_bind]
  dsimp only
  split
  · exact .answers rfl hb
  · next hgo =>
    rw [not_or, not_or, not_or] at hgo
    have hl : p.solver.prop.clauses.isLive other := Database.isLive_iff.2 (Bool.eq_false_iff.2 hgo.2.2.1)
    have hfit := h.sound.prop.fits hl
    have hsize : p.solver.litMarks.bits.size = 2 * p.solver.varCount + 1 := by
      rw [h.marks, h.rewritten.varCount_eq, hs]
    have hcovers : ∀ k ∈ (p.solver.prop.clauses.get other).lits,
        p.solver.litMarks.Covers k.code ∧ p.solver.litMarks.Covers (-k).code := fun k hk =>
      ⟨Marks.covers_code hsize (hfit.index_lt hk), Marks.covers_code hsize ((Lit.var_neg k).symm ▸ hfit.index_lt hk)⟩
    have hdelete := hb.kept.deleteChecked hl
    have hb₁ : (p.solver.withClauses (p.solver.prop.clauses.delete other)).Bounded :=
      hb.withClauses (.single (.delete hl))
    rw [require_bind hcovers]
    cases relate p.solver.litMarks ls.length (p.solver.prop.clauses.get other).lits with
    | unrelated => exact .answers rfl hb
    | subsumed =>
      dsimp only
      rw [hdelete, ok_bind]
      exact .answers rfl hb₁
    | strengthened l =>
      dsimp only
      rw [hdelete, ok_bind]
      have ht := Database.Thinned.delete p.solver.prop.clauses other
      have hsub := List.filter_sublist (l := (p.solver.prop.clauses.get other).lits) (p := (· != l))
      have hadd := Solver.addDerivedChecked_yields (h.sound.thin ht h.disabled).prop hb₁ h.exact.size_eq
        (fun k hk => hfit.index_lt (hsub.subset hk)) ((hsub.map _).nodup hfit.nodup)
      exact hadd.bind fun hb₂ => .answers rfl hb₂

theorem Using.foldlM_applyChecked (hm : ∀ l : Lit, m.has l.code ↔ l ∈ ls) (hs : m.bits.size = 2 * s.varCount + 1)
    (rs : List ClauseRef) (hr : ∀ r ∈ rs, ∃ l, r ∈ o.of l) (h : Using s o m ref ls p) (hb : p.solver.Bounded) :
    Yields (rs.foldlM (SubsumptionPass.applyChecked ls.length ref) p)
      (rs.foldl (SubsumptionPass.apply ls.length ref) p) fun q => q.solver.Bounded := by
  have hstep : ∀ q, ∀ r ∈ rs, Using s o m ref ls q ∧ q.solver.Bounded →
      Yields (SubsumptionPass.applyChecked ls.length ref q r) (SubsumptionPass.apply ls.length ref q r)
        fun q' => Using s o m ref ls q' ∧ q'.solver.Bounded := by
    rintro q r hmem ⟨h, hb⟩
    obtain ⟨l, hl⟩ := hr r hmem
    have hu := h.apply hm fun hlive => ((h.exact.mem_iff hlive).1 (h.grown hl)).1
    exact (h.applyChecked hb hs hl).imp fun hb₁ => ⟨hu, hb₁⟩
  exact (Yields.foldlM hstep ⟨h, hb⟩).imp And.right

theorem Valid.useStoredChecked (h : Valid s o p) (hb : p.solver.Bounded)
    (hm : p.solver.litMarks.Clear (2 * p.solver.varCount + 1)) (hr : ∃ l, ref ∈ o.of l) :
    Yields (p.useStoredChecked ref) (p.useClause ref) fun q => q.solver.Bounded := by
  obtain ⟨l, hrl⟩ := hr
  unfold SubsumptionPass.useStoredChecked SubsumptionPass.useClause
  rw [Database.getChecked_eq (h.exact.lt (h.grown hrl)), ok_bind]
  dsimp only
  split
  · exact .answers rfl hb
  · next hgo =>
    rw [not_or] at hgo
    have hl : p.solver.prop.clauses.isLive ref := Database.isLive_iff.2 (Bool.eq_false_iff.2 hgo.2)
    have hfit := h.sound.prop.fits hl
    generalize hls : (p.solver.prop.clauses.get ref).lits = ls
    have hindex : ∀ k ∈ ls, k.var.index < p.solver.varCount := fun k hk => hfit.index_lt (hls.symm ▸ hk)
    have hsize : (p.solver.prop.clauses.get ref).size = ls.length := by rw [← hls]; rfl
    obtain ⟨hmarks, hu⟩ := h.marked hm hl ⟨l, hrl⟩ hls
    have hknows : ∀ k ∈ ls, p.occurrences.Knows k ∧ p.occurrences.Knows (-k) := fun k hk =>
      ⟨Occurrences.knows_of_index_lt h.exact.size_eq (hindex k hk),
        Occurrences.knows_of_index_lt h.exact.size_eq ((Lit.var_neg k).symm ▸ hindex k hk)⟩
    have hcovers : ∀ i ∈ ls.map Lit.code, p.solver.litMarks.Covers i :=
      List.forall_mem_map.2 fun k hk => Marks.covers_code hm.size_eq (hindex k hk)
    rw [require_bind hknows, require_bind hcovers, hsize]
    have hf := Using.foldlM_applyChecked hmarks (Marks.size_markAll.trans hm.size_eq) (partners p.occurrences ls)
      (fun r hr => mem_partners hr) hu (hb.of_extent rfl)
    exact hf.bind fun hb₁ => .answers rfl (hb₁.of_extent rfl)

theorem Valid.useClauseChecked (h : Valid s o p) (hb : p.solver.Bounded)
    (hm : p.solver.litMarks.Clear (2 * p.solver.varCount + 1)) (hr : ∃ l, ref ∈ o.of l) :
    Yields (p.useClauseChecked ref) (p.useClause ref) fun q => q.solver.Bounded := by
  obtain ⟨h', hm'⟩ := h.useClause hm hr
  exact Solver.inspecting_yields ⟨hm, h.sound.varMarks⟩ (h.useStoredChecked hb hm hr) ⟨hm', h'.sound.varMarks⟩

theorem Valid.foldlM_useClauseChecked (rs : List ClauseRef) (hr : ∀ r ∈ rs, ∃ l, r ∈ o.of l) (h : Valid s o p)
    (hb : p.solver.Bounded) (hm : p.solver.litMarks.Clear (2 * p.solver.varCount + 1)) :
    Yields (rs.foldlM SubsumptionPass.useClauseChecked p) (rs.foldl SubsumptionPass.useClause p)
      fun q => q.solver.Bounded := by
  have hstep : ∀ q, ∀ r ∈ rs,
      (Valid s o q ∧ q.solver.litMarks.Clear (2 * q.solver.varCount + 1)) ∧ q.solver.Bounded →
        Yields (q.useClauseChecked r) (q.useClause r) fun q' =>
          (Valid s o q' ∧ q'.solver.litMarks.Clear (2 * q'.solver.varCount + 1)) ∧ q'.solver.Bounded := by
    rintro q r hmem ⟨⟨h, hm⟩, hb⟩
    exact (h.useClauseChecked hb hm (hr r hmem)).imp fun hb₁ => ⟨h.useClause hm (hr r hmem), hb₁⟩
  exact (Yields.foldlM hstep ⟨⟨h, hm⟩, hb⟩).imp And.right

end SubsumptionPass

/-- No check of subsumption fails, unless there is no room for a strengthened clause. -/
theorem Solver.Inv.subsumeChecked {s : Solver} (h : s.Inv) (hb : s.Bounded) (hi : s.prop.trail.Idle) :
    Yields s.subsumeChecked s.subsume Solver.Bounded := by
  obtain ⟨h1, h2, h3, h4⟩ := buildOccurrences_spec h hi
  obtain ⟨hbuild, hb₁⟩ := h.buildOccurrencesChecked hb
  rw [← h2.varCount_eq] at h4
  unfold Solver.subsumeChecked subsume
  rw [hbuild, ok_bind]
  generalize s.buildOccurrences = out at h1 h2 h3 h4 hb₁
  obtain ⟨o, s₁⟩ := out
  dsimp only at h1 h2 h3 h4 hb₁ ⊢
  rw [h1.prop.listed.liveChecked, ok_bind]
  have hf := SubsumptionPass.Valid.foldlM_useClauseChecked s₁.subsumptionCandidates
    (fun r hr => mem_subsumptionCandidates h1.prop.listed h4 hr)
    (p := { solver := s₁, occurrences := o }) ⟨h1.toSound, h3, h4, id, Rewritten.refl s₁, rfl, id⟩ hb₁ h1.litMarks
  exact hf.bind fun hb₂ => .answers rfl (hb₂.of_extent rfl)

end ClauseLearning
