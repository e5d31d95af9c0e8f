import ClauseLearning.Simplification.Occurrences
import ClauseLearning.Proofs.State

/-!
# Occurrence lists and derived clauses

* `Occurrences.Exact` : the lists mention an irredundant clause that is not deleted just for its literals, and once;
* `Solver.Rewritten` : what the parts of simplification have in common. They are faithful;
* `Solver.buildOccurrences_spec`, `Solver.addDerived_spec` : the lists are exact, and stay so when clauses are added;
* `Solver.settleFacts_spec` : the passes begin with an empty trail.
-/

namespace ClauseLearning

namespace Occurrences

variable {o : Occurrences} {d e : Database} {r q : ClauseRef} {l k : Lit} {ls : List Lit} {n : Nat}

/-- The lists mention an irredundant clause that is not deleted just for its literals, and no clause twice. -/
structure Exact (o : Occurrences) (n : Nat) (d : Database) : Prop where
  size_eq : o.lists.size = 2 * n
  lt {r : ClauseRef} {l : Lit} : r ∈ o.of l → r < d.slots.size
  mem_iff {r : ClauseRef} {l : Lit} : d.isLive r → (r ∈ o.of l ↔ (d.get r).learned = false ∧ l ∈ (d.get r).lits)
  nodup (l : Lit) : (o.of l).Nodup

theorem size_add (o : Occurrences) (r : ClauseRef) (ls : List Lit) : (o.add r ls).lists.size = o.lists.size := by
  unfold add
  generalize o.lists = lists
  induction ls generalizing lists with
  | nil => rfl
  | cons k ls ih => exact (ih _).trans Array.size_modify

theorem add_nil (o : Occurrences) (r : ClauseRef) : o.add r [] = o := rfl

theorem add_cons (o : Occurrences) (r : ClauseRef) (k : Lit) (ls : List Lit) :
    o.add r (k :: ls) = (o.add r [k]).add r ls := rfl

theorem of_add_singleton (h : k.code < o.lists.size) :
    (o.add r [k]).of l = if l = k then o.of l ++ [r] else o.of l := by
  show ((o.lists.modify k.code (·.push r)).getD l.code #[]).toList = _
  rw [getD_modify h]
  by_cases hl : l = k
  · simp [hl, Occurrences.of]
  · rw [if_neg fun hc => hl (Lit.ext_code hc), if_neg hl, Occurrences.of]

theorem mem_add (h : ∀ k ∈ ls, k.code < o.lists.size) : q ∈ (o.add r ls).of l ↔ q ∈ o.of l ∨ q = r ∧ l ∈ ls := by
  induction ls generalizing o with
  | nil => simp [add_nil]
  | cons k ls ih =>
    have h1 : q ∈ (o.add r [k]).of l ↔ q ∈ o.of l ∨ q = r ∧ l = k := by
      rw [of_add_singleton (h k List.mem_cons_self)]
      split <;> simp [*]
    rw [add_cons, ih fun x hx => by
      rw [size_add]
      exact h x (List.mem_cons_of_mem k hx), h1, List.mem_cons, or_assoc, ← and_or_left]

theorem nodup_add (h : ∀ k ∈ ls, k.code < o.lists.size) (hls : ls.Nodup) (hr : ∀ k ∈ ls, r ∉ o.of k)
    (ho : ∀ k, (o.of k).Nodup) : ((o.add r ls).of l).Nodup := by
  induction ls generalizing o with
  | nil => exact ho l
  | cons k ls ih =>
    obtain ⟨hk, hls⟩ := List.nodup_cons.1 hls
    have hof (x : Lit) := of_add_singleton (r := r) (l := x) (h k List.mem_cons_self)
    rw [add_cons]
    refine ih (fun x hx => ?_) hls (fun x hx => ?_) fun x => ?_
    · rw [size_add]
      exact h x (List.mem_cons_of_mem k hx)
    · have hne : x ≠ k := fun he => hk (he ▸ hx)
      rw [hof, if_neg hne]
      exact hr x (List.mem_cons_of_mem k hx)
    · rw [hof]
      split
      · next he =>
        have hnew : ∀ q ∈ o.of x, q ≠ r := fun q hq hqr => hr k List.mem_cons_self (he ▸ hqr ▸ hq)
        simpa [List.nodup_append, ho x] using hnew
      · exact ho x

namespace Exact

theorem thinned (h : o.Exact n d) (ht : Database.Thinned d e) : o.Exact n e where
  size_eq := h.size_eq
  lt hr := ht.size_eq.symm ▸ h.lt hr
  mem_iff hr := by
    rw [ht.learned_eq hr, ht.lits_eq hr]
    exact h.mem_iff (ht.isLive hr)
  nodup := h.nodup

theorem add (h : o.Exact n d) {c : Clause} (hc : ∀ l ∈ c.lits, l.code < 2 * n) (hn : c.learned = false)
    (hv : c.lits.Nodup) :
    (o.add d.slots.size c.lits).Exact n (d.add c).2 where
  size_eq := (size_add ..).trans h.size_eq
  lt hr := by
    rw [Database.size_add]
    rcases (mem_add fun k hk => h.size_eq.symm ▸ hc k hk).1 hr with hr | ⟨rfl, -⟩
    · exact Nat.lt_succ_of_lt (h.lt hr)
    · exact Nat.lt_succ_self _
  mem_iff {r l} hr := by
    rw [mem_add fun k hk => h.size_eq.symm ▸ hc k hk, Database.get_add]
    by_cases he : r = d.slots.size
    · rw [if_pos he, hn]
      have hnew : r ∉ o.of l := fun hr => absurd (h.lt hr) (he ▸ Nat.lt_irrefl _)
      rw [or_iff_right hnew, and_iff_right he, and_iff_right rfl]
    · rw [Database.isLive, Database.get_add, if_neg he] at hr
      rw [if_neg he, h.mem_iff hr]
      simp [he]
  nodup l := nodup_add (fun k hk => h.size_eq.symm ▸ hc k hk) hv (fun k _ hr => Nat.lt_irrefl _ (h.lt hr)) h.nodup

end Exact

/-! ## The lists of a database -/

/-- Adds a clause of a database if it is irredundant. -/
def addFrom (d : Database) (o : Occurrences) (r : ClauseRef) : Occurrences :=
  if (d.get r).learned then o else o.add r (d.get r).lits

theorem size_addFrom : (o.addFrom d r).lists.size = o.lists.size := by
  unfold addFrom
  split
  · rfl
  · exact size_add ..

theorem mem_addFrom (h : ∀ k ∈ (d.get r).lits, k.code < o.lists.size) :
    q ∈ (o.addFrom d r).of l ↔ q ∈ o.of l ∨ q = r ∧ (d.get q).learned = false ∧ l ∈ (d.get q).lits := by
  unfold addFrom
  split
  · next hn =>
    refine (or_iff_left fun hq => ?_).symm
    obtain ⟨rfl, hq, -⟩ := hq
    exact Bool.false_ne_true (hq.symm.trans hn)
  · next hn =>
    rw [mem_add h]
    refine or_congr_right (and_congr_right fun hq => ?_)
    rw [hq, Bool.eq_false_iff.2 hn]
    simp

theorem nodup_addFrom (h : ∀ k ∈ (d.get r).lits, k.code < o.lists.size) (hv : (d.get r).lits.Nodup)
    (hr : ∀ k, r ∉ o.of k) (ho : ∀ k, (o.of k).Nodup) : ((o.addFrom d r).of l).Nodup := by
  unfold addFrom
  split
  · exact ho l
  · exact nodup_add h hv (fun k _ => hr k) ho

theorem foldl_addFrom (rs : List ClauseRef) (hn : rs.Nodup) (hs : o.lists.size = 2 * n)
    (hc : ∀ r ∈ rs, (∀ k ∈ (d.get r).lits, k.code < 2 * n) ∧ (d.get r).lits.Nodup) (hr : ∀ r ∈ rs, ∀ k, r ∉ o.of k)
    (ho : ∀ k, (o.of k).Nodup) :
    (rs.foldl (addFrom d) o).lists.size = 2 * n ∧ (∀ k, ((rs.foldl (addFrom d) o).of k).Nodup) ∧
      ∀ q l, q ∈ (rs.foldl (addFrom d) o).of l ↔
        q ∈ o.of l ∨ q ∈ rs ∧ (d.get q).learned = false ∧ l ∈ (d.get q).lits := by
  induction rs generalizing o with
  | nil => exact ⟨hs, ho, fun q l => by simp⟩
  | cons r rs ih =>
    obtain ⟨hnr, hn⟩ := List.nodup_cons.1 hn
    obtain ⟨hcode, hv⟩ := hc r List.mem_cons_self
    have hcode' : ∀ k ∈ (d.get r).lits, k.code < o.lists.size := hs.symm ▸ hcode
    obtain ⟨h1, h2, h3⟩ := ih (o := o.addFrom d r) hn (size_addFrom.trans hs)
      (fun q hq => hc q (List.mem_cons_of_mem r hq))
      (fun q hq k hk => ((mem_addFrom hcode').1 hk).elim (hr q (List.mem_cons_of_mem r hq) k) fun h => hnr (h.1 ▸ hq))
      fun k => nodup_addFrom hcode' hv (hr r List.mem_cons_self) ho
    refine ⟨h1, h2, fun q l => ?_⟩
    rw [List.foldl_cons, h3, mem_addFrom hcode', List.mem_cons, or_and_right, or_assoc]

theorem exact_ofDatabase (h : d.Listed)
    (hc : ∀ r, d.isLive r → (∀ l ∈ (d.get r).lits, l.code < 2 * n) ∧ (d.get r).lits.Nodup) :
    (ofDatabase n d).Exact n d := by
  have hempty (l : Lit) : ({ lists := Array.replicate (2 * n) #[] } : Occurrences).of l = [] := by
    unfold Occurrences.of
    rw [Array.getD_eq_getD_getElem?, Array.getElem?_replicate]
    split <;> rfl
  obtain ⟨h1, h2, h3⟩ := foldl_addFrom (o := { lists := Array.replicate (2 * n) #[] }) d.live h.live_nodup
    Array.size_replicate (fun r hr => hc r (h.mem_live.1 hr)) (fun r _ l => by simp [hempty]) fun l => by simp [hempty]
  have hmem (q : ClauseRef) (l : Lit) :
      q ∈ (ofDatabase n d).of l ↔ d.isLive q ∧ (d.get q).learned = false ∧ l ∈ (d.get q).lits := by
    refine (h3 q l).trans ?_
    rw [hempty, h.mem_live]
    simp
  refine ⟨h1, fun hr => Database.lt_of_isLive ((hmem _ _).1 hr).1, fun hr => ?_, h2⟩
  rw [hmem]
  exact and_iff_right hr

end Occurrences

namespace Solver

variable {s s' s'' : Solver} {o : Occurrences} {ls : List Lit}

/-- What the parts of simplification have in common. -/
structure Rewritten (s s' : Solver) : Prop where
  faithful : Faithful s s'
  varCount_eq : s'.varCount = s.varCount
  config_eq : s'.config = s.config
  eliminationOff_eq : s'.eliminationOff = s.eliminationOff
  schedule_eq : s'.schedule = s.schedule
  unsat : s.status = .unsat → s'.status = .unsat
  not_sat : s.status ≠ .sat → s'.status ≠ .sat
  currentLevel : s.prop.trail.currentLevel = 0 → s'.prop.trail.currentLevel = 0

namespace Rewritten

theorem refl (s : Solver) : Rewritten s s := ⟨Faithful.refl s, rfl, rfl, rfl, rfl, id, id, id⟩

theorem trans (h : Rewritten s s') (h' : Rewritten s' s'') : Rewritten s s'' :=
  ⟨h.faithful.trans h'.faithful, h'.varCount_eq.trans h.varCount_eq, h'.config_eq.trans h.config_eq,
    h'.eliminationOff_eq.trans h.eliminationOff_eq, h'.schedule_eq.trans h.schedule_eq, fun hs => h'.unsat (h.unsat hs),
    fun hs => h'.not_sat (h.not_sat hs), fun hs => h'.currentLevel (h.currentLevel hs)⟩

end Rewritten

theorem Sound.currentLevel_eq (h : s.Sound) (he : s.prop.watches.enabled = false) : s.prop.trail.currentLevel = 0 :=
  (h.prop.idle he).currentLevel_eq

/-- A pass begins by switching the watch lists off. -/
theorem buildOccurrences_spec (h : s.Inv) (hi : s.prop.trail.Idle) :
    s.buildOccurrences.2.Inv ∧ Rewritten s s.buildOccurrences.2 ∧
      s.buildOccurrences.2.prop.watches.enabled = false ∧
        s.buildOccurrences.1.Exact s.varCount s.buildOccurrences.2.prop.clauses := by
  refine ⟨⟨⟨h.prop.disable hi, h.candidates, h.varMarks, h.eliminations⟩, h.litMarks⟩,
    ⟨?_, rfl, rfl, rfl, rfl, id, id, id⟩, rfl,
    Occurrences.exact_ofDatabase h.prop.listed fun r hr =>
      ⟨fun l hl => Lit.code_lt ((h.prop.fits hr).index_lt hl), (h.prop.fits hr).nodup.of_map Lit.var⟩⟩
  exact Faithful.of_prop (Propagator.Faithful.of_fact (fun _ => Iff.rfl) rfl) rfl Iff.rfl

/-- A derived clause is added to the formula, and to the lists if it is stored. -/
theorem addDerived_spec (h : s.Sound) (he : s.prop.watches.enabled = false) (ho : o.Exact s.varCount s.prop.clauses)
    (hi : ∀ l ∈ ls, l.var.index < s.varCount) (hv : (ls.map Lit.var).Nodup)
    (hel : ∀ l ∈ ls, (infoOf s.vars l.var).eliminated = false) :
    Stored [ls] s (s.addDerived o ls).2 ∧
      (s.addDerived o ls).1.Exact s.varCount (s.addDerived o ls).2.prop.clauses ∧
        ∀ r l, r ∈ o.of l → r ∈ (s.addDerived o ls).1.of l := by
  have h0 := h.currentLevel_eq he
  unfold addDerived
  split
  · next ht =>
    obtain ⟨l, hl, ht⟩ := List.any_eq_true.1 ht
    exact ⟨stored_of_isTrue h h0 hl ht, ho, fun _ _ => id⟩
  · next hn =>
    have hn : ∀ l ∈ ls, ¬ s.prop.trail.isTrue l := fun l hl ht => hn (List.any_eq_true.2 ⟨l, hl, ht⟩)
    split
    · next hks => exact ⟨stored_empty h h0 hks rfl, ho, fun _ _ => id⟩
    · next l hks => exact ⟨stored_fact h h0 hks hn hi rfl, ho, fun _ _ => id⟩
    · next a b rest hks =>
      have hcode : ∀ l ∈ a :: b :: rest, l.code < 2 * s.varCount := by
        rw [← hks]
        exact fun l hl => Lit.code_lt (hi l (List.mem_filter.1 hl).1)
      have hnodup : (a :: b :: rest).Nodup := hks ▸ (hv.of_map Lit.var).filter _
      exact ⟨stored_clause h h0 hks hn hi hv hel (c := { first := a, second := b, others := rest }) rfl rfl rfl,
        ho.add (c := { first := a, second := b, others := rest }) hcode rfl hnodup,
        fun r l hr => (Occurrences.mem_add (fun k hk => ho.size_eq.symm ▸ hcode k hk)).2 (Or.inl hr)⟩

/-! ## Fewer clauses -/

section Thin

variable {d : Database} {a : Assignment} {m : PartialAssignment} (ht : Database.Thinned s.prop.clauses d)
include ht

theorem Sound.thin (h : s.Sound) (he : s.prop.watches.enabled = false) : (s.withClauses d).Sound :=
  ⟨h.prop.thin_of_idle he ht, h.candidates, h.varMarks,
    h.eliminations.descends (Database.Descends.of_thinned ht)⟩

theorem ModelsAll.thin (ha : s.ModelsAll a) : (s.withClauses d).ModelsAll a := by
  refine ⟨ha.1, ha.2.fact, ?_⟩
  intro r hr
  show Satisfies a (d.get r).lits
  rw [ht.lits_eq hr]
  exact ha.2.clause (ht.isLive hr)

theorem Admits.of_thin (ha : (s.withClauses d).Admits m)
    (hd : ∀ r, s.prop.clauses.isLive r → ¬ d.isLive r → (s.prop.clauses.get r).learned = false →
      m.Meets (s.prop.clauses.get r).lits) : s.Admits m := by
  refine ⟨ha.1, ha.2.fact, ?_⟩
  intro r hr hn
  by_cases hl : d.isLive r
  · rw [← ht.lits_eq hl]
    exact ha.2.clause hl ((ht.learned_eq hl).trans hn)
  · exact hd r hr hl hn

end Thin

theorem Admits.of_delete {r : ClauseRef} (ha : (s.withClauses (s.prop.clauses.delete r)).Admits m)
    (hm : m.Meets (s.prop.clauses.get r).lits) : s.Admits m :=
  ha.of_thin (Database.Thinned.delete s.prop.clauses r) fun q hq hd _ => by
    rw [Database.isLive_delete, not_and, Classical.not_not] at hd
    exact hd hq ▸ hm

/-! ## Between passes -/

/-- What propagation and its consequences come to between two passes. -/
theorem settleFacts_spec (h : s.Inv) (h0 : s.prop.trail.currentLevel = 0) :
    s.settleFacts.2.Inv ∧ Rewritten s s.settleFacts.2 ∧ (s.settleFacts.1 = true → s.settleFacts.2.prop.trail.Idle) ∧
      (s.settleFacts.1 = false → s.settleFacts.2.status = .unsat) := by
  unfold settleFacts
  split
  · next hs => exact ⟨h, Rewritten.refl s, fun h => (nomatch h), fun _ => hs⟩
  · obtain ⟨h1, hp⟩ := propagate_searched h
    have hfr : s.propagate.2.schedule = s.schedule ∧ s.propagate.2.status = s.status := ⟨rfl, rfl⟩
    generalize s.propagate = out at h1 hp hfr
    obtain ⟨conflict, s₁⟩ := out
    have h0₁ : s₁.prop.trail.currentLevel = 0 := hp.advance.currentLevel_eq.trans h0
    have hr : Rewritten s s₁ := ⟨h1.faithful, h1.varCount_eq, h1.config_eq, h1.eliminationOff_eq, hfr.1,
      fun hs => hfr.2.trans hs, fun hs => hfr.2.symm ▸ hs, fun _ => h0₁⟩
    cases conflict with
    | some r =>
      refine ⟨⟨⟨h1.inv.prop, h1.inv.candidates, h1.inv.varMarks, h1.inv.eliminations⟩, h1.inv.litMarks⟩,
        hr.trans ⟨?_, rfl, rfl, rfl, rfl, fun _ => rfl, fun _ h => (nomatch h), id⟩, fun h => (nomatch h), fun _ => rfl⟩
      exact Faithful.of_unsat (fun a ha => (hp.conflict rfl).not_modelsAll h1.inv.prop.toLinked h0₁ ha.2) rfl rfl
    | none =>
      have ht := tidy_spec h1.inv hp.enabled (hp.complete rfl) h0₁
      refine ⟨ht.searched.inv, hr.trans ⟨ht.searched.faithful, ht.searched.varCount_eq, ht.searched.config_eq,
        ht.searched.eliminationOff_eq, ht.schedule_eq, fun hs => ht.status_eq.trans hs,
        fun hs => ht.status_eq.symm ▸ hs, fun _ => ht.currentLevel_eq⟩, ?_, fun h => (nomatch h)⟩
      intro _
      exact Propagator.idle_of_lits_eq_empty ht.searched.inv.prop.trail ht.currentLevel_eq ht.lits_eq

end Solver

end ClauseLearning
