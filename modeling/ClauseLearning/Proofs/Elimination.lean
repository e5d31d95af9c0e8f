import ClauseLearning.Proofs.Subsumption
import ClauseLearning.Simplification

/-!
# Elimination keeps the models but for the values of eliminated variables

* `Resolvent`, `resolve_spec` : the resolvent of two clauses follows from them (`Resolvent.satisfies`);
* `meets_extendPartial` : a partial assignment under which no resolvent on a variable is false extends to one under
  which none of the clauses is false that they replace;
* `Sides`, `Witnesses` : the clauses of a variable, and what its witness is for;
* `Solver.eliminateVar_spec`, `Solver.eliminateVars_spec` : elimination of one variable and of all candidates;
* `Solver.simplifyFormula_spec` : simplification as a whole.
-/

namespace ClauseLearning

/-! ## Resolution -/

/-- A resolvent on `v` of two clauses: their other literals, each variable once. -/
structure Resolvent (v : Var) (c d ls : List Lit) : Prop where
  mem {l : Lit} : l ∈ ls → l.var ≠ v ∧ (l ∈ c ∨ l ∈ d)
  nodup : (ls.map Lit.var).Nodup
  left {l : Lit} : l ∈ c → l.var ≠ v → l ∈ ls
  right {l : Lit} : l ∈ d → l.var ≠ v → l ∈ ls

section Resolve

variable {v : Var} {c d ls : List Lit} {a : Assignment} {marks : Marks} {n : Nat}

theorem nodup_vars (hn : c.Nodup) (ht : ∀ l ∈ c, -l ∉ c) : (c.map Lit.var).Nodup := by
  refine List.Nodup.map_on ?_ hn
  intro l hl k hk hv
  rcases Lit.eq_of_var_eq hv with h | rfl
  · exact h
  · exact absurd hl (ht k hk)

theorem neg_not_mem {l : Lit} (hv : (d.map Lit.var).Nodup) (hl : l ∈ d) : -l ∉ d := fun hn =>
  Lit.neg_ne l (List.inj_on_of_nodup_map hv hn hl (Lit.var_neg l))

/-- Resolution is sound. -/
theorem Resolvent.satisfies (h : Resolvent v c d ls) {l : Lit} (hc : ∀ k ∈ c, k.var = v → k = l)
    (hd : ∀ k ∈ d, k.var = v → k = -l) (hca : Satisfies a c) (hda : Satisfies a d) : Satisfies a ls := by
  obtain ⟨k, hk, hka⟩ := hca
  by_cases hkv : k.var = v
  · obtain ⟨j, hj, hja⟩ := hda
    by_cases hjv : j.var = v
    · rw [hc k hk hkv] at hka
      rw [hd j hj hjv, Lit.holds_neg] at hja
      exact absurd hka hja
    · exact ⟨j, h.right hj hjv, hja⟩
  · exact ⟨k, h.left hk hkv, hka⟩

theorem resolveRest_none (marks : Marks) (v : Var) (d : List Lit) (h : resolveRest marks v d = none) :
    ∃ l ∈ d, l.var ≠ v ∧ marks.has (-l).code := by
  induction d with
  | nil => cases h
  | cons l d ih =>
    rw [resolveRest] at h
    split at h
    · obtain ⟨k, hk, hk'⟩ := ih h
      exact ⟨k, List.mem_cons_of_mem l hk, hk'⟩
    · next hl =>
      split at h
      · next hn => exact ⟨l, List.mem_cons_self, fun hv => hl (Or.inl hv), hn⟩
      · rw [Option.map_eq_none_iff] at h
        obtain ⟨k, hk, hk'⟩ := ih h
        exact ⟨k, List.mem_cons_of_mem l hk, hk'⟩

theorem resolveRest_some (marks : Marks) (v : Var) (d : List Lit) {rest : List Lit}
    (h : resolveRest marks v d = some rest) : rest.Sublist d ∧
      (∀ l ∈ rest, l.var ≠ v ∧ ¬ marks.has l.code ∧ ¬ marks.has (-l).code) ∧
        ∀ l ∈ d, l.var ≠ v → l ∈ rest ∨ marks.has l.code := by
  induction d generalizing rest with
  | nil =>
    obtain rfl := Option.some.inj h
    exact ⟨List.Sublist.refl _, fun l hl => (nomatch hl), fun l hl => (nomatch hl)⟩
  | cons l d ih =>
    rw [resolveRest] at h
    split at h
    · next hl =>
      obtain ⟨h1, h2, h3⟩ := ih h
      refine ⟨h1.cons l, h2, ?_⟩
      intro k hk hkv
      rcases List.mem_cons.1 hk with rfl | hk
      · exact Or.inr (hl.resolve_left hkv)
      · exact h3 k hk hkv
    · next hl =>
      rw [not_or] at hl
      split at h
      · cases h
      · next hn =>
        obtain ⟨rest', hr, rfl⟩ := Option.map_eq_some_iff.1 h
        obtain ⟨h1, h2, h3⟩ := ih hr
        refine ⟨h1.cons_cons l, ?_, ?_⟩
        · intro k hk
          rcases List.mem_cons.1 hk with rfl | hk
          · exact ⟨hl.1, hl.2, hn⟩
          · exact h2 k hk
        · intro k hk hkv
          rcases List.mem_cons.1 hk with rfl | hk
          · exact Or.inl List.mem_cons_self
          · exact (h3 k hk hkv).imp_left (List.mem_cons_of_mem l)

/-- The marks are clear again, and what is found is the resolvent. -/
theorem resolve_spec (hm : marks.Clear n) (hc : ∀ l ∈ c, l.code < n) (hcv : (c.map Lit.var).Nodup)
    (hdv : (d.map Lit.var).Nodup) : (resolve marks c d v).2.Clear n ∧
      ((resolve marks c d v).1 = none → ∃ l ∈ c, l.var ≠ v ∧ -l ∈ d) ∧
        ∀ ls, (resolve marks c d v).1 = some ls → Resolvent v c d ls := by
  have hkept {l : Lit} : l ∈ c.filter (fun l => l.var != v) ↔ l ∈ c ∧ l.var ≠ v := by
    rw [List.mem_filter, bne_iff_ne]
  have hmarked (l : Lit) :
      (marks.markAll ((c.filter fun l => l.var != v).map Lit.code)).has l.code ↔ l ∈ c ∧ l.var ≠ v := by
    rw [Marks.has_markAll, hm.has_eq, List.mem_map, ← hkept]
    · constructor
      · rintro (⟨k, hk, hkl⟩ | hf)
        · exact Lit.ext_code hkl ▸ hk
        · cases hf
      · exact fun hl => Or.inl ⟨l, hl, rfl⟩
    · intro i hi
      obtain ⟨k, hk, rfl⟩ := List.mem_map.1 hi
      rw [hm.size_eq]
      exact hc k (hkept.1 hk).1
  refine ⟨⟨?_, fun i => Bool.eq_false_iff.2 ?_⟩, ?_, ?_⟩
  · exact Marks.size_unmarkAll.trans (Marks.size_markAll.trans hm.size_eq)
  · intro hi
    obtain ⟨h1, h2⟩ := Marks.has_unmarkAll.1 hi
    rw [Marks.has_markAll, hm.has_eq] at h2
    · obtain ⟨k, hk, rfl⟩ := List.mem_map.1 (h2.resolve_right Bool.false_ne_true)
      exact h1 (List.mem_map_of_mem (hkept.1 hk).1)
    · intro i hi
      obtain ⟨k, hk, rfl⟩ := List.mem_map.1 hi
      rw [hm.size_eq]
      exact hc k (hkept.1 hk).1
  · intro hn
    obtain ⟨l, hl, hlv, hlm⟩ := resolveRest_none _ _ _ (Option.map_eq_none_iff.1 hn)
    exact ⟨-l, ((hmarked _).1 hlm).1, (Lit.var_neg l).symm ▸ hlv, (Lit.neg_neg l).symm ▸ hl⟩
  · intro ls hs
    obtain ⟨rest, hr, rfl⟩ := Option.map_eq_some_iff.1 hs
    obtain ⟨h1, h2, h3⟩ := resolveRest_some _ _ _ hr
    refine ⟨?_, ?_, fun hl hv => List.mem_append_left _ (hkept.2 ⟨hl, hv⟩), ?_⟩
    · intro l hl
      rcases List.mem_append.1 hl with hl | hl
      · exact ⟨(hkept.1 hl).2, Or.inl (hkept.1 hl).1⟩
      · exact ⟨(h2 l hl).1, Or.inr (h1.mem hl)⟩
    · rw [List.map_append, List.nodup_append]
      refine ⟨(List.filter_sublist.map _).nodup hcv, (h1.map _).nodup hdv, ?_⟩
      intro x hx y hy hxy
      obtain ⟨k, hk, rfl⟩ := List.mem_map.1 hx
      obtain ⟨j, hj, rfl⟩ := List.mem_map.1 hy
      obtain ⟨-, hj1, hj2⟩ := h2 j hj
      rcases Lit.eq_of_var_eq hxy with rfl | rfl
      · exact hj1 ((hmarked _).2 (hkept.1 hk))
      · exact hj2 ((hmarked _).2 (hkept.1 hk))
    · intro l hl hv
      rcases h3 l hl hv with hl' | hl'
      · exact List.mem_append_right _ hl'
      · exact List.mem_append_left _ (hkept.2 ((hmarked l).1 hl'))

end Resolve

/-! ## All resolvents -/

/-- The clauses in `found` are resolvents of the given pairs, and there is one for each pair that does not clash. -/
structure Resolvents (v : Var) (pairs : List (List Lit × List Lit)) (found : List (List Lit)) : Prop where
  resolvent {ls : List Lit} : ls ∈ found → ∃ cd ∈ pairs, Resolvent v cd.1 cd.2 ls
  covers {cd : List Lit × List Lit} : cd ∈ pairs →
    (∃ ls ∈ found, Resolvent v cd.1 cd.2 ls) ∨ ∃ l ∈ cd.1, l.var ≠ v ∧ -l ∈ cd.2

/-- With one of the values for the variable of a witness no clause is false, if no two of them are without it. -/
theorem meets_extendPartial (m : PartialAssignment) {l : Lit} (pos neg : List (List Lit)) (hpos : ∀ c ∈ pos, l ∈ c)
    (hneg : ∀ c ∈ neg, -l ∈ c) (hv : ∀ c ∈ pos, (c.map Lit.var).Nodup)
    (hres : ∀ c ∈ pos, ∀ d ∈ neg,
      (∃ k ∈ c, k.var ≠ l.var ∧ m.Allows k) ∨ ∃ k ∈ d, k.var ≠ l.var ∧ m.Allows k) :
    ∀ c, c ∈ pos ∨ c ∈ neg →
      (Witness.extendPartial m { lit := l, clauses := pos.map fun c => c.filter (· != l) }).Meets c := by
  have hset {k x : Lit} (hk : k.var ≠ l.var) (hx : x.var = l.var) (ha : m.Allows k) : (m.set x).Allows k :=
    (PartialAssignment.allows_set_of_ne (hx ▸ hk)).2 ha
  unfold Witness.extendPartial
  split
  · next hall =>
    rintro c (hc | hc)
    · obtain ⟨k, hk, hka⟩ := hall _ (List.mem_map_of_mem hc)
      obtain ⟨hkc, hkl⟩ := List.mem_filter.1 hk
      refine ⟨k, hkc, hset (fun hkv => bne_iff_ne.1 hkl ?_) (Lit.var_neg l) hka⟩
      exact List.inj_on_of_nodup_map (hv c hc) hkc (hpos c hc) hkv
    · exact ⟨-l, hneg c hc, m.allows_set_self (-l)⟩
  · next hall =>
    obtain ⟨c₀, hc₀⟩ := Classical.not_forall.1 hall
    obtain ⟨hmap, hn⟩ := Classical.not_imp.1 hc₀
    obtain ⟨c, hcp, rfl⟩ := List.mem_map.1 hmap
    rintro d (hd | hd)
    · exact ⟨l, hpos d hd, m.allows_set_self l⟩
    · rcases hres c hcp d hd with ⟨k, hk, hkv, hka⟩ | ⟨k, hk, hkv, hka⟩
      · exact absurd ⟨k, List.mem_filter.2 ⟨hk, bne_iff_ne.2 fun h => hkv (h ▸ rfl)⟩, hka⟩ hn
      · exact ⟨k, hk, hset hkv rfl hka⟩

namespace Solver

variable {s s' : Solver} {o : Occurrences} {v : Var} {d : Database} {n : Nat}

theorem collectResolvents_spec (v : Var) (maxLength maxCount : Nat) (pairs : List (ClauseRef × ClauseRef))
    (found : Array (List Lit)) {marks : Marks} (hm : marks.Clear n) (pre : List (List Lit × List Lit))
    (hp : ∀ rq ∈ pairs, (∀ l ∈ (d.get rq.1).lits, l.code < n) ∧ ((d.get rq.1).lits.map Lit.var).Nodup ∧
      ((d.get rq.2).lits.map Lit.var).Nodup)
    (hf : Resolvents v pre found.toList) :
    (collectResolvents d v maxLength maxCount pairs found marks).2.Clear n ∧
      ∀ all, (collectResolvents d v maxLength maxCount pairs found marks).1 = some all →
        Resolvents v (pre ++ pairs.map fun rq => ((d.get rq.1).lits, (d.get rq.2).lits)) all.toList := by
  induction pairs generalizing found marks pre with
  | nil =>
    refine ⟨hm, ?_⟩
    intro all h
    obtain rfl := Option.some.inj h
    rw [List.map_nil, List.append_nil]
    exact hf
  | cons rq pairs ih =>
    obtain ⟨r, q⟩ := rq
    obtain ⟨hc, hcv, hdv⟩ := hp (r, q) List.mem_cons_self
    have hp' := fun rq hrq => hp rq (List.mem_cons_of_mem (r, q) hrq)
    obtain ⟨h1, h2, h3⟩ := resolve_spec (v := v) hm hc hcv hdv
    rw [collectResolvents]
    dsimp only at hc hcv hdv h1 h2 h3
    generalize resolve marks (d.get r).lits (d.get q).lits v = out at h1 h2 h3
    obtain ⟨resolvent, marks'⟩ := out
    rw [List.map_cons, List.append_cons]
    cases resolvent with
    | none =>
      refine ih found h1 _ hp' ⟨fun hls => ?_, fun hcd => ?_⟩
      · obtain ⟨cd, hcd, hr⟩ := hf.resolvent hls
        exact ⟨cd, List.mem_append_left _ hcd, hr⟩
      · rcases List.mem_append.1 hcd with hcd | hcd
        · exact hf.covers hcd
        · obtain rfl := List.mem_singleton.1 hcd
          exact Or.inr (h2 rfl)
    | some ls =>
      have hr := h3 ls rfl
      dsimp only
      split
      · exact ⟨h1, fun all h => (nomatch h)⟩
      · refine ih (found.push ls) h1 _ hp' ⟨fun hls => ?_, fun hcd => ?_⟩
        · rw [Array.toList_push, List.mem_append] at hls
          rcases hls with hls | hls
          · obtain ⟨cd, hcd, hr⟩ := hf.resolvent hls
            exact ⟨cd, List.mem_append_left _ hcd, hr⟩
          · obtain rfl := List.mem_singleton.1 hls
            exact ⟨_, List.mem_append_right _ (List.mem_singleton_self _), hr⟩
        · rw [Array.toList_push]
          rcases List.mem_append.1 hcd with hcd | hcd
          · refine (hf.covers hcd).imp_left fun ⟨ls, hls, hr⟩ => ⟨ls, List.mem_append_left _ hls, hr⟩
          · obtain rfl := List.mem_singleton.1 hcd
            exact Or.inl ⟨ls, List.mem_append_right _ (List.mem_singleton_self _), hr⟩

/-- All pairs of the literals of two lists of clauses. -/
def literalPairs (d : Database) (pos neg : List ClauseRef) : List (List Lit × List Lit) :=
  pos.flatMap fun r => neg.map fun q => ((d.get r).lits, (d.get q).lits)

theorem mem_literalPairs {pos neg : List ClauseRef} {cd : List Lit × List Lit} :
    cd ∈ literalPairs d pos neg ↔ ∃ r ∈ pos, ∃ q ∈ neg, cd = ((d.get r).lits, (d.get q).lits) := by
  unfold literalPairs
  rw [List.mem_flatMap]
  refine exists_congr fun r => and_congr_right ?_
  intro _
  rw [List.mem_map]
  refine exists_congr fun q => and_congr_right ?_
  intro _
  exact eq_comm

theorem resolvents_spec (h : s.Inv) (v : Var) {pos neg : List ClauseRef} (hp : ∀ r ∈ pos, s.prop.clauses.isLive r)
    (hn : ∀ r ∈ neg, s.prop.clauses.isLive r) :
    ∃ marks b, (s.resolvents? v pos neg).2 = { s with litMarks := marks, overflowed := b } ∧
      marks.Clear (2 * s.varCount + 1) ∧
        ∀ found, (s.resolvents? v pos neg).1 = some found →
          Resolvents v (literalPairs s.prop.clauses pos neg) found := by
  have hpairs : ∀ rq ∈ pos.flatMap fun p => neg.map fun n => (p, n),
      (∀ l ∈ (s.prop.clauses.get rq.1).lits, l.code < 2 * s.varCount + 1) ∧
        ((s.prop.clauses.get rq.1).lits.map Lit.var).Nodup ∧ ((s.prop.clauses.get rq.2).lits.map Lit.var).Nodup := by
    intro rq hrq
    obtain ⟨r, hr, hrq⟩ := List.mem_flatMap.1 hrq
    obtain ⟨q, hq, rfl⟩ := List.mem_map.1 hrq
    refine ⟨?_, (h.prop.fits (hp r hr)).nodup, (h.prop.fits (hn q hq)).nodup⟩
    intro l hl
    exact Nat.lt_succ_of_lt (Lit.code_lt ((h.prop.fits (hp r hr)).index_lt hl))
  obtain ⟨h1, h2⟩ := collectResolvents_spec v s.config.elimResolventLimit.toNat
    (Counting.words.keep (pos.length + neg.length + s.config.elimGrowLimit.toNat)) _ #[] h.litMarks [] hpairs
    ⟨fun hls => (nomatch hls), fun hcd => (nomatch hcd)⟩
  refine ⟨_, _, rfl, h1, ?_⟩
  intro found hf
  obtain ⟨all, ha, rfl⟩ := Option.map_eq_some_iff.1 hf
  have hr := h2 all ha
  rw [List.nil_append, List.map_flatMap] at hr
  simpa only [literalPairs, List.map_map, Function.comp_def] using hr

/-! ## Derived clauses -/

/-- Adds derived clauses in turn. -/
def addAll (o : Occurrences) (s : Solver) (f : List (List Lit)) : Occurrences × Solver :=
  f.foldl (fun os ls => os.2.addDerived os.1 ls) (o, s)

theorem addAll_spec {f : List (List Lit)} (h : s.Sound) (he : s.prop.watches.enabled = false)
    (ho : o.Exact s.varCount s.prop.clauses)
    (hf : ∀ ls ∈ f, (∀ l ∈ ls, l.var.index < s.varCount) ∧ (ls.map Lit.var).Nodup ∧
      ∀ l ∈ ls, (infoOf s.vars l.var).eliminated = false) :
    Stored f s (addAll o s f).2 ∧ (addAll o s f).1.Exact s.varCount (addAll o s f).2.prop.clauses := by
  induction f generalizing o s with
  | nil => exact ⟨Stored.of_admits h fun m _ c hc => (nomatch hc), ho⟩
  | cons ls f ih =>
    obtain ⟨hi, hv, hel⟩ := hf ls List.mem_cons_self
    obtain ⟨h1, h2, -⟩ := addDerived_spec h he ho hi hv hel
    have hstep : addAll o s (ls :: f) = addAll (s.addDerived o ls).1 (s.addDerived o ls).2 f := rfl
    rw [hstep]
    generalize s.addDerived o ls = out at h1 h2
    obtain ⟨o₁, s₁⟩ := out
    dsimp only at h1 h2 ⊢
    obtain ⟨p, st, hs⟩ := h1.frame
    have hcount : s₁.varCount = s.varCount := by rw [hs]; rfl
    have hvars : s₁.vars = s.vars := by rw [hs]
    rw [← hcount] at h2 ⊢
    obtain ⟨h3, h4⟩ := ih h1.sound (h1.enabled_eq.trans he) h2 fun ks hks => by
      rw [hcount, hvars]
      exact hf ks (List.mem_cons_of_mem ls hks)
    exact ⟨h1.trans h3, h4⟩

theorem addDerived_withWitnesses (o : Occurrences) (s : Solver) (ws : List Witness) (ls : List Lit) :
    ({ s with witnesses := ws } : Solver).addDerived o ls =
      ((s.addDerived o ls).1, { (s.addDerived o ls).2 with witnesses := ws }) := by
  unfold addDerived
  dsimp only
  split
  · rfl
  · split <;> rfl

theorem addAll_withWitnesses (o : Occurrences) (s : Solver) (ws : List Witness) (f : List (List Lit)) :
    addAll o { s with witnesses := ws } f =
      ((addAll o s f).1, { (addAll o s f).2 with witnesses := ws }) := by
  induction f generalizing o s with
  | nil => rfl
  | cons ls f ih =>
    show addAll (({ s with witnesses := ws } : Solver).addDerived o ls).1
      (({ s with witnesses := ws } : Solver).addDerived o ls).2 f = _
    rw [addDerived_withWitnesses]
    exact ih _ _

/-! ## One variable -/

theorem mem_occurrencesOf {l : Lit} {r : ClauseRef} (ho : o.Exact s.varCount s.prop.clauses) :
    r ∈ s.occurrencesOf o l ↔
      s.prop.clauses.isLive r ∧ (s.prop.clauses.get r).learned = false ∧ l ∈ (s.prop.clauses.get r).lits := by
  unfold occurrencesOf
  rw [List.mem_filter, and_comm]
  exact and_congr_right fun hr => ho.mem_iff hr

/-- The irredundant clauses that mention a variable, by its polarity. -/
structure Sides (d : Database) (v : Var) (pos neg : List ClauseRef) : Prop where
  mem_pos {r : ClauseRef} : r ∈ pos ↔ d.isLive r ∧ (d.get r).learned = false ∧ v.positive ∈ (d.get r).lits
  mem_neg {r : ClauseRef} : r ∈ neg ↔ d.isLive r ∧ (d.get r).learned = false ∧ v.negative ∈ (d.get r).lits

theorem sides_occurrencesOf (ho : o.Exact s.varCount s.prop.clauses) :
    Sides s.prop.clauses v (s.occurrencesOf o v.positive) (s.occurrencesOf o v.negative) :=
  ⟨mem_occurrencesOf ho, mem_occurrencesOf ho⟩

section Sides

variable {pos neg : List ClauseRef} (hp : Sides d v pos neg)
include hp

theorem Sides.isLive {r : ClauseRef} (hr : r ∈ pos ∨ r ∈ neg) : d.isLive r ∧ (d.get r).learned = false := by
  rcases hr with hr | hr
  · obtain ⟨h1, h2, -⟩ := hp.mem_pos.1 hr
    exact ⟨h1, h2⟩
  · obtain ⟨h1, h2, -⟩ := hp.mem_neg.1 hr
    exact ⟨h1, h2⟩

theorem Sides.mem {r : ClauseRef} {l : Lit} (hr : d.isLive r) (hn : (d.get r).learned = false) (hl : l ∈ (d.get r).lits)
    (hv : l.var = v) : r ∈ pos ∨ r ∈ neg := by
  rcases Lit.eq_positive_or_negative hv with rfl | rfl
  · exact Or.inl (hp.mem_pos.2 ⟨hr, hn, hl⟩)
  · exact Or.inr (hp.mem_neg.2 ⟨hr, hn, hl⟩)

end Sides

/-- What the witness of a variable is for: no clause of either side is false after the extension. -/
structure Witnesses (d : Database) (v : Var) (pos neg : List ClauseRef) (w : Witness) : Prop where
  var_eq : w.lit.var = v
  mem {c : List Lit} {k : Lit} : c ∈ w.clauses → k ∈ c → ∃ r, (r ∈ pos ∨ r ∈ neg) ∧ k ∈ (d.get r).lits ∧ k.var ≠ v
  meets {m : PartialAssignment} :
    (∀ r ∈ pos, ∀ q ∈ neg, (∃ k ∈ (d.get r).lits, k.var ≠ v ∧ m.Allows k) ∨
      ∃ k ∈ (d.get q).lits, k.var ≠ v ∧ m.Allows k) →
      ∀ r, r ∈ pos ∨ r ∈ neg → (w.extendPartial m).Meets (d.get r).lits

theorem witnesses_side {l : Lit} {pos neg : List ClauseRef} (hl : l.var = v) (hpos : ∀ r ∈ pos, l ∈ (d.get r).lits)
    (hneg : ∀ r ∈ neg, -l ∈ (d.get r).lits) (hv : ∀ r ∈ pos, ((d.get r).lits.map Lit.var).Nodup) :
    Witnesses d v pos neg { lit := l, clauses := pos.map fun r => (d.get r).lits.filter (· != l) } where
  var_eq := hl
  mem {c k} hc hk := by
    obtain ⟨r, hr, rfl⟩ := List.mem_map.1 hc
    obtain ⟨hk, hkl⟩ := List.mem_filter.1 hk
    refine ⟨r, Or.inl hr, hk, fun h => bne_iff_ne.1 hkl ?_⟩
    exact List.inj_on_of_nodup_map (hv r hr) hk (hpos r hr) (h.trans hl.symm)
  meets {m} hres r hr := by
    subst hl
    have := meets_extendPartial m (pos.map fun r => (d.get r).lits) (neg.map fun r => (d.get r).lits)
      (List.forall_mem_map.2 hpos) (List.forall_mem_map.2 hneg)
      (List.forall_mem_map.2 hv) (List.forall_mem_map.2 fun r hr => List.forall_mem_map.2 fun q hq => hres r hr q hq)
      (d.get r).lits (hr.imp (fun h => List.mem_map_of_mem h) fun h => List.mem_map_of_mem h)
    rw [List.map_map] at this
    exact this

theorem Witnesses.symm {pos neg : List ClauseRef} {w : Witness} (h : Witnesses d v neg pos w) :
    Witnesses d v pos neg w where
  var_eq := h.var_eq
  mem hc hk := by
    obtain ⟨r, hr, hk⟩ := h.mem hc hk
    exact ⟨r, hr.symm, hk⟩
  meets hres r hr := h.meets (fun q hq r hr => (hres r hr q hq).symm) r hr.symm

theorem witness_spec {pos neg : List ClauseRef} (h : s.Inv) (hp : Sides s.prop.clauses v pos neg) :
    Witnesses s.prop.clauses v pos neg (s.witness v pos neg) := by
  have hn : v.negative = -v.positive := by rw [Lit.positive_eq_neg_negative, Lit.neg_neg]
  have hpv : v.positive.var = v := Lit.var_lit v true
  have hnv : v.negative.var = v := Lit.var_lit v false
  unfold witness
  split
  next l refs hs =>
  split at hs
  · obtain ⟨rfl, rfl⟩ := Prod.mk.inj hs
    refine witnesses_side hpv (fun r hr => (hp.mem_pos.1 hr).2.2) ?_ ?_
    · intro r hr
      rw [← hn]
      exact (hp.mem_neg.1 hr).2.2
    · intro r hr
      exact (h.prop.fits (hp.mem_pos.1 hr).1).nodup
  · obtain ⟨rfl, rfl⟩ := Prod.mk.inj hs
    refine Witnesses.symm (witnesses_side hnv (fun r hr => (hp.mem_neg.1 hr).2.2) ?_ ?_)
    · intro r hr
      rw [← Lit.positive_eq_neg_negative]
      exact (hp.mem_pos.1 hr).2.2
    · intro r hr
      exact (h.prop.fits (hp.mem_neg.1 hr).1).nodup

/-- A state in the course of elimination, which began with `s`. -/
structure Eliminating (s : Solver) (o : Occurrences) (s' : Solver) : Prop where
  inv : s'.Inv
  disabled : s'.prop.watches.enabled = false
  exact : o.Exact s'.varCount s'.prop.clauses
  rewritten : Rewritten s s'
  dormant : s.Dormant → s'.Dormant

section EliminateVar

variable {pos neg : List ClauseRef} {found : List (List Lit)}

theorem exists_parents (hf : Resolvents v (literalPairs s.prop.clauses pos neg) found) {ls : List Lit}
    (hls : ls ∈ found) : ∃ r q, r ∈ pos ∧ q ∈ neg ∧
    Resolvent v (s.prop.clauses.get r).lits (s.prop.clauses.get q).lits ls := by
  obtain ⟨cd, hcd, hr⟩ := hf.resolvent hls
  obtain ⟨r, hrp, q, hqn, rfl⟩ := mem_literalPairs.1 hcd
  exact ⟨r, q, hrp, hqn, hr⟩

variable (h : s.Inv) (hp : Sides s.prop.clauses v pos neg)
  (hf : Resolvents v (literalPairs s.prop.clauses pos neg) found)

include h hp hf in
theorem mem_resolvent {ls : List Lit} {l : Lit} (hls : ls ∈ found) (hl : l ∈ ls) :
    l.var.index < s.varCount ∧ (infoOf s.vars l.var).eliminated = false := by
  obtain ⟨r, q, hr, hq, hres⟩ := exists_parents hf hls
  rcases (hres.mem hl).2 with hl | hl
  · obtain ⟨h1, h2⟩ := hp.isLive (Or.inl hr)
    exact ⟨(h.prop.fits h1).index_lt hl, h.eliminations.purged h1 h2 hl⟩
  · obtain ⟨h1, h2⟩ := hp.isLive (Or.inr hq)
    exact ⟨(h.prop.fits h1).index_lt hl, h.eliminations.purged h1 h2 hl⟩

include h hp hf in
theorem satisfiesAll_resolvents {a : Assignment} (ha : s.ModelsAll a) : SatisfiesAll a found := by
  intro ls hls
  obtain ⟨r, q, hr, hq, hres⟩ := exists_parents hf hls
  obtain ⟨hrl, -, hrm⟩ := hp.mem_pos.1 hr
  obtain ⟨hql, -, hqm⟩ := hp.mem_neg.1 hq
  refine hres.satisfies (l := v.positive) ?_ ?_ (ha.2.clause hrl) (ha.2.clause hql)
  · intro k hk hkv
    exact List.inj_on_of_nodup_map (h.prop.fits hrl).nodup hk hrm (hkv.trans (Lit.var_lit v true).symm)
  · intro k hk hkv
    rw [Lit.positive_eq_neg_negative, Lit.neg_neg]
    exact List.inj_on_of_nodup_map (h.prop.fits hql).nodup hk hqm (hkv.trans (Lit.var_lit v false).symm)

include hf in
theorem met_without {m : PartialAssignment} (ha : m.MeetsAll found) {r q : ClauseRef} (hr : r ∈ pos) (hq : q ∈ neg) :
    (∃ k ∈ (s.prop.clauses.get r).lits, k.var ≠ v ∧ m.Allows k) ∨
      ∃ k ∈ (s.prop.clauses.get q).lits, k.var ≠ v ∧ m.Allows k := by
  rcases hf.covers (mem_literalPairs.2 ⟨r, hr, q, hq, rfl⟩) with ⟨ls, hls, hres⟩ | ⟨k, hk, hkv, hk'⟩
  · obtain ⟨k, hk, hka⟩ := ha ls hls
    obtain ⟨hkv, hk⟩ := hres.mem hk
    exact hk.imp (fun hk => ⟨k, hk, hkv, hka⟩) fun hk => ⟨k, hk, hkv, hka⟩
  · exact (m.allows_or k).imp (fun hka => ⟨k, hk, hkv, hka⟩) fun hka => ⟨-k, hk', (Lit.var_neg k).symm ▸ hkv, hka⟩

include hp hf in
theorem admits_extendPartial {w : Witness} {d : Database} (hu : ¬ s.prop.trail.isAssigned v)
    (hw : Witnesses s.prop.clauses v pos neg w) (ht : Database.Thinned s.prop.clauses d)
    (hd : ∀ r, s.prop.clauses.isLive r → ¬ (r ∈ pos ∨ r ∈ neg) → d.isLive r) {m : PartialAssignment}
    (ha : (s.withClauses d).Admits m) (hs : m.MeetsAll found) : s.Admits (w.extendPartial m) := by
  have hext {k : Lit} (hk : k.var ≠ v) : (w.extendPartial m).Allows k ↔ m.Allows k :=
    PartialAssignment.allows_extendPartial (hw.var_eq.symm ▸ hk)
  refine ⟨ha.1, fun {l} hl => (hext ?_).2 (ha.2.fact hl), ?_⟩
  · rintro rfl
    exact hu (Trail.isAssigned_of_isTrue hl.1)
  · intro r hr hn
    by_cases hside : r ∈ pos ∨ r ∈ neg
    · exact hw.meets (fun r hr q hq => met_without hf hs hr hq) r hside
    · have hl := hd r hr hside
      obtain ⟨k, hk, hka⟩ := ha.2.clause (r := r) hl ((ht.learned_eq hl).trans hn)
      change k ∈ (d.get r).lits at hk
      rw [ht.lits_eq hl] at hk
      exact ⟨k, hk, (hext fun hkv => hside (hp.mem hr hn hk hkv)).2 hka⟩

include h hp in
omit hf in
theorem not_eliminated_of_side {r : ClauseRef} (hr : r ∈ pos ∨ r ∈ neg) : (infoOf s.vars v).eliminated = false := by
  obtain ⟨hl, hn⟩ := hp.isLive hr
  rcases hr with hr | hr
  · exact Lit.var_lit v true ▸ h.eliminations.purged hl hn (hp.mem_pos.1 hr).2.2
  · exact Lit.var_lit v false ▸ h.eliminations.purged hl hn (hp.mem_neg.1 hr).2.2

include h hp hf

theorem eliminations_cons {w : Witness} {d e : Database} (hx : v.index < s.varCount)
    (hel : (infoOf s.vars v).eliminated = false)
    (hw : Witnesses s.prop.clauses v pos neg w) (ht : Database.Thinned s.prop.clauses d)
    (hd : ∀ r, r ∈ pos ∨ r ∈ neg → ¬ d.isLive r)
    (he : ∀ r, e.isLive r → d.isLive r ∧ e.get r = d.get r ∨ ∃ ls ∈ found, ∀ l ∈ (e.get r).lits, l ∈ ls) :
    Eliminations (s.vars.modify v.index ({ · with eliminated := true })) (w :: s.witnesses) e where
  witnessed {u} := by
    rw [infoOf_modify hx, List.exists_mem_cons_iff, hw.var_eq, ← h.eliminations.witnessed]
    split
    · next hu => exact iff_of_true rfl (Or.inl hu.symm)
    · next hu => exact (or_iff_right fun huv => hu huv.symm).symm
  distinct := by
    rw [List.map_cons, hw.var_eq]
    refine List.nodup_cons.2 ⟨fun hm => ?_, h.eliminations.distinct⟩
    obtain ⟨w', hw', hv⟩ := List.mem_map.1 hm
    rw [h.eliminations.witnessed.2 ⟨w', hw', hv⟩] at hel
    cases hel
  purged {r l} hr hn hl := by
    rw [infoOf_modify hx]
    have hboth : l.var ≠ v ∧ (infoOf s.vars l.var).eliminated = false := by
      rcases he r hr with ⟨hrd, hre⟩ | ⟨ls, hls, hsub⟩
      · rw [hre, ht.lits_eq hrd] at hl
        rw [hre, ht.learned_eq hrd] at hn
        have hrs := ht.isLive hrd
        exact ⟨fun hv => hd r (hp.mem hrs hn hl hv) hrd, h.eliminations.purged hrs hn hl⟩
      · obtain ⟨r, q, hr, hq, hres⟩ := exists_parents hf hls
        exact ⟨(hres.mem (hsub l hl)).1, (mem_resolvent h hp hf hls (hsub l hl)).2⟩
    rw [if_neg hboth.1]
    exact hboth.2
  ordered := by
    rw [Array.size_modify]
    refine ⟨hw.var_eq.symm ▸ hx, ?_, h.eliminations.ordered⟩
    intro c hc l hl
    obtain ⟨r, hr, hlr, hlv⟩ := hw.mem hc hl
    obtain ⟨hrl, hrn⟩ := hp.isLive hr
    refine ⟨(h.prop.fits hrl).index_lt hlr, hw.var_eq.symm ▸ hlv, ?_⟩
    intro w' hw' hwl
    have := h.eliminations.purged hrl hrn hlr
    rw [h.eliminations.witnessed.2 ⟨w', hw', hwl⟩] at this
    cases this

theorem eliminating_of_stored {w : Witness} {d : Database} {marks : Marks} {b : Bool} (hx : v.index < s.varCount)
    (hu : ¬ s.prop.trail.isAssigned v) (hel : (infoOf s.vars v).eliminated = false)
    (he : s.prop.watches.enabled = false) (hm : marks.Clear (2 * s.varCount + 1))
    (hw : Witnesses s.prop.clauses v pos neg w) (ht : Database.Thinned s.prop.clauses d)
    (hd : ∀ r, d.isLive r ↔ s.prop.clauses.isLive r ∧ ¬ (r ∈ pos ∨ r ∈ neg)) {s₁ : Solver}
    (h₁ : Stored found (({ s with litMarks := marks, overflowed := b } : Solver).withClauses d) s₁)
    (ho : o.Exact s.varCount s₁.prop.clauses) :
    Eliminating s o
      { s₁ with
        witnesses := w :: s.witnesses
        vars := s₁.vars.modify v.index ({ · with eliminated := true })
        heap := s₁.heap.setEnabled v false } := by
  obtain ⟨p, st, rfl⟩ := h₁.frame
  have hcount : (s.vars.modify v.index ({ · with eliminated := true })).size = s.varCount := Array.size_modify
  refine
    { inv := ⟨⟨?_, h₁.sound.candidates.eliminate hx, ?_, ?_⟩, ?_⟩
      disabled := h₁.enabled_eq.trans he
      exact := ?_
      rewritten := ⟨⟨fun {a} ha => ?_, [w], rfl, fun a ha => ?_⟩, hcount, rfl, rfl, rfl, h₁.unsat, h₁.not_sat,
        fun h0 => h₁.currentLevel_eq.trans h0⟩
      dormant := fun hdorm u hue hua => ?_ }
  · show p.Inv (s.vars.modify v.index _).size
    rw [hcount]
    exact h₁.sound.prop
  · show s.varMarks.Clear (s.vars.modify v.index _).size
    rw [hcount]
    exact h.varMarks
  · exact eliminations_cons h hp hf hx hel hw ht (fun r hr hl => ((hd r).1 hl).2 hr) fun r hr => h₁.added hr
  · show marks.Clear (2 * (s.vars.modify v.index _).size + 1)
    rw [hcount]
    exact hm
  · show o.Exact (s.vars.modify v.index _).size p.clauses
    rw [hcount]
    exact ho
  · exact h₁.modelsAll (ModelsAll.thin ht ha) (satisfiesAll_resolvents h hp hf ha)
  · obtain ⟨h2, h3⟩ := h₁.admits ha
    exact admits_extendPartial hp hf hu hw ht (fun r hr hs => (hd r).2 ⟨hr, hs⟩) h2 h3
  · -- a derived fact is about a variable of the formula, and not about the one that goes
    change (infoOf (s.vars.modify v.index _) u).eliminated = true at hue
    rw [infoOf_modify hx] at hue
    rcases h₁.assigned hua with hua | ⟨ls, hls, l, hl, rfl⟩
    · split at hue
      · next huv => exact hu (huv ▸ hua)
      · exact hdorm u hue hua
    · obtain ⟨_, _, _, _, hres⟩ := exists_parents hf hls
      rw [if_neg (hres.mem hl).1, (mem_resolvent h hp hf hls hl).2] at hue
      cases hue

end EliminateVar

theorem eliminateVar_spec (h : s.Inv) (he : s.prop.watches.enabled = false) (ho : o.Exact s.varCount s.prop.clauses)
    (hx : v.index < s.varCount) (hu : ¬ s.prop.trail.isAssigned v) :
    Eliminating s (s.eliminateVar? o v).2.1 (s.eliminateVar? o v).2.2 := by
  have hsame : Eliminating s o s := ⟨h, he, ho, Rewritten.refl s, id⟩
  have hp := sides_occurrencesOf (v := v) ho
  unfold eliminateVar?
  dsimp only
  generalize s.occurrencesOf o v.positive = pos at hp
  generalize s.occurrencesOf o v.negative = neg at hp
  split
  · exact hsame
  · next hocc =>
    have hside : ∃ r, r ∈ pos ∨ r ∈ neg := by
      refine Classical.byContradiction fun hnone => hocc (Or.inl ?_)
      rw [List.eq_nil_iff_forall_not_mem.2 fun r hr => hnone ⟨r, Or.inl hr⟩,
        List.eq_nil_iff_forall_not_mem.2 fun r hr => hnone ⟨r, Or.inr hr⟩]
      rfl
    obtain ⟨marks, b, h1, h2, h3⟩ :=
      resolvents_spec h v (fun r hr => (hp.mem_pos.1 hr).1) fun r hr => (hp.mem_neg.1 hr).1
    generalize s.resolvents? v pos neg = out at h1 h3
    obtain ⟨found, s₁⟩ := out
    dsimp only at h1 h3
    subst h1
    cases found with
    | none =>
      exact ⟨⟨⟨h.prop, h.candidates, h.varMarks, h.eliminations⟩, h2⟩, he, ho, ⟨⟨id, [], rfl, fun _ => id⟩, rfl, rfl,
        rfl, rfl, id, id, id⟩, id⟩
    | some found =>
      have hf := h3 found rfl
      have hw := witness_spec h hp
      dsimp only
      change Witnesses _ v pos neg (({ s with litMarks := marks, overflowed := b } : Solver).witness v pos neg) at hw
      generalize ({ s with litMarks := marks, overflowed := b } : Solver).witness v pos neg = w at hw
      generalize hd : (pos ++ neg).foldl Database.delete s.prop.clauses = d
      have ht : Database.Thinned s.prop.clauses d := hd ▸ Database.Thinned.foldl_delete _ _
      have hlive (r : ClauseRef) : d.isLive r ↔ s.prop.clauses.isLive r ∧ ¬ (r ∈ pos ∨ r ∈ neg) := by
        rw [← hd, Database.isLive_foldl_delete, List.mem_append]
      have hs₁ : (({ s with litMarks := marks, overflowed := b } : Solver).withClauses d).Sound :=
        Sound.thin (s := { s with litMarks := marks, overflowed := b }) ht
          ⟨h.prop, h.candidates, h.varMarks, h.eliminations⟩ he
      obtain ⟨h4, h5⟩ := addAll_spec (f := found) hs₁ he (ho.thinned ht) fun ls hls =>
        ⟨fun l hl => (mem_resolvent h hp hf hls hl).1, (exists_parents hf hls).elim fun _ hr =>
          hr.elim fun _ hr => hr.2.2.nodup, fun l hl => (mem_resolvent h hp hf hls hl).2⟩
      have hfold :=
        addAll_withWitnesses o (({ s with litMarks := marks, overflowed := b } : Solver).withClauses d)
          (w :: s.witnesses) found
      unfold addAll at hfold
      dsimp only [withClauses] at hfold ⊢
      rw [hfold]
      have hel := hside.elim fun _ => not_eliminated_of_side h hp
      exact eliminating_of_stored h hp hf hx hu hel he h2 hw ht hlive h4 h5

/-! ## All candidates -/

theorem Eliminating.trans {o' : Occurrences} {s'' : Solver} (h : Eliminating s o s') (h' : Eliminating s' o' s'') :
    Eliminating s o' s'' :=
  ⟨h'.inv, h'.disabled, h'.exact, h.rewritten.trans h'.rewritten, fun hd => h'.dormant (h.dormant hd)⟩

theorem eliminateList_spec (vs : List Var) (count : Nat) (h : Eliminating s o s')
    (hv : ∀ v ∈ vs, v.index < s'.varCount) : ∃ o', Eliminating s o' (eliminateList vs count o s').2 := by
  induction vs generalizing count o s' with
  | nil => exact ⟨o, h⟩
  | cons v vs ih =>
    have hvs : ∀ u ∈ vs, u.index < s'.varCount := fun u hu => hv u (List.mem_cons_of_mem v hu)
    rw [eliminateList]
    split
    · exact ⟨o, h⟩
    · split
      · exact ih count h hvs
      · next hu =>
        have hs := eliminateVar_spec h.inv h.disabled h.exact (hv v List.mem_cons_self) hu
        generalize s'.eliminateVar? o v = out at hs
        obtain ⟨done, o', s''⟩ := out
        exact ih _ (h.trans hs) fun u hu => by
          rw [hs.rewritten.varCount_eq]
          exact hvs u hu

theorem dropLearnedWithEliminated_spec (h : s.Inv) (he : s.prop.watches.enabled = false) :
    s.dropLearnedWithEliminated.Inv ∧ Rewritten s s.dropLearnedWithEliminated ∧
      (s.Dormant → s.dropLearnedWithEliminated.Retired) := by
  dsimp only [dropLearnedWithEliminated]
  generalize hrs : s.prop.clauses.live.filter _ = rs
  have ht := Database.Thinned.foldl_delete s.prop.clauses rs
  refine ⟨⟨Sound.thin ht h.toSound he, h.litMarks⟩, ⟨⟨fun ha => ha.thin ht, [], rfl, ?_⟩, rfl, rfl, rfl, rfl, id,
    id, id⟩, ?_⟩
  · intro a ha
    apply ha.of_thin ht
    intro r hr hd hn
    rw [Database.isLive_foldl_delete, not_and, Classical.not_not] at hd
    have hr' := hd hr
    rw [← hrs, List.mem_filter, Bool.and_eq_true] at hr'
    rw [hr'.2.1] at hn
    cases hn
  · rintro hdorm v hv (ha | ⟨r, hr, l, hl, rfl⟩)
    · exact hdorm v hv ha
    · change l ∈ ((rs.foldl Database.delete s.prop.clauses).get r).lits at hl
      rw [ht.lits_eq hr] at hl
      obtain ⟨hlive, hkept⟩ := (Database.isLive_foldl_delete _).1 hr
      cases hn : (s.prop.clauses.get r).learned with
      | true =>
        refine hkept (hrs ▸ List.mem_filter.2 ⟨h.prop.listed.mem_live.2 hlive, ?_⟩)
        rw [hn, Bool.true_and]
        exact List.any_eq_true.2 ⟨l, hl, hv⟩
      | false => exact Bool.false_ne_true ((h.eliminations.purged hlive hn hl).symm.trans hv)

theorem eliminateVars_spec (h : s.Inv) (hi : s.prop.trail.Idle) :
    s.eliminateVars.Inv ∧ Rewritten s s.eliminateVars ∧ (s.Retired → s.eliminateVars.Retired) := by
  obtain ⟨h1, h2, h3, h4⟩ := buildOccurrences_spec h hi
  have hdorm : s.Dormant → s.buildOccurrences.2.Dormant := id
  rw [← h2.varCount_eq] at h4
  unfold eliminateVars
  dsimp only
  generalize s.buildOccurrences = out at h1 h2 h3 h4 hdorm
  obtain ⟨o, s₁⟩ := out
  dsimp only at h1 h2 h3 h4 hdorm ⊢
  have hv : ∀ v ∈ s₁.eliminationCandidates o, v.index < s₁.varCount := by
    intro v hv
    unfold eliminationCandidates at hv
    dsimp only at hv
    obtain ⟨x, hx, rfl⟩ := List.mem_map.1 (List.mem_filter.1 (mem_sortBy.1 hv)).1
    exact List.mem_range.1 hx
  obtain ⟨_, h5⟩ := eliminateList_spec (s₁.eliminationCandidates o) 0 ⟨h1, h3, h4, h2, hdorm⟩ hv
  generalize eliminateList _ 0 o s₁ = out at h5
  obtain ⟨count, s₂⟩ := out
  obtain ⟨h8, h9, h10⟩ := dropLearnedWithEliminated_spec h5.inv h5.disabled
  exact ⟨⟨⟨h8.prop, h8.candidates, h8.varMarks, h8.eliminations⟩, h8.litMarks⟩,
    (h5.rewritten.trans h9).trans ⟨⟨id, [], rfl, fun _ => id⟩, rfl, rfl, rfl, rfl, id, id, id⟩,
    fun hr => h10 (h5.dormant hr.dormant)⟩

/-! ## The formula -/

section

variable (h : s.Inv) (h0 : s.prop.trail.currentLevel = 0) {s₁ s₂ : Solver} (h1 : s.settleFacts = (true, s₁))
include h h0 h1

theorem settled_spec : s₁.Inv ∧ Rewritten s s₁ ∧ s₁.prop.trail.Idle := by
  obtain ⟨hi, hw, hidle, -⟩ := settleFacts_spec h h0
  rw [h1] at hi hw hidle
  exact ⟨hi, hw, hidle rfl⟩

theorem subsumed_spec : s₁.subsume.Inv ∧ Rewritten s s₁.subsume := by
  obtain ⟨hi, hw, hidle⟩ := settled_spec h h0 h1
  obtain ⟨hi', hw', -⟩ := subsume_spec hi hidle
  exact ⟨hi', hw.trans hw'⟩

theorem resettled_spec (h2 : s₁.subsume.settleFacts = (true, s₂)) :
    s₂.Inv ∧ Rewritten s s₂ ∧ s₂.prop.trail.Idle := by
  obtain ⟨hi, hw⟩ := subsumed_spec h h0 h1
  obtain ⟨hi', hw', hidle⟩ := settled_spec hi (hw.currentLevel h0) h2
  exact ⟨hi', hw.trans hw', hidle⟩

end

/-- Simplification keeps the invariant, and the models but for the values of eliminated variables. -/
theorem simplifyFormula_spec (h : s.Inv) (h0 : s.prop.trail.currentLevel = 0) (eliminate : Bool) :
    (s.simplifyFormula eliminate).Inv ∧ Rewritten s (s.simplifyFormula eliminate) := by
  unfold simplifyFormula
  cases h1 : s.settleFacts with
  | mk goOn s₁ =>
    cases goOn with
    | false =>
      obtain ⟨hi, hw, -⟩ := settleFacts_spec h h0
      rw [h1] at hi hw
      exact ⟨hi, hw⟩
    | true =>
      dsimp only
      cases h2 : s₁.subsume.settleFacts with
      | mk goOn s₂ =>
        cases goOn with
        | false =>
          obtain ⟨hi, hw⟩ := subsumed_spec h h0 h1
          obtain ⟨hi', hw', -⟩ := settleFacts_spec hi (hw.currentLevel h0)
          rw [h2] at hi' hw'
          exact ⟨hi', hw.trans hw'⟩
        | true =>
          obtain ⟨hi, hw, hidle⟩ := resettled_spec h h0 h1 h2
          dsimp only
          split
          · obtain ⟨hi', hw', -⟩ := eliminateVars_spec hi hidle
            have hpass := hw.trans hw'
            obtain ⟨hi'', hw'', -⟩ := settleFacts_spec hi' (hpass.currentLevel h0)
            exact ⟨hi'', hpass.trans hw''⟩
          · exact ⟨hi, hw⟩

end Solver

end ClauseLearning
