import Mathlib.Algebra.Group.Nat.Defs
import Mathlib.Data.Finset.Card
import Mathlib.Data.List.ProdSigma
import ClauseLearning.Proofs.Eliminated

/-!
# The limits of elimination

A variable is eliminated if it occurs, in no more clauses than configured, and if no resolvent on it is too long and
there are not too many of them. As many are allowed as there are clauses that they replace, and the configured growth
more. That sum has 64 bits: with a growth near the largest number it wraps around and allows too few.

* `resolventOn`, `Tautology` : the literals of a resolvent, as a set, and resolvents that always hold;
* `Solver.WithinLimits` : what the limits ask for, on the clauses of a variable;
* `collectResolvents_isSome` : the loop over all pairs of clauses gives up just when a limit is exceeded;
* `Solver.Turn.course` : what holds when elimination comes to a variable;
* `eliminates_within_limits` : a variable is eliminated just within the limits, and otherwise nothing changes.
  `declines_within_limits` is a sum that wraps around.
-/

namespace ClauseLearning

/-! ## Resolvents as sets of literals -/

/-- The literals of the resolvent of two clauses on a variable. -/
def resolventOn (v : Var) (c d : List Lit) : Finset Lit := (c ++ d).toFinset.filter (·.var ≠ v)

/-- Some literal and its opposite are among the literals. -/
def Tautology (ls : Finset Lit) : Prop := ∃ l ∈ ls, -l ∈ ls

instance : DecidablePred Tautology := fun ls => inferInstanceAs (Decidable (∃ l ∈ ls, -l ∈ ls))

section Resolvents

variable {v : Var} {c d ls : List Lit} {l : Lit} {marks : Marks} {n : Nat}

theorem mem_resolventOn : l ∈ resolventOn v c d ↔ (l ∈ c ∨ l ∈ d) ∧ l.var ≠ v := by
  simp [resolventOn]

theorem Resolvent.toFinset_eq (h : Resolvent v c d ls) : ls.toFinset = resolventOn v c d := by
  ext l
  rw [List.mem_toFinset, mem_resolventOn]
  constructor
  · intro hl
    obtain ⟨hv, hm⟩ := h.mem hl
    exact ⟨hm, hv⟩
  · rintro ⟨hl | hl, hv⟩
    · exact h.left hl hv
    · exact h.right hl hv

theorem Resolvent.length_eq (h : Resolvent v c d ls) : ls.length = (resolventOn v c d).card := by
  rw [← h.toFinset_eq, List.toFinset_card_of_nodup (h.nodup.of_map Lit.var)]

theorem Resolvent.not_tautology (h : Resolvent v c d ls) : ¬ Tautology (resolventOn v c d) := by
  rintro ⟨l, hl, hn⟩
  rw [← h.toFinset_eq, List.mem_toFinset] at hl hn
  exact neg_not_mem h.nodup hl hn

theorem resolve_cases (hm : marks.Clear n) (hc : ∀ l ∈ c, l.code < n) (hcv : (c.map Lit.var).Nodup)
    (hdv : (d.map Lit.var).Nodup) : (resolve marks c d v).2.Clear n ∧
      ((resolve marks c d v).1 = none ∧ Tautology (resolventOn v c d) ∨
        ∃ ls, (resolve marks c d v).1 = some ls ∧ ¬ Tautology (resolventOn v c d) ∧
          ls.length = (resolventOn v c d).card) := by
  obtain ⟨hclear, hnone, hsome⟩ := resolve_spec (v := v) hm hc hcv hdv
  refine ⟨hclear, ?_⟩
  cases hr : (resolve marks c d v).1 with
  | none =>
    obtain ⟨l, hl, hv, hn⟩ := hnone hr
    exact Or.inl ⟨rfl, l, mem_resolventOn.2 ⟨Or.inl hl, hv⟩, mem_resolventOn.2 ⟨Or.inr hn, (Lit.var_neg l).symm ▸ hv⟩⟩
  | some ls =>
    have h := hsome ls hr
    exact Or.inr ⟨ls, rfl, h.not_tautology, h.length_eq⟩

end Resolvents

/-! ## The clauses of a variable -/

namespace Database

variable {d : Database} {v : Var} {l : Lit} {r : ClauseRef}

/-- The irredundant clauses that contain a literal. -/
def withLit (d : Database) (l : Lit) : List ClauseRef :=
  d.live.filter fun r => !(d.get r).learned && (d.get r).lits.contains l

/-- The irredundant clauses that contain a variable. -/
def withVar (d : Database) (v : Var) : List ClauseRef :=
  d.live.filter fun r => !(d.get r).learned && (d.get r).lits.any fun l => l.var == v

/-- The pairs of clauses that contain a variable and its negation. -/
def opposed (d : Database) (v : Var) : List (ClauseRef × ClauseRef) := d.withLit v.positive ×ˢ d.withLit v.negative

/-- The literals of the resolvent of two clauses of a database. -/
def resolvent (d : Database) (v : Var) (rq : ClauseRef × ClauseRef) : Finset Lit :=
  resolventOn v (d.get rq.1).lits (d.get rq.2).lits

/-- How many pairs of clauses have a resolvent that is not a tautology. -/
def resolventCount (d : Database) (v : Var) (pairs : List (ClauseRef × ClauseRef)) : Nat :=
  pairs.countP fun rq => ¬ Tautology (d.resolvent v rq)

theorem Listed.mem_withLit (h : d.Listed) :
    r ∈ d.withLit l ↔ d.isLive r ∧ (d.get r).learned = false ∧ l ∈ (d.get r).lits := by
  simp [withLit, h.mem_live]

theorem Listed.mem_withVar (h : d.Listed) :
    r ∈ d.withVar v ↔ d.isLive r ∧ (d.get r).learned = false ∧ ∃ l ∈ (d.get r).lits, l.var = v := by
  simp [withVar, h.mem_live]

end Database

namespace Solver

variable {s s' t : Solver} {o o' : Occurrences} {v w : Var} {vs : List Var} {d : Database} {n : Nat}
  {pos neg : List ClauseRef}

theorem Sides.perm_withVar (hp : Sides d v pos neg) (hl : d.Listed)
    (hv : ∀ r, d.isLive r → ((d.get r).lits.map Lit.var).Nodup) (h1 : pos.Nodup) (h2 : neg.Nodup) :
    (pos ++ neg).Perm (d.withVar v) := by
  have hdisjoint : pos.Disjoint neg := by
    intro r hr hr'
    obtain ⟨hlive, -, hpos⟩ := hp.mem_pos.1 hr
    obtain ⟨-, -, hneg⟩ := hp.mem_neg.1 hr'
    rw [Lit.positive_eq_neg_negative] at hpos
    exact Lit.neg_ne _ (List.inj_on_of_nodup_map (hv r hlive) hpos hneg (Lit.var_neg _))
  refine (List.perm_ext_iff_of_nodup (h1.append h2 hdisjoint) (hl.live_nodup.filter _)).2 fun r => ?_
  rw [List.mem_append]
  refine Iff.trans ?_ hl.mem_withVar.symm
  constructor
  · intro hr
    obtain ⟨hlive, hn⟩ := hp.isLive hr
    rcases hr with hr | hr
    · exact ⟨hlive, hn, _, (hp.mem_pos.1 hr).2.2, Lit.var_lit v true⟩
    · exact ⟨hlive, hn, _, (hp.mem_neg.1 hr).2.2, Lit.var_lit v false⟩
  · rintro ⟨hlive, hn, l, hm, hlv⟩
    exact hp.mem hlive hn hm hlv

theorem Sides.perm_opposed (hp : Sides d v pos neg) (hl : d.Listed) (h1 : pos.Nodup) (h2 : neg.Nodup) :
    (pos ×ˢ neg).Perm (d.opposed v) := by
  refine List.Perm.product ?_ ?_
  · exact (List.perm_ext_iff_of_nodup h1 (hl.live_nodup.filter _)).2 fun r => hp.mem_pos.trans hl.mem_withLit.symm
  · exact (List.perm_ext_iff_of_nodup h2 (hl.live_nodup.filter _)).2 fun r => hp.mem_neg.trans hl.mem_withLit.symm

/-- The limits for the elimination of a variable, if `maxCount` resolvents are allowed. -/
structure WithinLimits (s : Solver) (v : Var) (maxCount : Nat) : Prop where
  occurs : 0 < (s.prop.clauses.withVar v).length
  occurrences_le : (s.prop.clauses.withVar v).length ≤ s.config.elimOccurrenceLimit.toNat
  card_le {rq : ClauseRef × ClauseRef} : rq ∈ s.prop.clauses.opposed v → ¬ Tautology (s.prop.clauses.resolvent v rq) →
    (s.prop.clauses.resolvent v rq).card ≤ s.config.elimResolventLimit.toNat
  count_le : s.prop.clauses.resolventCount v (s.prop.clauses.opposed v) ≤ maxCount

instance (s : Solver) (v : Var) (maxCount : Nat) : Decidable (s.WithinLimits v maxCount) :=
  decidable_of_iff (0 < (s.prop.clauses.withVar v).length ∧
    (s.prop.clauses.withVar v).length ≤ s.config.elimOccurrenceLimit.toNat ∧
    (∀ rq ∈ s.prop.clauses.opposed v, ¬ Tautology (s.prop.clauses.resolvent v rq) →
      (s.prop.clauses.resolvent v rq).card ≤ s.config.elimResolventLimit.toNat) ∧
    s.prop.clauses.resolventCount v (s.prop.clauses.opposed v) ≤ maxCount)
    ⟨fun h => ⟨h.1, h.2.1, fun {rq} => h.2.2.1 rq, h.2.2.2⟩,
      fun h => ⟨h.occurs, h.occurrences_le, fun _ => h.card_le, h.count_le⟩⟩

/-! ## The loop over the pairs -/

/-- The collection of resolvents gives up at a resolvent that is too long and at one too many, and nowhere else. -/
theorem collectResolvents_isSome (v : Var) (maxLength maxCount : Nat) (pairs : List (ClauseRef × ClauseRef))
    (found : Array (List Lit)) {marks : Marks} (hm : marks.Clear n)
    (hp : ∀ rq ∈ pairs, (∀ l ∈ (d.get rq.1).lits, l.code < n) ∧ ((d.get rq.1).lits.map Lit.var).Nodup ∧
      ((d.get rq.2).lits.map Lit.var).Nodup)
    (hsize : found.size ≤ maxCount) :
    (collectResolvents d v maxLength maxCount pairs found marks).1.isSome ↔
      (∀ rq ∈ pairs, ¬ Tautology (d.resolvent v rq) → (d.resolvent v rq).card ≤ maxLength) ∧
        found.size + d.resolventCount v pairs ≤ maxCount := by
  induction pairs generalizing found marks with
  | nil => simpa [collectResolvents, Database.resolventCount] using hsize
  | cons rq pairs ih =>
    obtain ⟨r, q⟩ := rq
    obtain ⟨hc, hcv, hdv⟩ := hp (r, q) List.mem_cons_self
    have hp' := fun rq hrq => hp rq (List.mem_cons_of_mem (r, q) hrq)
    obtain ⟨hclear, hcases⟩ := resolve_cases (v := v) hm hc hcv hdv
    unfold collectResolvents
    dsimp only at hclear hcases
    generalize resolve marks (d.get r).lits (d.get q).lits v = out at hclear hcases
    obtain ⟨resolvent, marks'⟩ := out
    rcases hcases with ⟨rfl, ht⟩ | ⟨ls, rfl, ht, hlen⟩
    · have hcount : d.resolventCount v ((r, q) :: pairs) = d.resolventCount v pairs :=
        List.countP_cons_of_neg fun hp => of_decide_eq_true hp ht
      rw [hcount]
      simp only [List.forall_mem_cons]
      rw [ih found hclear hp' hsize]
      exact and_congr_left' (and_iff_right fun h => absurd ht h).symm
    · have hcount : d.resolventCount v ((r, q) :: pairs) = d.resolventCount v pairs + 1 :=
        List.countP_cons_of_pos (decide_eq_true ht)
      rw [hcount]
      simp only [List.forall_mem_cons]
      change ls.length = (d.resolvent v (r, q)).card at hlen
      by_cases hstop : maxLength < ls.length ∨ found.size = maxCount
      · rw [if_pos hstop]
        refine iff_of_false Bool.false_ne_true ?_
        rintro ⟨⟨hle, -⟩, hfits⟩
        have := hle ht
        omega
      · rw [if_neg hstop, ih (found.push ls) hclear hp' (by rw [Array.size_push]; omega), Array.size_push]
        have hle : (d.resolvent v (r, q)).card ≤ maxLength := by omega
        have hsum : found.size + 1 + d.resolventCount v pairs = found.size + (d.resolventCount v pairs + 1) := by omega
        rw [hsum]
        exact and_congr_left' (and_iff_right fun _ => hle).symm

theorem resolvents_isSome (h : s.Inv) (v : Var) (hp : ∀ r ∈ pos, s.prop.clauses.isLive r)
    (hn : ∀ r ∈ neg, s.prop.clauses.isLive r) :
    (s.resolvents? v pos neg).1.isSome ↔
      (∀ rq ∈ pos ×ˢ neg, ¬ Tautology (s.prop.clauses.resolvent v rq) →
        (s.prop.clauses.resolvent v rq).card ≤ s.config.elimResolventLimit.toNat) ∧
      s.prop.clauses.resolventCount v (pos ×ˢ neg) ≤
        (pos.length + neg.length + s.config.elimGrowLimit.toNat) % 2 ^ 64 := by
  have hpairs : ∀ rq ∈ pos ×ˢ neg, (∀ l ∈ (s.prop.clauses.get rq.1).lits, l.code < 2 * s.varCount + 1) ∧
      ((s.prop.clauses.get rq.1).lits.map Lit.var).Nodup ∧ ((s.prop.clauses.get rq.2).lits.map Lit.var).Nodup := by
    rintro ⟨r, q⟩ hrq
    obtain ⟨hr, hq⟩ := List.mem_product.1 hrq
    refine ⟨fun l hl => ?_, (h.prop.fits (hp r hr)).nodup, (h.prop.fits (hn q hq)).nodup⟩
    exact Nat.lt_succ_of_lt (Lit.code_lt ((h.prop.fits (hp r hr)).index_lt hl))
  have hloop := collectResolvents_isSome v s.config.elimResolventLimit.toNat
    (Counting.words.keep (pos.length + neg.length + s.config.elimGrowLimit.toNat)) (pos ×ˢ neg) #[] h.litMarks hpairs
    (Nat.zero_le _)
  rw [Array.size_empty, Nat.zero_add] at hloop
  unfold resolvents?
  rw [Option.isSome_map]
  exact hloop

/-! ## One variable -/

theorem eliminateVar_fst (s : Solver) (o : Occurrences) (v : Var) : (s.eliminateVar? o v).1 = true ↔
    0 < (s.occurrencesOf o v.positive).length + (s.occurrencesOf o v.negative).length ∧
      (s.occurrencesOf o v.positive).length + (s.occurrencesOf o v.negative).length ≤
        s.config.elimOccurrenceLimit.toNat ∧
      (s.resolvents? v (s.occurrencesOf o v.positive) (s.occurrencesOf o v.negative)).1.isSome := by
  unfold eliminateVar?
  dsimp only
  split
  · next hocc => exact iff_of_false Bool.false_ne_true (by omega)
  · next hocc =>
    rw [not_or, Nat.not_lt] at hocc
    have hpos := Nat.pos_of_ne_zero hocc.1
    generalize s.resolvents? v _ _ = out
    obtain ⟨found, s₁⟩ := out
    cases found with
    | none => simp
    | some found => simp [hpos, hocc.2]

theorem eliminateVar_declined (h : (s.eliminateVar? o v).1 = false) :
    ∃ marks b, s.eliminateVar? o v = (false, o, { s with litMarks := marks, overflowed := b }) := by
  unfold eliminateVar? at h ⊢
  dsimp only at h ⊢
  split at h
  · next hocc => exact ⟨s.litMarks, s.overflowed, if_pos hocc⟩
  · next hocc =>
    rw [if_neg hocc]
    have hframe : ∃ marks b,
        (s.resolvents? v (s.occurrencesOf o v.positive) (s.occurrencesOf o v.negative)).2 =
          { s with litMarks := marks, overflowed := b } := ⟨_, _, rfl⟩
    generalize s.resolvents? v _ _ = out at h hframe
    obtain ⟨found, s₁⟩ := out
    obtain ⟨marks, b, rfl⟩ := hframe
    cases found with
    | none => exact ⟨marks, b, rfl⟩
    | some found => cases h

theorem occurrenceCount_eq (h : s.Inv) (ho : o.Exact s.varCount s.prop.clauses) :
    s.occurrenceCount o v = (s.prop.clauses.withVar v).length := by
  have hp := sides_occurrencesOf (v := v) ho
  unfold occurrenceCount
  rw [← List.length_append]
  exact (hp.perm_withVar h.prop.listed (fun r hr => (h.prop.fits hr).nodup) ((ho.nodup v.positive).filter _)
    ((ho.nodup v.negative).filter _)).length_eq

theorem eliminateVar_iff_withinLimits (h : s.Inv) (ho : o.Exact s.varCount s.prop.clauses) :
    (s.eliminateVar? o v).1 = true ↔ s.WithinLimits v
      (((s.prop.clauses.withVar v).length + s.config.elimGrowLimit.toNat) % 2 ^ 64) := by
  have hp := sides_occurrencesOf (v := v) ho
  have h1 : (s.occurrencesOf o v.positive).Nodup := (ho.nodup v.positive).filter _
  have h2 : (s.occurrencesOf o v.negative).Nodup := (ho.nodup v.negative).filter _
  have hlen := occurrenceCount_eq (v := v) h ho
  unfold occurrenceCount at hlen
  rw [eliminateVar_fst]
  generalize s.occurrencesOf o v.positive = pos at hp h1 hlen
  generalize s.occurrencesOf o v.negative = neg at hp h2 hlen
  have hperm := hp.perm_opposed h.prop.listed h1 h2
  have hcount : s.prop.clauses.resolventCount v (pos ×ˢ neg) =
      s.prop.clauses.resolventCount v (s.prop.clauses.opposed v) := hperm.countP_eq _
  rw [resolvents_isSome h v (fun r hr => (hp.mem_pos.1 hr).1) fun r hr => (hp.mem_neg.1 hr).1, hlen, hcount]
  constructor
  · rintro ⟨hpos, hle, hcard, hmax⟩
    exact ⟨hpos, hle, fun {rq} hrq => hcard rq (hperm.mem_iff.2 hrq), hmax⟩
  · rintro ⟨hpos, hle, hcard, hmax⟩
    exact ⟨hpos, hle, fun rq hrq => hcard (hperm.mem_iff.1 hrq), hmax⟩

/-! ## All turns -/

/-- The course of a pass, when it comes to a variable. -/
theorem Comes.course (hc : Comes v vs o s' o' t) (h : Eliminating s o s') (hv : ∀ w ∈ vs, w.index < s'.varCount) :
    Eliminating s o' t ∧ v.index < t.varCount := by
  induction hc with
  | here => exact ⟨h, hv v List.mem_cons_self⟩
  | skip _ _ _ ih => exact ih h fun w hw => hv w (List.mem_cons_of_mem _ hw)
  | next _ hu _ ih =>
    have h1 := eliminateVar_spec h.inv h.disabled h.exact (hv _ List.mem_cons_self) (Bool.eq_false_iff.1 hu)
    refine ih (h.trans h1) fun w hw => ?_
    rw [h1.rewritten.varCount_eq]
    exact hv w (List.mem_cons_of_mem _ hw)

/-- At its turn a variable is allocated, the occurrence lists are exact and the configuration is that of the call. -/
theorem Turn.course (h : s.Inv) (h0 : s.prop.trail.currentLevel = 0) (ht : s.Turn v o t) :
    t.Inv ∧ o.Exact t.varCount t.prop.clauses ∧ v.index < t.varCount ∧ t.config = s.config := by
  obtain ⟨h1, h2, hc⟩ := ht
  obtain ⟨hi, hw, hidle⟩ := resettled_spec h h0 h1 h2
  obtain ⟨hi', hw', hen, hex⟩ := buildOccurrences_spec hi hidle
  rw [← hw'.varCount_eq] at hex
  obtain ⟨he, hv⟩ := hc.course ⟨hi', hen, hex, Rewritten.refl _, id⟩ fun w hw => (mem_eliminationCandidates hw).1
  exact ⟨he.inv, he.exact, hv, (he.rewritten.config_eq.trans hw'.config_eq).trans hw.config_eq⟩

/-- The occurrence lists and the state at the beginning of a pass of elimination. -/
def eliminationStart (s : Solver) : Occurrences × Solver :=
  s.settleFacts.2.subsume.settleFacts.2.buildOccurrences

theorem turn_first (h1 : s.settleFacts.1 = true) (h2 : s.settleFacts.2.subsume.settleFacts.1 = true)
    (hc : (s.eliminationStart.2.eliminationCandidates s.eliminationStart.1).head? = some v) :
    s.Turn v s.eliminationStart.1 s.eliminationStart.2 := by
  have hs₁ : s.settleFacts = (true, s.settleFacts.2) := by rw [← h1]
  have hs₂ : s.settleFacts.2.subsume.settleFacts = (true, s.settleFacts.2.subsume.settleFacts.2) := by rw [← h2]
  refine .mk hs₁ hs₂ ?_
  obtain ⟨vs, hvs⟩ := List.head?_eq_some_iff.1 hc
  unfold eliminationStart at hvs ⊢
  rw [hvs]
  exact .here

end Solver

variable {counting : Counting} {s t : Solver} {f : List (List Lit)} {v : Var} {o : Occurrences}

/-- **Elimination follows its limits.** When a pass comes to a variable, the variable is eliminated just if it occurs,
in no more clauses than configured, no resolvent on it is longer than configured, and the pairs of clauses with a
resolvent are no more than the clauses and the configured growth together. That sum has 64 bits, and is exact if it
fits. Otherwise it overflows, if it is computed. If the variable is not eliminated nothing else changes but marks, which
are scratch space. -/
theorem eliminates_within_limits (h : Reachable counting s f) (ht : s.rewind.Turn v o t) :
    t.config = s.config ∧
    ((t.eliminateVar? o v).1 = true ↔ t.WithinLimits v
      (((t.prop.clauses.withVar v).length + t.config.elimGrowLimit.toNat) % 2 ^ 64)) ∧
    ((t.prop.clauses.withVar v).length + t.config.elimGrowLimit.toNat < 2 ^ 64 →
      ((t.eliminateVar? o v).1 = true ↔ t.WithinLimits v
        ((t.prop.clauses.withVar v).length + t.config.elimGrowLimit.toNat))) ∧
    ((t.eliminateVar? o v).1 = true → (t.eliminateVar? o v).2.2.hasEliminated v = true) ∧
    ((t.eliminateVar? o v).1 = false →
      ∃ marks b, t.eliminateVar? o v = (false, o, { t with litMarks := marks, overflowed := b })) ∧
    ((t.eliminateVar? o v).2.2.overflowed = true ↔ t.overflowed = true ∨
      0 < (t.prop.clauses.withVar v).length ∧
        (t.prop.clauses.withVar v).length ≤ t.config.elimOccurrenceLimit.toNat ∧
        2 ^ 64 ≤ (t.prop.clauses.withVar v).length + t.config.elimGrowLimit.toNat) := by
  have hs := Solver.rewind_searched h.inv
  obtain ⟨hi, hex, hx, hconfig⟩ := ht.course hs.inv (Solver.currentLevel_rewind s)
  have hiff := Solver.eliminateVar_iff_withinLimits (v := v) hi hex
  refine ⟨hconfig.trans hs.config_eq, hiff, fun hfits => ?_, fun hdone => ?_, Solver.eliminateVar_declined, ?_⟩
  · rw [hiff, Nat.mod_eq_of_lt hfits]
  · have hinfo := infoOf_modify hx (f := ({ · with eliminated := true })) (w := v)
    rw [if_pos rfl] at hinfo
    show (infoOf (t.eliminateVar? o v).2.2.vars v).eliminated = true
    rw [(Solver.eliminateVar_frame t o v).1, if_pos hdone, hinfo]
  · rw [(Solver.eliminateVar_frame t o v).2, Solver.occurrenceCount_eq hi hex]
    simp [Counting.overflows, UInt64.size, and_assoc]

/-- A variable in two clauses, its negation in two others, and other variables that are frozen. There are four
resolvents. -/
def crossing (growth : UInt64) : List Call :=
  [.configure { elimGrowLimit := some growth }] ++ List.replicate 5 (.newVar none true) ++
    [.setFrozen ⟨1⟩ true, .setFrozen ⟨2⟩ true, .setFrozen ⟨3⟩ true, .setFrozen ⟨4⟩ true] ++
    [.addClause [⟨0⟩, ⟨2⟩], .addClause [⟨0⟩, ⟨4⟩], .addClause [⟨1⟩, ⟨6⟩], .addClause [⟨1⟩, ⟨8⟩]]

def crossingSolver (growth : UInt64) : Solver := Call.runAll (Solver.start .words .stable) (crossing growth)

/-- The four resolvents replace four clauses, so the variable is eliminated without any growth. -/
theorem eliminates_within_limits_crossing :
    ((crossingSolver 0).rewind.eliminationStart.2.eliminateVar? (crossingSolver 0).rewind.eliminationStart.1 ⟨0⟩).1 =
        true ∧
      (crossingSolver 0).rewind.eliminationStart.2.WithinLimits ⟨0⟩ 4 := by
  have ht : (crossingSolver 0).rewind.Turn ⟨0⟩ (crossingSolver 0).rewind.eliminationStart.1
      (crossingSolver 0).rewind.eliminationStart.2 :=
    Solver.turn_first (by decide +kernel) (by decide +kernel) (by decide +kernel)
  have hdone : ((crossingSolver 0).rewind.eliminationStart.2.eliminateVar?
      (crossingSolver 0).rewind.eliminationStart.1 ⟨0⟩).1 = true := by decide +kernel
  have hsum : ((crossingSolver 0).rewind.eliminationStart.2.prop.clauses.withVar ⟨0⟩).length +
      (crossingSolver 0).rewind.eliminationStart.2.config.elimGrowLimit.toNat = 4 := by decide +kernel
  obtain ⟨-, -, hexact, -⟩ := eliminates_within_limits ((Reachable.start .stable).runAll (crossing 0)) ht
  have hwithin := (hexact (by omega)).1 hdone
  rw [hsum] at hwithin
  exact ⟨hdone, hwithin⟩

/-- With the largest growth the sum overflows. What is kept of it is one less than the number of clauses, and the fourth
resolvent is one too many. So the variable is not eliminated, whether or not the program goes on. -/
theorem declines_within_limits : ¬ ∀ s f, Reachable .words s f → ∀ v o t, s.rewind.Turn v o t →
    t.overflowed = false → t.WithinLimits v ((t.prop.clauses.withVar v).length + t.config.elimGrowLimit.toNat) →
      (t.eliminateVar? o v).1 = true ∨ (t.eliminateVar? o v).2.2.overflowed = false := by
  intro heliminates
  have ht : (crossingSolver (-1)).rewind.Turn ⟨0⟩ (crossingSolver (-1)).rewind.eliminationStart.1
      (crossingSolver (-1)).rewind.eliminationStart.2 :=
    Solver.turn_first (by decide +kernel) (by decide +kernel) (by decide +kernel)
  have hdeclined : ((crossingSolver (-1)).rewind.eliminationStart.2.eliminateVar?
      (crossingSolver (-1)).rewind.eliminationStart.1 ⟨0⟩).1 = false := by decide +kernel
  have hoverflowed : ((crossingSolver (-1)).rewind.eliminationStart.2.eliminateVar?
      (crossingSolver (-1)).rewind.eliminationStart.1 ⟨0⟩).2.2.overflowed = true := by decide +kernel
  rcases heliminates _ _ ((Reachable.start .stable).runAll (crossing (-1))) _ _ _ ht (by decide +kernel)
    (by decide +kernel) with hdone | hexact
  · exact Bool.false_ne_true (hdeclined.symm.trans hdone)
  · exact Bool.false_ne_true (hexact.symm.trans hoverflowed)

end ClauseLearning
