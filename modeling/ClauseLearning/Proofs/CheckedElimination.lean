import ClauseLearning.Proofs.CheckedSubsumption
import ClauseLearning.Proofs.Eliminated

/-!
# Elimination within its bounds

* `resolveChecked`, `Solver.resolvents?Checked` : resolution by marks, with its bounds checked;
* `resolve_exact` : what it finds, and that it leaves no marks;
* `Solver.eliminateVar?Checked`, `Solver.eliminateVarsChecked` : elimination with its checks. The clauses of the
  variable are deleted one by one, and none of them twice;
* `Solver.simplifyFormulaChecked` : simplification. Facts are settled between the passes;
* `Solver.Inv.simplifyFormulaChecked` : no check fails, unless there is no room for a derived clause.
-/

namespace ClauseLearning

/-! ## Resolution -/

section Resolve

variable [Build] {marks : Marks} {a b : List Lit} {n : Nat}

def resolveChecked (marks : Marks) (a b : List Lit) (v : Var) : Fallible (Option (List Lit) × Marks) := do
  require (∀ l ∈ a, marks.Covers l.code) .outOfRange
  require (∀ l ∈ b, marks.Covers l.code ∧ marks.Covers (-l).code) .outOfRange
  return resolve marks a b v

theorem resolveChecked_of_covers (ha : ∀ l ∈ a, marks.Covers l.code)
    (hb : ∀ l ∈ b, marks.Covers l.code ∧ marks.Covers (-l).code) (v : Var) :
    resolveChecked marks a b v = .ok (resolve marks a b v) := by
  rw [resolveChecked, require_bind ha, require_bind hb]
  rfl

theorem resolveChecked_eq (hs : marks.bits.size = 2 * n + 1) (ha : ∀ l ∈ a, l.var.index < n)
    (hb : ∀ l ∈ b, l.var.index < n) (v : Var) : resolveChecked marks a b v = .ok (resolve marks a b v) :=
  resolveChecked_of_covers (fun l hl => Marks.covers_code hs (ha l hl))
    (fun l hl => ⟨Marks.covers_code hs (hb l hl), Marks.covers_code hs ((Lit.var_neg l).symm ▸ hb l hl)⟩) v

/-- **Resolution is exact and leaves no marks.** For two clauses without repetitions that are no tautologies there is no
resolvent just if a literal of the second, other than that of the variable, has its opposite in the first. Otherwise the
resolvent has the literals of both but for those of the variable, each once. Nothing is marked afterwards, and all marks
that are looked at are there. -/
theorem resolve_exact {v : Var} (hm : marks.Clear n) (ha : ∀ l ∈ a, marks.Covers l.code)
    (hb : ∀ l ∈ b, marks.Covers l.code ∧ marks.Covers (-l).code) (hna : a.Nodup) (hta : ∀ l ∈ a, -l ∉ a)
    (hnb : b.Nodup) (htb : ∀ l ∈ b, -l ∉ b) :
    resolveChecked marks a b v = .ok (resolve marks a b v) ∧
      ((resolve marks a b v).1 = none ↔ ∃ l ∈ b, l.var ≠ v ∧ -l ∈ a) ∧
        (∀ ls, (resolve marks a b v).1 = some ls →
          ls.Nodup ∧ ∀ l, l ∈ ls ↔ (l ∈ a ∨ l ∈ b) ∧ l.var ≠ v) ∧ (resolve marks a b v).2.Clear n := by
  have hcode : ∀ l ∈ a, l.code < n := fun l hl => hm.size_eq ▸ ha l hl
  obtain ⟨hclear, hnone, hsome⟩ := resolve_spec (v := v) hm hcode (nodup_vars hna hta) (nodup_vars hnb htb)
  refine ⟨?_, ⟨fun h => ?_, ?_⟩, fun ls hls => ⟨(hsome ls hls).nodup.of_map, fun l => ?_⟩, hclear⟩
  · exact resolveChecked_of_covers ha hb v
  · obtain ⟨l, hl, hv, hn⟩ := hnone h
    exact ⟨-l, hn, (Lit.var_neg l).symm ▸ hv, (Lit.neg_neg l).symm ▸ hl⟩
  · rintro ⟨l, hl, hv, hn⟩
    -- the resolvent would have both literals
    refine Option.eq_none_iff_forall_ne_some.2 fun ls hls => ?_
    have h := hsome ls hls
    exact neg_not_mem h.nodup (h.right hl hv) (h.left hn ((Lit.var_neg l).symm ▸ hv))
  · have h := hsome ls hls
    constructor
    · exact fun hl => (h.mem hl).symm
    · rintro ⟨hl | hl, hv⟩
      · exact h.left hl hv
      · exact h.right hl hv

end Resolve

/-- The first two clauses have a resolvent, with a literal that they share. The first and the last clash, and the
literals after the clash are not looked at. -/
theorem resolve_exact_four_variables :
    let marks : Marks := ⟨Array.replicate 9 false⟩
    let out := resolve marks [⟨0⟩, ⟨2⟩, ⟨5⟩] [⟨1⟩, ⟨2⟩, ⟨6⟩] ⟨0⟩
    let clash := resolve marks [⟨0⟩, ⟨2⟩, ⟨5⟩] [⟨1⟩, ⟨4⟩, ⟨6⟩] ⟨0⟩
    (out.1 = some [⟨2⟩, ⟨5⟩, ⟨6⟩] ∧ out.2.Clear 9) ∧ clash.1 = none ∧ clash.2.Clear 9 := by
  let _ : Build := .checked
  have hm : (⟨Array.replicate 9 false⟩ : Marks).Clear 9 := Marks.clear_empty.extend 9
  have hout := resolve_exact (v := ⟨0⟩) (a := [⟨0⟩, ⟨2⟩, ⟨5⟩]) (b := [⟨1⟩, ⟨2⟩, ⟨6⟩]) hm (by decide) (by decide)
    (by decide) (by decide) (by decide) (by decide)
  have hclash := resolve_exact (v := ⟨0⟩) (a := [⟨0⟩, ⟨2⟩, ⟨5⟩]) (b := [⟨1⟩, ⟨4⟩, ⟨6⟩]) hm (by decide) (by decide)
    (by decide) (by decide) (by decide) (by decide)
  exact ⟨⟨by decide, hout.2.2.2⟩, hclash.2.1.2 ⟨⟨4⟩, by decide⟩, hclash.2.2.2⟩

namespace Solver

theorem isLive_of_mem_pairs {d : Database} {pos neg : List ClauseRef} {rq : ClauseRef × ClauseRef}
    (hl : ∀ r ∈ pos ++ neg, d.isLive r) (h : rq ∈ pos.flatMap fun p => neg.map fun n => (p, n)) :
    d.isLive rq.1 ∧ d.isLive rq.2 := by
  obtain ⟨r, hr, h⟩ := List.mem_flatMap.1 h
  obtain ⟨q, hq, rfl⟩ := List.mem_map.1 h
  exact ⟨hl r (List.mem_append_left neg hr), hl q (List.mem_append_right pos hq)⟩

theorem addAll_frame (f : List (List Lit)) (o : Occurrences) (s : Solver) :
    (addAll o s f).2.vars = s.vars ∧ (addAll o s f).2.heap = s.heap := by
  obtain ⟨p, st, h⟩ := foldl_addDerived_frame f o s
  change (addAll o s f).2 = _ at h
  rw [h]
  exact ⟨rfl, rfl⟩

end Solver

/-! ## Operations that check their bounds -/

variable [Build]

namespace Solver

def occurrencesOfChecked (s : Solver) (o : Occurrences) (l : Lit) : Fallible (List ClauseRef) := do
  require (o.Knows l) .outOfRange
  require (∀ r ∈ o.of l, s.prop.clauses.Stores r) .outOfRange
  return s.occurrencesOf o l

/-- Every resolution is a use of the marks, also the one at which a limit is exceeded. -/
def collectResolventsChecked (s : Solver) (v : Var) (maxLength maxCount : Nat) :
    List (ClauseRef × ClauseRef) → Array (List Lit) → Marks → Fallible (Option (Array (List Lit)) × Marks)
  | [], found, marks => return (some found, marks)
  | (p, n) :: pairs, found, marks => do
    let a ← s.prop.clauses.getChecked p
    let b ← s.prop.clauses.getChecked n
    -- the marks are those that the last resolution left, not those of `s`
    let out ← { s with litMarks := marks }.inspecting (resolveChecked marks a.lits b.lits v)
      fun out => { s with litMarks := out.2 }
    match out with
    | (none, marks) => s.collectResolventsChecked v maxLength maxCount pairs found marks
    | (some resolvent, marks) =>
      if maxLength < resolvent.length ∨ found.size = maxCount then return (none, marks)
      else s.collectResolventsChecked v maxLength maxCount pairs (found.push resolvent) marks

def resolvents?Checked (s : Solver) (v : Var) (pos neg : List ClauseRef) :
    Fallible (Option (List (List Lit)) × Solver) := do
  let pairs := pos.flatMap fun p => neg.map fun n => (p, n)
  let sum := pos.length + neg.length + s.config.elimGrowLimit.toNat
  Counting.words.check sum
  let s := s.noteSum .words sum
  let (found, marks) ← s.collectResolventsChecked v s.config.elimResolventLimit.toNat (Counting.words.keep sum) pairs
    #[] s.litMarks
  return (found.map Array.toList, { s with litMarks := marks })

def witnessChecked (s : Solver) (v : Var) (pos neg : List ClauseRef) : Fallible Witness := do
  require (∀ r ∈ if pos.length ≤ neg.length then pos else neg, s.prop.clauses.Stores r) .outOfRange
  return s.witness v pos neg

def addAllChecked (o : Occurrences) (s : Solver) (f : List (List Lit)) : Fallible (Occurrences × Solver) :=
  f.foldlM (fun os ls => os.2.addDerivedChecked os.1 ls) (o, s)

/-- Marks a variable as eliminated, and takes it out of the decisions. -/
def retireChecked (s : Solver) (v : Var) : Fallible Solver := do
  require (v.index < s.varCount) .outOfRange
  let s := s.modifyVariable v ({ · with eliminated := true })
  let heap ← s.heap.setEnabledChecked v false
  return { s with heap := heap }

def eliminateVar?Checked (s : Solver) (o : Occurrences) (v : Var) : Fallible (Bool × Occurrences × Solver) := do
  let pos ← s.occurrencesOfChecked o v.positive
  let neg ← s.occurrencesOfChecked o v.negative
  let occurrences := pos.length + neg.length
  if occurrences = 0 ∨ s.config.elimOccurrenceLimit.toNat < occurrences then return (false, o, s)
  else
    match ← s.resolvents?Checked v pos neg with
    | (none, s) => return (false, o, s)
    | (some resolvents, s) =>
      let w ← s.witnessChecked v pos neg
      let s := { s with witnesses := w :: s.witnesses }
      let clauses ← (pos ++ neg).foldlM Database.deleteChecked s.prop.clauses
      let (o, s) ← addAllChecked o (s.withClauses clauses) resolvents
      let s ← s.retireChecked v
      return (true, o, s)

def eliminateListChecked : List Var → Nat → Occurrences → Solver → Fallible (Nat × Solver)
  | [], count, _, s => return (count, s)
  | v :: vs, count, o, s => do
    if s.status = .unsat then return (count, s)
    else
      require (s.prop.trail.Knows v) .outOfRange
      if s.prop.trail.isAssigned v then eliminateListChecked vs count o s
      else
        let (done, o, s) ← s.eliminateVar?Checked o v
        eliminateListChecked vs (if done then count + 1 else count) o s

def eliminationCandidatesChecked (s : Solver) (o : Occurrences) : Fallible (List Var) := do
  let all := (List.range s.varCount).map Var.mk
  require (∀ v ∈ all, v.index < Var.maxCount) .assertion
  require (∀ v ∈ all, s.prop.trail.Knows v) .outOfRange
  require (∀ v ∈ s.eliminationCandidates o, o.Knows v.positive ∧ o.Knows v.negative) .outOfRange
  return s.eliminationCandidates o

def dropLearnedWithEliminatedChecked (s : Solver) : Fallible Solver := do
  let d := s.prop.clauses
  let live ← d.liveChecked
  require (∀ r ∈ live, (d.get r).learned → ∀ l ∈ (d.get r).lits, l.var.index < s.varCount) .outOfRange
  let refs := live.filter fun r => (d.get r).learned && (d.get r).lits.any fun l => s.hasEliminated l.var
  let clauses ← refs.foldlM Database.deleteChecked d
  return s.withClauses clauses

def eliminateVarsChecked (s : Solver) : Fallible Solver := do
  let (o, s) ← s.buildOccurrencesChecked
  let candidates ← s.eliminationCandidatesChecked o
  let (count, s) ← eliminateListChecked candidates 0 o s
  let s ← s.dropLearnedWithEliminatedChecked
  return s.report (.elimination count s.witnesses.length)

def simplifyFormulaChecked (s : Solver) (eliminate : Bool) : Fallible Solver := do
  match ← s.settleFactsChecked with
  | (false, s) => return s
  | (true, s) =>
    let s ← s.subsumeChecked
    match ← s.settleFactsChecked with
    | (false, s) => return s
    | (true, s) =>
      if eliminate && !s.eliminationOff then
        let s ← s.eliminateVarsChecked
        let (_, s) ← s.settleFactsChecked
        return s
      else return s

end Solver

/-! ## The checks succeed -/

namespace Solver

variable {s s' : Solver} {o : Occurrences} {v : Var} {pos neg : List ClauseRef}

theorem occurrencesOfChecked_eq (ho : o.Exact s.varCount s.prop.clauses) {l : Lit} (hx : l.var.index < s.varCount) :
    s.occurrencesOfChecked o l = .ok (s.occurrencesOf o l) := by
  have hstores : ∀ r ∈ o.of l, s.prop.clauses.Stores r := fun _ hr => ho.lt hr
  rw [occurrencesOfChecked, require_bind (Occurrences.knows_of_index_lt ho.size_eq hx), require_bind hstores]
  rfl

theorem Inv.collectResolventsChecked (h : s.Inv) (v : Var) (maxLength maxCount : Nat)
    (pairs : List (ClauseRef × ClauseRef)) (found : Array (List Lit)) {marks : Marks}
    (hm : marks.Clear (2 * s.varCount + 1))
    (hp : ∀ rq ∈ pairs, s.prop.clauses.isLive rq.1 ∧ s.prop.clauses.isLive rq.2) :
    s.collectResolventsChecked v maxLength maxCount pairs found marks =
      .ok (collectResolvents s.prop.clauses v maxLength maxCount pairs found marks) := by
  induction pairs generalizing found marks with
  | nil => rfl
  | cons rq pairs ih =>
    obtain ⟨r, q⟩ := rq
    obtain ⟨hr, hq⟩ := hp (r, q) List.mem_cons_self
    have ih := fun found {marks : Marks} (hm : marks.Clear _) =>
      ih found hm fun rq hrq => hp rq (List.mem_cons_of_mem (r, q) hrq)
    have hindex {r : ClauseRef} (hr : s.prop.clauses.isLive r) : ∀ l ∈ (s.prop.clauses.get r).lits,
        l.var.index < s.varCount := fun l => (h.prop.fits hr).index_lt
    have hcode : ∀ l ∈ (s.prop.clauses.get r).lits, l.code < 2 * s.varCount + 1 := fun l hl =>
      Nat.lt_succ_of_lt (Lit.code_lt (hindex hr l hl))
    have hclear := (resolve_spec (v := v) hm hcode (h.prop.fits hr).nodup (h.prop.fits hq).nodup).1
    have hresolve : inspecting { s with litMarks := marks }
        (resolveChecked marks (s.prop.clauses.get r).lits (s.prop.clauses.get q).lits v)
        (fun out => { s with litMarks := out.2 }) =
          .ok (resolve marks (s.prop.clauses.get r).lits (s.prop.clauses.get q).lits v) :=
      inspecting_eq ⟨hm, h.varMarks⟩ (resolveChecked_eq hm.size_eq (hindex hr) (hindex hq) v) ⟨hclear, h.varMarks⟩
    rw [Solver.collectResolventsChecked, Database.getChecked_eq (Database.lt_of_isLive hr), ok_bind,
      Database.getChecked_eq (Database.lt_of_isLive hq), ok_bind, hresolve, ok_bind,
      collectResolvents]
    generalize resolve marks (s.prop.clauses.get r).lits (s.prop.clauses.get q).lits v = out at hclear
    obtain ⟨resolvent, marks'⟩ := out
    cases resolvent with
    | none => exact ih found hclear
    | some resolvent =>
      dsimp only
      split
      · rfl
      · exact ih (found.push resolvent) hclear

/-- The resolvents are found, unless the limit on their number has more than 64 bits. -/
theorem Inv.resolvents?Checked (h : s.Inv) (hb : s.Bounded) (v : Var)
    (hl : ∀ r ∈ pos ++ neg, s.prop.clauses.isLive r) :
    Yields (s.resolvents?Checked v pos neg) (s.resolvents? v pos neg) fun out => out.2.Bounded := by
  rw [Solver.resolvents?Checked]
  refine (check_yields .words _).bind fun hsum => ?_
  have hi : (s.noteSum .words (pos.length + neg.length + s.config.elimGrowLimit.toNat)).Inv :=
    h.of_core rfl
  dsimp only
  rw [hi.collectResolventsChecked v _ _ _ #[] hi.litMarks fun _ => isLive_of_mem_pairs hl]
  exact .answers rfl ((hb.noteSum hsum).of_extent rfl)

theorem witnessChecked_eq (v : Var) (hl : ∀ r ∈ pos ++ neg, s.prop.clauses.isLive r) :
    s.witnessChecked v pos neg = .ok (s.witness v pos neg) := by
  have hstores : ∀ r ∈ if pos.length ≤ neg.length then pos else neg, s.prop.clauses.Stores r := by
    intro r hr
    refine Database.lt_of_isLive (hl r ?_)
    split at hr
    · exact List.mem_append_left neg hr
    · exact List.mem_append_right pos hr
  rw [witnessChecked, require_bind hstores]
  rfl

theorem addAllChecked_yields {f : List (List Lit)} {ws : List Witness} (h : s.Sound) (hb : s.Bounded)
    (he : s.prop.watches.enabled = false) (ho : o.Exact s.varCount s.prop.clauses)
    (hf : ∀ ls ∈ f, (∀ l ∈ ls, l.var.index < s.varCount) ∧ (ls.map Lit.var).Nodup ∧
      ∀ l ∈ ls, (infoOf s.vars l.var).eliminated = false) (hs' : s' = { s with witnesses := ws }) :
    Yields (addAllChecked o s' f) (addAll o s' f) fun out => out.2.Bounded := by
  subst hs'
  induction f generalizing o s with
  | nil => exact .answers rfl (hb.of_extent rfl)
  | cons ls f ih =>
    obtain ⟨hi, hn, hel⟩ := hf ls List.mem_cons_self
    obtain ⟨h1, h2, -⟩ := addDerived_spec h he ho hi hn hel
    obtain ⟨p, st, hs⟩ := h1.frame
    have hvars : (s.addDerived o ls).2.vars = s.vars := by rw [hs]
    have hcount : (s.addDerived o ls).2.varCount = s.varCount := congrArg Array.size hvars
    have hadd := addDerivedChecked_yields (s := { s with witnesses := ws }) h.prop
      (hb.of_extent rfl) ho.size_eq hi hn
    rw [addDerived_withWitnesses] at hadd
    have hstep : addAll o { s with witnesses := ws } (ls :: f) =
        addAll (s.addDerived o ls).1 { (s.addDerived o ls).2 with witnesses := ws } f := by
      rw [addAll, List.foldl_cons]
      dsimp only
      rw [addDerived_withWitnesses]
      rfl
    rw [addAllChecked, List.foldlM_cons, hstep]
    refine hadd.bind fun hb₁ =>
      ih h1.sound (hb₁.of_extent rfl) (h1.enabled_eq.trans he) (hcount.symm ▸ h2) ?_
    rw [hcount, hvars]
    exact fun ks hks => hf ks (List.mem_cons_of_mem ls hks)

theorem Bounded.retireChecked (hb : s.Bounded) (hh : s.heap.Sized s.varCount) (hx : v.index < s.varCount) :
    s.retireChecked v = .ok { s.modifyVariable v ({ · with eliminated := true }) with
      heap := s.heap.setEnabled v false } ∧
      Solver.Bounded { s.modifyVariable v ({ · with eliminated := true }) with
        heap := s.heap.setEnabled v false } := by
  obtain ⟨hset, hsized⟩ := hh.setEnabledChecked hx false
  refine ⟨?_, hb.change Array.size_modify rfl rfl rfl (.refl _) hb.within hsized.activities_size⟩
  rw [Solver.retireChecked, require_bind hx]
  dsimp only [modifyVariable]
  rw [hset]
  rfl

/-- A variable is eliminated, unless there is no room for a resolvent. -/
theorem Inv.eliminateVar?Checked (h : s.Inv) (hb : s.Bounded) (he : s.prop.watches.enabled = false)
    (ho : o.Exact s.varCount s.prop.clauses) (hx : v.index < s.varCount) :
    Yields (s.eliminateVar?Checked o v) (s.eliminateVar? o v) fun out => out.2.2.Bounded := by
  have hp := sides_occurrencesOf (v := v) ho
  have hn := nodup_sides (v := v) h ho
  have hl : ∀ r ∈ s.occurrencesOf o v.positive ++ s.occurrencesOf o v.negative, s.prop.clauses.isLive r := fun _ =>
    isLive_of_mem_sides ho
  have hpos : v.positive.var.index < s.varCount := (Lit.var_lit v true).symm ▸ hx
  have hneg : v.negative.var.index < s.varCount := (Lit.var_lit v false).symm ▸ hx
  unfold Solver.eliminateVar?Checked eliminateVar?
  rw [occurrencesOfChecked_eq ho hpos, ok_bind, occurrencesOfChecked_eq ho hneg, ok_bind]
  dsimp only
  generalize s.occurrencesOf o v.positive = pos at hp hn hl
  generalize s.occurrencesOf o v.negative = neg at hp hn hl
  split
  · exact .answers rfl hb
  · have hsized := h.sized hb
    obtain ⟨marks, b, h1, -, h3⟩ :=
      resolvents_spec h v (fun r hr => (hp.mem_pos.1 hr).1) fun r hr => (hp.mem_neg.1 hr).1
    refine (h.resolvents?Checked hb v hl).bind fun hb => ?_
    generalize s.resolvents? v pos neg = out at h1 h3 hb
    obtain ⟨found, s₁⟩ := out
    dsimp only at h1 h3 hb
    subst h1
    cases found with
    | none => exact .answers rfl hb
    | some found =>
      have hf := h3 found rfl
      have hchanges := (Stock.Steps.foldl_delete s.clauseScale _ hn hl).changes
      have ht := Database.Thinned.foldl_delete s.prop.clauses (pos ++ neg)
      dsimp only
      rw [witnessChecked_eq (s := { s with litMarks := marks, overflowed := b }) v hl, ok_bind,
        hb.kept.foldlM_deleteChecked (pos ++ neg) hn hl, ok_bind]
      generalize (pos ++ neg).foldl Database.delete s.prop.clauses = d at hchanges ht
      generalize Solver.witness _ v pos neg = w
      have hs₁ : (({ s with litMarks := marks, overflowed := b } : Solver).withClauses d).Sound :=
        Sound.thin (s := { s with litMarks := marks, overflowed := b }) ht
          ⟨h.prop, h.candidates, h.varMarks, h.eliminations⟩ he
      have hb₁ : (({ s with litMarks := marks, overflowed := b } : Solver).withClauses d).Bounded :=
        hb.change rfl rfl rfl rfl hchanges hb.within hb.activities_size
      have hfound : ∀ ls ∈ found, (∀ l ∈ ls, l.var.index < s.varCount) ∧ (ls.map Lit.var).Nodup ∧
          ∀ l ∈ ls, (infoOf s.vars l.var).eliminated = false := fun ls hls =>
        ⟨fun l hl => (mem_resolvent h hp hf hls hl).1, (exists_parents hf hls).elim fun _ hr =>
          hr.elim fun _ hr => hr.2.2.nodup, fun l hl => (mem_resolvent h hp hf hls hl).2⟩
      generalize hT : Solver.withClauses
        { s with litMarks := marks, overflowed := b, witnesses := w :: s.witnesses } d = t
      have hadd := addAllChecked_yields hs₁ hb₁ he (ho.thinned ht) hfound hT.symm
      obtain ⟨hvars, hheap⟩ := addAll_frame found o t
      have htvars : t.vars = s.vars := by rw [← hT]; rfl
      have htheap : t.heap = s.heap := by rw [← hT]; rfl
      have hfold : found.foldl (fun os ls => os.2.addDerived os.1 ls) (o, t) = addAll o t found := rfl
      rw [hfold]
      refine hadd.bind fun hb₂ => ?_
      generalize addAll o t found = out at hvars hheap hb₂
      obtain ⟨o', t'⟩ := out
      have hcount : t'.varCount = s.varCount := congrArg Array.size (hvars.trans htvars)
      have hheap : t'.heap = s.heap := hheap.trans htheap
      obtain ⟨h4, h5⟩ := hb₂.retireChecked (hcount.symm ▸ hheap.symm ▸ hsized) (hcount.symm ▸ hx)
      dsimp only at h4 ⊢
      rw [h4]
      exact .answers rfl h5

theorem Eliminating.eliminateListChecked (vs : List Var) (count : Nat) (h : Eliminating s o s') (hb : s'.Bounded)
    (hv : ∀ v ∈ vs, v.index < s'.varCount) :
    Yields (eliminateListChecked vs count o s') (eliminateList vs count o s') fun out => out.2.Bounded := by
  induction vs generalizing count o s' with
  | nil => exact .answers rfl hb
  | cons v vs ih =>
    have hvs : ∀ u ∈ vs, u.index < s'.varCount := fun u hu => hv u (List.mem_cons_of_mem v hu)
    have hx := hv v List.mem_cons_self
    rw [Solver.eliminateListChecked, eliminateList]
    split
    · exact .answers rfl hb
    · rw [require_bind (h.inv.prop.trail.knows hx)]
      split
      · exact ih count h hb hvs
      · next hu =>
        have hs := eliminateVar_spec h.inv h.disabled h.exact hx hu
        refine (h.inv.eliminateVar?Checked hb h.disabled h.exact hx).bind fun hb₁ => ?_
        generalize s'.eliminateVar? o v = out at hs hb₁
        obtain ⟨done, o', t⟩ := out
        exact ih _ (h.trans hs) hb₁ fun u hu => hs.rewritten.varCount_eq ▸ hvs u hu

theorem Inv.eliminationCandidatesChecked (h : s.Inv) (hb : s.Bounded) (ho : o.Exact s.varCount s.prop.clauses) :
    s.eliminationCandidatesChecked o = .ok (s.eliminationCandidates o) := by
  have hall : ∀ v ∈ (List.range s.varCount).map Var.mk, v.index < s.varCount :=
    List.forall_mem_map.2 fun _ hi => List.mem_range.1 hi
  have hknows : ∀ v ∈ s.eliminationCandidates o, o.Knows v.positive ∧ o.Knows v.negative := fun v hv =>
    have hx := (mem_eliminationCandidates hv).1
    ⟨Occurrences.knows_of_index_lt ho.size_eq ((Lit.var_lit v true).symm ▸ hx),
      Occurrences.knows_of_index_lt ho.size_eq ((Lit.var_lit v false).symm ▸ hx)⟩
  rw [Solver.eliminationCandidatesChecked,
    require_bind_of_checks fun hc v hv => Nat.lt_of_lt_of_le (hall v hv) (hb.varCount_le hc),
    require_bind fun v hv => h.prop.trail.knows (hall v hv), require_bind hknows]
  rfl

theorem Inv.dropLearnedWithEliminatedChecked (h : s.Inv) (hb : s.Bounded) :
    s.dropLearnedWithEliminatedChecked = .ok s.dropLearnedWithEliminated ∧ s.dropLearnedWithEliminated.Bounded := by
  have hl := h.prop.listed
  have hindex : ∀ r ∈ s.prop.clauses.live, (s.prop.clauses.get r).learned →
      ∀ l ∈ (s.prop.clauses.get r).lits, l.var.index < s.varCount := fun r hr _ l =>
    (h.prop.fits (hl.mem_live.1 hr)).index_lt
  refine ⟨?_, hb.change rfl rfl rfl rfl (dropLearnedWithEliminated_steps hl).changes hb.within hb.activities_size⟩
  rw [Solver.dropLearnedWithEliminatedChecked, hl.liveChecked, ok_bind, require_bind hindex]
  dsimp only
  rw [hb.kept.foldlM_deleteChecked _ (hl.live_nodup.filter _) fun _ hr => hl.mem_live.1 (List.mem_filter.1 hr).1]
  rfl

theorem Inv.eliminateVarsChecked (h : s.Inv) (hb : s.Bounded) (hi : s.prop.trail.Idle) :
    Yields s.eliminateVarsChecked s.eliminateVars Solver.Bounded := by
  obtain ⟨h1, h2, h3, h4⟩ := buildOccurrences_spec h hi
  obtain ⟨hbuild, hb₁⟩ := h.buildOccurrencesChecked hb
  rw [← h2.varCount_eq] at h4
  unfold Solver.eliminateVarsChecked eliminateVars
  rw [hbuild, ok_bind]
  generalize s.buildOccurrences = out at h1 h2 h3 h4 hb₁
  obtain ⟨o, s₁⟩ := out
  dsimp only at h1 h2 h3 h4 hb₁ ⊢
  have hstart : Eliminating s₁ o s₁ := ⟨h1, h3, h4, Rewritten.refl s₁, id⟩
  have hv : ∀ v ∈ s₁.eliminationCandidates o, v.index < s₁.varCount := fun v hv => (mem_eliminationCandidates hv).1
  obtain ⟨_, h5⟩ := eliminateList_spec _ 0 hstart hv
  rw [h1.eliminationCandidatesChecked hb₁ h4, ok_bind]
  refine (hstart.eliminateListChecked _ 0 hb₁ hv).bind fun hb₂ => ?_
  generalize eliminateList _ 0 o s₁ = out at h5 hb₂
  obtain ⟨count, s₂⟩ := out
  obtain ⟨h6, hb₃⟩ := h5.inv.dropLearnedWithEliminatedChecked hb₂
  dsimp only at h6 ⊢
  rw [h6]
  exact .answers rfl (hb₃.of_extent rfl)

/-- No check of simplification fails, unless there is no room for a derived clause. -/
theorem Inv.simplifyFormulaChecked (h : s.Inv) (hb : s.Bounded) (h0 : s.prop.trail.currentLevel = 0)
    (eliminate : Bool) :
    Yields (s.simplifyFormulaChecked eliminate) (s.simplifyFormula eliminate) Solver.Bounded := by
  obtain ⟨hsettle, hb₁⟩ := h.settleFactsChecked hb fun _ => h0
  unfold Solver.simplifyFormulaChecked simplifyFormula
  rw [hsettle, ok_bind]
  cases h1 : s.settleFacts with
  | mk goOn s₁ =>
    rw [h1] at hb₁
    cases goOn with
    | false => exact .answers rfl hb₁
    | true =>
      obtain ⟨hi₁, hw₁, hidle₁⟩ := settled_spec h h0 h1
      obtain ⟨hi₂, hw₂⟩ := subsumed_spec h h0 h1
      dsimp only
      refine (hi₁.subsumeChecked hb₁ hidle₁).bind fun hb₂ => ?_
      obtain ⟨hresettle, hb₃⟩ := hi₂.settleFactsChecked hb₂ fun _ => hw₂.currentLevel h0
      rw [hresettle, ok_bind]
      cases h2 : s₁.subsume.settleFacts with
      | mk goOn s₂ =>
        rw [h2] at hb₃
        cases goOn with
        | false => exact .answers rfl hb₃
        | true =>
          obtain ⟨hi₃, hw₃, hidle₃⟩ := resettled_spec h h0 h1 h2
          dsimp only
          split
          · obtain ⟨hi₄, hw₄, -⟩ := eliminateVars_spec hi₃ hidle₃
            refine (hi₃.eliminateVarsChecked hb₃ hidle₃).bind fun hb₄ => ?_
            obtain ⟨hlast, hb₅⟩ := hi₄.settleFactsChecked hb₄ fun _ => (hw₃.trans hw₄).currentLevel h0
            rw [hlast]
            exact .answers rfl hb₅
          · exact .answers rfl hb₃

end Solver

end ClauseLearning
