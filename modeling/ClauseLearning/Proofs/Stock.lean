import ClauseLearning.Proofs.Changes
import ClauseLearning.Proofs.ReductionEffects
import ClauseLearning.State

/-!
# The stock of clauses in the course of a run

The clauses and the scale of their activities, with the steps that a run takes with them, in all detail that
`Database.Changes` leaves out.

* `Clause.Graded` : the tier of a learned clause fits its glue;
* `Stock.Edit`, `Stock.Step`, `Stock.Steps` : the steps, of which only compaction gives clauses new references;
* `Stock.Steps.changes` : what the steps do to the database.
-/

namespace ClauseLearning

/-! ## Clauses -/

namespace Clause

variable {c c' c'' : Clause} {g : Nat} {a : ActivityScale}

/-- The same entry of the database, perhaps with other literals. -/
def SameEntry (c c' : Clause) : Prop := c' = { c with first := c'.first, second := c'.second, others := c'.others }

/-- The same clause with its literals in another order. -/
structure Permuted (c c' : Clause) : Prop where
  perm : c'.lits.Perm c.lits
  same : c.SameEntry c'

/-- The same clause without some of its literals. -/
structure Shortened (c c' : Clause) : Prop where
  sublist : c'.lits.Sublist c.lits
  same : c.SameEntry c'

theorem Permuted.refl (c : Clause) : Permuted c c := ⟨List.Perm.refl _, rfl⟩

theorem SameEntry.trans (h : c.SameEntry c') (h' : c'.SameEntry c'') : c.SameEntry c'' := by
  unfold SameEntry at h h' ⊢
  rw [h] at h'
  exact h'

theorem Permuted.trans (h : c.Permuted c') (h' : c'.Permuted c'') : c.Permuted c'' :=
  ⟨h'.perm.trans h.perm, h.same.trans h'.same⟩

theorem Permuted.reordered (h : c.Permuted c') : c.Reordered c' :=
  ⟨h.perm, by rw [h.same], by rw [h.same], by rw [h.same]⟩

theorem Shortened.trimmed (h : c.Shortened c') : c.Trimmed c' :=
  ⟨h.sublist.length_le, by rw [h.same], by rw [h.same], by rw [h.same]⟩

theorem swapWatched_permuted (c : Clause) : c.Permuted c.swapWatched := ⟨(swapWatched_reordered c).perm, rfl⟩

theorem replaceSecond?_permuted {good : Lit → Bool} (h : c.replaceSecond? good = some c') : c.Permuted c' := by
  refine ⟨(replaceSecond?_some h).1.perm, ?_⟩
  rw [replaceSecond?, Option.map_eq_some_iff] at h
  obtain ⟨_, -, rfl⟩ := h
  rfl

theorem watchBest_permuted (c : Clause) (rank : Lit → Nat) : c.Permuted (c.watchBest rank) := by
  refine ⟨(watchBest_reordered c rank).perm, ?_⟩
  unfold watchBest
  split <;> rfl

/-- The tier of a learned clause fits its glue. Clauses of the local tier may have moved there from the one above. -/
structure Graded (c : Clause) : Prop where
  core_iff : c.learned → (c.tier = .core ↔ c.glue ≤ 2)
  mid : c.tier = .mid → 3 ≤ c.glue ∧ c.glue ≤ 6
  loc : c.tier = .loc → 3 ≤ c.glue
  glue_le : c.glue ≤ maxGlue

theorem Graded.congr (h : c.Graded) (ht : c'.tier = c.tier) (hg : c'.glue = c.glue) : c'.Graded := by
  obtain ⟨h1, h2, h3, h4⟩ := h
  refine ⟨?_, ?_, ?_, ?_⟩
  · rwa [learned, ht, hg]
  · rwa [ht, hg]
  · rwa [ht, hg]
  · rwa [hg]

theorem graded_of_irredundant (h : c.tier = .irredundant) (hle : c.glue ≤ maxGlue) : c.Graded where
  core_iff hl := by
    rw [learned, h] at hl
    exact absurd hl (by decide)
  mid hm := absurd (h.symm.trans hm) (by decide)
  loc hl := absurd (h.symm.trans hl) (by decide)
  glue_le := hle

theorem graded_of_core (h : c.tier = .core) (hg : c.glue ≤ 2) : c.Graded where
  core_iff _ := iff_of_true h hg
  mid hm := absurd (h.symm.trans hm) (by decide)
  loc hl := absurd (h.symm.trans hl) (by decide)
  glue_le := Nat.le_trans hg (by decide)

theorem graded_of_mid (h : c.tier = .mid) (hg : 3 ≤ c.glue) (hle : c.glue ≤ 6) : c.Graded where
  core_iff _ := iff_of_false (fun hc => absurd (h.symm.trans hc) (by decide)) (Nat.not_le.2 hg)
  mid _ := ⟨hg, hle⟩
  loc hl := absurd (h.symm.trans hl) (by decide)
  glue_le := Nat.le_trans hle (by decide)

theorem graded_of_loc (h : c.tier = .loc) (hg : 3 ≤ c.glue) (hle : c.glue ≤ maxGlue) : c.Graded where
  core_iff _ := iff_of_false (fun hc => absurd (h.symm.trans hc) (by decide)) (Nat.not_le.2 hg)
  mid hm := absurd (h.symm.trans hm) (by decide)
  loc _ := hg
  glue_le := hle

theorem graded_of_ofGlue (h : c.tier = Tier.ofGlue c.glue) (hle : c.glue ≤ maxGlue) : c.Graded := by
  unfold Tier.ofGlue at h
  split at h
  · next h2 => exact graded_of_core h h2
  · next h2 =>
    split at h
    · next h6 => exact graded_of_mid h (Nat.not_le.1 h2) h6
    · exact graded_of_loc h (Nat.not_le.1 h2) hle

/-- Clauses that are added to the stock: inactive ones of the formula, and learned ones in the tier of their glue. -/
structure Fresh (c : Clause) : Prop where
  deleted_eq : c.deleted = false
  marked_eq : c.marked = false
  activity_eq : c.activity = 0
  tier_eq : c.tier = .irredundant ∨ c.tier = Tier.ofGlue c.glue
  glue_le : c.glue ≤ maxGlue

theorem Fresh.graded (h : c.Fresh) : c.Graded :=
  h.tier_eq.elim (fun ht => graded_of_irredundant ht h.glue_le) fun ht => graded_of_ofGlue ht h.glue_le

end Clause

/-! ## Steps -/

/-- The clauses and the scale of their activities. -/
structure Stock where
  clauses : Database := {}
  scale : ActivityScale := {}

/-- The clauses of a solver with the scale of their activities. -/
def Solver.stock (s : Solver) : Stock := ⟨s.prop.clauses, s.clauseScale⟩

namespace Stock

variable {σ τ υ : Stock} {r q : ClauseRef}

/-- The steps in which clauses keep their references. -/
inductive Edit : Stock → Stock → Prop
  | add {d : Database} {a : ActivityScale} {c : Clause} : c.Fresh → Edit ⟨d, a⟩ ⟨(d.add c).2, a⟩
  | delete {d : Database} {a : ActivityScale} {r : ClauseRef} : d.isLive r → Edit ⟨d, a⟩ ⟨d.delete r, a⟩
  | permute {d : Database} {a : ActivityScale} {r : ClauseRef} {f : Clause → Clause} :
    (d.get r).Permuted (f (d.get r)) → Edit ⟨d, a⟩ ⟨d.modify r f, a⟩
  /-- Clauses are shortened or deleted. -/
  | sweep {d : Database} {a : ActivityScale} {keep? : Clause → Option Clause} :
    (∀ c c', keep? c = some c' → c.Shortened c') → Edit ⟨d, a⟩ ⟨d.sweep keep?, a⟩
  | activate {d : Database} {a : ActivityScale} {r : ClauseRef} :
    d.isLive r → Edit ⟨d, a⟩ ⟨d.modify r ({ · with active := true }), a⟩
  /-- A learned clause has less glue than before, and moves to the tier of it. -/
  | regrade {d : Database} {a : ActivityScale} {r : ClauseRef} {g : Nat} :
    d.isLive r → (d.get r).learned → g < (d.get r).glue →
      Edit ⟨d, a⟩ ⟨(d.modify r ({ · with glue := Clause.storedGlue g })).setTier r (Tier.ofGlue g), a⟩
  | bump {d : Database} {a : ActivityScale} {r : ClauseRef} :
    Edit ⟨d, a⟩ ⟨(d.bumpActivity a r).1, (d.bumpActivity a r).2⟩
  | decay {d : Database} {a : ActivityScale} : Edit ⟨d, a⟩ ⟨(d.decayActivities a).1, (d.decayActivities a).2⟩
  | configure {d : Database} {a : ActivityScale} {x : Float32} :
    ConfigUpdate.decayInRange x → Edit ⟨d, a⟩ ⟨d, a.withDecay x⟩
  | reduceLocals {a : ActivityScale} {p : Propagator} (ties : TieOrder) :
    Edit ⟨p.clauses, a⟩ ⟨(p.reduceLocals ties).2.clauses, a⟩
  | reduceMids {a : ActivityScale} {p : Propagator} : Edit ⟨p.clauses, a⟩ ⟨p.reduceMids.2.clauses, a⟩

/-- The steps of a run. -/
inductive Step : Stock → Stock → Prop
  | edit {σ τ : Stock} : σ.Edit τ → Step σ τ
  | compact {d : Database} {a : ActivityScale} : Step ⟨d, a⟩ ⟨d.compact.2, a⟩

/-- Some steps in turn. -/
def Steps (σ τ : Stock) : Prop := Relation.ReflTransGen Step σ τ

theorem Edit.changes (h : σ.Edit τ) : σ.clauses.Changes τ.clauses := by
  cases h with
  | add hc => exact .single (.add hc.deleted_eq hc.marked_eq)
  | delete hr => exact .single (.delete hr)
  | permute hf => exact .single (.edit hf.reordered)
  | sweep hk => exact .single (.sweep fun c c' hc => (hk c c' hc).trimmed)
  | activate hr => exact .single (.edit ⟨List.Perm.refl _, rfl, rfl, rfl⟩)
  | @regrade d a r g hr hl hg =>
    have hlive : (d.modify r ({ · with glue := Clause.storedGlue g })).isLive r := by
      rw [Database.isLive, Database.get_modify_self hr]
      exact hr
    exact (Database.Changes.single (.edit ⟨List.Perm.refl _, rfl, rfl, rfl⟩)).trans (.single (.setTier hlive))
  | bump => exact .bumpActivity _ _ _
  | decay => exact .decayActivities _ _
  | configure => exact .refl _
  | reduceLocals ties => exact .single (.reduceLocals ties rfl)
  | reduceMids => exact .single (.reduceMids rfl)

theorem Step.changes (h : σ.Step τ) : σ.clauses.Changes τ.clauses := by
  cases h with
  | edit h => exact h.changes
  | compact => exact .single .compact

namespace Steps

theorem refl (σ : Stock) : σ.Steps σ := Relation.ReflTransGen.refl

theorem trans (h : σ.Steps τ) (h' : τ.Steps υ) : σ.Steps υ := Relation.ReflTransGen.trans h h'

theorem edit (h : σ.Edit τ) : σ.Steps τ := Relation.ReflTransGen.single (.edit h)

theorem compact (d : Database) (a : ActivityScale) : Steps ⟨d, a⟩ ⟨d.compact.2, a⟩ :=
  Relation.ReflTransGen.single .compact

theorem changes (h : σ.Steps τ) : σ.clauses.Changes τ.clauses := by
  induction h with
  | refl => exact .refl _
  | tail _ h ih => exact ih.trans h.changes

theorem accounted (h : σ.Steps τ) (ha : σ.clauses.Accounted) : τ.clauses.Accounted := h.changes.accounted ha

theorem foldl_delete {d : Database} (a : ActivityScale) (rs : List ClauseRef) (hn : rs.Nodup)
    (hl : ∀ r ∈ rs, d.isLive r) : Steps ⟨d, a⟩ ⟨rs.foldl Database.delete d, a⟩ := by
  induction rs generalizing d with
  | nil => exact refl _
  | cons r rs ih =>
    obtain ⟨hr, hn⟩ := List.nodup_cons.1 hn
    refine (edit (.delete (hl r List.mem_cons_self))).trans (ih hn fun q hq => Database.isLive_delete.2 ⟨?_, ?_⟩)
    · exact hl q (List.mem_cons_of_mem r hq)
    · exact fun he => hr (he ▸ hq)

end Steps

end Stock

end ClauseLearning
