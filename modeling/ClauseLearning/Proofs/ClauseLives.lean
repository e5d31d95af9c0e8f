import ClauseLearning.Proofs.StockRuns

/-!
# The life of a clause

* `Clause.Later` : what a clause keeps for the rest of its life;
* `Clause.Aged`, `Stock.Edit.aged` : what may become of a clause in a step in which it keeps its reference;
* `Database.renamed` : its new reference after compaction;
* `Stock.Carried` : the references of one clause in the course of some steps;
* `Stock.Steps.origin`, `Stock.Steps.graded` : every clause was added at some time and has been carried since, and its
  tier fits its glue.
-/

namespace ClauseLearning

/-- What bumps and scaling may make of an activity. -/
inductive ActivityScale.Leads (a : ActivityScale) (x : Float32) : Float32 → Prop
  | refl : Leads a x x
  | bump {y : Float32} : Leads a x y → Leads a x (y + a.bump)
  | rescale {y : Float32} : Leads a x y → Leads a x (y * rescaleFactor)

theorem ActivityScale.Leads.trans {a : ActivityScale} {x y z : Float32} (h : a.Leads x y) (h' : a.Leads y z) :
    a.Leads x z := by
  induction h' with
  | refl => exact h
  | bump _ ih => exact ih.bump
  | rescale _ ih => exact ih.rescale

namespace Clause

variable {a : ActivityScale} {c c' c'' : Clause}

/-- What a clause keeps for the rest of its life. Literals change their order or are removed, and the glue never
increases. -/
structure Later (c c' : Clause) : Prop where
  lits : c'.lits.Subperm c.lits
  learned_eq : c'.learned = c.learned
  glue_le : c'.glue ≤ c.glue

theorem Later.refl (c : Clause) : c.Later c := ⟨List.Subperm.refl _, rfl, Nat.le_refl _⟩

theorem Later.trans (h : c.Later c') (h' : c'.Later c'') : c.Later c'' :=
  ⟨h'.lits.trans h.lits, h'.learned_eq.trans h.learned_eq, h'.glue_le.trans h.glue_le⟩

/-- What may become of a clause in a step in which it keeps its reference. -/
structure Aged (a : ActivityScale) (c c' : Clause) : Prop extends Later c c' where
  deleted : c'.deleted = false → c.deleted = false
  graded : c.Graded → c'.Graded
  activity : a.Leads c.activity c'.activity

namespace Aged

theorem of_eq (hd : c'.deleted = false → c.deleted = false) (hl : c'.lits.Subperm c.lits) (ht : c'.tier = c.tier)
    (hg : c'.glue = c.glue) (ha : a.Leads c.activity c'.activity) : c.Aged a c' :=
  ⟨⟨hl, by rw [learned, learned, ht], Nat.le_of_eq hg⟩, hd, fun h => h.congr ht hg, ha⟩

theorem refl (a : ActivityScale) (c : Clause) : c.Aged a c := of_eq id (List.Subperm.refl _) rfl rfl .refl

theorem trans (h : c.Aged a c') (h' : c'.Aged a c'') : c.Aged a c'' where
  toLater := h.toLater.trans h'.toLater
  deleted hd := h.deleted (h'.deleted hd)
  graded hg := h'.graded (h.graded hg)
  activity := h.activity.trans h'.activity

theorem of_same (hs : c.SameEntry c') (hl : c'.lits.Subperm c.lits) : c.Aged a c' := by
  have hact : c'.activity = c.activity := by rw [hs]
  refine of_eq (fun hd => ?_) hl (by rw [hs]) (by rw [hs]) (hact ▸ .refl)
  rw [hs] at hd
  exact hd

theorem of_plain (hp : c'.plain = c.plain) (hd : c'.deleted = false → c.deleted = false) : c.Aged a c' := by
  have hlits := congrArg Clause.lits hp
  have htier := congrArg Clause.tier hp
  have hglue := congrArg Clause.glue hp
  have hact := congrArg Clause.activity hp
  change c'.lits = c.lits at hlits
  change c'.activity = c.activity at hact
  exact of_eq hd (hlits ▸ List.Subperm.refl _) htier hglue (hact ▸ .refl)

end Aged

end Clause

namespace Database

variable {d e : Database} {a : ActivityScale} {r q : ClauseRef} {f : Clause → Clause}

theorem aged_modify (hf : (d.get r).Aged a (f (d.get r))) (q : ClauseRef) :
    (d.get q).Aged a ((d.modify r f).get q) := by
  rw [get_modify]
  split
  · next hq =>
    rw [hq.1]
    exact hf
  · exact .refl a _

theorem aged_rescale (d : Database) (a : ActivityScale) (q : ClauseRef) : (d.get q).Aged a (d.rescale.get q) := by
  have hall (rs : List ClauseRef) (e : Database) (he : (d.get q).Aged a (e.get q)) : (d.get q).Aged a
      ((rs.foldl (fun d r => d.modify r fun c => { c with activity := c.activity * rescaleFactor }) e).get q) := by
    induction rs generalizing e with
    | nil => exact he
    | cons r rs ih =>
      refine ih _ (he.trans (aged_modify (.of_eq id (List.Subperm.refl _) rfl rfl ?_) q))
      exact .rescale .refl
  exact hall d.live { d with listed := d.live.toArray } (.refl a _)

theorem aged_bumpActivity (d : Database) (a : ActivityScale) (r q : ClauseRef) :
    (d.get q).Aged a ((d.bumpActivity a r).1.get q) := by
  have hbump := aged_modify (d := d) (f := ({ · with activity := (d.get r).activity + a.bump }))
    (.of_eq id (List.Subperm.refl _) rfl rfl (.bump .refl)) q
  dsimp only [bumpActivity]
  split
  · exact hbump.trans (aged_rescale _ a q)
  · exact hbump

theorem aged_decayActivities (d : Database) (a : ActivityScale) (q : ClauseRef) :
    (d.get q).Aged a ((d.decayActivities a).1.get q) := by
  dsimp only [decayActivities]
  split
  · exact aged_rescale d a q
  · exact .refl a _

theorem Listed.aged_sweep (h : d.Listed) {keep? : Clause → Option Clause}
    (hk : ∀ c c', keep? c = some c' → c.Shortened c') (q : ClauseRef) :
    (d.get q).Aged a ((d.sweep keep?).get q) := by
  rw [get_sweep h]
  split
  · rw [swept]
    cases hc : keep? (d.get q) with
    | none => exact .of_plain rfl fun hd => by cases hd
    | some c => exact .of_same (hk _ _ hc).same (hk _ _ hc).sublist.subperm
  · exact .refl a _

theorem aged_regrade (hr : d.isLive r) (hl : (d.get r).learned) {g : Nat} (hg : g < (d.get r).glue) (q : ClauseRef) :
    (d.get q).Aged a (((d.modify r ({ · with glue := Clause.storedGlue g })).setTier r (Tier.ofGlue g)).get q) := by
  have hget : (d.modify r ({ · with glue := Clause.storedGlue g })).get r =
      { d.get r with glue := Clause.storedGlue g } := get_modify_self hr
  have hlive : (d.modify r ({ · with glue := Clause.storedGlue g })).isLive r := by
    rw [isLive, hget]
    exact hr
  rw [get_setTier hlive, hget]
  split
  · next hq =>
    subst hq
    refine ⟨⟨List.Subperm.refl _, ?_, Nat.le_trans (Clause.storedGlue_le g) (Nat.le_of_lt hg)⟩, id, fun _ => ?_, .refl⟩
    · rw [hl, Clause.learned]
      exact bne_iff_ne.2 (Solver.tier_ofGlue_ne g)
    · exact Clause.graded_of_ofGlue (Clause.ofGlue_storedGlue g).symm (Clause.storedGlue_le_maxGlue g)
  · next hq =>
    rw [get_modify_ne hq]
    exact .refl a _

end Database

namespace Propagator

variable {p : Propagator} {a : ActivityScale}

theorem aged_reduceLocals (ties : TieOrder) (h : p.clauses.Accounted) (q : ClauseRef) :
    (p.clauses.get q).Aged a ((p.reduceLocals ties).2.clauses.get q) := by
  obtain ⟨locals, -, hmem, -, hc⟩ := reduceLocals_culled ties h
  refine .of_plain (hc.plain_eq q) fun hd => ?_
  by_cases hq : q ∈ locals
  · exact Database.isLive_iff.1 ((hmem q).1 hq).1
  · rwa [hc.get_eq hq] at hd

theorem aged_reduceMids (h : p.clauses.Accounted) (q : ClauseRef) :
    (p.clauses.get q).Aged a (p.reduceMids.2.clauses.get q) := by
  rw [get_reduceMids h]
  split
  · next hm =>
    split
    · exact .of_plain rfl id
    · have hmid := hm.2
      refine ⟨⟨List.Subperm.refl _, ?_, Nat.le_refl _⟩, id, fun hg => ?_, .refl⟩
      · rw [Clause.learned, Clause.learned, hmid]
        rfl
      · exact Clause.graded_of_loc rfl (hg.mid hmid).1 hg.glue_le
  · exact .refl a _

end Propagator

namespace Stock

variable {σ τ υ : Stock} {r q x : ClauseRef}

/-- In a step in which clauses keep their references, each of them ages, or it is added. -/
theorem Edit.aged (h : σ.Edit τ) (ha : σ.clauses.Accounted) (r : ClauseRef) :
    (σ.clauses.get r).Aged σ.scale (τ.clauses.get r) ∨
      r = σ.clauses.slots.size ∧ (τ.clauses.get r).Fresh := by
  cases h with
  | @add d a c hc =>
    show (d.get r).Aged a ((d.add c).2.get r) ∨ r = d.slots.size ∧ ((d.add c).2.get r).Fresh
    rw [Database.get_add]
    split
    · next hr => exact .inr ⟨hr, hc⟩
    · exact .inl (.refl a _)
  | delete hr => exact .inl (Database.aged_modify (.of_plain rfl fun hd => by cases hd) r)
  | permute hf => exact .inl (Database.aged_modify (.of_same hf.same hf.perm.subperm) r)
  | sweep hk => exact .inl (ha.toListed.aged_sweep hk r)
  | activate hr => exact .inl (Database.aged_modify (.of_plain rfl id) r)
  | regrade hr hl hg => exact .inl (Database.aged_regrade hr hl hg r)
  | bump => exact .inl (Database.aged_bumpActivity _ _ _ r)
  | decay => exact .inl (Database.aged_decayActivities _ _ r)
  | configure => exact .inl (.refl _ _)
  | reduceLocals ties => exact .inl (Propagator.aged_reduceLocals ties ha r)
  | reduceMids => exact .inl (Propagator.aged_reduceMids ha r)

end Stock

/-! ## Compaction -/

namespace Database

variable {d : Database} {r q : ClauseRef}

/-- The new reference of a clause after compaction. -/
def renamed (d : Database) (r : ClauseRef) : ClauseRef :=
  ((sortBy d.offset d.listed.toList).filter d.isLive).idxOf r

theorem Listed.mem_sorted (h : d.Listed) (hr : d.isLive r) : r ∈ (sortBy d.offset d.listed.toList).filter d.isLive :=
  List.mem_filter.2 ⟨mem_sortBy.2 (h.mem hr), hr⟩

theorem Listed.get_renamed (h : d.Listed) (hr : d.isLive r) :
    d.compact.2.isLive (d.renamed r) ∧ d.compact.2.get (d.renamed r) = d.get r := by
  have hidx : d.renamed r < ((sortBy d.offset d.listed.toList).filter d.isLive).length :=
    List.idxOf_lt_length_of_mem (h.mem_sorted hr)
  have hlt : d.renamed r < (d.gather d.listed.toList).length := by
    rw [gather_eq, List.length_map]
    exact hidx
  refine ⟨isLive_compact.2 hlt, ?_⟩
  rw [get_compact hlt]
  simp only [gather_eq, List.getElem_map]
  exact congrArg d.get (List.getElem_idxOf hidx)

theorem Listed.exists_renamed (h : d.Listed) (hr : d.compact.2.isLive r) : ∃ q, d.isLive q ∧ d.renamed q = r := by
  have hlt := isLive_compact.1 hr
  rw [gather_eq, List.length_map] at hlt
  have hnodup : ((sortBy d.offset d.listed.toList).filter d.isLive).Nodup :=
    ((sortBy_perm d.offset d.listed.toList).nodup_iff.2 h.nodup).filter _
  exact ⟨_, (List.mem_filter.1 (List.getElem_mem hlt)).2, hnodup.idxOf_getElem r hlt⟩

end Database

/-! ## Clauses in the course of a run -/

namespace Stock

variable {σ τ υ : Stock} {r q : ClauseRef}

/-- Some steps in which a clause is not deleted, with its reference before and after. -/
inductive Carried (σ : Stock) (r : ClauseRef) : Stock → ClauseRef → Prop
  | start : σ.clauses.isLive r → Carried σ r σ r
  | edit {τ υ : Stock} {q : ClauseRef} : Carried σ r τ q → τ.Edit υ → υ.clauses.isLive q → Carried σ r υ q
  | compact {d : Database} {a : ActivityScale} {q : ClauseRef} :
    Carried σ r ⟨d, a⟩ q → Carried σ r ⟨d.compact.2, a⟩ (d.renamed q)

namespace Carried

theorem steps (h : σ.Carried r τ q) : σ.Steps τ := by
  induction h with
  | start _ => exact .refl _
  | edit _ he _ ih => exact ih.trans (.edit he)
  | compact _ ih => exact ih.trans (.compact _ _)

theorem isLive (h : σ.Carried r τ q) (ha : σ.clauses.Accounted) : τ.clauses.isLive q := by
  induction h with
  | start hr => exact hr
  | edit _ _ hr _ => exact hr
  | compact h ih => exact ((h.steps.accounted ha).toListed.get_renamed ih).1

theorem later (h : σ.Carried r τ q) (ha : σ.clauses.Accounted) :
    (σ.clauses.get r).Later (τ.clauses.get q) := by
  induction h with
  | start _ => exact .refl _
  | @edit τ υ q h he hr ih =>
    rcases he.aged (h.steps.accounted ha) q with hage | ⟨rfl, -⟩
    · exact ih.trans hage.toLater
    -- a reference in use is not given to another clause
    · exact absurd (Database.lt_of_isLive (h.isLive ha)) (Nat.lt_irrefl _)
  | @compact d a q h ih =>
    have hget := ((h.steps.accounted ha).toListed.get_renamed (h.isLive ha)).2
    show (σ.clauses.get r).Later (d.compact.2.get (d.renamed q))
    rw [hget]
    exact ih

end Carried

/-- Every clause after a step was there before, or it is added in the step. -/
theorem Step.origin (h : σ.Step τ) (ha : σ.clauses.Accounted) (hr : τ.clauses.isLive r) :
    (∃ q, σ.clauses.isLive q ∧ (σ.clauses.get q).Aged σ.scale (τ.clauses.get r) ∧
        ∀ {υ x}, Carried υ x σ q → Carried υ x τ r) ∨ (τ.clauses.get r).Fresh := by
  cases h with
  | edit h =>
    rcases h.aged ha r with hage | ⟨-, hfresh⟩
    · refine .inl ⟨r, ?_, hage, fun hc => hc.edit h hr⟩
      exact Database.isLive_iff.2 (hage.deleted (Database.isLive_iff.1 hr))
    · exact .inr hfresh
  | @compact d a =>
    obtain ⟨q, hq, rfl⟩ := ha.toListed.exists_renamed hr
    refine .inl ⟨q, hq, ?_, fun hc => hc.compact⟩
    show (d.get q).Aged a (d.compact.2.get (d.renamed q))
    rw [(ha.toListed.get_renamed hq).2]
    exact .refl a _

/-- Every clause was added at some time, and has not been deleted since. -/
theorem Steps.origin (h : Steps {} τ) (hr : τ.clauses.isLive r) :
    ∃ σ q, Steps {} σ ∧ (σ.clauses.get q).Fresh ∧ σ.Carried q τ r := by
  induction h generalizing r with
  | refl => exact absurd (Database.lt_of_isLive hr) (Nat.not_lt_zero _)
  | @tail σ τ h hstep ih =>
    rcases hstep.origin (Steps.accounted h Database.accounted_empty) hr with ⟨q, hq, -, hcarry⟩ | hfresh
    · obtain ⟨υ, x, h1, h2, h3⟩ := ih hq
      exact ⟨υ, x, h1, h2, hcarry h3⟩
    · exact ⟨τ, r, h.tail hstep, hfresh, .start hr⟩

/-- The tiers of all clauses fit their glue. -/
theorem Steps.graded (h : Steps {} τ) (hr : τ.clauses.isLive r) : (τ.clauses.get r).Graded := by
  induction h generalizing r with
  | refl => exact absurd (Database.lt_of_isLive hr) (Nat.not_lt_zero _)
  | tail h hstep ih =>
    rcases hstep.origin (Steps.accounted h Database.accounted_empty) hr with ⟨q, hq, hage, -⟩ | hfresh
    · exact hage.graded (ih hq)
    · exact hfresh.graded

end Stock

end ClauseLearning
