import ClauseLearning.Proofs.StorageRuns

/-!
# Garbage collection

Compaction reclaims as many words as were counted as garbage, and the clauses that are not deleted stay as they are
(`Database.Collected`). This holds of the database as well as of its storage (`compaction_exact`).
-/

namespace ClauseLearning

namespace Database

variable {d : Database} {event : Event} {e : Database}

/-- The words of garbage are reclaimed, and the clauses stay the same in another order. -/
structure Collected (d : Database) (event : Event) (e : Database) : Prop where
  event_eq : event = .garbageCollected d.garbage d.words
  words_eq : e.words + d.garbage = d.words
  perm : (e.live.map e.get).Perm (d.live.map d.get)

theorem Balanced.wordsOf_gather (h : d.Balanced) : d.garbage + wordsOf (d.gather d.listed.toList) = d.words := by
  have hwords := h.compact.words
  rw [compact_total h.toListed] at hwords
  change 0 + _ = wordsOf (d.gather d.listed.toList) at hwords
  rw [← hwords, Nat.zero_add, h.words]

theorem live_compact (d : Database) : d.compact.2.live.map d.compact.2.get = d.gather d.listed.toList := by
  have hlive : d.compact.2.live = List.range (d.gather d.listed.toList).length := by
    show (Array.range d.compact.2.slots.size).toList.filter d.compact.2.isLive = _
    rw [Array.toList_range, size_compact, List.filter_eq_self]
    exact fun r hr => isLive_compact.2 (List.mem_range.1 hr)
  rw [hlive]
  refine List.ext_getElem (by rw [List.length_map, List.length_range]) fun i _ hi => ?_
  rw [List.getElem_map, List.getElem_range, get_compact hi]

theorem Balanced.collected (h : d.Balanced) (hc : d.collect? = some (event, e)) : d.Collected event e := by
  unfold collect? at hc
  split at hc
  · cases hc
  · have hwords := h.wordsOf_gather
    simp only [Option.some.injEq, Prod.mk.injEq] at hc
    obtain ⟨rfl, rfl⟩ := hc
    refine ⟨?_, (Nat.add_comm _ _).trans hwords, ?_⟩
    · show Event.garbageCollected (d.words - wordsOf (d.gather d.listed.toList)) d.words = _
      rw [← hwords, Nat.add_sub_cancel]
    · rw [live_compact]
      exact gather_perm _

end Database

/-! ## Runs -/

open Storage (Built)

variable {counting : Counting} {s t : Solver}

/-- The state in which garbage is collected after propagation. -/
def Solver.useFacts (t : Solver) : Solver :=
  if t.prop.trail.lits.isEmpty then t else { t with prop := t.prop.applyFacts }

theorem Solver.tidy_eq (t : Solver) : t.tidy = t.useFacts.collectGarbage := rfl

theorem Moment.useFacts_steps (h : Moment counting s) (hp : s.propagate = (none, t)) :
    Stock.Steps {} t.useFacts.stock := by
  have hpropagate := Propagator.propagate_steps s.clauseScale s.prop
  have ht : t = s.propagate.2 := by rw [hp]
  have hsteps : Stock.Steps {} t.stock := ht ▸ h.steps.trans hpropagate
  unfold Solver.useFacts
  split
  · exact hsteps
  · exact hsteps.trans (t.prop.applyFacts_steps t.clauseScale)

theorem Moment.collected (h : Moment counting s) (hp : s.propagate = (none, t)) {event : Event} {e : Database}
    (hc : t.useFacts.prop.clauses.collect? = some (event, e)) :
    t.tidy.prop.clauses = e ∧ t.useFacts.prop.clauses.Collected event e := by
  refine ⟨?_, ((h.useFacts_steps hp).accounted Database.accounted_empty).toBalanced.collected hc⟩
  rw [t.tidy_eq, Solver.collectGarbage, hc]
  rfl

/-- **Compaction loses and corrupts nothing.** Take any storage that came about by adding, permuting, shortening and
deleting clauses, and any of its references in any order. After compaction, the listed clauses that are not deleted read
as before. In storage order they follow one another from the start and fill the storage, and the answer is the number of
words reclaimed. In a run, the words reclaimed are those counted as garbage, and the clauses that are not deleted stay
the same with their tiers, glue and activities. As long as its words can be addressed, a storage holds the clauses of
the run, and compaction of the database is that of this storage. -/
theorem compaction_exact (counting : Counting) :
    (∀ s rs refs, Built s rs → refs.toList.Nodup → (∀ r ∈ refs.toList, r ∈ rs) →
      List.Forall₂ (fun r q => s.Same r (s.compact refs).2.2 q) (s.kept refs) (s.compact refs).2.1.toList ∧
        (s.compact refs).2.2.Filled 0 (s.compact refs).2.1.toList ∧
        (s.compact refs).1 + (s.compact refs).2.2.words.size = s.words.size) ∧
    (∀ s t, Moment counting s → s.propagate = (none, t) → t.tidy = t.useFacts.collectGarbage ∧
      ∀ event e, t.useFacts.prop.clauses.collect? = some (event, e) →
        t.tidy.prop.clauses = e ∧ t.useFacts.prop.clauses.Collected event e) ∧
    ∀ σ, Stock.RoomySteps {} σ → ∃ s rs, σ.clauses.Held s rs ∧
      (s.compact (σ.clauses.listed.map σ.clauses.place)).1 = σ.clauses.compact.1 ∧
      σ.clauses.compact.2.Held (s.compact (σ.clauses.listed.map σ.clauses.place)).2.2
        (s.compact (σ.clauses.listed.map σ.clauses.place)).2.1.toList := by
  refine ⟨?_, ?_, ?_⟩
  · intro s rs refs hs hn hsub
    exact hs.laid.compact hn hsub
  · intro s t h hp
    exact ⟨t.tidy_eq, fun _ _ hc => h.collected hp hc⟩
  · intro σ h
    obtain ⟨s, rs, hs⟩ := h.held
    exact ⟨s, rs, hs, hs.compact (h.steps.accounted Database.accounted_empty).toListed⟩

/-- Three clauses of 18 words. The first one is put in another order and cut off after two literals, and the second one
is deleted. -/
def threeClauses : Storage :=
  let s : Storage := { words := #[0, 0, 4, 2, 4, 6, 8, 0, 0, 2, 3, 10, 0, 0, 3, 4, 7, 12] }
  ((s.setCodes 0 [8, 4, 6, 2]).setHeader 0 { length := 2 }).setHeader 7 (({ length := 2 } : Header).put .deleted true)

theorem built_threeClauses : Built threeClauses [12, 7, 0] := by
  let s₁ : Storage := { words := #[0, 0, 4, 2, 4, 6, 8] }
  let s₂ : Storage := { words := #[0, 0, 4, 2, 4, 6, 8, 0, 0, 2, 3, 10] }
  let s₃ : Storage := { words := #[0, 0, 4, 2, 4, 6, 8, 0, 0, 2, 3, 10, 0, 0, 3, 4, 7, 12] }
  have h₁ : Built s₁ [0] := Built.empty.add (show Storage.add? {} {} [2, 4, 6, 8] = some (0, s₁) by decide)
  have h₂ : Built s₂ [7, 0] := h₁.add (show s₁.add? {} [3, 10] = some (7, s₂) by decide)
  have h₃ : Built s₃ [12, 7, 0] := h₂.add (show s₂.add? {} [4, 7, 12] = some (12, s₃) by decide)
  have h₄ := h₃.permute (show 0 ∈ [12, 7, 0] by decide) (show [8, 4, 6, 2].Perm (s₃.codes 0) by decide)
  have h₅ := h₄.change (show 0 ∈ [12, 7, 0] by decide) (show ({ length := 2 } : Header).length ≤ _ by decide +kernel)
  exact h₅.change (show 7 ∈ [12, 7, 0] by decide) (by decide +kernel)

/-- A clause that is true for good, another one, and the fact. -/
def oneFact : List Call :=
  List.replicate 5 (.newVar none true) ++
    [.addClause [⟨0⟩, ⟨2⟩, ⟨4⟩], .addClause [⟨6⟩, ⟨8⟩], .addClause [⟨0⟩]]

/-- The last of three clauses moves from 12 to 5 and reads as before, and seven words are reclaimed. In a run, a true
clause leaves six of eleven words to be reclaimed. A storage holds the first clause of a run. -/
theorem compaction_exact_threeClauses :
    (threeClauses.Same 12 (threeClauses.compact #[12, 7, 0]).2.2 5 ∧ (threeClauses.compact #[12, 7, 0]).1 = 7) ∧
    (∃ (t : Solver) (d : Database), t.tidy.prop.clauses.words = 5 ∧
      d.Collected (.garbageCollected 6 11) t.tidy.prop.clauses) ∧
    ∃ s rs, (({} : Database).add { first := ⟨0⟩, second := ⟨2⟩ }).2.Held s rs := by
  obtain ⟨hstorage, hcollected, hheld⟩ := compaction_exact .words
  refine ⟨⟨?_, ?_⟩, ?_, ?_⟩
  · have hsame := (hstorage _ _ #[12, 7, 0] built_threeClauses (by simp) fun _ hr => hr).1
    rw [show threeClauses.kept #[12, 7, 0] = [0, 12] by decide +kernel,
      show (threeClauses.compact #[12, 7, 0]).2.1.toList = [0, 5] by decide +kernel] at hsame
    exact (List.forall₂_cons.1 (List.forall₂_cons.1 hsame).2).1
  · decide +kernel
  · have hm : Moment .words (Call.runAll (.start .words .stable) oneFact) :=
      .call ((Reachable.start .stable).runAll oneFact)
    have hp : (Call.runAll (.start .words .stable) oneFact).propagate.1 = none := by decide +kernel
    have hc : ((Call.runAll (.start .words .stable) oneFact).propagate.2.useFacts.prop.clauses.collect?.map
      fun c => (c.1, c.2.words)) = some (.garbageCollected 6 11, 5) := by decide +kernel
    generalize hs : (Call.runAll (.start .words .stable) oneFact).propagate = out at hp hc
    obtain ⟨conflict, t⟩ := out
    obtain rfl : conflict = none := hp
    obtain ⟨⟨event, e⟩, hcollect, hwords⟩ := Option.map_eq_some_iff.1 hc
    obtain ⟨rfl, h5⟩ := Prod.mk.inj hwords
    obtain ⟨he, hcollected⟩ := (hcollected _ _ hm hs).2 _ _ hcollect
    exact ⟨t, t.useFacts.prop.clauses, he ▸ h5, he ▸ hcollected⟩
  · have hadd : Stock.RoomySteps {} ⟨(({} : Database).add { first := ⟨0⟩, second := ⟨2⟩ }).2, {}⟩ :=
      .single ⟨.edit (.add ⟨rfl, rfl, rfl, .inl rfl, Nat.zero_le _⟩), by decide⟩
    obtain ⟨s, rs, hs, -⟩ := hheld _ hadd
    exact ⟨s, rs, hs⟩

end ClauseLearning
