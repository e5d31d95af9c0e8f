import ClauseLearning.Activity
import ClauseLearning.Proofs.Arrays
import ClauseLearning.Proofs.Clause

/-!
# What the clause database keeps

* `Database.get_modify`, `Database.get_add`, `Database.get_delete` : single clauses;
* `Database.Listed` : the list of all clauses mentions each one that is not deleted, and none twice;
* `Database.Thinned` : the same literals, perhaps of fewer clauses; `Database.Pruned` : all deleted clauses were learned
  and not to be kept. Changes of activities, glue and tiers prune nothing;
* `Database.get_sweep` : the clauses after a sweep;
* `Database.Moved` : the same clauses under other references, as after `Database.compact`.
-/

namespace ClauseLearning.Database

variable {d e : Database} {r q : ClauseRef} {f : Clause → Clause} {c : Clause}

/-! ## Single clauses -/

theorem get_of_size_le (h : d.slots.size ≤ r) : d.get r = default := getD_of_size_le h

theorem isLive_iff : d.isLive r ↔ (d.get r).deleted = false := by
  rw [isLive]
  cases (d.get r).deleted <;> simp

theorem lt_of_isLive (h : d.isLive r) : r < d.slots.size := by
  apply Nat.lt_of_not_le
  intro hle
  rw [isLive, get_of_size_le hle] at h
  cases h

theorem get_modify : (d.modify r f).get q = if q = r ∧ r < d.slots.size then f (d.get r) else d.get q := by
  by_cases hr : r < d.slots.size
  · rw [get, modify, getD_modify hr]
    simp only [and_iff_left hr]
    rfl
  · rw [if_neg fun h => hr h.2, get, modify, get]
    by_cases hq : q = r
    · rw [hq, getD_of_size_le (by rw [Array.size_modify]; exact Nat.le_of_not_lt hr),
        getD_of_size_le (Nat.le_of_not_lt hr)]
    · exact getD_modify_ne hq

theorem get_modify_self (h : d.isLive r) : (d.modify r f).get r = f (d.get r) := by
  rw [get_modify, if_pos ⟨rfl, lt_of_isLive h⟩]

theorem get_modify_ne (h : q ≠ r) : (d.modify r f).get q = d.get q := by rw [get_modify, if_neg fun h' => h h'.1]

@[simp] theorem size_modify : (d.modify r f).slots.size = d.slots.size := Array.size_modify

theorem get_add : (d.add c).2.get q = if q = d.slots.size then c else d.get q := getD_push

@[simp] theorem size_add : (d.add c).2.slots.size = d.slots.size + 1 := Array.size_push ..

theorem get_delete :
    (d.delete r).get q = if q = r ∧ r < d.slots.size then { d.get r with deleted := true } else d.get q :=
  get_modify

@[simp] theorem size_delete : (d.delete r).slots.size = d.slots.size := Array.size_modify

theorem isLive_delete : (d.delete r).isLive q ↔ d.isLive q ∧ q ≠ r := by
  rw [isLive_iff, isLive_iff, get_delete]
  by_cases hq : q = r
  · by_cases hr : r < d.slots.size
    · rw [if_pos ⟨hq, hr⟩]
      exact iff_of_false (fun h => by cases h) fun h => h.2 hq
    · rw [if_neg fun h => hr h.2, hq, get_of_size_le (Nat.le_of_not_lt hr)]
      exact iff_of_false (fun h => by cases h) fun h => by cases h.1
  · rw [if_neg fun h => hq h.1, and_iff_left hq]

theorem get_delete_ne (h : q ≠ r) : (d.delete r).get q = d.get q := by rw [get_delete, if_neg fun h' => h h'.1]

theorem isLive_foldl_delete (rs : List ClauseRef) : (rs.foldl delete d).isLive q ↔ d.isLive q ∧ q ∉ rs := by
  induction rs generalizing d with
  | nil => simp
  | cons r rs ih => rw [List.foldl_cons, ih, isLive_delete, List.mem_cons, not_or, and_assoc]

/-! ## The list of all clauses -/

/-- The list of all clauses mentions each one that is not deleted, and none twice. -/
structure Listed (d : Database) : Prop where
  nodup : d.listed.toList.Nodup
  lt {r : ClauseRef} : r ∈ d.listed.toList → r < d.slots.size
  mem {r : ClauseRef} : d.isLive r → r ∈ d.listed.toList

theorem Listed.mem_live (h : d.Listed) : r ∈ d.live ↔ d.isLive r := by
  rw [live, List.mem_filter]
  exact ⟨And.right, fun hr => ⟨h.mem hr, hr⟩⟩

theorem Listed.live_nodup (h : d.Listed) : d.live.Nodup := h.nodup.filter _

theorem listed_empty : ({} : Database).Listed where
  nodup := List.nodup_nil
  lt h := by cases h
  mem h := absurd (lt_of_isLive h) (Nat.not_lt_zero _)

theorem Listed.add (h : d.Listed) (c : Clause) : (d.add c).2.Listed where
  nodup := by
    show (d.listed.push d.slots.size).toList.Nodup
    rw [Array.toList_push, List.nodup_append]
    refine ⟨h.nodup, List.pairwise_singleton _ _, ?_⟩
    intro x hx y hy
    rw [List.mem_singleton.1 hy]
    exact Nat.ne_of_lt (h.lt hx)
  lt {r} hr := by
    change r ∈ (d.listed.push d.slots.size).toList at hr
    rw [Array.toList_push, List.mem_append, List.mem_singleton] at hr
    rw [size_add]
    rcases hr with hr | rfl
    · exact Nat.lt_succ_of_lt (h.lt hr)
    · exact Nat.lt_succ_self _
  mem {r} hr := by
    show r ∈ (d.listed.push d.slots.size).toList
    rw [Array.toList_push, List.mem_append, List.mem_singleton]
    by_cases hs : r = d.slots.size
    · exact Or.inr hs
    · rw [isLive, get_add, if_neg hs, ← isLive] at hr
      exact Or.inl (h.mem hr)

theorem Listed.relist (h : d.Listed) : { d with listed := d.live.toArray }.Listed where
  nodup := by
    rw [List.toList_toArray]
    exact h.live_nodup
  lt hr := by
    rw [List.toList_toArray] at hr
    exact lt_of_isLive (h.mem_live.1 hr)
  mem hr := by
    rw [List.toList_toArray]
    exact h.mem_live.2 hr

theorem Listed.of_isLive (h : d.Listed) (hs : e.slots.size = d.slots.size) (hl : e.listed = d.listed)
    (hlive : ∀ r, e.isLive r → d.isLive r) : e.Listed where
  nodup := hl ▸ h.nodup
  lt hr := by
    rw [hl] at hr
    rw [hs]
    exact h.lt hr
  mem hr := by
    rw [hl]
    exact h.mem (hlive _ hr)

/-! ## Fewer clauses -/

/-- The same literals, perhaps of fewer clauses. -/
structure Thinned (d e : Database) : Prop where
  size_eq : e.slots.size = d.slots.size
  isLive {r : ClauseRef} : e.isLive r → d.isLive r
  lits_eq {r : ClauseRef} : e.isLive r → (e.get r).lits = (d.get r).lits
  learned_eq {r : ClauseRef} : e.isLive r → (e.get r).learned = (d.get r).learned
  listed : d.Listed → e.Listed

/-- The same literals. Clauses were deleted only if they were learned and not to be kept. -/
structure Pruned (keep : ClauseRef → Prop) (d e : Database) : Prop extends Thinned d e where
  kept {r : ClauseRef} : d.isLive r → (d.get r).learned = false ∨ keep r → e.isLive r

theorem Thinned.refl (d : Database) : Thinned d d := ⟨rfl, id, fun _ => rfl, fun _ => rfl, id⟩

theorem Thinned.trans {d₁ d₂ d₃ : Database} (h : Thinned d₁ d₂) (h' : Thinned d₂ d₃) : Thinned d₁ d₃ where
  size_eq := h'.size_eq.trans h.size_eq
  isLive hr := h.isLive (h'.isLive hr)
  lits_eq hr := (h'.lits_eq hr).trans (h.lits_eq (h'.isLive hr))
  learned_eq hr := (h'.learned_eq hr).trans (h.learned_eq (h'.isLive hr))
  listed hl := h'.listed (h.listed hl)

theorem Thinned.delete (d : Database) (r : ClauseRef) : Thinned d (d.delete r) where
  size_eq := size_delete
  isLive hq := (isLive_delete.1 hq).1
  lits_eq hq := by rw [get_delete_ne (isLive_delete.1 hq).2]
  learned_eq hq := by rw [get_delete_ne (isLive_delete.1 hq).2]
  listed h := h.of_isLive size_delete rfl fun _ hq => (isLive_delete.1 hq).1

theorem Thinned.foldl_delete (d : Database) (rs : List ClauseRef) : Thinned d (rs.foldl Database.delete d) := by
  induction rs generalizing d with
  | nil => exact Thinned.refl d
  | cons r rs ih => exact (Thinned.delete d r).trans (ih _)

namespace Pruned

variable {keep : ClauseRef → Prop}

theorem refl (d : Database) : Pruned keep d d := ⟨Thinned.refl d, fun h _ => h⟩

theorem trans {d₁ d₂ d₃ : Database} (h : Pruned keep d₁ d₂) (h' : Pruned keep d₂ d₃) : Pruned keep d₁ d₃ where
  toThinned := h.toThinned.trans h'.toThinned
  kept hr hk := by
    have hr' := h.kept hr hk
    apply h'.kept hr'
    rw [h.learned_eq hr']
    exact hk

theorem of_get (hs : e.slots.size = d.slots.size) (hl : e.listed = d.listed)
    (hg : ∀ r, (e.get r).lits = (d.get r).lits ∧ (e.get r).learned = (d.get r).learned ∧
      (e.get r).deleted = (d.get r).deleted) : Pruned keep d e := by
  have hlive (r : ClauseRef) : e.isLive r = d.isLive r := by rw [Database.isLive, Database.isLive, (hg r).2.2]
  refine ⟨⟨hs, fun h => hlive _ ▸ h, fun _ => (hg _).1, fun _ => (hg _).2.1, ?_⟩, fun h _ => hlive _ ▸ h⟩
  intro h
  exact h.of_isLive hs hl fun r hr => hlive r ▸ hr

theorem modify (d : Database) (r : ClauseRef)
    (hf : (f (d.get r)).lits = (d.get r).lits ∧ (f (d.get r)).learned = (d.get r).learned ∧
      (f (d.get r)).deleted = (d.get r).deleted) : Pruned keep d (d.modify r f) := by
  apply of_get size_modify rfl
  intro q
  rw [get_modify]
  split
  · next hq =>
    rw [hq.1]
    exact hf
  · exact ⟨rfl, rfl, rfl⟩

theorem delete (hl : (d.get r).learned) (hk : ¬ keep r) : Pruned keep d (d.delete r) where
  toThinned := Thinned.delete d r
  kept {q} hq hk' := by
    refine isLive_delete.2 ⟨hq, ?_⟩
    rintro rfl
    rcases hk' with h | h
    · rw [hl] at h
      cases h
    · exact hk h

theorem setTier {t : Tier} (hl : (d.get r).learned) (ht : t ≠ .irredundant) : Pruned keep d (d.setTier r t) := by
  dsimp only [Database.setTier]
  split
  · exact refl d
  · refine of_get Array.size_modify rfl ?_
    intro q
    have hg : (d.slots.modify r ({ · with tier := t })).getD q default =
        if q = r ∧ r < d.slots.size then { d.get r with tier := t } else d.get q := get_modify
    show ((d.slots.modify r ({ · with tier := t })).getD q default).lits = _ ∧
      ((d.slots.modify r ({ · with tier := t })).getD q default).learned = _ ∧
        ((d.slots.modify r ({ · with tier := t })).getD q default).deleted = _
    rw [hg]
    split
    · next hq =>
      rw [hq.1]
      refine ⟨rfl, ?_, rfl⟩
      rw [hl, Clause.learned]
      exact bne_iff_ne.2 ht
    · exact ⟨rfl, rfl, rfl⟩

/-! ## Activities -/

theorem foldl_modify (rs : List ClauseRef) (d : Database)
    (hf : ∀ c, (f c).lits = c.lits ∧ (f c).learned = c.learned ∧ (f c).deleted = c.deleted) :
    Pruned keep d (rs.foldl (fun d r => d.modify r f) d) := by
  induction rs generalizing d with
  | nil => exact refl d
  | cons r rs ih => exact (modify d r (hf _)).trans (ih _)

theorem rescale (d : Database) : Pruned keep d d.rescale := by
  have hlive : Pruned keep d { d with listed := d.live.toArray } :=
    ⟨⟨rfl, id, fun _ => rfl, fun _ => rfl, fun h => h.relist⟩, fun h _ => h⟩
  exact hlive.trans (foldl_modify _ _ fun c => ⟨rfl, rfl, rfl⟩)

theorem bumpActivity (d : Database) (a : ActivityScale) (r : ClauseRef) : Pruned keep d (d.bumpActivity a r).1 := by
  have hm : Pruned keep d (d.modify r ({ · with activity := (d.get r).activity + a.bump })) :=
    modify d r ⟨rfl, rfl, rfl⟩
  dsimp only [Database.bumpActivity]
  split
  · exact hm.trans (rescale _)
  · exact hm

theorem decayActivities (d : Database) (a : ActivityScale) : Pruned keep d (d.decayActivities a).1 := by
  dsimp only [Database.decayActivities]
  split
  · exact rescale d
  · exact refl d

end Pruned

/-! ## Sweeping -/

/-- What a sweep makes of a clause. -/
def swept (keep? : Clause → Option Clause) (c : Clause) : Clause := (keep? c).getD { c with deleted := true }

/-- What a sweep over a list of references makes of a database. -/
structure SweptOver (keep? : Clause → Option Clause) (rs : List ClauseRef) (kept : Array ClauseRef) (d : Database)
    (kept' : Array ClauseRef) (e : Database) : Prop where
  size_eq : e.slots.size = d.slots.size
  get_eq (q : ClauseRef) : e.get q = if q ∈ rs ∧ d.isLive q then swept keep? (d.get q) else d.get q
  kept_eq : kept'.toList = kept.toList ++ rs.filter fun r => d.isLive r && (keep? (d.get r)).isSome

theorem SweptOver.cons {keep? : Clause → Option Clause} {rs : List ClauseRef} {kept kept₁ kept' : Array ClauseRef}
    {d₁ : Database} (hn : r ∉ rs) (hs : d₁.slots.size = d.slots.size) (hne : ∀ q, q ≠ r → d₁.get q = d.get q)
    (hr : d₁.get r = if d.isLive r then swept keep? (d.get r) else d.get r)
    (hk : kept₁.toList = kept.toList ++ [r].filter fun r => d.isLive r && (keep? (d.get r)).isSome)
    (h : SweptOver keep? rs kept₁ d₁ kept' e) : SweptOver keep? (r :: rs) kept d kept' e where
  size_eq := h.size_eq.trans hs
  get_eq q := by
    rw [h.get_eq]
    by_cases hq : q = r
    · rw [hq, if_neg fun h => hn h.1, hr]
      simp
    · have hlive : d₁.isLive q = d.isLive q := by rw [isLive, isLive, hne q hq]
      rw [hlive, hne q hq]
      simp [hq]
  kept_eq := by
    have hf : rs.filter (fun r => d₁.isLive r && (keep? (d₁.get r)).isSome) =
        rs.filter fun r => d.isLive r && (keep? (d.get r)).isSome := by
      apply List.filter_congr
      intro x hx
      have hx' : x ≠ r := fun he => hn (he ▸ hx)
      rw [isLive, isLive, hne x hx']
    rw [h.kept_eq, hf, hk, List.append_assoc, ← List.filter_append, List.singleton_append]

theorem sweepList_sweptOver (keep? : Clause → Option Clause) (rs : List ClauseRef) (kept : Array ClauseRef)
    (d : Database) (hn : rs.Nodup) :
    SweptOver keep? rs kept d (sweepList keep? rs kept d).1 (sweepList keep? rs kept d).2 := by
  induction rs generalizing kept d with
  | nil => exact ⟨rfl, fun q => by simp [sweepList], by simp [sweepList]⟩
  | cons r rs ih =>
    obtain ⟨hr, hn⟩ := List.nodup_cons.1 hn
    rw [sweepList]
    dsimp only
    split
    · next hd =>
      have hl : d.isLive r = false := by rw [isLive, hd]; rfl
      refine SweptOver.cons hr rfl (fun _ _ => rfl) ?_ ?_ (ih kept d hn)
      · rw [hl]
        rfl
      · simp [hl]
    · next hd =>
      have hl : d.isLive r := isLive_iff.2 (Bool.eq_false_iff.2 hd)
      split
      · next c' hc =>
        refine SweptOver.cons hr ?_ ?_ ?_ ?_ (ih _ _ hn)
        · exact size_modify
        · exact fun q hq => get_modify_ne hq
        · rw [if_pos hl, swept, hc]
          exact get_modify_self hl
        · simp [hl, hc]
      · next hc =>
        refine SweptOver.cons hr ?_ ?_ ?_ ?_ (ih _ _ hn)
        · exact size_delete
        · exact fun q hq => get_delete_ne hq
        · rw [if_pos hl, swept, hc]
          exact get_modify_self hl
        · simp [hc]

/-- Each clause after a sweep. -/
theorem get_sweep (h : d.Listed) (keep? : Clause → Option Clause) :
    (d.sweep keep?).get q = if d.isLive q then swept keep? (d.get q) else d.get q := by
  refine ((sweepList_sweptOver keep? d.listed.toList #[] d h.nodup).get_eq q).trans ?_
  by_cases hq : d.isLive q
  · rw [if_pos ⟨h.mem hq, hq⟩, if_pos hq]
  · rw [if_neg fun h => hq h.2, if_neg hq]

theorem size_sweep (h : d.Listed) (keep? : Clause → Option Clause) : (d.sweep keep?).slots.size = d.slots.size :=
  (sweepList_sweptOver keep? d.listed.toList #[] d h.nodup).size_eq

theorem Listed.sweep (h : d.Listed) (keep? : Clause → Option Clause) : (d.sweep keep?).Listed := by
  have hs := sweepList_sweptOver keep? d.listed.toList #[] d h.nodup
  have hl : (d.sweep keep?).listed.toList = d.listed.toList.filter fun r => d.isLive r && (keep? (d.get r)).isSome :=
    hs.kept_eq
  refine ⟨?_, ?_, ?_⟩
  · rw [hl]
    exact h.nodup.filter _
  · intro r hr
    rw [hl, List.mem_filter] at hr
    rw [size_sweep h]
    exact h.lt hr.1
  · intro r hr
    rw [isLive_iff, get_sweep h] at hr
    by_cases hlive : d.isLive r
    · rw [if_pos hlive, swept] at hr
      rw [hl, List.mem_filter]
      refine ⟨h.mem hlive, ?_⟩
      rw [hlive, Bool.true_and, Option.isSome_iff_ne_none]
      intro hn
      rw [hn] at hr
      cases hr
    · rw [if_neg hlive] at hr
      exact absurd (isLive_iff.2 hr) hlive

/-! ## Compaction -/

/-- The same clauses under other references. -/
structure Moved (d e : Database) : Prop where
  listed : e.Listed
  old {r : ClauseRef} : e.isLive r → ∃ q, d.isLive q ∧ e.get r = d.get q
  new {q : ClauseRef} : d.isLive q → ∃ r, e.isLive r ∧ e.get r = d.get q

theorem gather_eq (d : Database) (rs : List ClauseRef) :
    d.gather rs = ((sortBy d.offset rs).filter d.isLive).map d.get := by
  have hread (r : ClauseRef) :
      (d.slots[r]?).filter (!·.deleted) = if d.isLive r then some (d.get r) else none := by
    rw [isLive, get, Array.getD_eq_getD_getElem?]
    cases d.slots[r]? with
    | none => rfl
    | some c => cases hc : c.deleted <;> simp [Option.filter, hc]
  have hfilter (rs : List ClauseRef) :
      rs.filterMap (fun r => (d.slots[r]?).filter (!·.deleted)) = (rs.filter d.isLive).map d.get := by
    induction rs with
    | nil => rfl
    | cons r rs ih =>
      rw [List.filterMap_cons, List.filter_cons, ih, hread]
      cases d.isLive r <;> rfl
  exact hfilter _

theorem gather_perm (rs : List ClauseRef) : (d.gather rs).Perm ((rs.filter d.isLive).map d.get) := by
  rw [gather_eq]
  exact ((sortBy_perm _ _).filter _).map _

theorem mem_gather {rs : List ClauseRef} : c ∈ d.gather rs ↔ ∃ r ∈ rs, d.isLive r ∧ d.get r = c := by
  rw [(gather_perm rs).mem_iff, List.mem_map]
  exact exists_congr fun r => by rw [List.mem_filter, and_assoc]

theorem size_compact : d.compact.2.slots.size = (d.gather d.listed.toList).length := List.size_toArray

theorem get_compact (hr : r < (d.gather d.listed.toList).length) :
    d.compact.2.get r = (d.gather d.listed.toList)[r] := by
  show (d.gather d.listed.toList).toArray.getD r default = _
  rw [Array.getD_eq_getD_getElem?, List.getElem?_toArray, List.getElem?_eq_getElem hr]
  rfl

theorem isLive_compact : d.compact.2.isLive r ↔ r < (d.gather d.listed.toList).length := by
  constructor
  · intro hr
    exact size_compact ▸ lt_of_isLive hr
  · intro hr
    obtain ⟨q, -, hq, he⟩ := mem_gather.1 (List.getElem_mem hr)
    rw [isLive, get_compact hr, ← he]
    exact hq

theorem compact_moved (h : d.Listed) : Moved d d.compact.2 := by
  refine ⟨⟨?_, ?_, ?_⟩, ?_, ?_⟩
  · show (Array.range _).toList.Nodup
    rw [Array.toList_range]
    exact List.nodup_range
  · intro r hr
    change r ∈ (Array.range d.compact.2.slots.size).toList at hr
    rwa [Array.toList_range, List.mem_range] at hr
  · intro r hr
    show r ∈ (Array.range d.compact.2.slots.size).toList
    rw [Array.toList_range, List.mem_range]
    exact lt_of_isLive hr
  · intro r hr
    have hlt := isLive_compact.1 hr
    obtain ⟨q, -, hq, he⟩ := mem_gather.1 (List.getElem_mem hlt)
    exact ⟨q, hq, (get_compact hlt).trans he.symm⟩
  · intro q hq
    obtain ⟨r, hlt, he⟩ := List.mem_iff_getElem.1 (mem_gather.2 ⟨q, h.mem hq, hq, rfl⟩)
    exact ⟨r, isLive_compact.2 hlt, (get_compact hlt).trans he⟩

end ClauseLearning.Database
