import ClauseLearning.Watch
import ClauseLearning.Proofs.Database

/-!
# What the watch lists mention

* `Clause.WatchedBy` : the two literals that trigger a clause;
* `Clause.Blocks` : a literal that can block a watch;
* `Watched` : each clause is mentioned once in the lists of these two literals and nowhere else. It is stated of lists
  given as a function, so that it holds while one of them is taken out and scanned (`withList`);
* `Watched.modify`, `Watched.replace`, `Watched.drop`, `Watched.move`, `Watched.pair` : what a visit or a new clause
  does to the lists.
-/

namespace ClauseLearning

variable {d e : Database} {lists : Lit → List Watch} {todo : List ClauseRef} {l q x : Lit} {w w' : Watch}
  {r : ClauseRef} {c : Clause} {ws ks : List Watch}

/-- The literals that make a watched literal false. -/
def Clause.WatchedBy (c : Clause) (q : Lit) : Prop := q = -c.first ∨ q = -c.second

instance (c : Clause) (q : Lit) : Decidable (c.WatchedBy q) := inferInstanceAs (Decidable (_ ∨ _))

/-- A literal of a clause, other than the one that `q` makes false. -/
def Clause.Blocks (c : Clause) (q x : Lit) : Prop := x ∈ c.lits ∧ x ≠ -q

/-- The watches on a clause. -/
def countRef (r : ClauseRef) (ws : List Watch) : Nat := ws.countP (·.ref == r)

/-- Every clause that is not in `todo` is mentioned once in each list of its triggers, and in no other list. Blocking
literals are other literals of their clauses. -/
structure Watched (todo : List ClauseRef) (d : Database) (lists : Lit → List Watch) : Prop where
  ref_lt {q : Lit} {w : Watch} : w ∈ lists q → w.ref < d.slots.size
  count {r : ClauseRef} (q : Lit) : d.isLive r →
    countRef r (lists q) = if r ∉ todo ∧ (d.get r).WatchedBy q then 1 else 0
  blocking {q : Lit} {w : Watch} : w ∈ lists q → d.isLive w.ref → (d.get w.ref).Blocks q w.blocking

/-- The lists with another one for `l`. -/
def withList (lists : Lit → List Watch) (l : Lit) (ws : List Watch) : Lit → List Watch :=
  fun q => if q = l then ws else lists q

/-! ## Counting -/

@[simp] theorem countRef_nil : countRef r [] = 0 := rfl

@[simp] theorem countRef_append : countRef r (ws ++ ks) = countRef r ws + countRef r ks := List.countP_append

@[simp] theorem countRef_cons : countRef r (w :: ws) = countRef r ws + if w.ref = r then 1 else 0 := by
  rw [countRef, List.countP_cons, countRef]
  simp only [beq_iff_eq]

theorem countRef_eq_zero : countRef r ws = 0 ↔ ∀ w ∈ ws, w.ref ≠ r := by
  rw [countRef, List.countP_eq_zero]
  simp only [beq_iff_eq]

/-! ## Lists as a function -/

@[simp] theorem withList_self : withList lists l ws l = ws := if_pos rfl

theorem withList_ne (h : q ≠ l) : withList lists l ws q = lists q := if_neg h

@[simp] theorem withList_withList : withList (withList lists l ws) l ks = withList lists l ks := by
  funext q
  unfold withList
  split <;> rfl

@[simp] theorem withList_eq_self (lists : Lit → List Watch) (l : Lit) : withList lists l (lists l) = lists := by
  funext q
  unfold withList
  split
  · next h => rw [h]
  · rfl

theorem mem_withList : w ∈ withList lists l ws q ↔ q = l ∧ w ∈ ws ∨ q ≠ l ∧ w ∈ lists q := by
  by_cases h : q = l
  · rw [h, withList_self]
    simp
  · rw [withList_ne h]
    simp [h]

theorem Clause.first_ne_second (h : (c.lits.map Lit.var).Nodup) : c.first ≠ c.second := by
  rw [Clause.lits, List.map_cons, List.map_cons, List.nodup_cons] at h
  intro he
  exact h.1 (by rw [he]; exact List.mem_cons_self)

theorem Clause.first_blocks (h : c.first ≠ c.second) : c.Blocks (-c.second) c.first :=
  ⟨c.first_mem, by rwa [Lit.neg_neg]⟩

theorem Clause.second_blocks (h : c.first ≠ c.second) : c.Blocks (-c.first) c.second :=
  ⟨c.second_mem, by rw [Lit.neg_neg]; exact h.symm⟩

theorem Clause.Reordered.blocks_iff {b : Clause} (h : b.Reordered c) : c.Blocks q x ↔ b.Blocks q x :=
  and_congr_left' h.mem_iff

namespace Watches

variable {v : Watches} {a b : Lit}

theorem size_add : (v.add l w).lists.size = v.lists.size := Array.size_modify

theorem size_setList {us : Array Watch} : (v.setList l us).lists.size = v.lists.size := Array.size_setIfInBounds

theorem toList_list_add (h : l.code < v.lists.size) :
    ((v.add l w).list q).toList = (v.list q).toList ++ if q = l then [w] else [] := by
  rw [list, add, getD_modify h]
  by_cases hq : q = l
  · rw [if_pos (congrArg Lit.code hq), if_pos hq, Array.toList_push, hq, list]
  · rw [if_neg fun hc => hq (Lit.ext_code hc), if_neg hq, List.append_nil, list]

theorem list_setList {us : Array Watch} (h : l.code < v.lists.size) :
    (v.setList l us).list q = if q = l then us else v.list q := by
  rw [list, setList, getD_setIfInBounds h, ← list]
  by_cases hq : q = l
  · rw [if_pos (congrArg Lit.code hq), if_pos hq]
  · rw [if_neg fun hc => hq (Lit.ext_code hc), if_neg hq]

theorem size_watchPair : (v.watchPair r a b).lists.size = v.lists.size := by rw [watchPair, size_add, size_add]

theorem toList_list_watchPair (ha : (-a).code < v.lists.size) (hb : (-b).code < v.lists.size) :
    ((v.watchPair r a b).list q).toList =
      (v.list q).toList ++ (if q = -a then [⟨r, b⟩] else []) ++ if q = -b then [⟨r, a⟩] else [] := by
  rw [watchPair, toList_list_add (by rw [size_add]; exact hb), toList_list_add ha]

end Watches

namespace Watched

/-! ## Clauses that change -/

/-- A clause changes, but is watched as before, if it is watched at all. -/
theorem modify (h : Watched todo d lists) (hc : (d.get r).Reordered c)
    (hw : r ∉ todo → ∀ q, c.WatchedBy q ↔ (d.get r).WatchedBy q) : Watched todo (d.modify r fun _ => c) lists where
  ref_lt hm := by
    rw [Database.size_modify]
    exact h.ref_lt hm
  count {r'} q hl := by
    rw [Database.isLive_iff, Database.get_modify] at hl
    rw [Database.get_modify]
    split at hl
    · next hr =>
      rw [hc.deleted_eq, ← hr.1] at hl
      rw [h.count q (Database.isLive_iff.2 hl), if_pos hr, hr.1]
      by_cases ht : r ∈ todo
      · rw [if_neg fun hn => hn.1 ht, if_neg fun hn => hn.1 ht]
      · simp only [hw ht q]
    · next hr =>
      rw [h.count q (Database.isLive_iff.2 hl), if_neg hr]
  blocking {q w} hm hl := by
    rw [Database.isLive_iff, Database.get_modify] at hl
    rw [Database.get_modify]
    split at hl
    · next hr =>
      rw [if_pos hr, hc.blocks_iff, ← hr.1]
      rw [hc.deleted_eq, ← hr.1] at hl
      exact h.blocking hm (Database.isLive_iff.2 hl)
    · next hr =>
      rw [if_neg hr]
      exact h.blocking hm (Database.isLive_iff.2 hl)

theorem thinned (h : Watched todo d lists) (ht : Database.Thinned d e) : Watched todo e lists where
  ref_lt hm := by
    rw [ht.size_eq]
    exact h.ref_lt hm
  count {r} q hl := by
    have he := ht.lits_eq hl
    rw [Clause.lits, Clause.lits, List.cons.injEq, List.cons.injEq] at he
    have hw : (e.get r).WatchedBy q ↔ (d.get r).WatchedBy q := by rw [Clause.WatchedBy, he.1, he.2.1, Clause.WatchedBy]
    rw [h.count q (ht.isLive hl)]
    simp only [hw]
  blocking hm hl := by
    rw [Clause.Blocks, ht.lits_eq hl]
    exact h.blocking hm (ht.isLive hl)

theorem add (h : Watched [] d lists) (c : Clause) : Watched [d.slots.size] (d.add c).2 lists where
  ref_lt hm := by
    rw [Database.size_add]
    exact Nat.lt_succ_of_lt (h.ref_lt hm)
  count {r} q hl := by
    by_cases hr : r = d.slots.size
    · rw [if_neg fun hn => hn.1 (hr ▸ List.mem_singleton_self _), countRef_eq_zero]
      intro w hw
      rw [hr]
      exact Nat.ne_of_lt (h.ref_lt hw)
    · rw [Database.isLive, Database.get_add, if_neg hr] at hl
      rw [h.count q hl, Database.get_add, if_neg hr]
      simp [hr]
  blocking {q w} hm hl := by
    have hr : w.ref ≠ d.slots.size := Nat.ne_of_lt (h.ref_lt hm)
    rw [Database.isLive, Database.get_add, if_neg hr] at hl
    rw [Database.get_add, if_neg hr]
    exact h.blocking hm hl

/-! ## Lists that change -/

theorem mem_taken : w ∈ withList lists l (ks ++ w :: ws) l := by
  rw [withList_self]
  exact List.mem_append_right _ List.mem_cons_self

theorem mem_of_mem_drop {v : Watch} (hm : v ∈ withList lists l (ks ++ ws) q) :
    v ∈ withList lists l (ks ++ w :: ws) q := by
  rcases mem_withList.1 hm with ⟨rfl, hm'⟩ | ⟨hq, hm⟩
  · refine mem_withList.2 (Or.inl ⟨rfl, ?_⟩)
    rcases List.mem_append.1 hm' with hm | hm
    · exact List.mem_append_left _ hm
    · exact List.mem_append_right _ (List.mem_cons_of_mem _ hm)
  · exact mem_withList.2 (Or.inr ⟨hq, hm⟩)

theorem eq_or_mem_of_mem_replace {v : Watch} (hm : v ∈ withList lists l (ks ++ w' :: ws) q) :
    v = w' ∧ q = l ∨ v ∈ withList lists l (ks ++ w :: ws) q := by
  rcases mem_withList.1 hm with ⟨rfl, hm'⟩ | ⟨hq, hm⟩
  · rcases List.mem_append.1 hm' with hm | hm
    · exact Or.inr (mem_of_mem_drop (mem_withList.2 (Or.inl ⟨rfl, List.mem_append_left _ hm⟩)))
    · rcases List.mem_cons.1 hm with rfl | hm
      · exact Or.inl ⟨rfl, rfl⟩
      · exact Or.inr (mem_of_mem_drop (mem_withList.2 (Or.inl ⟨rfl, List.mem_append_right _ hm⟩)))
  · exact Or.inr (mem_withList.2 (Or.inr ⟨hq, hm⟩))

/-- A watch gets another blocking literal. -/
theorem replace (h : Watched todo d (withList lists l (ks ++ w :: ws))) (hr : w'.ref = w.ref)
    (hb : d.isLive w'.ref → (d.get w'.ref).Blocks l w'.blocking) :
    Watched todo d (withList lists l (ks ++ w' :: ws)) where
  ref_lt hm := by
    rcases eq_or_mem_of_mem_replace hm with ⟨rfl, -⟩ | hm
    · rw [hr]
      exact h.ref_lt mem_taken
    · exact h.ref_lt hm
  count {r} q hl := by
    rw [← h.count q hl]
    by_cases hq : q = l
    · rw [hq, withList_self, withList_self, countRef_append, countRef_append, countRef_cons, countRef_cons, hr]
    · rw [withList_ne hq, withList_ne hq]
  blocking hm hl := by
    rcases eq_or_mem_of_mem_replace hm with ⟨rfl, rfl⟩ | hm
    · exact hb hl
    · exact h.blocking hm hl

/-- The watch on a deleted clause is dropped. -/
theorem drop (h : Watched todo d (withList lists l (ks ++ w :: ws))) (hd : ¬ d.isLive w.ref) :
    Watched todo d (withList lists l (ks ++ ws)) where
  ref_lt hm := h.ref_lt (mem_of_mem_drop hm)
  count {r} q hl := by
    rw [← h.count q hl]
    by_cases hq : q = l
    · have hr : w.ref ≠ r := fun he => hd (he ▸ hl)
      rw [hq, withList_self, withList_self, countRef_append, countRef_append, countRef_cons, if_neg hr]
      rfl
    · rw [withList_ne hq, withList_ne hq]
  blocking hm hl := h.blocking (mem_of_mem_drop hm) hl

/-- The lists after the watch that was taken out of the list of `l` went to that of `x`. -/
def afterMove (lists : Lit → List Watch) (l x : Lit) (us : List Watch) (w : Watch) : Lit → List Watch :=
  withList (withList lists x (lists x ++ [w])) l us

theorem eq_or_mem_of_mem_move {v : Watch} (hm : v ∈ afterMove lists l x (ks ++ ws) w' q) :
    v = w' ∧ q = x ∨ v ∈ withList lists l (ks ++ w :: ws) q := by
  rcases mem_withList.1 hm with ⟨rfl, hm'⟩ | ⟨hq, hm⟩
  · exact Or.inr (mem_of_mem_drop (mem_withList.2 (Or.inl ⟨rfl, hm'⟩)))
  · rcases mem_withList.1 hm with ⟨rfl, hm'⟩ | ⟨-, hm⟩
    · rcases List.mem_append.1 hm' with hm | hm
      · exact Or.inr (mem_withList.2 (Or.inr ⟨hq, hm⟩))
      · exact Or.inl ⟨List.mem_singleton.1 hm, rfl⟩
    · exact Or.inr (mem_withList.2 (Or.inr ⟨hq, hm⟩))

theorem countRef_move (lists : Lit → List Watch) (ks ws : List Watch) (hne : l ≠ x) (hr : w'.ref = w.ref)
    (r : ClauseRef) (q : Lit) :
    countRef r (afterMove lists l x (ks ++ ws) w' q) + (if w.ref = r then if q = l then 1 else 0 else 0) =
      countRef r (withList lists l (ks ++ w :: ws) q) + if w.ref = r then if q = x then 1 else 0 else 0 := by
  unfold afterMove
  by_cases hq : q = l
  · subst hq
    rw [withList_self, withList_self, if_pos rfl, if_neg hne, countRef_append, countRef_append, countRef_cons, ite_self]
    omega
  · rw [withList_ne hq, withList_ne hq, if_neg hq, ite_self]
    by_cases hx : q = x
    · subst hx
      rw [withList_self, countRef_append, countRef_cons, countRef_nil, hr, if_pos rfl, Nat.zero_add, Nat.add_zero]
    · rw [withList_ne hx, if_neg hx, ite_self]

theorem count_watchedBy (h : c.first ≠ c.second) (q : Lit) :
    (if c.WatchedBy q then 1 else 0) = (if q = -c.first then 1 else 0) + if q = -c.second then 1 else 0 := by
  by_cases h1 : q = -c.first
  · have hw : c.WatchedBy q := Or.inl h1
    have h2 : q ≠ -c.second := fun h2 => h (Lit.neg_inj.1 (h1.symm.trans h2))
    rw [if_pos hw, if_pos h1, if_neg h2]
  · by_cases h2 : q = -c.second
    · have hw : c.WatchedBy q := Or.inr h2
      rw [if_pos hw, if_neg h1, if_pos h2]
    · have hw : ¬ c.WatchedBy q := not_or.2 ⟨h1, h2⟩
      rw [if_neg hw, if_neg h1, if_neg h2]

/-- The watch that `l` triggers moves to the list of another literal, as the clause has another one in second place. -/
theorem move (h : Watched [] d (withList lists l (ks ++ w :: ws))) (hl : d.isLive w.ref)
    (hs : l = -(d.get w.ref).second) (hc : (d.get w.ref).Reordered c) (hf : c.first = (d.get w.ref).first)
    (hne : l ≠ -c.second) (hv : (d.get w.ref).first ≠ (d.get w.ref).second) (hv' : c.first ≠ c.second)
    (hr : w'.ref = w.ref) (hb : c.Blocks (-c.second) w'.blocking) :
    Watched [] (d.modify w.ref fun _ => c) (afterMove lists l (-c.second) (ks ++ ws) w') := by
  have hlive {r : ClauseRef} (hl' : (d.modify w.ref fun _ => c).isLive r) : d.isLive r := by
    by_cases hrr : r = w.ref
    · rw [hrr]
      exact hl
    · rwa [Database.isLive, Database.get_modify_ne hrr] at hl'
  refine ⟨fun hm => ?_, fun {r} q hl' => ?_, fun {q v} hm hl' => ?_⟩
  · rw [Database.size_modify]
    rcases eq_or_mem_of_mem_move hm with ⟨rfl, -⟩ | hm
    · rw [hr]
      exact Database.lt_of_isLive hl
    · exact h.ref_lt hm
  · have hold := h.count q (hlive hl')
    have hmove := countRef_move lists ks ws hne hr r q
    rw [hold] at hmove
    by_cases hrr : w.ref = r
    · subst hrr
      rw [if_pos rfl, if_pos rfl] at hmove
      simp only [List.not_mem_nil, not_false_iff, true_and] at hmove ⊢
      rw [count_watchedBy hv, ← hs] at hmove
      rw [Database.get_modify_self hl, count_watchedBy hv', hf]
      omega
    · rw [if_neg hrr, if_neg hrr] at hmove
      rw [Database.get_modify_ne fun he => hrr he.symm]
      exact hmove
  · by_cases hrr : v.ref = w.ref
    · rw [hrr, Database.get_modify_self hl]
      rcases eq_or_mem_of_mem_move hm with ⟨rfl, rfl⟩ | hm
      · exact hb
      · exact hc.blocks_iff.2 (hrr ▸ h.blocking hm (hlive hl'))
    · rw [Database.get_modify_ne hrr]
      rcases eq_or_mem_of_mem_move hm with ⟨rfl, -⟩ | hm
      · exact absurd hr hrr
      · exact h.blocking hm (hlive hl')

/-- A clause that is not watched yet gets its two watches. -/
theorem pair (h : Watched (r :: todo) d lists) (hr : r ∉ todo) (hl : d.isLive r)
    (hne : (d.get r).first ≠ (d.get r).second) {lists' : Lit → List Watch}
    (hlists : ∀ q, lists' q = lists q ++ (if q = -(d.get r).first then [⟨r, (d.get r).second⟩] else []) ++
      if q = -(d.get r).second then [⟨r, (d.get r).first⟩] else []) : Watched todo d lists' := by
  have hmem {q : Lit} {w : Watch} (hm : w ∈ lists' q) :
      w ∈ lists q ∨ w.ref = r ∧ (d.get r).Blocks q w.blocking := by
    rw [hlists, List.mem_append, List.mem_append] at hm
    rcases hm with (hm | hm) | hm
    · exact Or.inl hm
    · split at hm
      · next hq =>
        rw [List.mem_singleton.1 hm, hq]
        exact Or.inr ⟨rfl, Clause.second_blocks hne⟩
      · cases hm
    · split at hm
      · next hq =>
        rw [List.mem_singleton.1 hm, hq]
        exact Or.inr ⟨rfl, Clause.first_blocks hne⟩
      · cases hm
  refine ⟨fun hm => ?_, fun {r'} q hl' => ?_, fun hm hl' => ?_⟩
  · rcases hmem hm with hm | ⟨hm, -⟩
    · exact h.ref_lt hm
    · rw [hm]
      exact Database.lt_of_isLive hl
  · rw [hlists, countRef_append, countRef_append, h.count q hl']
    by_cases hrr : r' = r
    · have h1 : countRef r (if q = -(d.get r).first then [⟨r, (d.get r).second⟩] else []) =
          if q = -(d.get r).first then 1 else 0 := by split <;> simp
      have h2 : countRef r (if q = -(d.get r).second then [⟨r, (d.get r).first⟩] else []) =
          if q = -(d.get r).second then 1 else 0 := by split <;> simp
      rw [hrr, h1, h2, if_neg fun hn => hn.1 List.mem_cons_self, Nat.zero_add, ← count_watchedBy hne]
      simp only [hr, not_false_eq_true, true_and]
    · have h0 (w : Watch) (hw : w.ref = r) (p : Prop) [Decidable p] : countRef r' (if p then [w] else []) = 0 := by
        split
        · rw [countRef_cons, countRef_nil, if_neg fun he => hrr (he.symm.trans hw)]
        · rfl
      rw [h0 _ rfl, h0 _ rfl]
      simp only [List.mem_cons, hrr, false_or, Nat.add_zero]
  · rcases hmem hm with hm | ⟨hm, hb⟩
    · exact h.blocking hm hl'
    · rw [hm]
      exact hb

end Watched

end ClauseLearning
