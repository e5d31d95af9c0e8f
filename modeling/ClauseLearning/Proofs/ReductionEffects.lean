import ClauseLearning.Proofs.Reduction
import ClauseLearning.Proofs.TierLists

/-!
# Which clauses the reductions choose

* `Database.Culled` : what a pass over local clauses leaves of the database;
* `Propagator.cull_culled` : the pass deletes the first clauses that it may, up to its quota;
* `Propagator.reduceLocals_culled` : it goes through all local clauses once, the least active ones first;
* `Propagator.get_reduceMids` : what becomes of each clause in a reduction of the mid tier.
-/

namespace ClauseLearning

/-- The clause without its flags. -/
def Clause.plain (c : Clause) : Clause := { c with deleted := false, marked := false, active := false }

theorem Clause.eq_of_plain {c c' : Clause} (hp : c'.plain = c.plain) (hd : c'.deleted = c.deleted)
    (hm : c'.marked = c.marked) : { c' with active := c.active } = c := by
  cases c
  cases c'
  cases hd
  cases hm
  cases hp
  rfl

namespace Database

variable {d d₁ e : Database} {r q : ClauseRef} {t : Tier} {rs rs' rs'' gone gone' : List ClauseRef}

theorem Accounted.mem_entries (h : d.Accounted) (he : FirstEntries t (d.byTier.get t).toList d rs e)
    (r : ClauseRef) : r ∈ rs ↔ d.isLive r ∧ (d.get r).tier = t := by
  rw [he.mem_iff]
  refine ⟨fun hr => ⟨hr.2.1, hr.2.2.1⟩, fun hr => ⟨?_, hr.1, hr.2, h.unmarked r⟩⟩
  exact hr.2 ▸ h.byTier hr.1

theorem FirstEntries.read {α : Type} (he : FirstEntries t rs d rs' e) (f : Clause → α)
    (hf : ∀ c : Clause, f { c with marked := true } = f c) (r : ClauseRef) : f (e.get r) = f (d.get r) := by
  rw [he.get_eq]
  split
  · exact hf _
  · rfl

/-! ## Passes over local clauses -/

/-- What a pass over some clauses leaves. Those of `gone` are deleted, and of the others just flags change. -/
structure Culled (rs gone : List ClauseRef) (d e : Database) : Prop where
  plain_eq (r : ClauseRef) : (e.get r).plain = (d.get r).plain
  isLive_iff {r : ClauseRef} : r ∈ rs → (e.isLive r ↔ r ∉ gone)
  get_eq {r : ClauseRef} : r ∉ rs → e.get r = d.get r

/-- What a pass does to one clause: it changes no other clause, and of this one just flags. -/
structure Dealt (r : ClauseRef) (d e : Database) : Prop where
  get_ne (x : ClauseRef) : x ≠ r → e.get x = d.get x
  plain_eq : (e.get r).plain = (d.get r).plain

theorem Dealt.trans (h : Dealt r d d₁) (h' : Dealt r d₁ e) : Dealt r d e where
  get_ne x hx := (h'.get_ne x hx).trans (h.get_ne x hx)
  plain_eq := h'.plain_eq.trans h.plain_eq

theorem Dealt.modify {f : Clause → Clause} (hr : d.isLive r) (hf : ∀ c, (f c).plain = c.plain) :
    Dealt r d (d.modify r f) where
  get_ne _ hx := get_modify_ne hx
  plain_eq := (congrArg Clause.plain (get_modify_self hr)).trans (hf _)

theorem Dealt.delete (hr : d.isLive r) : Dealt r d (d.delete r) where
  get_ne _ hx := get_delete_ne hx
  plain_eq := (Dealt.modify (f := ({ · with deleted := true })) hr fun _ => rfl).plain_eq

theorem Culled.cons (hn : r ∉ rs) (hr : Dealt r d d₁) (hlive : d₁.isLive r ↔ r ∉ gone')
    (hgone : ∀ q ∈ rs, q ∈ gone' ↔ q ∈ gone) (h : Culled rs gone d₁ e) : Culled (r :: rs) gone' d e where
  plain_eq q := by
    rw [h.plain_eq]
    by_cases hq : q = r
    · rw [hq, hr.plain_eq]
    · rw [hr.get_ne q hq]
  isLive_iff {q} hq := by
    rcases List.mem_cons.1 hq with rfl | hq
    · rw [isLive, h.get_eq hn]
      exact hlive
    · rw [h.isLive_iff hq, hgone q hq]
  get_eq {q} hq := by
    rw [List.mem_cons, not_or] at hq
    rw [h.get_eq hq.2, hr.get_ne q hq.1]

theorem Culled.stays (hn : r ∉ rs) (hr : Dealt r d d₁) (hlive : d₁.isLive r) (hg : gone ⊆ rs)
    (h : Culled rs gone d₁ e) : Culled (r :: rs) gone d e :=
  h.cons hn hr (iff_of_true hlive fun hm => hn (hg hm)) fun _ _ => Iff.rfl

theorem Culled.goes (hn : r ∉ rs) (hr : Dealt r d d₁) (hlive : ¬ d₁.isLive r) (h : Culled rs gone d₁ e) :
    Culled (r :: rs) (r :: gone) d e :=
  h.cons hn hr (iff_of_false hlive fun hm => hm List.mem_cons_self) fun q hq => by
    rw [List.mem_cons, or_iff_right fun he : q = r => hn (he ▸ hq)]

theorem Culled.of_marks (he : FirstEntries t rs d rs' d₁) (hr : ∀ r, r ∈ rs'' ↔ r ∈ rs') (h : Culled rs'' gone d₁ e) :
    Culled rs'' gone d e where
  plain_eq r := (h.plain_eq r).trans (he.read Clause.plain (fun _ => rfl) r)
  isLive_iff := h.isLive_iff
  get_eq {r} hn := by rw [h.get_eq hn, he.get_eq, if_neg fun hm => hn ((hr r).2 hm)]

end Database

namespace Propagator

open Database (Culled FirstEntries)

variable {p q : Propagator} {n : Nat} {r x : ClauseRef} {rs : List ClauseRef}

/-- Whether a pass over local clauses deletes a clause when it comes to it, as long as the quota lasts. -/
def mayDelete (p : Propagator) (r : ClauseRef) : Bool := !(p.clauses.get r).active && !p.isLocked r

theorem isLocked_congr (ht : q.trail = p.trail) (hf : (q.clauses.get r).first = (p.clauses.get r).first) :
    q.isLocked r = p.isLocked r := by
  rw [isLocked, isLocked, ht, hf]

theorem mayDelete_congr (ht : q.trail = p.trail) (hf : (q.clauses.get r).first = (p.clauses.get r).first)
    (ha : (q.clauses.get r).active = (p.clauses.get r).active) : q.mayDelete r = p.mayDelete r := by
  rw [mayDelete, mayDelete, isLocked_congr ht hf, ha]

/-- What a pass over local clauses does to the first one: as long as the quota lasts it is deleted if it may be. -/
theorem cull_first (rs : List ClauseRef) (quota : Nat) (hr : p.clauses.isLive r) : ∃ e quota',
    Database.Dealt r p.clauses e ∧ (cull (r :: rs) quota p).2 = (cull rs quota' { p with clauses := e }).2 ∧
    (p.mayDelete r ∧ quota = quota' + 1 ∧ ¬ e.isLive r ∨
      (p.mayDelete r → quota = 0) ∧ quota = quota' ∧ e.isLive r) := by
  have hr' := Database.isLive_unmark hr
  have hunmark : Database.Dealt r p.clauses (p.clauses.unmark r) := .modify hr fun _ => rfl
  rw [cull]
  dsimp only
  split
  · next h0 => exact ⟨_, 0, hunmark, rfl, .inr ⟨fun _ => h0, h0, hr'⟩⟩
  · next hquota =>
    split
    · next hactive =>
      have hflag := Database.Dealt.modify (f := ({ · with active := false })) hr' fun _ => rfl
      refine ⟨_, quota, hunmark.trans hflag, rfl, .inr ⟨fun hm => ?_, rfl, ?_⟩⟩
      · rw [mayDelete, hactive] at hm
        cases hm
      · rw [Database.isLive, Database.get_modify_self hr']
        exact hr'
    · next hactive =>
      have hlocked : isLocked { p with clauses := p.clauses.unmark r } r = p.isLocked r :=
        isLocked_congr rfl ((congrArg Clause.first (Database.get_modify_self hr)).trans rfl)
      rw [hlocked]
      split
      · next hlock =>
        refine ⟨_, quota, hunmark, rfl, .inr ⟨fun hm => ?_, rfl, hr'⟩⟩
        rw [mayDelete, hlock, Bool.not_true, Bool.and_false] at hm
        cases hm
      · next hlock =>
        refine ⟨_, quota - 1, hunmark.trans (.delete hr'), rfl, .inl ⟨?_, by omega, fun hd => ?_⟩⟩
        · rw [mayDelete, Bool.eq_false_iff.2 hactive, Bool.eq_false_iff.2 hlock]
          rfl
        · exact (Database.isLive_delete.1 hd).2 rfl

/-- A pass over local clauses deletes the first ones that it may. -/
theorem cull_culled (rs : List ClauseRef) (hn : rs.Nodup) (quota : Nat) (p : Propagator)
    (hl : ∀ r ∈ rs, p.clauses.isLive r) :
    Culled rs ((rs.filter p.mayDelete).take quota) p.clauses (cull rs quota p).2.clauses := by
  induction rs generalizing quota p with
  | nil => exact ⟨fun _ => rfl, fun h => absurd h List.not_mem_nil, fun _ => rfl⟩
  | cons r rs ih =>
    obtain ⟨hr, hn⟩ := List.nodup_cons.1 hn
    obtain ⟨e, quota', he, hcull, hcase⟩ := cull_first rs quota (hl r List.mem_cons_self)
    -- the other clauses are as before when the first one is dealt with
    have hget {x : ClauseRef} (hx : x ∈ rs) : e.get x = p.clauses.get x := he.get_ne x fun hxr => hr (hxr ▸ hx)
    have hsame (x : ClauseRef) (hx : x ∈ rs) : mayDelete { p with clauses := e } x = p.mayDelete x :=
      mayDelete_congr rfl (congrArg Clause.first (hget hx)) (congrArg Clause.active (hget hx))
    have hrest := ih hn quota' { p with clauses := e } fun x hx => by
      rw [Database.isLive, hget hx]
      exact hl x (List.mem_cons_of_mem r hx)
    rw [List.filter_congr hsame] at hrest
    rw [hcull]
    rcases hcase with ⟨hdel, rfl, hdead⟩ | ⟨hskip, rfl, hlive⟩
    · rw [List.filter_cons_of_pos hdel, List.take_succ_cons]
      exact hrest.goes hr he hdead
    · have htake : ((r :: rs).filter p.mayDelete).take quota = (rs.filter p.mayDelete).take quota := by
        by_cases hm : p.mayDelete r
        · rw [hskip hm, List.take_zero, List.take_zero]
        · rw [List.filter_cons_of_neg hm]
      rw [htake]
      exact hrest.stays hr he hlive fun x hx => List.mem_of_mem_filter (List.mem_of_mem_take hx)

/-- A reduction of the local clauses goes through all of them, the least active ones first, and deletes the first ones
that it may, up to half of all. -/
theorem reduceLocals_culled (ties : TieOrder) (h : p.clauses.Accounted) : ∃ locals : List ClauseRef, locals.Nodup ∧
    (∀ r, r ∈ locals ↔ p.clauses.isLive r ∧ (p.clauses.get r).tier = .loc) ∧
    SortedBy (fun r => (p.clauses.get r).activity.toBits.toNat) locals ∧
    Culled locals ((locals.filter p.mayDelete).take (locals.length / 2)) p.clauses (p.reduceLocals ties).2.clauses := by
  have he := Database.firstEntries_marks .loc p.clauses.byTier.loc.toList p.clauses
  unfold reduceLocals
  generalize p.clauses.firstEntries .loc p.clauses.byTier.loc.toList = out at he
  obtain ⟨entries, clauses⟩ := out
  -- the clauses are marked now, which changes neither their activities nor what may be deleted
  have hkey := he.read Clause.activity fun _ => rfl
  have hmay (r : ClauseRef) : mayDelete { p with clauses := clauses } r = p.mayDelete r :=
    mayDelete_congr rfl (he.read Clause.first (fun _ => rfl) r) (he.read Clause.active (fun _ => rfl) r)
  simp only [hkey]
  generalize hkeys : ties.sort (fun r => (p.clauses.get r).activity.toBits.toNat) entries = locals
  have hperm : locals.Perm entries := hkeys ▸ ties.sort_perm _ entries
  have hnodup := hperm.nodup_iff.2 he.nodup
  have hcull := cull_culled locals hnodup (locals.length / 2) { p with clauses := clauses } fun r hr =>
    (he.entries r (hperm.mem_iff.1 hr)).1
  rw [List.filter_congr fun r _ => hmay r] at hcull
  refine ⟨locals, hnodup, fun r => hperm.mem_iff.trans (h.mem_entries he r), hkeys ▸ ties.sort_sorted _ entries, ?_⟩
  have hall := hcull.of_marks he fun r => hperm.mem_iff
  exact ⟨hall.plain_eq, hall.isLive_iff, hall.get_eq⟩

/-! ## Passes over clauses of the mid tier -/

theorem get_demote (rs : List ClauseRef) (hn : rs.Nodup) (d : Database) (hl : ∀ r ∈ rs, d.isLive r) (x : ClauseRef) :
    (demote rs d).2.get x =
      if x ∈ rs then
        if (d.get x).active then { d.get x with marked := false, active := false }
        else { d.get x with marked := false, tier := .loc }
      else d.get x := by
  induction rs generalizing d with
  | nil => rfl
  | cons r rs ih =>
    obtain ⟨hr, hn⟩ := List.nodup_cons.1 hn
    have hlive := hl r List.mem_cons_self
    have hlive' := Database.isLive_unmark hlive
    have hunmark : (d.unmark r).get r = { d.get r with marked := false } := Database.get_modify_self hlive
    -- the other clauses are as before when the first one is dealt with
    have hrest (e : Database) (he : ∀ y, y ≠ r → e.get y = d.get y)
        (hself : e.get r = if (d.get r).active then { d.get r with marked := false, active := false }
          else { d.get r with marked := false, tier := .loc }) :
        (demote rs e).2.get x =
          if x ∈ r :: rs then
            if (d.get x).active then { d.get x with marked := false, active := false }
            else { d.get x with marked := false, tier := .loc }
          else d.get x := by
      rw [ih hn e fun y hy => by
        rw [Database.isLive, he y fun hyr => hr (hyr ▸ hy)]
        exact hl y (List.mem_cons_of_mem r hy)]
      by_cases hx : x = r
      · rw [hx, if_neg hr, if_pos List.mem_cons_self, hself]
      · simp only [List.mem_cons, hx, false_or, he x hx]
    have hne (y : ClauseRef) (hy : y ≠ r) : (d.unmark r).get y = d.get y := Database.get_modify_ne hy
    rw [demote]
    dsimp only
    split
    · next hactive =>
      refine hrest _ (fun y hy => (Database.get_modify_ne hy).trans (hne y hy)) ?_
      rw [if_pos hactive, Database.get_modify_self hlive', hunmark]
    · next hactive =>
      refine hrest _ (fun y hy => (Database.get_setTier_ne hy hlive').trans (hne y hy)) ?_
      rw [if_neg hactive, Database.get_setTier hlive', if_pos rfl, hunmark]

/-- A reduction of the mid tier changes no other clauses. -/
theorem get_reduceMids (h : p.clauses.Accounted) (r : ClauseRef) :
    p.reduceMids.2.clauses.get r =
      if p.clauses.isLive r ∧ (p.clauses.get r).tier = .mid then
        if (p.clauses.get r).active then { p.clauses.get r with active := false }
        else { p.clauses.get r with tier := .loc }
      else p.clauses.get r := by
  have he := Database.firstEntries_marks .mid p.clauses.byTier.mid.toList p.clauses
  unfold reduceMids
  generalize p.clauses.firstEntries .mid p.clauses.byTier.mid.toList = out at he
  obtain ⟨entries, clauses⟩ := out
  have hget := get_demote entries he.nodup clauses (fun r hr => (he.entries r hr).1) r
  show (demote entries clauses).2.get r = _
  rw [hget, he.get_eq]
  have hm := h.mem_entries he r
  by_cases hr : r ∈ entries
  · rw [if_pos hr, if_pos hr, if_pos (hm.1 hr)]
    have hunmarked := h.unmarked r
    generalize p.clauses.get r = c at hunmarked ⊢
    cases c
    subst hunmarked
    rfl
  · rw [if_neg hr, if_neg hr, if_neg fun hc => hr (hm.2 hc)]

end Propagator

end ClauseLearning
