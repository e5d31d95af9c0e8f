import ClauseLearning.Proofs.Activity
import ClauseLearning.Proofs.CheckedCalls
import ClauseLearning.Proofs.Moments
import ClauseLearning.Proofs.Settings

/-!
# Updates of the configuration

* `ConfigUpdate.merge_assoc`, `ConfigUpdate.merge_empty`, `ConfigUpdate.empty_merge` : of three updates any two
  neighbours can be merged first, and an update without values changes nothing;
* `ConfigUpdate.update_overwrite` : a configuration is overwritten as its values are merged with those of the update;
* `ConfigUpdate.OutOfRange`, `ConfigUpdate.apply_eq_ok_iff` : the updates that are refused;
* `Solver.configure_merge` : two updates in turn and the merged one leave the same solver;
* `Config.InRange`, `Moment.inRange` : the values in force at every moment of a run;
* `updates_compose` : all of this, and that no number is divided by zero.
-/

namespace ClauseLearning

theorem Config.update_inj {c c' : Config} (h : c.update = c'.update) : c = c' := by
  cases c
  cases c'
  simpa only [Config.update, ConfigUpdate.mk.injEq, Option.some.injEq, Config.mk.injEq] using h

/-! ## Merged updates -/

namespace ConfigUpdate

variable {u v w : ConfigUpdate} {c c' c₁ c₂ : Config} {setting : String}

theorem merge_assoc (u v w : ConfigUpdate) : (u.merge v).merge w = u.merge (v.merge w) := by
  simp only [merge, Option.orElse_eq_orElse, Option.orElse_eq_or, Option.or_assoc]

theorem merge_empty (u : ConfigUpdate) : u.merge {} = u := rfl

theorem empty_merge (u : ConfigUpdate) : merge {} u = u := by
  simp only [merge, Option.orElse_eq_orElse, Option.orElse_eq_or, Option.or_none]

/-- The values that there are take part in the merge as the earlier ones. -/
theorem update_overwrite (u : ConfigUpdate) (c : Config) : (u.overwrite c).update = c.update.merge u := by
  simp only [overwrite, Config.update, merge, Option.orElse_eq_orElse, Option.orElse_eq_or, Option.or_some]

theorem overwrite_merge (u v : ConfigUpdate) (c : Config) : (u.merge v).overwrite c = v.overwrite (u.overwrite c) := by
  apply Config.update_inj
  rw [update_overwrite, update_overwrite, update_overwrite, merge_assoc]

/-! ## Refused updates -/

/-- A new decay factor is not strictly between a sixteenth and one, or a new interval is zero. -/
def OutOfRange (u : ConfigUpdate) : Prop :=
  (∃ d, (u.vsidsDecay = some d ∨ u.clauseActivityDecay = some d) ∧ ¬ IsDecay d) ∨
    u.reduceLocalsInterval = some 0 ∨ u.reduceMidsInterval = some 0 ∨ u.lubyRestartIntervalScale = some 0

theorem decayProblem?_eq_none_iff {new : Option Float32} :
    decayProblem? setting new = none ↔ ∀ d, new = some d → IsDecay d := by
  cases new with
  | none => simp [decayProblem?]
  | some d => simp [decayProblem?, decayInRange_iff]

theorem intervalProblem?_eq_none_iff {new : Option UInt64} : intervalProblem? setting new = none ↔ new ≠ some 0 := by
  cases new with
  | none => simp [intervalProblem?]
  | some n => simp [intervalProblem?]

theorem problem?_eq_none_iff_not_outOfRange : u.problem? = none ↔ ¬ u.OutOfRange := by
  rw [problem?_eq_none_iff, decayProblem?_eq_none_iff, decayProblem?_eq_none_iff, intervalProblem?_eq_none_iff,
    intervalProblem?_eq_none_iff, intervalProblem?_eq_none_iff, OutOfRange, not_or, not_or, not_or]
  constructor
  · rintro ⟨h1, h2, h⟩
    refine ⟨?_, h⟩
    rintro ⟨d, hd | hd, hn⟩
    · exact hn (h1 d hd)
    · exact hn (h2 d hd)
  · rintro ⟨hd, h⟩
    exact ⟨fun d h1 => Classical.not_not.1 fun hn => hd ⟨d, .inl h1, hn⟩,
      fun d h2 => Classical.not_not.1 fun hn => hd ⟨d, .inr h2, hn⟩, h⟩

theorem apply_eq_ok_iff : u.apply c = .ok c' ↔ ¬ u.OutOfRange ∧ u.overwrite c = c' := by
  rw [← problem?_eq_none_iff_not_outOfRange, apply]
  cases u.problem? with
  | none => simp
  | some problem => simp

theorem apply_eq_error_iff : (∃ err, u.apply c = .error err) ↔ u.OutOfRange := by
  rw [← not_iff_not, ← problem?_eq_none_iff_not_outOfRange, apply]
  cases u.problem? with
  | none => simp
  | some problem => simp

theorem update_of_apply (h : u.apply c = .ok c') : c'.update = c.update.merge u := by
  rw [← (apply_eq_ok_iff.1 h).2, update_overwrite]

theorem OutOfRange.of_merge (h : (u.merge v).OutOfRange) : u.OutOfRange ∨ v.OutOfRange := by
  have hor {α : Type} {o o' : Option α} {x : α} (h : (o' <|> o) = some x) : o = some x ∨ o' = some x := by
    cases o' with
    | none => exact .inl h
    | some y => exact .inr h
  rcases h with ⟨d, hd | hd, hn⟩ | h | h | h
  · exact (hor hd).imp (fun h => .inl ⟨d, .inl h, hn⟩) fun h => .inl ⟨d, .inl h, hn⟩
  · exact (hor hd).imp (fun h => .inl ⟨d, .inr h, hn⟩) fun h => .inl ⟨d, .inr h, hn⟩
  · exact (hor h).imp (fun h => .inr (.inl h)) fun h => .inr (.inl h)
  · exact (hor h).imp (fun h => .inr (.inr (.inl h))) fun h => .inr (.inr (.inl h))
  · exact (hor h).imp (fun h => .inr (.inr (.inr h))) fun h => .inr (.inr (.inr h))

theorem apply_merge (h : u.apply c = .ok c₁) (h' : v.apply c₁ = .ok c₂) : (u.merge v).apply c = .ok c₂ := by
  obtain ⟨hu, rfl⟩ := apply_eq_ok_iff.1 h
  obtain ⟨hv, rfl⟩ := apply_eq_ok_iff.1 h'
  exact apply_eq_ok_iff.2 ⟨fun hm => hm.of_merge.elim hu hv, overwrite_merge u v c⟩

end ConfigUpdate

/-! ## Solvers -/

namespace Solver

variable {s : Solver} {u v : ConfigUpdate}

theorem configure_eq_ok {c : Config} (h : u.apply s.config = .ok c) : s.configure u = (.ok (),
    { s with
      config := c
      heap := s.heap.withDecay c.vsidsDecay
      clauseScale := s.clauseScale.withDecay c.clauseActivityDecay }) := by
  rw [configure, h]

theorem configure_eq_error_iff : (∃ err, (s.configure u).1 = .error err) ↔ u.OutOfRange := by
  rw [← ConfigUpdate.apply_eq_error_iff (c := s.config), configure]
  cases u.apply s.config with
  | error err => simp
  | ok c => simp

theorem configure_of_outOfRange (h : u.OutOfRange) : (s.configure u).2 = s := by
  obtain ⟨err, herr⟩ := (ConfigUpdate.apply_eq_error_iff (c := s.config)).2 h
  rw [configure, herr]

theorem exists_apply_of_configure (h : (s.configure u).1 = .ok ()) : ∃ c, u.apply s.config = .ok c := by
  cases hu : u.apply s.config with
  | error err =>
    rw [configure, hu] at h
    cases h
  | ok c => exact ⟨c, rfl⟩

/-- Two updates that are accepted in turn leave the solver that the merged update leaves. -/
theorem configure_merge (h : (s.configure u).1 = .ok ()) (h' : ((s.configure u).2.configure v).1 = .ok ()) :
    s.configure (u.merge v) = (s.configure u).2.configure v := by
  obtain ⟨c₁, hu⟩ := exists_apply_of_configure h
  rw [configure_eq_ok hu] at h' ⊢
  obtain ⟨c₂, hv⟩ := exists_apply_of_configure h'
  rw [configure_eq_ok hv, configure_eq_ok (ConfigUpdate.apply_merge hu hv)]
  rfl

end Solver

/-! ## Values in force -/

/-- The decay factors are strictly between a sixteenth and one, and the intervals are positive. -/
structure Config.InRange (c : Config) : Prop where
  vsidsDecay : IsDecay c.vsidsDecay
  clauseActivityDecay : IsDecay c.clauseActivityDecay
  reduceLocalsInterval : 0 < c.reduceLocalsInterval
  reduceMidsInterval : 0 < c.reduceMidsInterval
  lubyRestartIntervalScale : 0 < c.lubyRestartIntervalScale

theorem Config.Accepted.inRange {c : Config} (h : c.Accepted) : c.InRange := by
  have hpos {setting : String} {n : UInt64} (hn : ConfigUpdate.intervalProblem? setting (some n) = none) : 0 < n :=
    UInt64.pos_iff_ne_zero.2 fun h0 => ConfigUpdate.intervalProblem?_eq_none_iff.1 hn (congrArg some h0)
  obtain ⟨h1, h2, h3, h4, h5⟩ := ConfigUpdate.problem?_eq_none_iff.1 h
  exact ⟨ConfigUpdate.decayProblem?_eq_none_iff.1 h1 _ rfl, ConfigUpdate.decayProblem?_eq_none_iff.1 h2 _ rfl,
    hpos h3, hpos h4, hpos h5⟩

variable {counting : Counting} {s t : Solver}

theorem Solver.Simplifying.config_eq {eliminate : Bool} (h : s.Inv) (h0 : s.prop.trail.currentLevel = 0)
    (ht : s.Simplifying eliminate t) : t.config = s.config := by
  cases ht with
  | start => rfl
  | subsumed h1 => exact (subsumed_spec h h0 h1).2.config_eq
  | eliminated h1 h2 _ =>
    obtain ⟨hi, hw, hidle⟩ := resettled_spec h h0 h1 h2
    exact (hw.trans (eliminateVars_spec hi hidle).2.1).config_eq

theorem Moment.exists_config_eq (h : Moment counting s) : ∃ t f, Reachable counting t f ∧ s.config = t.config := by
  cases h with
  | call h => exact ⟨s, _, h, rfl⟩
  | @load t _ _ cs n ls h ht _ =>
    have hsame := (t.ensureVarCount_sameTimes n).trans (Solver.addClauses_sameTimes cs _)
    rw [ht] at hsame
    exact ⟨t, _, h, (hsame.trans (Solver.load_sameTimes _ ls)).config_eq⟩
  | @simplify t _ _ _ h ht =>
    have hr := Solver.rewind_searched h.inv
    exact ⟨t, _, h, (ht.config_eq hr.inv (Solver.currentLevel_rewind _)).trans hr.config_eq⟩
  | @search t _ _ simplifyFirst turnOff h ht =>
    have hs := ht.searched (Solver.searchStart_called h.inv _ _).1.inv
    exact ⟨t, _, h, hs.config_eq.trans (Solver.searchStart_sameSettings h.inv simplifyFirst turnOff).config_eq⟩
  | @decide t _ _ _ simplifyFirst turnOff h ht _ hu =>
    have hs := ht.searched (Solver.searchStart_called h.inv _ _).1.inv
    have hd := Solver.reduceIfDue_restartIfDue_searched hs.inv
    have hsame := hs.trans (hd.trans (hu.searched hd.inv))
    exact ⟨t, _, h, hsame.config_eq.trans (Solver.searchStart_sameSettings h.inv simplifyFirst turnOff).config_eq⟩

theorem Moment.inRange (h : Moment counting s) : s.config.InRange := by
  obtain ⟨t, f, ht, heq⟩ := h.exists_config_eq
  exact heq ▸ ht.settings.1.inRange

theorem requests_never_divide_by_zero [Build] (counting : Counting) (ties : TieOrder) (rs : List Request) :
    rs.foldlM Request.runChecked (Solver.start counting ties) ≠ .error .division := by
  intro hd
  rcases requests_yield counting ties rs with ⟨hr, -⟩ | ⟨f, -, he, hr⟩
  · cases hd.symm.trans hr
  · cases hd.symm.trans hr
    exact he.elim

/-- **Updates compose, and fail as a whole.** Merging updates is associative, and the update without values is its unit.
An update that is accepted is merged with the values in force, and a solver stores the result and derives the growth of
its activities from it. So two updates in turn do what the merged update does, to a configuration and to a solver. An
update is refused just if one of its decay factors is not strictly between a sixteenth and one, or one of its intervals
is zero, and it leaves the solver as it is then. So at every moment of a run the decay factors are in this range and the
intervals are positive, and no request divides by zero. -/
theorem updates_compose (counting : Counting) :
    (∀ u v w : ConfigUpdate, (u.merge v).merge w = u.merge (v.merge w) ∧ u.merge {} = u ∧ ConfigUpdate.merge {} u = u) ∧
      (∀ (u : ConfigUpdate) (c c₁ : Config), u.apply c = .ok c₁ → c₁.update = c.update.merge u) ∧
      (∀ (u : ConfigUpdate) (s : Solver) (c : Config), u.apply s.config = .ok c → s.configure u = (.ok (),
        { s with
          config := c
          heap := s.heap.withDecay c.vsidsDecay
          clauseScale := s.clauseScale.withDecay c.clauseActivityDecay })) ∧
      (∀ (u v : ConfigUpdate) (c c₁ c₂ : Config), u.apply c = .ok c₁ → v.apply c₁ = .ok c₂ →
        (u.merge v).apply c = .ok c₂) ∧
      (∀ (s : Solver) (u v : ConfigUpdate), (s.configure u).1 = .ok () → ((s.configure u).2.configure v).1 = .ok () →
        s.configure (u.merge v) = (s.configure u).2.configure v) ∧
      (∀ (u : ConfigUpdate) (c : Config), (∃ err, u.apply c = .error err) ↔ u.OutOfRange) ∧
      (∀ (u : ConfigUpdate) (s : Solver), ((∃ err, (s.configure u).1 = .error err) ↔ u.OutOfRange) ∧
        (u.OutOfRange → (s.configure u).2 = s)) ∧
      (∀ s, Moment counting s → s.config.InRange) ∧
      ∀ (b : Build) (ties : TieOrder) (rs : List Request),
        rs.foldlM (@Request.runChecked b) (Solver.start counting ties) ≠ .error .division :=
  ⟨fun u v w => ⟨u.merge_assoc v w, u.merge_empty, u.empty_merge⟩, fun _ _ _ => ConfigUpdate.update_of_apply,
    fun _ _ _ => Solver.configure_eq_ok, fun _ _ _ _ _ => ConfigUpdate.apply_merge, fun _ _ _ => Solver.configure_merge,
    fun _ _ => ConfigUpdate.apply_eq_error_iff,
    fun _ _ => ⟨Solver.configure_eq_error_iff, Solver.configure_of_outOfRange⟩, fun _ => Moment.inRange,
    fun _ => requests_never_divide_by_zero counting⟩

/-- The later of two decay factors stays, next to the limit that came with the earlier one. An update with a decay
factor that is no number is refused, also if it comes with an interval that is accepted. -/
theorem updates_compose_two :
    (∃ c, (ConfigUpdate.merge { vsidsDecay := some 0.9, elimGrowLimit := some 4 } { vsidsDecay := some 0.8 }).apply {} =
      .ok c ∧ c.vsidsDecay.toBits = (0.8 : Float32).toBits ∧ c.elimGrowLimit = 4 ∧ c.reduceMidsInterval = 10000) ∧
    ({ clauseActivityDecay := some (0 / 0), reduceMidsInterval := some 5 } : ConfigUpdate).OutOfRange ∧
    ((Solver.start .words .stable).configure
      { clauseActivityDecay := some (0 / 0), reduceMidsInterval := some 5 }).2 = Solver.start .words .stable ∧
    (Solver.start .words .stable).config.InRange := by
  obtain ⟨-, -, -, hmerge, -, happly, hconfigure, hmoment, -⟩ := updates_compose .words
  have hout := (happly { clauseActivityDecay := some (0 / 0), reduceMidsInterval := some 5 } {}).1 ⟨_, rfl⟩
  exact ⟨⟨_, hmerge _ _ {} _ _ rfl rfl, rfl, rfl, rfl⟩, hout, (hconfigure _ _).2 hout,
    hmoment _ (.call (.start .stable))⟩

end ClauseLearning
