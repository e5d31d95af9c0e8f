import ClauseLearning.State
import ClauseLearning.Proofs.Conflict
import ClauseLearning.Proofs.Facts
import ClauseLearning.Simplification.Elimination

/-!
# The invariant of the solver

* `Candidates` : the heap knows which variables decisions can be made on, and all of these that are unassigned wait in
  it;
* `Eliminations` : each eliminated variable has a witness, whose clauses mention no variable that was eliminated before,
  and no irredundant clause mentions an eliminated variable;
* `Solver.Inv` : the invariant, and `Solver.Sound` : the part of it that holds while literals are marked;
* `extendBy`, `PartialAssignment.extendBy` : the extension of an assignment, and of a partial one, by witnesses;
* `Solver.Admits`, `Solver.Models`, `Solver.ModelsAll`, `Solver.Faithful` : the models of a solver, and changes that
  keep them up to the values of eliminated variables;
* `Solver.Dormant`, `Solver.Retired` : eliminated variables are not assigned, nor in a clause;
* `Solver.Searched` : what the parts of the search have in common. They are faithful and leave variables alone.
-/

namespace ClauseLearning

/-- What is known about a variable. -/
def infoOf (vars : Array Variable) (v : Var) : Variable := vars.getD v.index {}

theorem infoOf_modify {vars : Array Variable} {v w : Var} {f : Variable → Variable} (hx : v.index < vars.size) :
    infoOf (vars.modify v.index f) w = if w = v then f (infoOf vars v) else infoOf vars w := by
  unfold infoOf
  rw [getD_modify hx]
  simp only [Var.index_inj]

theorem eliminated_infoOf_modify {vars : Array Variable} {v : Var} {f : Variable → Variable} (hx : v.index < vars.size)
    (hf : ∀ i, (f i).eliminated = i.eliminated) (w : Var) :
    (infoOf (vars.modify v.index f) w).eliminated = (infoOf vars w).eliminated := by
  rw [infoOf_modify hx]
  split
  · next hw => rw [hf, hw]
  · rfl

theorem infoOf_push {vars : Array Variable} {info : Variable} {v : Var} :
    infoOf (vars.push info) v = if v.index = vars.size then info else infoOf vars v := getD_push

/-- Decisions are made on the variables that allow them and were not eliminated. -/
structure Candidates (vars : Array Variable) (t : Trail) (h : DecisionHeap) : Prop where
  valid : h.Valid vars.size
  enabled {v : Var} : v.index < vars.size → h.isEnabled v = ((infoOf vars v).decision && !(infoOf vars v).eliminated)
  waits {v : Var} : h.isEnabled v → ¬ t.isAssigned v → h.Waits v

/-- The clauses of a witness mention neither its own variable nor those of older witnesses. -/
def WitnessesOrdered (n : Nat) : List Witness → Prop
  | [] => True
  | w :: ws =>
    w.lit.var.index < n ∧
      (∀ c ∈ w.clauses, ∀ l ∈ c, l.var.index < n ∧ l.var ≠ w.lit.var ∧ ∀ w' ∈ ws, w'.lit.var ≠ l.var) ∧
      WitnessesOrdered n ws

/-- The eliminated variables have a witness each and occur in no irredundant clause. -/
structure Eliminations (vars : Array Variable) (ws : List Witness) (d : Database) : Prop where
  witnessed {v : Var} : (infoOf vars v).eliminated = true ↔ ∃ w ∈ ws, w.lit.var = v
  distinct : (ws.map fun w => w.lit.var).Nodup
  purged {r : ClauseRef} {l : Lit} : d.isLive r → (d.get r).learned = false → l ∈ (d.get r).lits →
    (infoOf vars l.var).eliminated = false
  ordered : WitnessesOrdered vars.size ws

/-- The invariant of a solver, but for the marks of literals. -/
structure Solver.Sound (s : Solver) : Prop where
  prop : s.prop.Inv s.varCount
  candidates : Candidates s.vars s.prop.trail s.heap
  varMarks : s.varMarks.Clear s.varCount
  eliminations : Eliminations s.vars s.witnesses s.prop.clauses

/-- The invariant of a solver. -/
structure Solver.Inv (s : Solver) : Prop extends s.Sound where
  litMarks : s.litMarks.Clear (2 * s.varCount + 1)

/-! ## Candidates -/

namespace Candidates

variable {vars : Array Variable} {t u : Trail} {h g : DecisionHeap}

theorem same (hc : Candidates vars t h) (hs : DecisionHeap.Same vars.size h g) : Candidates vars t g where
  valid := hs.valid
  enabled hv := hs.isEnabled_eq.trans (hc.enabled hv)
  waits he hu := hs.waits_iff.2 (hc.waits (hs.isEnabled_eq ▸ he) hu)

theorem of_trail (hc : Candidates vars t h) (ha : ∀ v, t.isAssigned v → u.isAssigned v) : Candidates vars u h where
  valid := hc.valid
  enabled := hc.enabled
  waits he hu := hc.waits he fun h => hu (ha _ h)

theorem foldl_makeAvailable (hc : Candidates vars t h) (ls : List Lit)
    (hu : ∀ v, t.isAssigned v → u.isAssigned v ∨ v ∈ ls.map Lit.var) :
    Candidates vars u (ls.foldl (fun h l => h.makeAvailable l.var) h) := by
  have hall : ∀ (ls : List Lit) (h : DecisionHeap), h.Valid vars.size →
      (ls.foldl (fun h l => h.makeAvailable l.var) h).Valid vars.size ∧
        (∀ w, (ls.foldl (fun h l => h.makeAvailable l.var) h).isEnabled w = h.isEnabled w) ∧
        ∀ w, (ls.foldl (fun h l => h.makeAvailable l.var) h).Waits w ↔
          h.Waits w ∨ w ∈ ls.map Lit.var ∧ h.isEnabled w := by
    intro ls
    induction ls with
    | nil => exact fun h hv => ⟨hv, fun _ => rfl, fun w => by simp⟩
    | cons l ls ih =>
      intro h hv
      obtain ⟨h1, h2, h3⟩ := hv.makeAvailable l.var
      obtain ⟨h4, h5, h6⟩ := ih _ h1
      refine ⟨h4, fun w => (h5 w).trans (h2 w), ?_⟩
      intro w
      rw [List.foldl_cons, h6, h3, h2, List.map_cons, List.mem_cons]
      constructor
      · rintro ((h | ⟨rfl, h⟩) | ⟨h, h'⟩)
        · exact Or.inl h
        · exact Or.inr ⟨Or.inl rfl, h⟩
        · exact Or.inr ⟨Or.inr h, h'⟩
      · rintro (h | ⟨rfl | h, h'⟩)
        · exact Or.inl (Or.inl h)
        · exact Or.inl (Or.inr ⟨rfl, h'⟩)
        · exact Or.inr ⟨h, h'⟩
  obtain ⟨h1, h2, h3⟩ := hall ls h hc.valid
  refine ⟨h1, fun hv => (h2 _).trans (hc.enabled hv), fun {v} he hv => (h3 v).2 ?_⟩
  rw [h2] at he
  by_cases ht : t.isAssigned v
  · exact Or.inr ⟨(hu v ht).resolve_left hv, he⟩
  · exact Or.inl (hc.waits he ht)

theorem eliminate (hc : Candidates vars t h) {v : Var} (hx : v.index < vars.size) :
    Candidates (vars.modify v.index ({ · with eliminated := true })) t (h.setEnabled v false) := by
  obtain ⟨h1, h2, h3⟩ := hc.valid.setEnabled hx false
  refine ⟨by rw [Array.size_modify]; exact h1, ?_, fun {w} hw hu => (h3 w).2 (Or.inl ?_)⟩
  · intro w hw
    rw [Array.size_modify] at hw
    rw [h2, infoOf_modify hx]
    split
    · exact (Bool.and_false _).symm
    · exact hc.enabled hw
  · rw [h2] at hw
    split at hw
    · cases hw
    · exact hc.waits hw hu

theorem addVar (hc : Candidates vars t h) {info : Variable} (he : info.eliminated = false) :
    Candidates (vars.push info) t.addVar (h.addVar.setEnabled ⟨vars.size⟩ info.decision) := by
  have hx : (⟨vars.size⟩ : Var).index < vars.size + 1 := Nat.lt_succ_self _
  obtain ⟨h1, h2, h3⟩ := hc.valid.addVar.setEnabled hx info.decision
  have hold (w : Var) : h.addVar.isEnabled w = h.isEnabled w := getD_push_default
  refine ⟨?_, ?_, fun {w} hw hu => (h3 w).2 ?_⟩
  · rw [Array.size_push]
    exact h1
  · intro w hw
    rw [h2, infoOf_push]
    by_cases hws : w = ⟨vars.size⟩
    · have hi : w.index = vars.size := congrArg Var.index hws
      rw [if_pos hws, if_pos hi, he, Bool.not_false, Bool.and_true]
    · have hne : w.index ≠ vars.size := fun he => hws (Var.ext_index he)
      rw [if_neg hws, if_neg hne, hold]
      rw [Array.size_push] at hw
      exact hc.enabled (by omega)
  · rw [h2] at hw
    split at hw
    · next hws => exact Or.inr ⟨hws, hw⟩
    · rw [hold] at hw
      have hu' : ¬ t.isAssigned w := by
        rwa [Trail.isAssigned, Trail.value_addVar] at hu
      obtain ⟨q, hq⟩ := hc.waits hw hu'
      refine Or.inl ⟨q, ?_⟩
      rw [DecisionHeap.position?, DecisionHeap.addVar, getD_push_default]
      exact hq

end Candidates

theorem Eliminations.descends {vars : Array Variable} {ws : List Witness} {d e : Database} (h : Eliminations vars ws d)
    (hd : Database.Descends d e) : Eliminations vars ws e where
  witnessed := h.witnessed
  distinct := h.distinct
  purged {r l} hr hn hl := by
    obtain ⟨q, hq, hqn, hqs⟩ := hd r hr
    exact h.purged hq (hqn hn) (hqs l hl)
  ordered := h.ordered

theorem WitnessesOrdered.mono {n m : Nat} (hnm : n ≤ m) {ws : List Witness} (h : WitnessesOrdered n ws) :
    WitnessesOrdered m ws := by
  induction ws with
  | nil => trivial
  | cons w ws ih =>
    obtain ⟨h1, h2, h3⟩ := h
    refine ⟨Nat.lt_of_lt_of_le h1 hnm, ?_, ih h3⟩
    intro c hc l hl
    obtain ⟨h4, h5⟩ := h2 c hc l hl
    exact ⟨Nat.lt_of_lt_of_le h4 hnm, h5⟩

theorem WitnessesOrdered.index_lt {n : Nat} {ws : List Witness} {w : Witness} {c : List Lit} {l : Lit}
    (ho : WitnessesOrdered n ws) (hw : w ∈ ws) (hc : c ∈ w.clauses) (hl : l ∈ c) : l.var.index < n := by
  induction ws with
  | nil => cases hw
  | cons w' ws ih =>
    obtain ⟨-, h2, h3⟩ := ho
    rcases List.mem_cons.1 hw with rfl | hw
    · exact (h2 c hc l hl).1
    · exact ih h3 hw

theorem Eliminations.addClause {vars : Array Variable} {ws : List Witness} {p : Propagator} {c : Clause}
    (h : Eliminations vars ws p.clauses)
    (hc : c.learned = false → ∀ l ∈ c.lits, (infoOf vars l.var).eliminated = false) :
    Eliminations vars ws (p.addClause c).2.clauses where
  witnessed := h.witnessed
  distinct := h.distinct
  purged {r l} hr hn hl := by
    rcases Propagator.addClause_cases hr with he | ⟨hr', he⟩
    · rw [he] at hn hl
      exact hc hn l hl
    · rw [he] at hn hl
      exact h.purged hr' hn hl
  ordered := h.ordered

theorem Eliminations.addVar {vars : Array Variable} {ws : List Witness} {d : Database} (h : Eliminations vars ws d)
    {info : Variable} (he : info.eliminated = false) : Eliminations (vars.push info) ws d where
  witnessed {w} := by
    rw [infoOf_push]
    split
    · next hw =>
      have hnone : (infoOf vars w).eliminated = false := by
        rw [infoOf, getD_of_size_le (Nat.le_of_eq hw.symm)]
      rw [he, ← h.witnessed, hnone]
    · exact h.witnessed
  distinct := h.distinct
  purged {r l} hr hn hl := by
    rw [infoOf_push]
    split
    · exact he
    · exact h.purged hr hn hl
  ordered := by
    rw [Array.size_push]
    exact h.ordered.mono (Nat.le_succ _)

/-! ## Models -/

/-- The extension of an assignment to the variable of a witness. -/
def Witness.extendAssignment (a : Assignment) (w : Witness) : Assignment :=
  a.set (if ∀ c ∈ w.clauses, Satisfies a c then -w.lit else w.lit)

/-- The extension of an assignment to the variables of all witnesses, the latest first. -/
def extendBy (ws : List Witness) (a : Assignment) : Assignment := ws.foldl Witness.extendAssignment a

theorem extendBy_of_ne {ws : List Witness} {a : Assignment} {v : Var} (h : ∀ w ∈ ws, w.lit.var ≠ v) :
    extendBy ws a v = a v := by
  induction ws generalizing a with
  | nil => rfl
  | cons w ws ih =>
    show extendBy ws (w.extendAssignment a) v = a v
    rw [ih fun w' hw' => h w' (List.mem_cons_of_mem w hw'), Witness.extendAssignment]
    apply Assignment.set_of_ne a
    have := h w List.mem_cons_self
    split
    · rw [Lit.var_neg]
      exact Ne.symm this
    · exact Ne.symm this

open Classical in
/-- The extension of a partial assignment to the variable of a witness. -/
noncomputable def Witness.extendPartial (m : PartialAssignment) (w : Witness) : PartialAssignment :=
  m.set (if ∀ c ∈ w.clauses, m.Meets c then -w.lit else w.lit)

/-- The extension of a partial assignment to the variables of all witnesses, the latest first. -/
noncomputable def PartialAssignment.extendBy (ws : List Witness) (m : PartialAssignment) : PartialAssignment :=
  ws.foldl Witness.extendPartial m

namespace PartialAssignment

theorem extendBy_append (ws ws' : List Witness) (m : PartialAssignment) :
    m.extendBy (ws ++ ws') = (m.extendBy ws).extendBy ws' := List.foldl_append

theorem allows_extendPartial {m : PartialAssignment} {w : Witness} {l : Lit} (h : l.var ≠ w.lit.var) :
    (w.extendPartial m).Allows l ↔ m.Allows l := by
  unfold Witness.extendPartial
  split
  · exact allows_set_of_ne ((Lit.var_neg w.lit).symm ▸ h)
  · exact allows_set_of_ne h

theorem allows_extendBy {ws : List Witness} {m : PartialAssignment} {l : Lit} (h : ∀ w ∈ ws, w.lit.var ≠ l.var) :
    (m.extendBy ws).Allows l ↔ m.Allows l := by
  induction ws generalizing m with
  | nil => exact Iff.rfl
  | cons w ws ih =>
    apply (ih fun w' hw' => h w' (List.mem_cons_of_mem w hw')).trans
    exact allows_extendPartial (Ne.symm (h w List.mem_cons_self))

theorem toPartial_extendBy (ws : List Witness) (a : Assignment) :
    (ClauseLearning.extendBy ws a).toPartial = a.toPartial.extendBy ws := by
  induction ws generalizing a with
  | nil => rfl
  | cons w ws ih =>
    have hw : (w.extendAssignment a).toPartial = w.extendPartial a.toPartial := by
      have hiff : (∀ c ∈ w.clauses, Satisfies a c) ↔ ∀ c ∈ w.clauses, a.toPartial.Meets c := Iff.rfl
      unfold Witness.extendAssignment Witness.extendPartial
      rw [toPartial_set]
      by_cases hall : ∀ c ∈ w.clauses, Satisfies a c
      · rw [if_pos hall, if_pos (hiff.1 hall)]
      · rw [if_neg hall, if_neg fun h => hall (hiff.2 h)]
    apply (ih (w.extendAssignment a)).trans
    rw [hw]
    rfl

end PartialAssignment

namespace Solver

variable {s s' s'' : Solver} {a : Assignment} {m : PartialAssignment}

/-- A partial assignment under which no fact and no irredundant clause is false. An unsatisfiable solver admits none. -/
def Admits (s : Solver) (m : PartialAssignment) : Prop := s.status ≠ .unsat ∧ s.prop.Admits m

/-- An assignment that agrees with all facts and satisfies all irredundant clauses. -/
abbrev Models (s : Solver) (a : Assignment) : Prop := s.Admits a.toPartial

/-- The same with learned clauses. An unsatisfiable solver has none. -/
def ModelsAll (s : Solver) (a : Assignment) : Prop := s.status ≠ .unsat ∧ s.prop.ModelsAll a

/-- A change that loses no model of all clauses, and after which nothing is admitted that was not before but for the
values of variables that it eliminates. -/
structure Faithful (s s' : Solver) : Prop where
  modelsAll {a : Assignment} : s.ModelsAll a → s'.ModelsAll a
  admits : ∃ ws, s'.witnesses = ws ++ s.witnesses ∧ ∀ m, s'.Admits m → s.Admits (m.extendBy ws)

namespace Faithful

theorem refl (s : Solver) : Faithful s s := ⟨id, [], rfl, fun _ => id⟩

theorem trans (h : Faithful s s') (h' : Faithful s' s'') : Faithful s s'' := by
  obtain ⟨ws, hw, hm⟩ := h.admits
  obtain ⟨ws', hw', hm'⟩ := h'.admits
  refine ⟨fun ha => h'.modelsAll (h.modelsAll ha), ws' ++ ws, ?_, ?_⟩
  · rw [hw', hw, List.append_assoc]
  · intro m ha
    rw [PartialAssignment.extendBy_append]
    exact hm _ (hm' m ha)

theorem of_prop (hp : Propagator.Faithful s.prop s'.prop) (hw : s'.witnesses = s.witnesses)
    (hs : s'.status = .unsat ↔ s.status = .unsat) : Faithful s s' where
  modelsAll ha := ⟨fun h => ha.1 (hs.1 h), hp.modelsAll ha.2⟩
  admits := ⟨[], hw, fun _ ha => ⟨fun h => ha.1 (hs.2 h), hp.admits ha.2⟩⟩

theorem of_unsat (hn : ∀ a, ¬ s.ModelsAll a) (hw : s'.witnesses = s.witnesses) (hs : s'.status = .unsat) :
    Faithful s s' where
  modelsAll ha := absurd ha (hn _)
  admits := ⟨[], hw, fun _ ha => absurd hs ha.1⟩

end Faithful

/-! ## Parts of the search -/

/-- No eliminated variable is assigned. -/
def Dormant (s : Solver) : Prop := ∀ v, s.hasEliminated v = true → ¬ s.prop.trail.isAssigned v

/-- No eliminated variable is assigned or in a clause. -/
def Retired (s : Solver) : Prop := ∀ v, s.hasEliminated v = true → ¬ s.prop.Mentions v

theorem hasEliminated_congr (h : s'.vars = s.vars) (v : Var) : s'.hasEliminated v = s.hasEliminated v :=
  congrArg (fun vars => (infoOf vars v).eliminated) h

theorem Retired.of_mentions (h : s.Retired) (hv : s'.vars = s.vars)
    (hm : ∀ v, s'.prop.Mentions v → s.prop.Mentions v) : s'.Retired :=
  fun v he hmv => h v ((hasEliminated_congr hv v).symm.trans he) (hm v hmv)

theorem Retired.dormant (h : s.Retired) : s.Dormant := fun v he ha => h v he (Or.inl ha)

/-- A part of the search: the invariant holds afterwards, the change is faithful, and variables, witnesses and settings
are as before. -/
structure Searched (s s' : Solver) : Prop where
  inv : s'.Inv
  faithful : Faithful s s'
  vars_eq : s'.vars = s.vars
  witnesses_eq : s'.witnesses = s.witnesses
  config_eq : s'.config = s.config
  eliminationOff_eq : s'.eliminationOff = s.eliminationOff
  retired : s.Retired → s'.Retired

namespace Searched

theorem refl (h : s.Inv) : Searched s s := ⟨h, Faithful.refl s, rfl, rfl, rfl, rfl, id⟩

theorem trans (h : Searched s s') (h' : Searched s' s'') : Searched s s'' :=
  ⟨h'.inv, h.faithful.trans h'.faithful, h'.vars_eq.trans h.vars_eq, h'.witnesses_eq.trans h.witnesses_eq,
    h'.config_eq.trans h.config_eq, h'.eliminationOff_eq.trans h.eliminationOff_eq,
    fun hr => h'.retired (h.retired hr)⟩

theorem varCount_eq (h : Searched s s') : s'.varCount = s.varCount := congrArg Array.size h.vars_eq

theorem admits (h : Searched s s') (ha : s'.Admits m) : s.Admits m := by
  obtain ⟨ws, hw, hm⟩ := h.faithful.admits
  rw [h.witnesses_eq] at hw
  obtain rfl := List.self_eq_append_left.1 hw
  exact hm m ha

end Searched

theorem searched_of_prop {q : Propagator} (h : s.Inv) (hq : q.Inv s.varCount) (hf : Propagator.Faithful s.prop q)
    (ha : ∀ v, s.prop.trail.isAssigned v → q.trail.isAssigned v)
    (hm : ∀ v, q.trail.isAssigned v → s.prop.Mentions v) : Searched s { s with prop := q } where
  inv :=
    { prop := hq
      candidates := h.candidates.of_trail ha
      litMarks := h.litMarks
      varMarks := h.varMarks
      eliminations := h.eliminations.descends hf.descends }
  faithful := Faithful.of_prop hf rfl Iff.rfl
  vars_eq := rfl
  witnesses_eq := rfl
  config_eq := rfl
  eliminationOff_eq := rfl
  retired hr := hr.of_mentions rfl fun v hv => hv.descends (hm v) hf.descends

/-- What the invariant of a state is about. The rest is counters, limits, settings, models and messages. -/
def core (s : Solver) : Propagator × DecisionHeap × Marks × VarMarks × Array Variable × List Witness :=
  (s.prop, s.heap, s.litMarks, s.varMarks, s.vars, s.witnesses)

theorem prop_of_core (hc : s'.core = s.core) : s'.prop = s.prop := congrArg (·.1) hc

theorem vars_of_core (hc : s'.core = s.core) : s'.vars = s.vars := congrArg (·.2.2.2.2.1) hc

theorem witnesses_of_core (hc : s'.core = s.core) : s'.witnesses = s.witnesses := congrArg (·.2.2.2.2.2) hc

theorem Inv.of_core (h : s.Inv) (hc : s'.core = s.core) : s'.Inv := by
  simp only [core, Prod.mk.injEq] at hc
  obtain ⟨hprop, hheap, hlits, hvars, hinfo, hwitnesses⟩ := hc
  exact {
    prop := by rw [hprop, varCount, hinfo]; exact h.prop
    candidates := by rw [hprop, hheap, hinfo]; exact h.candidates
    litMarks := by rw [hlits, varCount, hinfo]; exact h.litMarks
    varMarks := by rw [hvars, varCount, hinfo]; exact h.varMarks
    eliminations := by rw [hprop, hinfo, hwitnesses]; exact h.eliminations }

theorem searched_of_core (h : s.Inv) (hc : s'.core = s.core) (hf : s'.config = s.config)
    (ho : s'.eliminationOff = s.eliminationOff) (hu : s'.status = .unsat ↔ s.status = .unsat) : Searched s s' where
  inv := h.of_core hc
  faithful := Faithful.of_prop (prop_of_core hc ▸ Propagator.Faithful.refl _) (witnesses_of_core hc) hu
  vars_eq := vars_of_core hc
  witnesses_eq := witnesses_of_core hc
  config_eq := hf
  eliminationOff_eq := ho
  retired hr := hr.of_mentions (vars_of_core hc) fun v => by rw [prop_of_core hc]; exact id

/-! ## Backtracking and propagation -/

theorem mentions_of_backtrack (h : s.Inv) (m : Nat) {v : Var} (hv : (s.backtrack m).prop.Mentions v) :
    s.prop.Mentions v := by
  refine hv.imp_left fun ha => ?_
  obtain ⟨l, rfl, hl⟩ := Trail.exists_isTrue_of_isAssigned ha
  exact Trail.isAssigned_of_isTrue (h.prop.trail.isTrue_backtrack.1 hl).1

theorem backtrack_searched (h : s.Inv) (m : Nat) : Searched s (s.backtrack m) where
  inv :=
    { prop := h.prop.backtrack m
      candidates := by
        apply h.candidates.foldl_makeAvailable _
        intro v hv
        obtain ⟨l, rfl, hl⟩ := Trail.exists_isTrue_of_isAssigned hv
        by_cases hle : s.prop.trail.level l.var ≤ m
        · exact Or.inl (Trail.isAssigned_of_isTrue (h.prop.trail.isTrue_backtrack.2 ⟨hl, hle⟩))
        · obtain ⟨i, hi⟩ := h.prop.trail.at_of_level_pos hl (by omega)
          exact Or.inr (List.mem_map_of_mem (h.prop.trail.mem_undone.2 ⟨i, hi, Nat.lt_of_not_le hle⟩))
      litMarks := h.litMarks
      varMarks := h.varMarks
      eliminations := h.eliminations }
  faithful := Faithful.of_prop (Propagator.Faithful.backtrack h.prop.toLinked m) rfl Iff.rfl
  vars_eq := rfl
  witnesses_eq := rfl
  config_eq := rfl
  eliminationOff_eq := rfl
  retired hr := hr.of_mentions rfl fun _ => mentions_of_backtrack h m

theorem rewind_searched (h : s.Inv) : Searched s s.rewind := by
  have h1 : Searched s { s with
      interrupted := false
      status := if s.status = .sat then .unknown else s.status } := by
    refine searched_of_core h rfl rfl rfl ?_
    show (if s.status = .sat then Status.unknown else s.status) = .unsat ↔ _
    split
    · next he =>
      rw [he]
      exact iff_of_false (fun h => by cases h) fun h => by cases h
    · exact Iff.rfl
  exact h1.trans (backtrack_searched h1.inv 0)

theorem currentLevel_rewind (s : Solver) : s.rewind.prop.trail.currentLevel = 0 :=
  Trail.currentLevel_backtrack.trans (Nat.zero_min _)

theorem status_rewind (s : Solver) : s.rewind.status = if s.status = .sat then .unknown else s.status := rfl

theorem propagate_searched (h : s.Inv) : Searched s s.propagate.2 ∧
    Propagator.Propagated s.varCount s.prop (s.propagate.1, s.propagate.2.prop) := by
  have hp := Propagator.propagate_spec h.prop
  exact ⟨searched_of_prop h hp.inv (Propagator.Faithful.of_advance hp.advance hp.inv.toLinked)
    (fun _ => hp.advance.isAssigned_mono) fun _ => hp.advance.mentions_of_isAssigned hp.inv.toLinked, hp⟩

/-! ## Facts -/

theorem collectGarbage_searched (h : s.Inv) (h0 : s.prop.trail.currentLevel = 0) (hl : s.prop.trail.lits = #[]) :
    Searched s s.collectGarbage ∧ s.collectGarbage.prop.trail = s.prop.trail := by
  unfold collectGarbage
  split
  · exact ⟨Searched.refl h, rfl⟩
  · next event clauses hc =>
    have hm : clauses = s.prop.clauses.compact.2 := by
      unfold Database.collect? at hc
      split at hc
      · cases hc
      · exact (Prod.mk.inj (Option.some.inj hc)).2.symm
    rw [hm]
    have hmoved := Database.compact_moved h.prop.listed
    refine ⟨?_, rfl⟩
    have h1 := searched_of_prop h (h.prop.moved h0 hl hmoved) (Propagator.moved_faithful hmoved)
      (fun _ => id) fun _ => Or.inl
    exact h1.trans (searched_of_core h1.inv rfl rfl rfl Iff.rfl)

/-- What facts do to the trail: it is emptied, but all values and levels stay. -/
structure Tidied (s s' : Solver) : Prop where
  searched : Searched s s'
  lits_eq : s'.prop.trail.lits = #[]
  isTrue_eq {l : Lit} : s'.prop.trail.isTrue l = s.prop.trail.isTrue l
  level_eq {v : Var} : s'.prop.trail.level v = s.prop.trail.level v
  currentLevel_eq : s'.prop.trail.currentLevel = 0
  schedule_eq : s'.schedule = s.schedule
  status_eq : s'.status = s.status
  interrupted_eq : s'.interrupted = s.interrupted

theorem collectGarbage_frame (s : Solver) : s.collectGarbage.schedule = s.schedule ∧
    s.collectGarbage.status = s.status ∧ s.collectGarbage.interrupted = s.interrupted := by
  unfold collectGarbage
  split <;> exact ⟨rfl, rfl, rfl⟩

theorem tidy_spec (h : s.Inv) (he : s.prop.watches.enabled = true) (hc : s.prop.Complete)
    (h0 : s.prop.trail.currentLevel = 0) : Tidied s s.tidy := by
  unfold tidy
  split
  · next hl =>
    have hl' : s.prop.trail.lits = #[] := Array.isEmpty_iff.1 hl
    obtain ⟨h1, h2⟩ := collectGarbage_searched h h0 hl'
    obtain ⟨h3, h4, h5⟩ := collectGarbage_frame s
    exact ⟨h1, h2 ▸ hl', fun {l} => by rw [h2], fun {v} => by rw [h2], h2 ▸ h0, h3, h4, h5⟩
  · have hp := h.prop.applyFacts he hc h0
    have h1 : Searched s { s with prop := s.prop.applyFacts } :=
      searched_of_prop h hp (Propagator.applyFacts_faithful h.prop he hc h0)
        (fun _ hv => Propagator.isAssigned_settle.trans hv)
        fun _ hv => Or.inl (Propagator.isAssigned_settle.symm.trans hv)
    have h0' : s.prop.applyFacts.trail.currentLevel = 0 := Trail.currentLevel_settle.trans h0
    obtain ⟨h2, h3⟩ := collectGarbage_searched h1.inv h0' rfl
    obtain ⟨h4, h5, h6⟩ := collectGarbage_frame { s with prop := s.prop.applyFacts }
    refine ⟨h1.trans h2, by rw [h3]; rfl, ?_, ?_, by rw [h3]; exact h0', h4, h5, h6⟩
    · intro l
      rw [h3]
      exact Trail.isTrue_settle
    · intro v
      rw [h3]
      exact Trail.level_settle

/-! ## New clauses -/

/-- What adding the clauses `f` comes to. -/
structure Stored (f : List (List Lit)) (s s' : Solver) : Prop where
  sound : s'.Sound
  modelsAll {a : Assignment} : s.ModelsAll a → SatisfiesAll a f → s'.ModelsAll a
  admits {m : PartialAssignment} : s'.Admits m → s.Admits m ∧ m.MeetsAll f
  frame : ∃ p st, s' = { s with prop := p, status := st }
  unsat : s.status = .unsat → s'.status = .unsat
  not_sat : s.status ≠ .sat → s'.status ≠ .sat
  currentLevel_eq : s'.prop.trail.currentLevel = s.prop.trail.currentLevel
  enabled_eq : s'.prop.watches.enabled = s.prop.watches.enabled
  isAssigned {v : Var} : s.prop.trail.isAssigned v → s'.prop.trail.isAssigned v
  assigned {v : Var} : s'.prop.trail.isAssigned v → s.prop.trail.isAssigned v ∨ ∃ ls ∈ f, ∃ l ∈ ls, l.var = v
  kept {r : ClauseRef} : s.prop.clauses.isLive r →
    s'.prop.clauses.isLive r ∧ s'.prop.clauses.get r = s.prop.clauses.get r
  added {r : ClauseRef} : s'.prop.clauses.isLive r →
    s.prop.clauses.isLive r ∧ s'.prop.clauses.get r = s.prop.clauses.get r ∨
      ∃ ls ∈ f, ∀ l ∈ (s'.prop.clauses.get r).lits, l ∈ ls

theorem Stored.of_admits {f : List (List Lit)} (h : s.Sound) (hf : ∀ m, s.Admits m → m.MeetsAll f) :
    Stored f s s where
  sound := h
  modelsAll ha _ := ha
  admits ha := ⟨ha, hf _ ha⟩
  frame := ⟨s.prop, s.status, rfl⟩
  unsat := id
  not_sat := id
  currentLevel_eq := rfl
  enabled_eq := rfl
  isAssigned := id
  assigned := Or.inl
  kept hr := ⟨hr, rfl⟩
  added hr := Or.inl ⟨hr, rfl⟩

theorem Stored.trans {f g : List (List Lit)} (h : Stored f s s') (h' : Stored g s' s'') : Stored (f ++ g) s s'' where
  sound := h'.sound
  modelsAll ha hs := h'.modelsAll (h.modelsAll ha (satisfiesAll_append.1 hs).1) (satisfiesAll_append.1 hs).2
  admits ha := by
    obtain ⟨h1, h2⟩ := h'.admits ha
    obtain ⟨h3, h4⟩ := h.admits h1
    exact ⟨h3, PartialAssignment.meetsAll_append.2 ⟨h4, h2⟩⟩
  frame := by
    obtain ⟨p, st, he⟩ := h.frame
    obtain ⟨p', st', he'⟩ := h'.frame
    exact ⟨p', st', by rw [he', he]⟩
  unsat hs := h'.unsat (h.unsat hs)
  not_sat hs := h'.not_sat (h.not_sat hs)
  currentLevel_eq := h'.currentLevel_eq.trans h.currentLevel_eq
  enabled_eq := h'.enabled_eq.trans h.enabled_eq
  isAssigned hv := h'.isAssigned (h.isAssigned hv)
  assigned hv := by
    rcases h'.assigned hv with hv | ⟨ls, hls, hl⟩
    · exact (h.assigned hv).imp_right fun ⟨ls, hls, hl⟩ => ⟨ls, List.mem_append_left g hls, hl⟩
    · exact Or.inr ⟨ls, List.mem_append_right f hls, hl⟩
  kept hr := by
    obtain ⟨h1, h2⟩ := h.kept hr
    obtain ⟨h3, h4⟩ := h'.kept h1
    exact ⟨h3, h4.trans h2⟩
  added {r} hr := by
    rcases h'.added hr with ⟨hr', he'⟩ | ⟨ls, hls, hs⟩
    · rcases h.added hr' with ⟨hr, he⟩ | ⟨ls, hls, hs⟩
      · exact Or.inl ⟨hr, he'.trans he⟩
      · exact Or.inr ⟨ls, List.mem_append_left g hls, fun l hl => hs l (he' ▸ hl)⟩
    · exact Or.inr ⟨ls, List.mem_append_right f hls, hs⟩

theorem Stored.mentions {f : List (List Lit)} {v : Var} (h : Stored f s s') (hv : s'.prop.Mentions v) :
    s.prop.Mentions v ∨ ∃ ls ∈ f, ∃ l ∈ ls, l.var = v := by
  rcases hv with hv | ⟨r, hr, l, hl, rfl⟩
  · exact (h.assigned hv).imp_left Or.inl
  · rcases h.added hr with ⟨hr', he⟩ | ⟨ls, hls, hsub⟩
    · exact Or.inl (Or.inr ⟨r, hr', l, he ▸ hl, rfl⟩)
    · exact Or.inr ⟨ls, hls, l, hsub l hl, rfl⟩

section Store

variable {l : Lit} {ls ks : List Lit} (h : s.Sound) (h0 : s.prop.trail.currentLevel = 0)
include h h0

theorem stored_of_isTrue (hl : l ∈ ls) (ht : s.prop.trail.isTrue l) : Stored [ls] s s :=
  Stored.of_admits h fun _ ha =>
    PartialAssignment.meetsAll_singleton.2 ⟨l, hl, ha.2.fact ((h.prop.trail.fact_iff h0).2 ht)⟩

variable (hks : (ls.filter fun l => !s.prop.trail.isFalse l) = ks)
include hks

theorem satisfies_unassigned {a : Assignment} (ha : ∀ l, s.prop.trail.Fact l → l.Holds a) :
    Satisfies a ks ↔ Satisfies a ls := by
  rw [← hks]
  apply satisfies_filter
  intro k _ hk
  rw [Bool.not_eq_false', Trail.isFalse_iff_neg] at hk
  rw [← Lit.holds_neg]
  exact ha _ ((h.prop.trail.fact_iff h0).2 hk)

theorem stored_empty (hk : ks = []) : Stored [ls] s s.markUnsat where
  sound := ⟨h.prop, h.candidates, h.varMarks, h.eliminations⟩
  modelsAll ha hs := by
    obtain ⟨k, hk', -⟩ := (satisfies_unassigned h h0 hks fun _ hf => ha.2.fact hf).2 (satisfiesAll_singleton.1 hs)
    rw [hk] at hk'
    cases hk'
  admits ha := absurd rfl ha.1
  frame := ⟨s.prop, .unsat, rfl⟩
  unsat _ := rfl
  not_sat _ h := by cases h
  currentLevel_eq := rfl
  enabled_eq := rfl
  isAssigned := id
  assigned := Or.inl
  kept hr := ⟨hr, rfl⟩
  added hr := Or.inl ⟨hr, rfl⟩

omit h h0 in
theorem not_isAssigned_of_mem (hn : ∀ l ∈ ls, ¬ s.prop.trail.isTrue l) (hl : l ∈ ks) :
    l ∈ ls ∧ ¬ s.prop.trail.isAssigned l.var := by
  rw [← hks, List.mem_filter] at hl
  refine ⟨hl.1, ?_⟩
  intro ha
  rcases Trail.isAssigned_iff.1 ha with ht | hf
  · exact hn l hl.1 ht
  · rw [hf] at hl
    cases hl.2

theorem stored_fact (hn : ∀ l ∈ ls, ¬ s.prop.trail.isTrue l) (hi : ∀ l ∈ ls, l.var.index < s.varCount)
    (hk : ks = [l]) : Stored [ls] s (s.assign l .unit) := by
  obtain ⟨hl, hu⟩ := not_isAssigned_of_mem hks hn (l := l) (hk ▸ List.mem_singleton_self l)
  have g := h.prop.trail.grows_assign (r := .unit) (hi l hl) hu
  refine
    { sound := ⟨h.prop.assignFact h0 (hi l hl) hu, h.candidates.of_trail fun _ => g.isAssigned_of, h.varMarks,
        h.eliminations⟩
      modelsAll := fun {a} ha hs => ⟨ha.1, ha.2.grow g fun _ => ?_⟩
      admits := fun {m} ha => ?_
      frame := ⟨_, s.status, rfl⟩
      unsat := id
      not_sat := id
      currentLevel_eq := rfl
      enabled_eq := rfl
      isAssigned := g.isAssigned_of
      assigned := fun {v} hv => ?_
      kept := fun hr => ⟨hr, rfl⟩
      added := fun hr => Or.inl ⟨hr, rfl⟩ }
  · obtain ⟨k, hk', hka⟩ := (satisfies_unassigned h h0 hks fun _ hf => ha.2.fact hf).2 (satisfiesAll_singleton.1 hs)
    rw [hk] at hk'
    exact List.mem_singleton.1 hk' ▸ hka
  · have hm := Propagator.Admits.of_grow ha.2 g
    refine ⟨⟨ha.1, hm⟩,
      PartialAssignment.meetsAll_singleton.2 ⟨l, hl, ha.2.fact ⟨g.isTrue_iff.2 (Or.inl rfl), ?_⟩⟩⟩
    show (s.prop.trail.assign l .unit).level l.var = 0
    rw [Trail.level_assign (h.prop.trail.levels_size.symm ▸ hi l hl), if_pos rfl]
    exact h0
  · rcases g.isAssigned_cases hv with rfl | hv
    · exact Or.inr ⟨ls, List.mem_singleton_self ls, l, hl, rfl⟩
    · exact Or.inl hv

theorem stored_clause (hn : ∀ l ∈ ls, ¬ s.prop.trail.isTrue l) (hi : ∀ l ∈ ls, l.var.index < s.varCount)
    (hv : (ls.map Lit.var).Nodup) (he : ∀ l ∈ ls, (infoOf s.vars l.var).eliminated = false) {c : Clause}
    (hc : c.lits = ks) (hd : c.deleted = false) (hr : c.learned = false) :
    Stored [ls] s { s with prop := (s.prop.addClause c).2 } := by
  have hu {l : Lit} (hl : l ∈ c.lits) : l ∈ ls ∧ ¬ s.prop.trail.isAssigned l.var :=
    not_isAssigned_of_mem hks hn (hc ▸ hl)
  have hfit : c.Fits s.varCount s.prop.trail := by
    refine ⟨?_, fun hl => hi _ (hu hl).1, fun hl ha => absurd ha (hu hl).2⟩
    rw [hc, ← hks]
    exact (List.filter_sublist.map _).nodup hv
  have hg (x : Lit) (hx : x = c.first ∨ x = c.second) : ¬ s.prop.trail.isFalse x := by
    rcases hx with rfl | rfl
    · exact fun hf => (hu c.first_mem).2 (Trail.isAssigned_of_isFalse hf)
    · exact fun hf => (hu c.second_mem).2 (Trail.isAssigned_of_isFalse hf)
  refine
    { sound := ⟨h.prop.addClause hfit hd hg, h.candidates, h.varMarks,
        h.eliminations.addClause fun _ l hl => he l (hu hl).1⟩
      modelsAll := fun {a} ha hs => ⟨ha.1, ha.2.addClause ?_⟩
      admits := fun {m} ha => ?_
      frame := ⟨_, s.status, rfl⟩
      unsat := id
      not_sat := id
      currentLevel_eq := rfl
      enabled_eq := Propagator.Inv.enabled_addClause
      isAssigned := id
      assigned := Or.inl
      kept := Propagator.get_addClause_of_isLive
      added := fun {r} hr => ?_ }
  · rw [hc]
    exact (satisfies_unassigned h h0 hks fun _ hf => ha.2.fact hf).2 (satisfiesAll_singleton.1 hs)
  · have hm := ha.2.of_addClause
    refine ⟨⟨ha.1, hm⟩, PartialAssignment.meetsAll_singleton.2 ((ha.2.meets_addClause hd hr).mono ?_)⟩
    exact fun l hl => (hu hl).1
  · rcases Propagator.addClause_cases hr with he | hold
    · exact Or.inr ⟨ls, List.mem_singleton_self ls, fun l hl => (hu (he ▸ hl)).1⟩
    · exact Or.inl hold

end Store

end Solver

end ClauseLearning
