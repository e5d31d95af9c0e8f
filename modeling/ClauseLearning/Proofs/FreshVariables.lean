import ClauseLearning.Proofs.ClauseStream
import ClauseLearning.Proofs.Commanders
import ClauseLearning.Proofs.PendingClauses
import ClauseLearning.Proofs.SequentialCounter

/-!
# Variables of encodings

Engines number their variables in turn. An encoding asks for variables of its own, and they are new when it asks for
them. A literal of the encoding itself need not be of a variable that is there by then: the plain engine allocates the
variable when the literal comes in a clause, and every engine takes a number for the variable that has it at that time.

* `NumberingEngine` : an engine that numbers its variables in turn;
* `Noting` : an engine that notes the variables that it is asked for. Encodings do the same on it as without the notes
  (`Encoding.atMostK_noting`, `Encoding.atMostOneFuel_noting`);
* `NewVariables` : numbers of different variables that were not allocated;
* `Encoding.newRows_numbers`, `Encoding.commandGroups_apart` : the variables of a counter, and the commanders of groups;
* `Encoding.auxiliaries_fresh` : the variables of encodings are different from each other and from those that were
  allocated. `Encoding.auxiliaries_meet_literals` are some that are variables of the literals.
-/

namespace ClauseLearning

open Engine (varCount)

/-! ## Engines that number their variables -/

/-- A number of an allocated variable, or its opposite. -/
def Knows {σ : Type} [Engine σ] (e : σ) (x : Int32) : Prop := ∃ v, varOf x = .ok v ∧ v.index < varCount e

/-- An engine that numbers its variables in turn. It forgets none of them, and all variables of the clauses that it
accepts are allocated. -/
class NumberingEngine (σ : Type) [Engine σ] : Prop where
  newVariable_numbers (e : σ) (f : VarFlags) : ∃ e',
    (Engine.newVariable f).exec e = (.ok (Var.mk (varCount e)).number, e') ∧ varCount e' = varCount e + 1
  varCount_le (e : σ) (c : List Int32) : varCount e ≤ varCount ((Engine.addClause c).exec e).2
  varCount_addClause_le (e : σ) (c : List Int32) :
    varCount ((Engine.addClause c).exec e).2 ≤ max (varCount e) Var.maxCount
  knows_of_addClause {e e' : σ} {c : List Int32} {b : Bool} :
    (Engine.addClause c).exec e = (.ok b, e') → ∀ x ∈ c, Knows e' x

theorem eq_of_toOption {ε α σ : Type} (out : Except ε α × σ) {a : α} (h : out.1.toOption = some a) :
    out = (.ok a, out.2) := by
  obtain ⟨_ | b, e⟩ := out
  · cases h
  · exact congrArg (fun b => (Except.ok b, e)) (Option.some.inj h)

theorem varOf_eq_ok {x : Int32} {l : Lit} (h : litOf x = .ok l) : varOf x = .ok l.var := by
  rw [varOf, h]
  rfl

theorem varOf_neg {x : Int32} {v : Var} (h : varOf x = .ok v) : varOf (-x) = .ok v := by
  unfold varOf at h
  cases hx : litOf x with
  | error err => rw [hx] at h; cases h
  | ok l =>
    rw [hx] at h
    obtain rfl : l.var = v := Except.ok.inj h
    rw [varOf_eq_ok (litOf_neg hx), Lit.var_neg]

theorem varOf_number {v : Var} (h : v.index < Var.maxCount) : varOf v.number = .ok v := by
  rw [varOf_eq_ok (litOf_number h), Var.positive, Lit.var_lit]

theorem not_varOf_number_maxCount {v : Var} : varOf (Var.mk Var.maxCount).number ≠ .ok v := by
  unfold varOf
  cases h : litOf (Var.mk Var.maxCount).number with
  | error err => simp [Except.map]
  | ok l => exact absurd h not_litOf_number_maxCount

namespace Knows

variable {σ : Type} [Engine σ] {e e' : σ} {x : Int32}

theorem mono (h : Knows e x) (hle : varCount e ≤ varCount e') : Knows e' x :=
  h.imp fun _ ⟨hv, hx⟩ => ⟨hv, Nat.lt_of_lt_of_le hx hle⟩

theorem of_neg (h : Knows e (-x)) : Knows e x := by
  obtain ⟨v, hv, hx⟩ := h
  exact ⟨v, by simpa using varOf_neg hv, hx⟩

theorem varOf_ne {v : Var} (h : Knows e x) (hv : varCount e ≤ v.index) : varOf x ≠ .ok v := by
  obtain ⟨w, hw, hx⟩ := h
  rw [hw]
  rintro ⟨rfl⟩
  omega

end Knows

namespace Solver

theorem varCount_addClause (s : Solver) (ls : List Lit) : (s.addClause ls).2.varCount = s.varCount := by
  have hload : (s.load ls).varCount = s.varCount := by
    unfold load
    split
    · rfl
    · dsimp only
      split
      · rfl
      · split <;> rfl
  have hfacts (t : Solver) : t.propagateFacts.varCount = t.varCount := by
    unfold propagateFacts propagate
    split
    · rfl
    · split
      next h => exact congrArg (fun out : Option ClauseRef × Solver => out.2.varCount) h.symm
      next h => exact congrArg (fun out : Option ClauseRef × Solver => out.2.varCount) h.symm
  unfold addClause
  split
  · rfl
  · exact (hfacts _).trans hload

theorem index_lt_of_addClause {s : Solver} {ls : List Lit} {b : Bool} (h : (s.addClause ls).1 = .ok b) :
    ∀ l ∈ ls, l.var.index < s.varCount := by
  unfold addClause at h
  cases hc : s.checkClause ls with
  | error err =>
    rw [hc] at h
    cases h
  | ok u => exact fun l hl => (checkClause_eq_ok.1 hc l hl).1

theorem varCount_allocateFor_le {s : Solver} {ls : List Lit} {n : Nat} (hs : s.varCount ≤ n)
    (hls : ∀ l ∈ ls, l.var.index < n) : (s.allocateFor ls).varCount ≤ n := by
  induction ls generalizing s with
  | nil => exact hs
  | cons l ls ih =>
    obtain ⟨hl, hls⟩ := List.forall_mem_cons.1 hls
    refine ih (s := s.ensureVarCount (l.var.index + 1)) ?_ hls
    rw [varCount_ensureVarCount]
    exact Nat.max_le.2 ⟨hs, hl⟩

end Solver

theorem knows_of_litsOf {σ : Type} [Engine σ] {e : σ} {numbers : List Int32} {ls : List Lit}
    (hls : litsOf numbers = .ok ls) (hlt : ∀ l ∈ ls, l.var.index < varCount e) : ∀ x ∈ numbers, Knows e x := by
  obtain ⟨rfl, hnumbers⟩ := litsOf_eq_ok hls
  exact fun x hx => ⟨_, varOf_eq_ok (hnumbers x hx), List.forall_mem_map.1 hlt x hx⟩

instance : NumberingEngine PlainEngine where
  newVariable_numbers e f := ⟨(e.newVariable f).2, rfl, e.solver.varCount_allocate _⟩
  varCount_le e c := by
    show e.solver.varCount ≤ (e.addClause c).2.solver.varCount
    cases hls : litsOf c with
    | error err => rw [PlainEngine.addClause, hls]
    | ok ls =>
      rw [PlainEngine.addClause_eq hls]
      exact Nat.le_trans (e.solver.allocateFor_enlarged ls).1.varCount_le
        (Nat.le_of_eq (Solver.varCount_addClause _ _).symm)
  varCount_addClause_le e c := by
    show (e.addClause c).2.solver.varCount ≤ max e.solver.varCount Var.maxCount
    cases hls : litsOf c with
    | error err =>
      rw [PlainEngine.addClause, hls]
      exact Nat.le_max_left _ _
    | ok ls =>
      rw [PlainEngine.addClause_eq hls]
      refine Nat.le_trans (Nat.le_of_eq (Solver.varCount_addClause _ _)) (Solver.varCount_allocateFor_le ?_ ?_)
      · exact Nat.le_max_left _ _
      · obtain ⟨rfl, hnumbers⟩ := litsOf_eq_ok hls
        exact List.forall_mem_map.2 fun x hx =>
          Nat.lt_of_lt_of_le (index_lt_of_litOf (hnumbers x hx)) (Nat.le_max_right _ _)
  knows_of_addClause {e e' c b} h := by
    change e.addClause c = _ at h
    obtain ⟨ls, hls⟩ := PlainEngine.litsOf_of_addClause h
    refine knows_of_litsOf hls fun l hl => ?_
    obtain ⟨-, rfl⟩ := Prod.mk.inj (h.symm.trans (PlainEngine.addClause_eq hls))
    exact Nat.lt_of_lt_of_eq ((e.solver.allocateFor_enlarged ls).2 l hl) (Solver.varCount_addClause _ _).symm

instance : NumberingEngine SimplifyingEngine where
  newVariable_numbers e f := ⟨(e.newVariable f).2, rfl, e.solver.varCount_allocate _⟩
  varCount_le e c := by
    show e.solver.varCount ≤ (e.addClause c).2.solver.varCount
    cases hls : litsOf c with
    | error err => rw [SimplifyingEngine.addClause, hls]
    | ok ls =>
      rw [SimplifyingEngine.addClause_eq hls]
      exact Nat.le_of_eq (Solver.varCount_addClause _ _).symm
  varCount_addClause_le e c := by
    show (e.addClause c).2.solver.varCount ≤ max e.solver.varCount Var.maxCount
    refine Nat.le_trans (Nat.le_of_eq ?_) (Nat.le_max_left _ _)
    cases hls : litsOf c with
    | error err => rw [SimplifyingEngine.addClause, hls]
    | ok ls =>
      rw [SimplifyingEngine.addClause_eq hls]
      exact Solver.varCount_addClause _ _
  knows_of_addClause {e e' c b} h := by
    change e.addClause c = _ at h
    cases hls : litsOf c with
    | error err =>
      rw [SimplifyingEngine.addClause, hls] at h
      cases (Prod.mk.inj h).1
    | ok ls =>
      obtain ⟨hanswer, rfl⟩ := Prod.mk.inj (h.symm.trans (SimplifyingEngine.addClause_eq hls))
      refine knows_of_litsOf hls fun l hl => ?_
      exact Nat.lt_of_lt_of_eq (Solver.index_lt_of_addClause hanswer.symm l hl) (Solver.varCount_addClause _ _).symm

instance : NumberingEngine CreatedEngine where
  newVariable_numbers e f := by
    cases e with
    | plain e =>
      obtain ⟨e', h, hcount⟩ := NumberingEngine.newVariable_numbers e f
      exact ⟨.plain e', CreatedEngine.lift_plain h, hcount⟩
    | simplifying e =>
      obtain ⟨e', h, hcount⟩ := NumberingEngine.newVariable_numbers e f
      exact ⟨.simplifying e', CreatedEngine.lift_simplifying h, hcount⟩
  varCount_le e c := by
    cases e with
    | plain e => exact NumberingEngine.varCount_le e c
    | simplifying e => exact NumberingEngine.varCount_le e c
  varCount_addClause_le e c := by
    cases e with
    | plain e => exact NumberingEngine.varCount_addClause_le e c
    | simplifying e => exact NumberingEngine.varCount_addClause_le e c
  knows_of_addClause {e e' c b} h := by
    cases e with
    | plain e =>
      change (((Engine.addClause c).exec e).1, CreatedEngine.plain ((Engine.addClause c).exec e).2) = _ at h
      obtain ⟨hanswer, rfl⟩ := Prod.mk.inj h
      exact NumberingEngine.knows_of_addClause (e := e) (Prod.ext hanswer rfl)
    | simplifying e =>
      change (((Engine.addClause c).exec e).1, CreatedEngine.simplifying ((Engine.addClause c).exec e).2) = _ at h
      obtain ⟨hanswer, rfl⟩ := Prod.mk.inj h
      exact NumberingEngine.knows_of_addClause (e := e) (Prod.ext hanswer rfl)

/-! ## Notes -/

/-- An engine with the numbers of the variables that it was asked for, in order. -/
structure Noting (σ : Type) where
  engine : σ
  noted : List Int32 := []

namespace Noting

variable {σ α β : Type}

/-- A computation on the engine, which notes what its answer says. -/
def lift (m : EngineM σ α) (note : α → List Int32) : EngineM (Noting σ) α := .ofFunction fun e =>
  match m.exec e.engine with
  | (.ok a, engine) => (.ok a, { engine := engine, noted := e.noted ++ note a })
  | (.error err, engine) => (.error err, { e with engine := engine })

end Noting

instance {σ : Type} [Engine σ] : Engine (Noting σ) where
  newVariable f := Noting.lift (Engine.newVariable f) fun x => [x]
  addClause c := Noting.lift (Engine.addClause c) fun _ => []
  solve := Noting.lift Engine.solve fun _ => []
  modelValue e := Engine.modelValue e.engine
  okay e := Engine.okay e.engine
  varCount e := Engine.varCount e.engine
  reset e := { engine := Engine.reset e.engine }
  setDecisionLimit limit e := { e with engine := Engine.setDecisionLimit limit e.engine }
  report event e := { e with engine := Engine.report event e.engine }

section Notes

variable {σ α : Type} {e e' : σ} {ns xs : List Int32}

theorem Noting.exec_lift {m : EngineM σ α} {a : α} (ns : List Int32) (note : α → List Int32)
    (h : m.exec e = (.ok a, e')) :
    (Noting.lift m note).exec ⟨e, ns⟩ = (.ok a, ⟨e', ns ++ note a⟩) := by
  show (match m.exec e with
    | (.ok a, engine) => (Except.ok a, Noting.mk engine (ns ++ note a))
    | (.error err, engine) => (.error err, ⟨engine, ns⟩)) = _
  rw [h]

variable [Engine σ]

theorem newVariable_noting {f : VarFlags} {x : Int32} (h : (Engine.newVariable f).exec e = (.ok x, e')) :
    (Engine.newVariable f).exec (Noting.mk e ns) = (.ok x, ⟨e', ns ++ [x]⟩) := Noting.exec_lift ns _ h

theorem addClause_noting {c : List Int32} {b : Bool} (h : (Engine.addClause c).exec e = (.ok b, e')) :
    (Engine.addClause c).exec (Noting.mk e ns) = (.ok b, ⟨e', ns⟩) := by
  have hc := Noting.exec_lift ns (fun _ : Bool => []) h
  rwa [List.append_nil] at hc

theorem newVariables_noting {f : VarFlags} {count : Nat} (h : (Engine.newVariables f count).exec e = (.ok xs, e')) :
    (Engine.newVariables f count).exec (Noting.mk e ns) = (.ok xs, ⟨e', ns ++ xs⟩) := by
  induction count generalizing e ns xs with
  | zero =>
    obtain ⟨hxs, rfl⟩ := Prod.mk.inj h
    obtain rfl := Except.ok.inj hxs
    rw [List.append_nil]
    rfl
  | succ count ih =>
    obtain ⟨x, e₁, hx, h⟩ := EngineM.exec_bind_eq_ok.1 h
    obtain ⟨ys, e₂, hys, h⟩ := EngineM.exec_bind_eq_ok.1 h
    obtain ⟨hxs, rfl⟩ := Prod.mk.inj h
    obtain rfl := Except.ok.inj hxs
    rw [Engine.newVariables, EngineM.exec_bind_ok (newVariable_noting hx), EngineM.exec_bind_ok (ih hys),
      List.append_assoc]
    rfl

theorem addClauses_noting {cs : List (List Int32)} (h : (Engine.addClauses cs).exec e = (.ok (), e')) :
    (Engine.addClauses cs).exec (Noting.mk e ns) = (.ok (), ⟨e', ns⟩) := by
  induction cs generalizing e with
  | nil =>
    obtain ⟨-, rfl⟩ := Prod.mk.inj h
    rfl
  | cons c cs ih =>
    obtain ⟨b, e₁, hc, h⟩ := EngineM.exec_bind_eq_ok.1 h
    rw [Engine.addClauses, EngineM.exec_bind_ok (addClause_noting hc)]
    exact ih h

namespace Encoding

theorem newRows_noting {width count : Nat} {rows : List (List Int32)}
    (h : (newRows width count).exec e = (.ok rows, e')) :
    (newRows width count).exec (Noting.mk e ns) = (.ok rows, ⟨e', ns ++ rows.flatten⟩) := by
  induction count generalizing e ns rows with
  | zero =>
    obtain ⟨hrows, rfl⟩ := Prod.mk.inj h
    obtain rfl := Except.ok.inj hrows
    rw [List.flatten_nil, List.append_nil]
    rfl
  | succ count ih =>
    obtain ⟨row, e₁, hrow, h⟩ := EngineM.exec_bind_eq_ok.1 h
    obtain ⟨rest, e₂, hrest, h⟩ := EngineM.exec_bind_eq_ok.1 h
    obtain ⟨hrows, rfl⟩ := Prod.mk.inj h
    obtain rfl := Except.ok.inj hrows
    rw [newRows, EngineM.exec_bind_ok (newVariables_noting hrow), EngineM.exec_bind_ok (ih hrest), List.flatten_cons,
      List.append_assoc]
    rfl

theorem commandGroups_noting {gs : List (List Int32)} (h : (commandGroups gs).exec e = (.ok xs, e')) :
    (commandGroups gs).exec (Noting.mk e ns) = (.ok xs, ⟨e', ns ++ xs⟩) := by
  induction gs generalizing e ns xs with
  | nil =>
    obtain ⟨hxs, rfl⟩ := Prod.mk.inj h
    obtain rfl := Except.ok.inj hxs
    rw [List.append_nil]
    rfl
  | cons g gs ih =>
    obtain ⟨u, e₁, hpairs, h⟩ := EngineM.exec_bind_eq_ok.1 h
    obtain ⟨c, e₂, hc, h⟩ := EngineM.exec_bind_eq_ok.1 h
    obtain ⟨u, e₃, hclauses, h⟩ := EngineM.exec_bind_eq_ok.1 h
    obtain ⟨cs, e₄, hcs, h⟩ := EngineM.exec_bind_eq_ok.1 h
    obtain ⟨hxs, rfl⟩ := Prod.mk.inj h
    obtain rfl := Except.ok.inj hxs
    rw [commandGroups, EngineM.exec_bind_ok (addClauses_noting hpairs),
      EngineM.exec_bind_ok (newVariable_noting hc), EngineM.exec_bind_ok (addClauses_noting hclauses),
      EngineM.exec_bind_ok (ih hcs), List.append_assoc]
    rfl

theorem atMostK_eq {k : Nat} {numbers : List Int32} (hk : 0 < k) (hkn : k < numbers.length) :
    (atMostK numbers k : EngineM σ Bool) = newRows k (numbers.length - 1) >>= fun rows =>
      Engine.addClauses (counterClauses numbers rows) >>= fun _ => Engine.stillOkay := by
  rw [atMostK]
  dsimp only
  rw [if_neg hk.ne', if_pos hkn]

theorem atMostK_of_length_le {k : Nat} {numbers : List Int32} (hk : 0 < k) (hkn : ¬ k < numbers.length) :
    (atMostK numbers k : EngineM σ Bool) = Engine.stillOkay := by
  rw [atMostK]
  dsimp only
  rw [if_neg hk.ne', if_neg hkn]

end Encoding

end Notes

/-! ## New variables -/

/-- The numbers of variables from `n` on and before `m`, in ascending order. -/
def NumbersBetween (n m : Nat) (xs : List Int32) : Prop :=
  ∃ vs : List Var, xs = vs.map Var.number ∧ vs.Pairwise (fun v w => v.index < w.index) ∧
    ∀ v ∈ vs, n ≤ v.index ∧ v.index < m

/-- The numbers of different variables that are not among the first `n`. So literals of the first `n` variables are not
theirs. -/
structure NewVariables (n : Nat) (numbers xs : List Int32) : Prop where
  exists_varOf : ∀ x ∈ xs, ∃ v, varOf x = .ok v ∧ n ≤ v.index
  pairwise_ne : xs.Pairwise fun x y => varOf x ≠ varOf y
  varOf_ne : ∀ l ∈ numbers, ∀ v, varOf l = .ok v → v.index < n → ∀ x ∈ xs, varOf x ≠ varOf l

namespace NumbersBetween

variable {n m k : Nat} {xs ys numbers : List Int32}

theorem nil (n m : Nat) : NumbersBetween n m [] := ⟨[], rfl, .nil, fun _ hv => nomatch hv⟩

theorem numbersFrom (n count : Nat) : NumbersBetween n (n + count) (numbersFrom n count) := by
  refine ⟨(List.range' n count).map Var.mk, by simp [ClauseLearning.numbersFrom], ?_, fun v hv => ?_⟩
  · rw [List.pairwise_map]
    exact List.pairwise_lt_range'
  · obtain ⟨i, hi, rfl⟩ := List.mem_map.1 hv
    simpa using List.mem_range'_1.1 hi

theorem append (h : NumbersBetween n m xs) (h' : NumbersBetween m k ys) (hnm : n ≤ m) (hmk : m ≤ k) :
    NumbersBetween n k (xs ++ ys) := by
  obtain ⟨vs, rfl, hvs, hv⟩ := h
  obtain ⟨ws, rfl, hws, hw⟩ := h'
  refine ⟨vs ++ ws, by rw [List.map_append], List.pairwise_append.2 ⟨hvs, hws, fun v hv' w hw' => ?_⟩, fun v hv' => ?_⟩
  · exact Nat.lt_of_lt_of_le (hv v hv').2 (hw w hw').1
  · rcases List.mem_append.1 hv' with hv' | hv'
    · exact ⟨(hv v hv').1, Nat.lt_of_lt_of_le (hv v hv').2 hmk⟩
    · exact ⟨Nat.le_trans hnm (hw v hv').1, (hw v hv').2⟩

theorem newVariables (h : NumbersBetween n m xs) (hm : m ≤ Var.maxCount) : NewVariables n numbers xs := by
  obtain ⟨vs, rfl, hvs, hv⟩ := h
  have hnumber : ∀ v ∈ vs, varOf v.number = .ok v := fun v hv' => varOf_number (Nat.lt_of_lt_of_le (hv v hv').2 hm)
  refine ⟨List.forall_mem_map.2 fun v hv' => ⟨v, hnumber v hv', (hv v hv').1⟩, ?_, fun l hl v hvl hlt => ?_⟩
  · rw [List.pairwise_map]
    refine hvs.imp_of_mem fun {v w} hv' hw' hlt => ?_
    rw [hnumber v hv', hnumber w hw']
    rintro ⟨rfl⟩
    exact Nat.lt_irrefl _ hlt
  · refine List.forall_mem_map.2 fun w hw => ?_
    rw [hnumber w hw, hvl]
    rintro ⟨rfl⟩
    exact Nat.lt_irrefl _ (Nat.lt_of_lt_of_le hlt (hv _ hw).1)

end NumbersBetween

/-! ## Counters -/

namespace Encoding

theorem flatten_rowsFrom (n width count : Nat) : (rowsFrom n width count).flatten = numbersFrom n (count * width) := by
  induction count generalizing n with
  | zero => simp [rowsFrom, numbersFrom]
  | succ count ih =>
    rw [rowsFrom, List.flatten_cons, ih, Nat.succ_mul, Nat.add_comm (count * width), numbersFrom, numbersFrom,
      numbersFrom, ← List.map_append, List.range'_append_1]

theorem exists_mem_indexedClauses {n k i j : Nat} (lit : Nat → Int32) (var : Nat → Nat → Int32) (hi : i + 1 < n)
    (hj : j < k) : ∃ d ∈ indexedClauses n k lit var, var i j ∈ d ∨ -var i j ∈ d := by
  rcases i with _ | i
  · rcases j with _ | j
    · exact ⟨[-lit 0, var 0 0], by simp [indexedClauses], by simp⟩
    · refine ⟨[-var 0 (j + 1)], ?_, by simp⟩
      simp only [indexedClauses, List.mem_append, List.mem_cons, List.mem_map, List.mem_range]
      exact Or.inl (Or.inl (Or.inr ⟨j, by omega, rfl⟩))
  · have hmem : ∀ d ∈ stepClauses k (lit (i + 1)) (var i) (var (i + 1)), d ∈ indexedClauses n k lit var := by
      intro d hd
      simp only [indexedClauses, List.mem_append, List.mem_flatMap, List.mem_range]
      exact Or.inl (Or.inr ⟨i, by omega, hd⟩)
    rcases j with _ | j
    · exact ⟨[-lit (i + 1), var (i + 1) 0], hmem _ (by simp [stepClauses]), by simp⟩
    · refine ⟨[-lit (i + 1), -var i j, var (i + 1) (j + 1)], hmem _ ?_, by simp⟩
      simp only [stepClauses, List.mem_append, List.mem_cons, List.mem_flatMap, List.mem_range]
      exact Or.inl (Or.inr (Or.inr ⟨j, by omega, by simp⟩))

section Counters

variable {σ : Type} [Engine σ] [NumberingEngine σ] {e e' : σ} {numbers : List Int32} {b : Bool} {k : Nat}

theorem newVariables_numbers (e : σ) (f : VarFlags) (count : Nat) : ∃ e',
    (Engine.newVariables f count).exec e = (.ok (numbersFrom (varCount e) count), e') ∧
      varCount e' = varCount e + count := by
  induction count generalizing e with
  | zero => exact ⟨e, rfl, rfl⟩
  | succ count ih =>
    obtain ⟨e₁, h1, hcount1⟩ := NumberingEngine.newVariable_numbers e f
    obtain ⟨e₂, h2, hcount2⟩ := ih e₁
    refine ⟨e₂, ?_, by omega⟩
    rw [Engine.newVariables, EngineM.exec_bind_ok h1, EngineM.exec_bind_ok h2, hcount1]
    rfl

theorem newRows_numbers (e : σ) (width count : Nat) : ∃ e',
    (newRows width count).exec e = (.ok (rowsFrom (varCount e) width count), e') ∧
      varCount e' = varCount e + count * width := by
  induction count generalizing e with
  | zero => exact ⟨e, rfl, by omega⟩
  | succ count ih =>
    obtain ⟨e₁, h1, hcount1⟩ := newVariables_numbers e { eliminate := true } width
    obtain ⟨e₂, h2, hcount2⟩ := ih e₁
    refine ⟨e₂, ?_, by rw [Nat.succ_mul]; omega⟩
    rw [newRows, EngineM.exec_bind_ok h1, EngineM.exec_bind_ok h2, hcount1]
    rfl

/-- Clauses that are accepted in turn: their variables are allocated, and there are no more variables than supported
if there were no more before. -/
theorem addClauses_numbers {cs : List (List Int32)} (h : (Engine.addClauses cs).exec e = (.ok (), e')) :
    varCount e ≤ varCount e' ∧ varCount e' ≤ max (varCount e) Var.maxCount ∧ ∀ c ∈ cs, ∀ x ∈ c, Knows e' x := by
  induction cs generalizing e with
  | nil =>
    obtain ⟨-, rfl⟩ := Prod.mk.inj h
    exact ⟨Nat.le_refl _, Nat.le_max_left _ _, fun c hc => nomatch hc⟩
  | cons c cs ih =>
    obtain ⟨b, e₁, hc, h⟩ := EngineM.exec_bind_eq_ok.1 h
    have hle : varCount e ≤ varCount e₁ := by simpa only [hc] using NumberingEngine.varCount_le e c
    have hroom : varCount e₁ ≤ max (varCount e) Var.maxCount := by
      simpa only [hc] using NumberingEngine.varCount_addClause_le e c
    obtain ⟨hle', hroom', hknows⟩ := ih h
    refine ⟨Nat.le_trans hle hle', by omega, List.forall_mem_cons.2 ⟨fun x hx => ?_, hknows⟩⟩
    exact (NumberingEngine.knows_of_addClause hc x hx).mono hle'

theorem counter_supported {rows : List (List Int32)} {n : Nat} (hk : 0 < k) (hkn : k < numbers.length)
    (hn : n ≤ Var.maxCount) (hrows : rows = rowsFrom n k (numbers.length - 1))
    (h : (Engine.addClauses (counterClauses numbers rows)).exec e = (.ok (), e')) :
    n + (numbers.length - 1) * k ≤ Var.maxCount := by
  by_contra hroom
  -- the first variable that is not supported would be in one of the clauses
  have hlt : Var.maxCount - n < k * (numbers.length - 1) := by rw [Nat.mul_comm]; omega
  have hi : (Var.maxCount - n) / k < numbers.length - 1 := Nat.div_lt_of_lt_mul hlt
  have hj : (Var.maxCount - n) % k < k := Nat.mod_lt _ hk
  have hplace : n + (Var.maxCount - n) / k * k + (Var.maxCount - n) % k = Var.maxCount := by
    have hdiv := Nat.div_add_mod' (Var.maxCount - n) k
    omega
  have hnumber := rowPlace_rowsFrom (n := n) hi hj
  rw [hplace, ← hrows] at hnumber
  obtain ⟨d, hd, hx⟩ := exists_mem_indexedClauses (place numbers) (rowPlace rows)
    (show (Var.maxCount - n) / k + 1 < numbers.length by omega) hj
  rw [hnumber] at hx
  rw [counterClauses_eq hk rfl (by omega) (hrows ▸ length_rowsFrom _) (hrows ▸ length_of_mem_rowsFrom)] at h
  have hknows := (addClauses_numbers h).2.2 d hd
  have hknown : Knows e' (Var.mk Var.maxCount).number := hx.elim (hknows _) fun hx => (hknows _ hx).of_neg
  obtain ⟨v, hv, -⟩ := hknown
  exact not_varOf_number_maxCount hv

/-- The variables of a counter are noted. All of them are supported: they are in clauses that are accepted. -/
theorem atMostK_noting (hmax : varCount e ≤ Var.maxCount) (h : (atMostK numbers k).exec e = (.ok b, e')) :
    (atMostK numbers k).exec (Noting.mk e []) =
        (.ok b, ⟨e', numbersFrom (varCount e) (counterSize numbers.length k)⟩) ∧
      varCount e + counterSize numbers.length k ≤ Var.maxCount := by
  rcases Nat.eq_zero_or_pos k with rfl | hk
  · obtain ⟨u, e₁, hclauses, h⟩ := EngineM.exec_bind_eq_ok.1 h
    obtain ⟨hb, rfl⟩ := Prod.mk.inj h
    rw [← hb]
    exact ⟨EngineM.exec_bind_ok (addClauses_noting hclauses), hmax⟩
  · by_cases hkn : k < numbers.length
    · rw [counterSize, if_pos ⟨hk, hkn⟩]
      rw [atMostK_eq hk hkn] at h ⊢
      obtain ⟨e₁, hrows, hcount⟩ := newRows_numbers e k (numbers.length - 1)
      rw [EngineM.exec_bind_ok hrows] at h
      obtain ⟨u, e₂, hclauses, h⟩ := EngineM.exec_bind_eq_ok.1 h
      obtain ⟨hb, rfl⟩ := Prod.mk.inj h
      refine ⟨?_, counter_supported hk hkn hmax rfl hclauses⟩
      rw [EngineM.exec_bind_ok (newRows_noting hrows), EngineM.exec_bind_ok (addClauses_noting hclauses),
        flatten_rowsFrom, ← hb]
      rfl
    · rw [counterSize, if_neg fun h => hkn h.2]
      rw [atMostK_of_length_le hk hkn] at h ⊢
      obtain ⟨hb, rfl⟩ := Prod.mk.inj h
      rw [← hb]
      exact ⟨rfl, hmax⟩

end Counters

/-! ## Commanders -/

/-- Each commander is different from the literals of the groups before its own, and from those of its own group if
there are several. -/
def CommandersApart (gs : List (List Int32)) (cs : List Int32) : Prop :=
  ∀ i (hg : i < gs.length) (hc : i < cs.length), (∀ x ∈ (gs.take i).flatten, varOf x ≠ varOf cs[i]) ∧
    (1 < gs[i].length → ∀ x ∈ gs[i], varOf x ≠ varOf cs[i])

section Commanders

variable {σ : Type} [Engine σ] [NumberingEngine σ] {e e' : σ} {ls cs : List Int32} {gs : List (List Int32)} {b : Bool}
  {size fuel : Nat}

theorem exists_mem_pairClauses (h : 1 < ls.length) {x : Int32} (hx : x ∈ ls) : ∃ d ∈ pairClauses ls, -x ∈ d := by
  induction ls with
  | nil => exact nomatch hx
  | cons a rest ih =>
    obtain ⟨y, ys, rfl⟩ := List.exists_cons_of_length_pos (show 0 < rest.length by simpa using h)
    rcases List.mem_cons.1 hx with rfl | hx
    · exact ⟨[-x, -y], by simp [pairClauses], by simp⟩
    · exact ⟨[-a, -x], List.mem_append_left _ (List.mem_map_of_mem hx), by simp⟩

/-- The commander of a group has the next variable, and that variable is supported: it is in clauses that are accepted.
By then the literals of its group are known, if there are several. -/
theorem commander_apart {e₁ e₂ : σ} {g : List Int32} {c : Int32} (hmax : varCount e ≤ Var.maxCount)
    (hpairs : (Engine.addClauses (pairClauses g)).exec e = (.ok (), e₁))
    (hc : (Engine.newVariable { eliminate := true }).exec e₁ = (.ok c, e₂))
    (hclauses : (Engine.addClauses (commanderClauses c g)).exec e₂ = (.ok (), e')) :
    varCount e' ≤ Var.maxCount ∧ (∀ x ∈ g, Knows e' x) ∧
      ∃ v : Var, c = v.number ∧ varCount e ≤ v.index ∧ v.index < varCount e' ∧
        (1 < g.length → ∀ x ∈ g, varOf x ≠ .ok v) := by
  obtain ⟨hle, hroom, hpairsKnown⟩ := addClauses_numbers hpairs
  obtain ⟨e₂', hc', hcount⟩ := NumberingEngine.newVariable_numbers e₁ { eliminate := true }
  obtain ⟨hx, rfl⟩ := Prod.mk.inj (hc.symm.trans hc')
  obtain rfl := Except.ok.inj hx
  obtain ⟨hle', hroom', hknown⟩ := addClauses_numbers hclauses
  have hgroup := hknown (-(Var.mk (varCount e₁)).number :: g) (by simp [commanderClauses])
  have hsupported : varCount e₁ < Var.maxCount := by
    refine Nat.lt_of_le_of_ne (by omega) fun heq => ?_
    obtain ⟨v, hv, -⟩ := (hgroup _ List.mem_cons_self).of_neg
    rw [heq] at hv
    exact not_varOf_number_maxCount hv
  have hlt : varCount e₁ < varCount e' := by omega
  refine ⟨by omega, fun x hx => hgroup x (List.mem_cons_of_mem _ hx), ⟨varCount e₁⟩, rfl, hle, hlt,
    fun hlen x hx => ?_⟩
  obtain ⟨d, hd, hxd⟩ := exists_mem_pairClauses hlen hx
  exact (hpairsKnown d hd _ hxd).of_neg.varOf_ne (Nat.le_refl _)

theorem commandGroups_apart (hmax : varCount e ≤ Var.maxCount) (h : (commandGroups gs).exec e = (.ok cs, e')) :
    varCount e ≤ varCount e' ∧ varCount e' ≤ Var.maxCount ∧ NumbersBetween (varCount e) (varCount e') cs ∧
      CommandersApart gs cs := by
  induction gs generalizing e cs with
  | nil =>
    obtain ⟨hcs, rfl⟩ := Prod.mk.inj h
    obtain rfl := Except.ok.inj hcs
    exact ⟨Nat.le_refl _, hmax, .nil _ _, fun i hg => absurd hg (Nat.not_lt_zero i)⟩
  | cons g gs ih =>
    obtain ⟨u, e₁, hpairs, h⟩ := EngineM.exec_bind_eq_ok.1 h
    obtain ⟨c, e₂, hc, h⟩ := EngineM.exec_bind_eq_ok.1 h
    obtain ⟨u, e₃, hclauses, h⟩ := EngineM.exec_bind_eq_ok.1 h
    obtain ⟨rest, e₄, hrest, h⟩ := EngineM.exec_bind_eq_ok.1 h
    obtain ⟨hcs, rfl⟩ := Prod.mk.inj h
    obtain rfl := Except.ok.inj hcs
    obtain ⟨hroom₃, hknown, v, rfl, hle, hlt, hown⟩ := commander_apart hmax hpairs hc hclauses
    obtain ⟨hle', hroom, hbetween, hapart⟩ := ih hroom₃ hrest
    have hself : NumbersBetween (varCount e) (varCount e₃) [v.number] :=
      ⟨[v], rfl, List.pairwise_singleton _ _, List.forall_mem_singleton.2 ⟨hle, hlt⟩⟩
    refine ⟨by omega, hroom, hself.append hbetween (by omega) hle', fun i hi hi' => ?_⟩
    cases i with
    | zero =>
      rw [List.getElem_cons_zero, varOf_number (by omega)]
      exact ⟨fun x hx => absurd hx List.not_mem_nil, hown⟩
    | succ i =>
      obtain ⟨hbefore, hown⟩ := hapart i (Nat.lt_of_succ_lt_succ hi) (Nat.lt_of_succ_lt_succ hi')
      refine ⟨fun x hx => ?_, hown⟩
      rw [List.take_succ_cons, List.flatten_cons] at hx
      rcases List.mem_append.1 hx with hx | hx
      · -- the literals of the first group are known before the other commanders come
        obtain ⟨vs, rfl, -, hvs⟩ := hbetween
        have hi'' : i < vs.length := by simpa using hi'
        have hlt := hvs _ (List.getElem_mem hi'')
        rw [List.getElem_cons_succ, List.getElem_map, varOf_number (Nat.lt_of_lt_of_le hlt.2 hroom)]
        exact (hknown x hx).varOf_ne hlt.1
      · exact hbefore x hx

theorem atMostOneByPairs_noting (ns : List Int32) (hmax : varCount e ≤ Var.maxCount)
    (h : (atMostOneByPairs ls).exec e = (.ok b, e')) :
    (atMostOneByPairs ls).exec (Noting.mk e ns) = (.ok b, ⟨e', ns⟩) ∧ varCount e ≤ varCount e' ∧
      varCount e' ≤ Var.maxCount := by
  obtain ⟨u, e₁, hclauses, h⟩ := EngineM.exec_bind_eq_ok.1 h
  obtain ⟨hb, rfl⟩ := Prod.mk.inj h
  obtain ⟨hle, hroom, -⟩ := addClauses_numbers hclauses
  rw [← hb]
  exact ⟨EngineM.exec_bind_ok (addClauses_noting hclauses), hle, by omega⟩

/-- The commanders of all levels are noted, those of the groups first. -/
theorem atMostOneFuel_noting (ns : List Int32) (hmax : varCount e ≤ Var.maxCount)
    (h : (atMostOneFuel size fuel ls).exec e = (.ok b, e')) :
    ∃ xs, (atMostOneFuel size fuel ls).exec (Noting.mk e ns) = (.ok b, ⟨e', ns ++ xs⟩) ∧
      varCount e ≤ varCount e' ∧ varCount e' ≤ Var.maxCount ∧ NumbersBetween (varCount e) (varCount e') xs ∧
      if ls.length ≤ size ∨ fuel = 0 then xs = []
      else ∃ cs ys, xs = cs ++ ys ∧ cs.length = (groups size ls).length ∧ CommandersApart (groups size ls) cs := by
  induction fuel generalizing e ls ns with
  | zero =>
    obtain ⟨hrun, hle, hroom⟩ := atMostOneByPairs_noting ns hmax h
    exact ⟨[], by rwa [List.append_nil], hle, hroom, .nil _ _, by rw [if_pos (Or.inr rfl)]⟩
  | succ fuel ih =>
    by_cases hlen : ls.length ≤ size
    · rw [atMostOneFuel, if_pos hlen] at h ⊢
      obtain ⟨hrun, hle, hroom⟩ := atMostOneByPairs_noting ns hmax h
      exact ⟨[], by rwa [List.append_nil], hle, hroom, .nil _ _, by rw [if_pos (Or.inl hlen)]⟩
    · rw [atMostOneFuel, if_neg hlen] at h ⊢
      obtain ⟨cs, e₁, hcs, h⟩ := EngineM.exec_bind_eq_ok.1 h
      obtain ⟨hle₁, hroom₁, hbetween₁, hapart⟩ := commandGroups_apart hmax hcs
      obtain ⟨ys, hrun, hle₂, hroom₂, hbetween₂, -⟩ := ih (ns ++ cs) hroom₁ h
      refine ⟨cs ++ ys, ?_, Nat.le_trans hle₁ hle₂, hroom₂, hbetween₁.append hbetween₂ hle₁ hle₂, ?_⟩
      · rw [EngineM.exec_bind_ok (commandGroups_noting hcs), hrun, List.append_assoc]
      · rw [if_neg (by simp [hlen])]
        exact ⟨cs, ys, rfl, length_commandGroups hcs, hapart⟩

end Commanders

/-- **Variables of encodings are new.** Whatever the literals are, also ones of variables that are not allocated: the
variables that an encoding asks an engine for are different from each other and from all variables that were allocated
before, so from those of the literals that are among these. A counter has the next variables, and nothing keeps other
literals from being theirs. A commander is allocated when the clauses of the groups before its own and the pairs of its
own group are there already, so that it can be the variable of a literal only in a later group, or of the only literal
in its own. -/
theorem auxiliaries_fresh {σ : Type} [Engine σ] [NumberingEngine σ] {e e' : σ} {numbers : List Int32} {b : Bool}
    (hmax : varCount e ≤ Var.maxCount) :
    (∀ k, (atMostK numbers k).exec e = (.ok b, e') →
      ∃ xs, (atMostK numbers k).exec (Noting.mk e []) = (.ok b, ⟨e', xs⟩) ∧ NewVariables (varCount e) numbers xs ∧
        xs = numbersFrom (varCount e) (counterSize numbers.length k)) ∧
    ∀ groupSize, (atMostOne numbers groupSize).exec e = (.ok b, e') →
      ∃ xs, (atMostOne numbers groupSize).exec (Noting.mk e []) = (.ok b, ⟨e', xs⟩) ∧
        NewVariables (varCount e) numbers xs ∧
        if numbers.length ≤ max 2 groupSize then xs = []
        else ∃ cs ys, xs = cs ++ ys ∧ cs.length = (groups (max 2 groupSize) numbers).length ∧
          CommandersApart (groups (max 2 groupSize) numbers) cs := by
  refine ⟨fun k h => ?_, fun groupSize h => ?_⟩
  · obtain ⟨hrun, hroom⟩ := atMostK_noting hmax h
    exact ⟨_, hrun, (NumbersBetween.numbersFrom _ _).newVariables hroom, rfl⟩
  · obtain ⟨xs, hrun, -, hroom, hbetween, hgroups⟩ := atMostOneFuel_noting [] hmax h
    refine ⟨xs, hrun, hbetween.newVariables hroom, ?_⟩
    by_cases hlen : numbers.length ≤ max 2 groupSize
    · rw [if_pos (Or.inl hlen)] at hgroups
      rwa [if_pos hlen]
    · rw [if_neg (by omega)] at hgroups
      rwa [if_neg hlen]

/-- Three variables are there, and one of four literals is of another variable. It is that of the second variable of a
counter, but not that of a commander, as it is there when the commander of its group is allocated. -/
theorem auxiliaries_fresh_four_literals :
    (∃ e', (atMostK [1, -2, 3, 5] 2).exec (Noting.mk threeVariables []) = (.ok true, ⟨e', [4, 5, 6, 7, 8, 9]⟩)) ∧
      NewVariables 3 [1, -2, 3, 5] [4, 5, 6, 7, 8, 9] ∧
        (∃ e', (atMostOne [1, -2, 3, 5] 2).exec (Noting.mk threeVariables []) = (.ok true, ⟨e', [4, 6]⟩)) ∧
          NewVariables 3 [1, -2, 3, 5] [4, 6] ∧ CommandersApart [[1, -2], [3, 5]] [4, 6] := by
  have hcount : varCount threeVariables = 3 := by decide +kernel
  have hmax : varCount threeVariables ≤ Var.maxCount := by decide +kernel
  have hcounter := eq_of_toOption ((atMostK [1, -2, 3, 5] 2).exec threeVariables) (a := true) (by decide +kernel)
  have hcommanders := eq_of_toOption ((atMostOne [1, -2, 3, 5] 2).exec threeVariables) (a := true)
    (by decide +kernel)
  have hnumbers : numbersFrom 3 (counterSize 4 2) = [4, 5, 6, 7, 8, 9] := by decide
  have hnoted : ((atMostOne [1, -2, 3, 5] 2).exec (Noting.mk threeVariables [])).2.noted = [4, 6] := by decide +kernel
  have hgroups : groups 2 [1, -2, 3, 5] = [[1, -2], [3, 5]] := by decide
  obtain ⟨xs, hrun, hnew, hxs⟩ := (auxiliaries_fresh hmax).1 2 hcounter
  obtain ⟨ys, hrun', hnew', hys⟩ := (auxiliaries_fresh hmax).2 2 hcommanders
  rw [hcount] at hnew hnew' hxs
  obtain rfl : xs = [4, 5, 6, 7, 8, 9] := hxs.trans hnumbers
  obtain rfl : ys = [4, 6] := by rw [← hnoted, hrun']
  rw [if_neg (by decide), show max 2 2 = 2 from rfl, hgroups] at hys
  obtain ⟨cs, rest, hcs, hlen, hapart⟩ := hys
  obtain ⟨rfl, -⟩ := List.append_inj ((List.append_nil _).trans hcs) hlen.symm
  exact ⟨⟨_, hrun⟩, hnew, ⟨_, hrun'⟩, hnew', hapart⟩

theorem exec_eq_of_noted {σ : Type} (out : Except SolverError Bool × Noting σ) {b : Bool} (xs : List Int32)
    (h : (out.1.toOption, out.2.noted) = (some b, xs)) : out = (.ok b, ⟨out.2.engine, xs⟩) := by
  obtain ⟨hb, rfl⟩ := Prod.mk.inj h
  exact eq_of_toOption out hb

/-- A simplifying engine with two variables. -/
def twoVariables : SimplifyingEngine := runCalls (.ofMode .once) [.newVariable {}, .newVariable {}]

/-- New variables that are those of literals: the variables of a counter, when the plain engine has no variables yet,
and the first commander, when the next literal is of the variable with its number. The simplifying engine accepts such
a literal, too. -/
theorem auxiliaries_meet_literals :
    (¬ ∀ (e e' : PlainEngine) f numbers k b xs, EngineReachable e f →
      (atMostK numbers k).exec (Noting.mk e []) = (.ok b, ⟨e', xs⟩) → ∀ l ∈ numbers, ∀ x ∈ xs, varOf x ≠ varOf l) ∧
    (¬ ∀ (e e' : PlainEngine) f numbers size b xs, EngineReachable e f →
      (atMostOne numbers size).exec (Noting.mk e []) = (.ok b, ⟨e', xs⟩) →
        ∀ l ∈ numbers, ∀ x ∈ xs, varOf x ≠ varOf l) ∧
    ¬ ∀ (e e' : SimplifyingEngine) f numbers size b xs, EngineReachable e f →
      (atMostOne numbers size).exec (Noting.mk e []) = (.ok b, ⟨e', xs⟩) →
        ∀ l ∈ numbers, ∀ x ∈ xs, varOf x ≠ varOf l := by
  have htwo : EngineReachable twoVariables [] :=
    (EngineReachable.new ⟨.stable, .once, rfl⟩ : EngineReachable (SimplifyingEngine.ofMode .once) []).runAll _
  refine ⟨fun h => ?_, fun h => ?_, fun h => ?_⟩
  · have hrun := exec_eq_of_noted ((atMostK [1, 2, 3] 1).exec (Noting.mk ({} : PlainEngine) [])) (b := true) [1, 2]
      (by decide +kernel)
    exact h _ _ _ _ _ _ _ (.new ⟨.stable, rfl⟩) hrun 1 (by decide) 1 (by decide) rfl
  · have hrun := exec_eq_of_noted ((atMostOne [1, 2, 3] 2).exec (Noting.mk ({} : PlainEngine) [])) (b := true) [3, 4]
      (by decide +kernel)
    exact h _ _ _ _ _ _ _ (.new ⟨.stable, rfl⟩) hrun 3 (by decide) 3 (by decide) rfl
  · have hrun := exec_eq_of_noted ((atMostOne [1, 2, 3] 2).exec (Noting.mk twoVariables [])) (b := true) [3, 4]
      (by decide +kernel)
    exact h _ _ _ _ _ _ _ htwo hrun 3 (by decide) 3 (by decide) rfl

/-- With the first of these counters, one true literal of three is too many. -/
example : ((atMostK [1, 2, 3] 1 >>= fun _ => Engine.addClause [1]).exec ({} : PlainEngine)).1.toOption =
    some false := by decide +kernel

end Encoding

end ClauseLearning
