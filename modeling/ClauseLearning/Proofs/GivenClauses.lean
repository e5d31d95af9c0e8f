import ClauseLearning.Proofs.RefusedClauses

/-!
# Clauses given to engines

Encodings allocate variables and give clauses to an engine. The engine may have pending literals; these join the first
clause that it is given.

* `AddingEngine` : an engine that adds what it is given to its solver, whatever is pending;
* `Solver.Allows`, `Solver.Offers` : literals that clauses may have, and numbers of such literals;
* `Given`, `Given.newVariables`, `Given.addClauses` : an engine after it was given some clauses;
* `AllTrue`, `satisfiesAll_litClauses` : clauses by number that are true under an assignment;
* `Expresses`, `ExpressesUnless` : clauses that say something about the first variables, with the help of further ones.
  `Expresses.unless` : the clauses say less if pending literals join them.
-/

namespace ClauseLearning

open SolverEngine (solver)

/-! ## Literals and numbers -/

theorem index_lt_of_litOf {x : Int32} {l : Lit} (h : litOf x = .ok l) : l.var.index < Var.maxCount := by
  obtain ⟨h0, hle, rfl⟩ := litOf_eq_ok_iff.1 h
  rw [Lit.ofNumber, Lit.var_lit]
  show x.toInt.natAbs - 1 < Var.maxCount
  omega

namespace Solver

variable {s : Solver} {n m i : Nat} {x : Int32} {l : Lit}

/-- Clauses may have the literal: its variable is allocated and not eliminated. -/
def Allows (s : Solver) (l : Lit) : Prop := l.var.index < s.varCount ∧ s.hasEliminated l.var = false

/-- The number is one of the first `n` variables or its opposite, and the variable is not eliminated. -/
def Offers (s : Solver) (n : Nat) (x : Int32) : Prop :=
  ∃ l, litOf x = .ok l ∧ l.var.index < n ∧ s.hasEliminated l.var = false

namespace Offers

theorem mono (h : s.Offers n x) (hnm : n ≤ m) : s.Offers m x :=
  h.imp fun _ ⟨hl, hx, he⟩ => ⟨hl, Nat.lt_of_lt_of_le hx hnm, he⟩

theorem neg (h : s.Offers n x) : s.Offers n (-x) := by
  obtain ⟨l, hl, hx, he⟩ := h
  exact ⟨-l, litOf_neg hl, by rwa [Lit.var_neg], by rwa [Lit.var_neg]⟩

theorem ofNumber (h : s.Offers n x) :
    litOf x = .ok (Lit.ofNumber x) ∧ (Lit.ofNumber x).var.index < n ∧ s.hasEliminated (Lit.ofNumber x).var = false := by
  obtain ⟨l, hl, hx, he⟩ := h
  obtain rfl := (litOf_eq_ok_iff.1 hl).2.2
  exact ⟨hl, hx, he⟩

end Offers

theorem offers_of_litsOf {numbers : List Int32} {ls : List Lit} (h : litsOf numbers = .ok ls)
    (hls : ∀ l ∈ ls, s.Allows l) : ∀ x ∈ numbers, s.Offers s.varCount x := by
  obtain ⟨rfl, hnumbers⟩ := litsOf_eq_ok h
  exact fun x hx => ⟨_, hnumbers x hx, List.forall_mem_map.1 hls x hx⟩

theorem offers_number (hs : s.varCount ≤ i) (hi : i < n) (hn : n ≤ Var.maxCount) : s.Offers n (Var.mk i).number := by
  refine ⟨_, litOf_number (Nat.lt_of_lt_of_le hi hn), by rwa [Var.positive, Lit.var_lit], ?_⟩
  rw [Var.positive, Lit.var_lit, hasEliminated, getD_of_size_le hs]

end Solver

/-- The numbers of `count` variables from the variable `n` on. -/
def numbersFrom (n count : Nat) : List Int32 := (List.range' n count).map fun i => (Var.mk i).number

@[simp] theorem length_numbersFrom (n count : Nat) : (numbersFrom n count).length = count := by simp [numbersFrom]

theorem numbersFrom_succ (n count : Nat) :
    numbersFrom n (count + 1) = (Var.mk n).number :: numbersFrom (n + 1) count := rfl

theorem mem_numbersFrom {n count : Nat} {x : Int32} :
    x ∈ numbersFrom n count ↔ ∃ i < count, x = (Var.mk (n + i)).number := by
  simp [numbersFrom, List.mem_range', eq_comm]

/-! ## Engines -/

/-- An engine that adds what it is given to its solver. Literals that are pending join the clause, and are not pending
any more. -/
class AddingEngine (σ : Type) [Engine σ] [SolverEngine σ] where
  pending : σ → List Lit
  newVariable_adds (e : σ) (f : VarFlags) : ∃ info e', info.eliminated = false ∧
    (Engine.newVariable f).exec e = (.ok (Var.mk (solver e).varCount).number, e') ∧
      solver e' = ((solver e).allocate info).2 ∧ pending e' = pending e
  addClause_adds {e : σ} {numbers : List Int32} {ls : List Lit} : litsOf numbers = .ok ls →
    (∀ l ∈ ls, l.var.index < (solver e).varCount) →
      ∃ e', (Engine.addClause numbers).exec e = (((solver e).addClause (pending e ++ ls)).1, e') ∧
        solver e' = ((solver e).addClause (pending e ++ ls)).2 ∧ pending e' = []
  okay_eq (e : σ) : Engine.okay e = (solver e).okay

instance : AddingEngine PlainEngine where
  pending := PlainEngine.pending
  newVariable_adds e f :=
    ⟨{ polarity := f.polarity, decision := !f.noDecision }, (e.newVariable f).2, rfl, rfl, rfl, rfl⟩
  addClause_adds {e numbers ls} hls hx := by
    have hs : e.solver.allocateFor ls = e.solver := Solver.allocateFor_of_lt hx
    have he := PlainEngine.addClause_eq (e := e) hls
    rw [hs] at he
    exact ⟨_, he, rfl, rfl⟩
  okay_eq _ := rfl

instance : AddingEngine SimplifyingEngine where
  pending _ := []
  newVariable_adds e f :=
    ⟨{ polarity := f.polarity, decision := !f.noDecision, frozen := !f.eliminate }, (e.newVariable f).2, rfl, rfl, rfl,
      rfl⟩
  addClause_adds hls _ := ⟨_, SimplifyingEngine.addClause_eq hls, rfl, rfl⟩
  okay_eq _ := rfl

instance : AddingEngine CreatedEngine where
  pending
    | .plain e => AddingEngine.pending e
    | .simplifying e => AddingEngine.pending e
  newVariable_adds e f := by
    cases e with
    | plain e =>
      obtain ⟨info, e', h1, h2, h3⟩ := AddingEngine.newVariable_adds e f
      exact ⟨info, .plain e', h1, CreatedEngine.lift_plain h2, h3⟩
    | simplifying e =>
      obtain ⟨info, e', h1, h2, h3⟩ := AddingEngine.newVariable_adds e f
      exact ⟨info, .simplifying e', h1, CreatedEngine.lift_simplifying h2, h3⟩
  addClause_adds {e numbers ls} hls hx := by
    cases e with
    | plain e =>
      obtain ⟨e', h1, h2⟩ := AddingEngine.addClause_adds (e := e) hls hx
      exact ⟨.plain e', CreatedEngine.lift_plain h1, h2⟩
    | simplifying e =>
      obtain ⟨e', h1, h2⟩ := AddingEngine.addClause_adds (e := e) hls hx
      exact ⟨.simplifying e', CreatedEngine.lift_simplifying h1, h2⟩
  okay_eq e := by cases e <;> rfl

/-! ## Runs -/

/-- The literals of clauses. -/
def litClauses (cs : List (List Int32)) : List (List Lit) := cs.map (·.map Lit.ofNumber)

/-- The literals of clauses, of which the first one takes the pending literals along. -/
def joined (pending : List Lit) (cs : List (List Int32)) : List (List Lit) :=
  (litClauses cs).modifyHead (pending ++ ·)

theorem joined_nil (cs : List (List Int32)) : joined [] cs = litClauses cs := by
  cases cs <;> rfl

theorem joined_append_singleton (pending : List Lit) (cs : List (List Int32)) (c : List Int32) :
    joined pending (cs ++ [c]) = joined pending cs ++ [(if cs = [] then pending else []) ++ c.map Lit.ofNumber] := by
  cases cs <;> simp [joined, litClauses]

theorem EngineM.exec_bind_eq_ok {σ α β : Type} {m : EngineM σ α} {g : α → EngineM σ β} {e e' : σ} {b : β} :
    (m >>= g).exec e = (.ok b, e') ↔ ∃ a e₁, m.exec e = (.ok a, e₁) ∧ (g a).exec e₁ = (.ok b, e') := by
  rw [exec_bind]
  generalize m.exec e = out
  obtain ⟨_ | a, e₁⟩ := out <;> simp

theorem Engine.exec_bind_stillOkay {σ : Type} [Engine σ] (m : EngineM σ Unit) (e : σ) :
    ((m >>= fun _ => stillOkay).exec e).2 = (m.exec e).2 := by
  rw [EngineM.exec_bind]
  generalize m.exec e = out
  obtain ⟨_ | _, e₁⟩ := out <;> rfl

section Runs

open AddingEngine (pending)

variable {σ : Type} [Engine σ] [SolverEngine σ] [AddingEngine σ] {e₀ e : σ} {f : List (List Lit)} {n : Nat}
  {cs ds : List (List Int32)} {c : List Int32}

/-- The engine `e`, of `n` variables, is what became of the engine `e₀` when it was given some clauses. -/
structure Given (e₀ : σ) (f : List (List Lit)) (cs : List (List Int32)) (n : Nat) (e : σ) : Prop where
  reachable : Reachable .words (solver e) (f ++ joined (pending e₀) cs)
  varCount_eq : (solver e).varCount = n
  varCount_le : (solver e₀).varCount ≤ n
  eliminated_eq (v : Var) : (solver e).hasEliminated v = (solver e₀).hasEliminated v
  pending_eq : pending e = if cs = [] then pending e₀ else []

namespace Given

theorem start (h : Reachable .words (solver e) f) : Given e f [] (solver e).varCount e :=
  ⟨by rwa [show joined (pending e) [] = [] from rfl, List.append_nil], rfl, Nat.le_refl _, fun _ => rfl, rfl⟩

theorem newVariable (flags : VarFlags) (h : Given e₀ f cs n e) : ∃ e',
    (Engine.newVariable flags).exec e = (.ok (Var.mk n).number, e') ∧ Given e₀ f cs (n + 1) e' := by
  obtain ⟨info, e', he, hexec, hsolver, hpending⟩ := AddingEngine.newVariable_adds e flags
  rw [h.varCount_eq] at hexec
  refine ⟨e', hexec, hsolver ▸ h.reachable.allocate he, ?_, Nat.le_succ_of_le h.varCount_le, fun v => ?_,
    hpending.trans h.pending_eq⟩
  · rw [hsolver, Solver.varCount_allocate, h.varCount_eq]
  · rw [hsolver, (Solver.allocate_kept _ he).eliminated_eq, h.eliminated_eq]

theorem newVariables (flags : VarFlags) (count : Nat) (h : Given e₀ f cs n e) : ∃ e',
    (Engine.newVariables flags count).exec e = (.ok (numbersFrom n count), e') ∧ Given e₀ f cs (n + count) e' := by
  induction count generalizing e n with
  | zero => exact ⟨e, rfl, h⟩
  | succ count ih =>
    obtain ⟨e₁, h1, hg1⟩ := h.newVariable flags
    obtain ⟨e₂, h2, hg2⟩ := ih hg1
    refine ⟨e₂, ?_, by rwa [Nat.add_assoc, Nat.add_comm 1] at hg2⟩
    rw [Engine.newVariables, EngineM.exec_bind_ok h1, EngineM.exec_bind_ok h2]
    rfl

section Clauses

variable (hp : ∀ l ∈ pending e₀, (solver e₀).Allows l)
include hp

theorem addClause (h : Given e₀ f cs n e) (hc : ∀ x ∈ c, (solver e₀).Offers n x) : ∃ e',
    (Engine.addClause c).exec e = (.ok (Engine.okay e'), e') ∧ Given e₀ f (cs ++ [c]) n e' := by
  have hls : litsOf c = .ok (c.map Lit.ofNumber) := litsOf_eq_map fun x hx => ⟨_, (hc x hx).ofNumber.1⟩
  have hpending : ∀ l ∈ pending e, (solver e).Allows l := fun l hl => by
    rw [h.pending_eq] at hl
    split at hl
    · exact ⟨Nat.lt_of_lt_of_le (hp l hl).1 (h.varCount_eq ▸ h.varCount_le), (h.eliminated_eq _).trans (hp l hl).2⟩
    · exact absurd hl List.not_mem_nil
  have hmap : ∀ l ∈ c.map Lit.ofNumber, (solver e).Allows l := List.forall_mem_map.2 fun x hx =>
    ⟨h.varCount_eq ▸ (hc x hx).ofNumber.2.1, (h.eliminated_eq _).trans (hc x hx).ofNumber.2.2⟩
  obtain ⟨e', hexec, hsolver, hnone⟩ := AddingEngine.addClause_adds hls fun l hl => (hmap l hl).1
  have hok : ((solver e).addClause (pending e ++ c.map Lit.ofNumber)).1 = .ok (solver e').okay :=
    hsolver ▸ Solver.addClause_eq_ok (List.forall_mem_append.2 ⟨hpending, hmap⟩)
  have hi := h.reachable.inv
  rw [hok, ← AddingEngine.okay_eq] at hexec
  refine ⟨e', hexec, ?_, ?_, h.varCount_le, fun v => ?_, by simpa using hnone⟩
  · rw [joined_append_singleton, ← List.append_assoc, ← h.pending_eq, hsolver, ← accepted_addClause hok]
    exact h.reachable.call (.addClause _)
  · rw [hsolver, (Solver.addClause_sameFlags hi _).varCount_eq, h.varCount_eq]
  · rw [hsolver, (Solver.addClause_kept hi _).eliminated_eq, h.eliminated_eq]

theorem addClauses (h : Given e₀ f cs n e) (hds : ∀ d ∈ ds, ∀ x ∈ d, (solver e₀).Offers n x) : ∃ e',
    (Engine.addClauses ds).exec e = (.ok (), e') ∧ Given e₀ f (cs ++ ds) n e' := by
  induction ds generalizing e cs with
  | nil => exact ⟨e, rfl, by rwa [List.append_nil]⟩
  | cons d ds ih =>
    obtain ⟨hd, hds⟩ := List.forall_mem_cons.1 hds
    obtain ⟨e₁, h1, hg1⟩ := h.addClause hp hd
    obtain ⟨e₂, h2, hg2⟩ := ih hg1 hds
    refine ⟨e₂, ?_, by rwa [List.append_assoc] at hg2⟩
    rw [Engine.addClauses, EngineM.exec_bind_ok h1, h2]

end Clauses

end Given

theorem varCount_addClauses (h : Reachable .words (solver e) f)
    (hds : ∀ d ∈ ds, ∀ x ∈ d, ∀ l, litOf x = .ok l → l.var.index < (solver e).varCount) :
    (solver ((Engine.addClauses ds).exec e).2).varCount = (solver e).varCount := by
  induction ds generalizing e f with
  | nil => rfl
  | cons d ds ih =>
    obtain ⟨hd, hds⟩ := List.forall_mem_cons.1 hds
    rw [Engine.addClauses, EngineM.exec_bind]
    cases hls : litsOf d with
    | error err => rw [SolverEngine.addClause_error hls]
    | ok ls =>
      have hlt : ∀ l ∈ ls, l.var.index < (solver e).varCount := by
        obtain ⟨rfl, hnumbers⟩ := litsOf_eq_ok hls
        exact List.forall_mem_map.2 fun x hx => hd x hx _ (hnumbers x hx)
      obtain ⟨e', hexec, hsolver, -⟩ := AddingEngine.addClause_adds hls hlt
      have hcount : (solver e').varCount = (solver e).varCount := by
        rw [hsolver, (Solver.addClause_sameFlags h.inv _).varCount_eq]
      rw [hexec]
      cases ((solver e).addClause (pending e ++ ls)).1 with
      | error err => exact hcount
      | ok b =>
        have hr := h.call (.addClause (pending e ++ ls))
        change Reachable .words ((solver e).addClause (pending e ++ ls)).2 _ at hr
        rw [← hsolver] at hr
        exact (ih hr (by rwa [hcount])).trans hcount

end Runs

/-! ## What clauses say -/

/-- Whether the literal of a number is true. -/
def Assignment.truth (a : Assignment) (x : Int32) : Bool := (Lit.ofNumber x).Holds a

/-- A clause has a true number. -/
def SomeTrue (t : Int32 → Bool) (c : List Int32) : Prop := ∃ x ∈ c, t x = true

/-- All clauses have a true number. -/
def AllTrue (t : Int32 → Bool) (cs : List (List Int32)) : Prop := ∀ c ∈ cs, SomeTrue t c

/-- A number is true just if the opposite one is false. -/
def Opposed (t : Int32 → Bool) (x : Int32) : Prop := t (-x) = !t x

section Truth

variable {a b : Assignment} {t : Int32 → Bool} {s : Solver} {n m i : Nat} {x : Int32} {cs ds : List (List Int32)}
  {c : List Int32} {added : List (List Lit)} {P : Assignment → Prop}

@[simp] theorem not_someTrue_nil : ¬ SomeTrue t [] := fun ⟨_, hx, _⟩ => nomatch hx

theorem someTrue_singleton : SomeTrue t [x] ↔ t x = true := by simp [SomeTrue]

theorem someTrue_neg_cons (hx : Opposed t x) : SomeTrue t (-x :: c) ↔ (t x = true → SomeTrue t c) := by
  rw [Opposed] at hx
  cases h : t x <;> simp [SomeTrue, hx, h]

@[simp] theorem allTrue_nil : AllTrue t [] := fun _ hc => nomatch hc

@[simp] theorem allTrue_cons : AllTrue t (c :: cs) ↔ SomeTrue t c ∧ AllTrue t cs := List.forall_mem_cons

@[simp] theorem allTrue_append : AllTrue t (cs ++ ds) ↔ AllTrue t cs ∧ AllTrue t ds := List.forall_mem_append

theorem allTrue_flatMap {α : Type} {xs : List α} {g : α → List (List Int32)} :
    AllTrue t (xs.flatMap g) ↔ ∀ x ∈ xs, AllTrue t (g x) := by
  simp only [AllTrue, List.mem_flatMap, forall_exists_index, and_imp]
  exact ⟨fun h x hx c hc => h c x hx hc, fun h c x hx hc => h x hx c hc⟩

theorem allTrue_map {α : Type} {xs : List α} {g : α → List Int32} :
    AllTrue t (xs.map g) ↔ ∀ x ∈ xs, SomeTrue t (g x) := List.forall_mem_map

theorem satisfiesAll_litClauses : SatisfiesAll a (litClauses cs) ↔ AllTrue a.truth cs := by
  simp [SatisfiesAll, Satisfies, litClauses, AllTrue, SomeTrue, Assignment.truth]

theorem truth_number (hi : i < Var.maxCount) : a.truth (Var.mk i).number = a ⟨i⟩ := by
  rw [Assignment.truth, ← (litOf_eq_ok_iff.1 (litOf_number (v := ⟨i⟩) hi)).2.2]
  simp [Lit.Holds, Var.positive]

theorem opposed_truth (h : s.Offers n x) : Opposed a.truth x := by
  rw [Opposed, Assignment.truth, Assignment.truth, ← (litOf_eq_ok_iff.1 (litOf_neg h.ofNumber.1)).2.2]
  simp

theorem truth_congr (h : s.Offers n x) (hab : ∀ v : Var, v.index < n → a v = b v) : a.truth x = b.truth x := by
  simp [Assignment.truth, Lit.holds_congr (hab _ h.ofNumber.2.1)]

theorem allTrue_truth_congr (hcs : ∀ c ∈ cs, ∀ x ∈ c, s.Offers n x) (hab : ∀ v : Var, v.index < n → a v = b v) :
    AllTrue a.truth cs ↔ AllTrue b.truth cs :=
  forall₂_congr fun c hc => exists_congr fun x => and_congr_right fun hx => by rw [truth_congr (hcs c hc x hx) hab]

theorem countP_holds (a : Assignment) (numbers : List Int32) :
    (numbers.map Lit.ofNumber).countP (fun l => l.Holds a) = numbers.countP a.truth := List.countP_map

theorem countP_truth_congr {numbers : List Int32} (h : ∀ x ∈ numbers, s.Offers n x)
    (hab : ∀ v : Var, v.index < n → a v = b v) : numbers.countP a.truth = numbers.countP b.truth :=
  List.countP_congr fun x hx => by rw [truth_congr (h x hx) hab]

/-- Clauses say something about the first `n` variables, with the help of further ones: an assignment of the first
variables can be continued so that the clauses are true just if it is as they say. -/
def Expresses (n : Nat) (added : List (List Lit)) (P : Assignment → Prop) : Prop :=
  ∀ a, (∃ a' : Assignment, (∀ v : Var, v.index < n → a' v = a v) ∧ SatisfiesAll a' added) ↔ P a

theorem expresses_self (hcs : ∀ c ∈ cs, ∀ x ∈ c, s.Offers n x) (hP : ∀ a, AllTrue a.truth cs ↔ P a) :
    Expresses n (litClauses cs) P := by
  intro a
  rw [← hP]
  constructor
  · rintro ⟨a', hagree, hsat⟩
    rwa [satisfiesAll_litClauses, allTrue_truth_congr hcs hagree] at hsat
  · exact fun h => ⟨a, fun _ _ => rfl, satisfiesAll_litClauses.2 h⟩

/-- Clauses say something about the first `n` variables, unless one of some literals is true. They exclude nothing that
is as they say. -/
def ExpressesUnless (n : Nat) (ls : List Lit) (added : List (List Lit)) (P : Assignment → Prop) : Prop :=
  ∀ a, ((∀ l ∈ ls, ¬ l.Holds a) →
      ((∃ a' : Assignment, (∀ v : Var, v.index < n → a' v = a v) ∧ SatisfiesAll a' added) ↔ P a)) ∧
    (P a → ∃ a' : Assignment, (∀ v : Var, v.index < n → a' v = a v) ∧ SatisfiesAll a' added)

theorem expressesUnless_nil : ExpressesUnless n [] added P ↔ Expresses n added P :=
  forall_congr' fun _ => ⟨fun h => h.1 fun _ hl => (nomatch hl), fun h => ⟨fun _ => h, h.2⟩⟩

theorem satisfiesAll_joined {pending : List Lit} (h : SatisfiesAll a (litClauses cs)) :
    SatisfiesAll a (joined pending cs) := by
  cases cs with
  | nil => exact h
  | cons c cs =>
    obtain ⟨⟨l, hl, ht⟩, hcs⟩ := List.forall_mem_cons.1 h
    exact List.forall_mem_cons.2 ⟨⟨l, List.mem_append_right pending hl, ht⟩, hcs⟩

theorem satisfiesAll_of_joined {pending : List Lit} (hp : ∀ l ∈ pending, ¬ l.Holds a)
    (h : SatisfiesAll a (joined pending cs)) : SatisfiesAll a (litClauses cs) := by
  cases cs with
  | nil => exact h
  | cons c cs =>
    obtain ⟨⟨l, hl, ht⟩, hcs⟩ := List.forall_mem_cons.1 h
    have hl := (List.mem_append.1 hl).resolve_left fun hl => hp l hl ht
    exact List.forall_mem_cons.2 ⟨⟨l, hl, ht⟩, hcs⟩

theorem Expresses.unless {pending : List Lit} (h : Expresses n (litClauses cs) P)
    (hp : ∀ l ∈ pending, l.var.index < n) : ExpressesUnless n pending (joined pending cs) P := by
  intro a
  have hextends (hP : P a) : ∃ a' : Assignment, (∀ v : Var, v.index < n → a' v = a v) ∧
      SatisfiesAll a' (joined pending cs) := by
    obtain ⟨a', hagree, hsat⟩ := (h a).2 hP
    exact ⟨a', hagree, satisfiesAll_joined hsat⟩
  refine ⟨fun hn => ⟨?_, hextends⟩, hextends⟩
  rintro ⟨a', hagree, hsat⟩
  have hn' : ∀ l ∈ pending, ¬ l.Holds a' := fun l hl ht =>
    hn l hl ((Lit.holds_congr (hagree l.var (hp l hl))).1 ht)
  exact (h a).1 ⟨a', hagree, satisfiesAll_of_joined hn' hsat⟩

end Truth

/-- A plain engine with five variables, of which the last one is pending. -/
def pendingFive : PlainEngine := runCalls {} (List.replicate 5 .nextVariable ++ [.put 5])

theorem reachable_pendingFive : EngineReachable pendingFive [] :=
  (EngineReachable.new ⟨.stable, rfl⟩ : EngineReachable ({} : PlainEngine) []).runAll _

end ClauseLearning
