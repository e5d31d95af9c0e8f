import ClauseLearning.Encoding.AtMostOne
import ClauseLearning.Proofs.GivenClauses

/-!
# Commanders

* `Encoding.groups_flatten`, `Encoding.length_groups_lt` : groups are the parts of a list, and fewer than its elements;
* `Encoding.atMostOne_eq` : the recursion of the encoding, which ends as its lists get shorter;
* `Encoding.allTrue_pairClauses`, `Encoding.allTrue_groupClauses` : what the clauses of a level say;
* `Encoding.atMostOneClauses`, `Encoding.atMostOneClauses_expresses` : the clauses of all levels, and what they say;
* `Encoding.atMostOne_exact` : an engine gets clauses that say that at most one literal is true.
-/

namespace ClauseLearning.Encoding

open SolverEngine (solver)

/-! ## Groups -/

section Groups

variable {size fuel : Nat} {ls : List Int32}

theorem flatten_groupsFuel (hs : 0 < size) (h : ls.length ≤ fuel) : (groupsFuel size fuel ls).flatten = ls := by
  induction fuel generalizing ls with
  | zero => simpa [groupsFuel, eq_comm] using h
  | succ fuel ih =>
    rw [groupsFuel]
    split
    · next hnil => rw [List.isEmpty_iff.1 hnil, List.flatten_nil]
    · rw [List.flatten_cons, ih (by simp; omega), List.take_append_drop]

theorem flatten_groups (hs : 0 < size) (ls : List Int32) : (groups size ls).flatten = ls :=
  flatten_groupsFuel hs (Nat.le_refl _)

theorem mem_of_mem_groups (hs : 0 < size) {g : List Int32} (hg : g ∈ groups size ls) {x : Int32} (hx : x ∈ g) :
    x ∈ ls := by
  rw [← flatten_groups hs ls]
  exact List.mem_flatten_of_mem hg hx

theorem length_groupsFuel_le (hs : 0 < size) (fuel : Nat) (ls : List Int32) :
    (groupsFuel size fuel ls).length ≤ ls.length := by
  induction fuel generalizing ls with
  | zero => exact Nat.zero_le _
  | succ fuel ih =>
    rw [groupsFuel]
    split
    · exact Nat.zero_le _
    · next hne =>
      have hpos : 0 < ls.length := List.length_pos_iff.2 (by simpa using hne)
      have hrest := ih (ls.drop size)
      simp only [List.length_cons, List.length_drop] at hrest ⊢
      omega

/-- There are fewer groups than elements, unless one group is enough. -/
theorem length_groups_lt (hs : 2 ≤ size) (h : size < ls.length) : (groups size ls).length < ls.length := by
  obtain ⟨m, hm⟩ : ∃ m, ls.length = m + 1 := ⟨ls.length - 1, by omega⟩
  have hrest := length_groupsFuel_le (by omega : 0 < size) m (ls.drop size)
  rw [groups, hm, groupsFuel, if_neg (by simp [← List.length_eq_zero_iff, hm])]
  simp only [List.length_cons, List.length_drop] at hrest ⊢
  omega

end Groups

/-! ## The recursion -/

section Recursion

variable {σ : Type} [Engine σ] {e e' : σ} {size fuel fuel' groupSize : Nat} {ls commanders : List Int32}
  {gs : List (List Int32)}

theorem length_commandGroups (h : (commandGroups gs).exec e = (.ok commanders, e')) :
    commanders.length = gs.length := by
  induction gs generalizing e e' commanders with
  | nil =>
    obtain rfl := Except.ok.inj (Prod.mk.inj h).1
    rfl
  | cons g gs ih =>
    obtain ⟨-, e₁, -, h⟩ := EngineM.exec_bind_eq_ok.1 h
    obtain ⟨c, e₂, -, h⟩ := EngineM.exec_bind_eq_ok.1 h
    obtain ⟨-, e₃, -, h⟩ := EngineM.exec_bind_eq_ok.1 h
    obtain ⟨cs, e₄, hcs, h⟩ := EngineM.exec_bind_eq_ok.1 h
    obtain rfl := Except.ok.inj (Prod.mk.inj h).1
    rw [List.length_cons, List.length_cons, ih hcs]

theorem exec_bind_commandGroups (hs : 2 ≤ size) (h : size < ls.length) {α : Type} {k k' : List Int32 → EngineM σ α}
    (hk : ∀ cs : List Int32, cs.length < ls.length → ∀ e, (k cs).exec e = (k' cs).exec e) :
    (commandGroups (groups size ls) >>= k).exec e = (commandGroups (groups size ls) >>= k').exec e := by
  rw [EngineM.exec_bind, EngineM.exec_bind]
  cases hrun : (commandGroups (groups size ls)).exec e with
  | mk r e₁ =>
    cases r with
    | error err => rfl
    | ok cs => exact hk cs (length_commandGroups hrun ▸ length_groups_lt hs h) e₁

theorem exec_atMostOneFuel_eq (hs : 2 ≤ size) (h : ls.length ≤ fuel) (h' : ls.length ≤ fuel') :
    (atMostOneFuel size fuel ls).exec e = (atMostOneFuel size fuel' ls).exec e := by
  induction fuel generalizing fuel' ls e with
  | zero =>
    cases fuel' with
    | zero => rfl
    | succ fuel' => rw [atMostOneFuel, atMostOneFuel, if_pos (by omega)]
  | succ fuel ih =>
    cases fuel' with
    | zero => rw [atMostOneFuel, atMostOneFuel, if_pos (by omega)]
    | succ fuel' =>
      rw [atMostOneFuel, atMostOneFuel]
      split
      · rfl
      · next hlt => exact exec_bind_commandGroups hs (by omega) fun cs hcs e => ih (by omega) (by omega)

/-- The encoding goes on with the commanders, as long as there is more than one group. -/
theorem atMostOne_eq (ls : List Int32) (groupSize : Nat) (e : σ) : (atMostOne ls groupSize).exec e =
    if ls.length ≤ max 2 groupSize then (atMostOneByPairs ls).exec e
    else (commandGroups (groups (max 2 groupSize) ls) >>= fun cs => atMostOne cs groupSize).exec e := by
  have hs : 2 ≤ max 2 groupSize := Nat.le_max_left 2 groupSize
  rw [atMostOne, exec_atMostOneFuel_eq hs (Nat.le_refl _) (Nat.le_succ _), atMostOneFuel]
  split
  · rfl
  · next hlt =>
    exact exec_bind_commandGroups hs (by omega) fun cs hcs e => exec_atMostOneFuel_eq hs (by omega) (by omega)

end Recursion

/-! ## The clauses of a level -/

section Level

variable {t : Int32 → Bool} {ls group : List Int32} {gs : List (List Int32)} {n : Nat} {c : Int32}

/-- The clauses of groups with commanders from the variable `n` on. -/
def groupClauses : Nat → List (List Int32) → List (List Int32)
  | _, [] => []
  | n, g :: gs => pairClauses g ++ commanderClauses (Var.mk n).number g ++ groupClauses (n + 1) gs

theorem allTrue_pairClauses (hls : ∀ l ∈ ls, Opposed t l) : AllTrue t (pairClauses ls) ↔ ls.countP t ≤ 1 := by
  induction ls with
  | nil => simp [pairClauses]
  | cons a rest ih =>
    obtain ⟨ha, hrest⟩ := List.forall_mem_cons.1 hls
    have hpairs : AllTrue t (rest.map fun b => [-a, -b]) ↔ (t a = true → rest.countP t = 0) := by
      rw [allTrue_map, List.countP_eq_zero]
      constructor
      · intro h hta b hb
        simpa [someTrue_neg_cons ha, someTrue_neg_cons (hrest b hb), hta] using h b hb
      · intro h b hb
        simpa [someTrue_neg_cons ha, someTrue_neg_cons (hrest b hb)] using fun hta => h hta b hb
    rw [pairClauses, allTrue_append, hpairs, ih hrest, List.countP_cons]
    cases hta : t a with
    | false => simp
    | true =>
      simp only [forall_const, if_true]
      omega

theorem allTrue_commanderClauses (hc : Opposed t c) (hg : ∀ l ∈ group, Opposed t l) :
    AllTrue t (commanderClauses c group) ↔ t c = group.any t := by
  have hsome : SomeTrue t group ↔ group.any t = true := by simp [SomeTrue]
  have hdown : AllTrue t (group.map fun l => [c, -l]) ↔ (group.any t = true → t c = true) := by
    rw [allTrue_map, ← hsome]
    constructor
    · rintro h ⟨l, hl, ht⟩
      have hl' : t (-l) = false := by rw [hg l hl, ht, Bool.not_true]
      simpa [SomeTrue, hl'] using h l hl
    · intro h l hl
      cases ht : t l with
      | true => exact ⟨c, List.mem_cons_self, h ⟨l, hl, ht⟩⟩
      | false => exact ⟨-l, by simp, by rw [hg l hl, ht, Bool.not_false]⟩
  rw [commanderClauses, allTrue_append, hdown, allTrue_cons, someTrue_neg_cons hc, hsome]
  exact ⟨fun h => Bool.eq_iff_iff.2 ⟨h.2.1, h.1⟩, fun h => by simp [h]⟩

theorem allTrue_groupClauses (hc : ∀ c ∈ numbersFrom n gs.length, Opposed t c) (hgs : ∀ g ∈ gs, ∀ l ∈ g, Opposed t l) :
    AllTrue t (groupClauses n gs) ↔
      (∀ g ∈ gs, g.countP t ≤ 1) ∧ (numbersFrom n gs.length).map t = gs.map fun g => g.any t := by
  induction gs generalizing n with
  | nil => simp [groupClauses, numbersFrom]
  | cons g gs ih =>
    rw [List.length_cons, numbersFrom_succ] at hc ⊢
    obtain ⟨hc, hcs⟩ := List.forall_mem_cons.1 hc
    obtain ⟨hg, hgs⟩ := List.forall_mem_cons.1 hgs
    simp only [groupClauses, allTrue_append, allTrue_pairClauses hg, allTrue_commanderClauses hc hg, ih hcs hgs,
      List.forall_mem_cons, List.map_cons, List.cons.injEq]
    tauto

/-- With at most one true number in each group, as many are true as groups have one. -/
theorem countP_flatten_of_le_one (h : ∀ g ∈ gs, g.countP t ≤ 1) :
    gs.flatten.countP t = gs.countP fun g => g.any t := by
  induction gs with
  | nil => rfl
  | cons g gs ih =>
    obtain ⟨hg, hgs⟩ := List.forall_mem_cons.1 h
    have hone : g.countP t = if g.any t = true then 1 else 0 := by
      split
      · next hany =>
        have hpos : 0 < g.countP t := List.countP_pos_iff.2 (by simpa using hany)
        omega
      · next hany => exact List.countP_eq_zero.2 (by simpa using hany)
    rw [List.flatten_cons, List.countP_append, ih hgs, List.countP_cons, hone, Nat.add_comm]

theorem countP_le_of_mem (hg : group ∈ gs) : group.countP t ≤ gs.flatten.countP t :=
  (List.sublist_flatten_of_mem hg).countP_le

theorem countP_commanders (h : (numbersFrom n gs.length).map t = gs.map fun g => g.any t) :
    (numbersFrom n gs.length).countP t = gs.countP fun g => g.any t := by
  have hcount := congrArg (List.countP id) h
  rwa [List.countP_map, List.countP_map] at hcount

end Level

/-! ## All clauses -/

/-- The clauses of all levels, when the next variable is `n`. -/
def atMostOneClauses (groupSize n : Nat) (ls : List Int32) : List (List Int32) :=
  if ls.length ≤ max 2 groupSize then pairClauses ls
  else
    groupClauses n (groups (max 2 groupSize) ls) ++
      atMostOneClauses groupSize (n + (groups (max 2 groupSize) ls).length)
        (numbersFrom n (groups (max 2 groupSize) ls).length)
termination_by ls.length
decreasing_by
  rw [length_numbersFrom]
  exact length_groups_lt (Nat.le_max_left 2 groupSize) (by omega)

/-- The number of variables after the commanders of all levels, when there are `n` before. -/
def atMostOneVars (groupSize n : Nat) (ls : List Int32) : Nat :=
  if ls.length ≤ max 2 groupSize then n
  else
    atMostOneVars groupSize (n + (groups (max 2 groupSize) ls).length)
      (numbersFrom n (groups (max 2 groupSize) ls).length)
termination_by ls.length
decreasing_by
  rw [length_numbersFrom]
  exact length_groups_lt (Nat.le_max_left 2 groupSize) (by omega)

section All

variable {s : Solver} {a : Assignment} {groupSize n m : Nat} {ls : List Int32} {gs : List (List Int32)}

theorem le_atMostOneVars (groupSize n : Nat) (ls : List Int32) : n ≤ atMostOneVars groupSize n ls := by
  fun_induction atMostOneVars groupSize n ls with
  | case1 n ls h => exact Nat.le_refl n
  | case2 n ls h ih => exact Nat.le_trans (Nat.le_add_right _ _) ih

theorem offers_numbersFrom {count : Nat} (hn : s.varCount ≤ n) (hmax : n + count ≤ Var.maxCount) :
    ∀ x ∈ numbersFrom n count, s.Offers (n + count) x := by
  intro x hx
  obtain ⟨i, hi, rfl⟩ := mem_numbersFrom.1 hx
  exact Solver.offers_number (by omega) (by omega) hmax

theorem offers_pairClauses (hls : ∀ x ∈ ls, s.Offers n x) : ∀ d ∈ pairClauses ls, ∀ x ∈ d, s.Offers n x := by
  induction ls with
  | nil => exact fun d hd => nomatch hd
  | cons l ls ih =>
    obtain ⟨hl, hls⟩ := List.forall_mem_cons.1 hls
    intro d hd x hx
    rcases List.mem_append.1 hd with hd | hd
    · obtain ⟨b, hb, rfl⟩ := List.mem_map.1 hd
      rcases List.mem_pair.1 hx with rfl | rfl
      · exact hl.neg
      · exact (hls b hb).neg
    · exact ih hls d hd x hx

theorem offers_commanderClauses {c : Int32} (hc : s.Offers n c) (hls : ∀ x ∈ ls, s.Offers n x) :
    ∀ d ∈ commanderClauses c ls, ∀ x ∈ d, s.Offers n x := by
  intro d hd x hx
  rcases List.mem_append.1 hd with hd | hd
  · obtain ⟨b, hb, rfl⟩ := List.mem_map.1 hd
    rcases List.mem_pair.1 hx with rfl | rfl
    · exact hc
    · exact (hls b hb).neg
  · rw [List.mem_singleton.1 hd] at hx
    rcases List.mem_cons.1 hx with rfl | hx
    · exact hc.neg
    · exact hls x hx

theorem offers_groupClauses (hn : s.varCount ≤ n) (hgs : ∀ g ∈ gs, ∀ x ∈ g, s.Offers n x)
    (hmax : n + gs.length ≤ Var.maxCount) : ∀ d ∈ groupClauses n gs, ∀ x ∈ d, s.Offers (n + gs.length) x := by
  induction gs generalizing n with
  | nil => exact fun d hd => nomatch hd
  | cons g gs ih =>
    obtain ⟨hg, hgs⟩ := List.forall_mem_cons.1 hgs
    rw [List.length_cons] at hmax ⊢
    have hc : s.Offers (n + 1) (Var.mk n).number := Solver.offers_number hn (Nat.lt_succ_self n) (by omega)
    have hrest := ih (Nat.le_succ_of_le hn) (fun g hg x hx => (hgs g hg x hx).mono (Nat.le_succ n)) (by omega)
    intro d hd x hx
    rcases List.mem_append.1 hd with hd | hd
    · rcases List.mem_append.1 hd with hd | hd
      · exact (offers_pairClauses hg d hd x hx).mono (by omega)
      · exact (offers_commanderClauses hc (fun x hx => (hg x hx).mono (Nat.le_succ n)) d hd x hx).mono (by omega)
    · exact (hrest d hd x hx).mono (by omega)

/-- Commanders get the values that their clauses ask for. -/
def command (n : Nat) (gs : List (List Int32)) (a : Assignment) : Assignment := fun v =>
  if v.index < n then a v else (gs.getD (v.index - n) []).any a.truth

theorem command_agrees (n : Nat) (gs : List (List Int32)) (a : Assignment) :
    ∀ v : Var, v.index < n → command n gs a v = a v := fun _ hv => if_pos hv

theorem map_truth_command (hgs : ∀ g ∈ gs, ∀ x ∈ g, s.Offers n x) (hmax : n + gs.length ≤ Var.maxCount) :
    (numbersFrom n gs.length).map (command n gs a).truth = gs.map fun g => g.any (command n gs a).truth := by
  apply List.ext_getElem
  · simp
  · intro i hi hi'
    rw [List.length_map] at hi'
    have hany : gs[i].any (command n gs a).truth = gs[i].any a.truth := by
      rw [Bool.eq_iff_iff, List.any_eq_true, List.any_eq_true]
      exact exists_congr fun x => and_congr_right fun hx => by
        rw [truth_congr (hgs _ (List.getElem_mem hi') x hx) (command_agrees n gs a)]
    have hvalue : command n gs a ⟨n + i⟩ = gs[i].any a.truth := by
      simp [command, hi']
    have htruth := truth_number (a := command n gs a) (show n + i < Var.maxCount by omega)
    rw [List.getElem_map, List.getElem_map, hany, ← hvalue, ← htruth]
    simp [numbersFrom]

theorem level_expresses {rest : List (List Int32)} (hn : s.varCount ≤ n) (hgs : ∀ g ∈ gs, ∀ x ∈ g, s.Offers n x)
    (hmax : n + gs.length ≤ Var.maxCount)
    (hrest : Expresses (n + gs.length) (litClauses rest) fun a => (numbersFrom n gs.length).countP a.truth ≤ 1) :
    Expresses n (litClauses (groupClauses n gs ++ rest)) fun a => gs.flatten.countP a.truth ≤ 1 := by
  have hflat : ∀ x ∈ gs.flatten, s.Offers n x := fun x hx => by
    obtain ⟨g, hg, hx⟩ := List.mem_flatten.1 hx
    exact hgs g hg x hx
  have hgroup (b : Assignment) := allTrue_groupClauses (t := b.truth)
    (fun c hc => opposed_truth (offers_numbersFrom hn hmax c hc)) fun g hg l hl => opposed_truth (hgs g hg l hl)
  intro a
  constructor
  · -- the assignment makes the clauses of the next level true already, without further help
    rintro ⟨a', hagree, hsat⟩
    obtain ⟨hlevel, hnext⟩ := allTrue_append.1 (satisfiesAll_litClauses.1 hsat)
    obtain ⟨hone, hcommanders⟩ := (hgroup a').1 hlevel
    calc gs.flatten.countP a.truth = gs.flatten.countP a'.truth := (countP_truth_congr hflat hagree).symm
      _ = (numbersFrom n gs.length).countP a'.truth := by
        rw [countP_flatten_of_le_one hone, countP_commanders hcommanders]
      _ ≤ 1 := (hrest a').1 ⟨a', fun _ _ => rfl, satisfiesAll_litClauses.2 hnext⟩
  · intro hle
    change gs.flatten.countP a.truth ≤ 1 at hle
    have hagree := command_agrees n gs a
    rw [← countP_truth_congr hflat hagree] at hle
    have hone : ∀ g ∈ gs, g.countP (command n gs a).truth ≤ 1 := fun g hg => Nat.le_trans (countP_le_of_mem hg) hle
    have hcommanders := map_truth_command (a := a) hgs hmax
    rw [countP_flatten_of_le_one hone, ← countP_commanders hcommanders] at hle
    -- the next level leaves the commanders as they are: its own variables come after them
    obtain ⟨a', hagree', hsat⟩ := (hrest (command n gs a)).2 hle
    refine ⟨a', fun v hv => (hagree' v (by omega)).trans (hagree v hv), satisfiesAll_litClauses.2 ?_⟩
    refine allTrue_append.2 ⟨?_, satisfiesAll_litClauses.1 hsat⟩
    rw [allTrue_truth_congr (offers_groupClauses hn hgs hmax) hagree']
    exact (hgroup _).2 ⟨hone, hcommanders⟩

/-- The clauses of all levels say that at most one number is true. -/
theorem atMostOneClauses_expresses (hn : s.varCount ≤ n) (hls : ∀ x ∈ ls, s.Offers n x)
    (hmax : atMostOneVars groupSize n ls ≤ Var.maxCount) :
    Expresses n (litClauses (atMostOneClauses groupSize n ls)) fun a => ls.countP a.truth ≤ 1 := by
  fun_induction atMostOneClauses groupSize n ls with
  | case1 n ls hle =>
    exact expresses_self (offers_pairClauses hls) fun a => allTrue_pairClauses fun l hl => opposed_truth (hls l hl)
  | case2 n ls hlt ih =>
    rw [atMostOneVars, if_neg hlt] at hmax
    have hroom := Nat.le_trans (le_atMostOneVars groupSize _ _) hmax
    have hsize : 0 < max 2 groupSize := by omega
    have hrest := ih (by omega) (offers_numbersFrom hn hroom) hmax
    have hlevel := level_expresses hn (fun g hg x hx => hls x (mem_of_mem_groups hsize hg hx)) hroom hrest
    rwa [flatten_groups hsize ls] at hlevel

end All

section Runs

open AddingEngine (pending)

variable {σ : Type} [Engine σ] [SolverEngine σ] [AddingEngine σ] {e₀ e : σ} {f : List (List Lit)}
  {cs gs : List (List Int32)} {n groupSize : Nat} {ls : List Int32}

variable (hp : ∀ l ∈ pending e₀, (solver e₀).Allows l)
include hp

theorem commandGroups_given (h : Given e₀ f cs n e) (hgs : ∀ g ∈ gs, ∀ x ∈ g, (solver e₀).Offers n x)
    (hmax : n + gs.length ≤ Var.maxCount) : ∃ e',
      (commandGroups gs).exec e = (.ok (numbersFrom n gs.length), e') ∧
        Given e₀ f (cs ++ groupClauses n gs) (n + gs.length) e' := by
  induction gs generalizing e n cs with
  | nil => exact ⟨e, rfl, by rwa [groupClauses, List.append_nil]⟩
  | cons g gs ih =>
    obtain ⟨hg, hgs⟩ := List.forall_mem_cons.1 hgs
    rw [List.length_cons] at hmax
    obtain ⟨e₁, h1, hg1⟩ := h.addClauses hp (offers_pairClauses hg)
    obtain ⟨e₂, h2, hg2⟩ := hg1.newVariable { eliminate := true }
    have hc : (solver e₀).Offers (n + 1) (Var.mk n).number :=
      Solver.offers_number h.varCount_le (Nat.lt_succ_self n) (by omega)
    have hmono {x : Int32} (hx : (solver e₀).Offers n x) := hx.mono (Nat.le_succ n)
    obtain ⟨e₃, h3, hg3⟩ := hg2.addClauses hp (offers_commanderClauses hc fun x hx => hmono (hg x hx))
    obtain ⟨e₄, h4, hg4⟩ := ih hg3 (fun g hg x hx => hmono (hgs g hg x hx)) (by omega)
    refine ⟨e₄, ?_, ?_⟩
    · rw [commandGroups, EngineM.exec_bind_ok h1, EngineM.exec_bind_ok h2, EngineM.exec_bind_ok h3,
        EngineM.exec_bind_ok h4]
      rfl
    · rwa [List.length_cons, Nat.add_comm gs.length, ← Nat.add_assoc, groupClauses, ← List.append_assoc,
        ← List.append_assoc]

theorem atMostOne_given (h : Given e₀ f cs n e) (hls : ∀ x ∈ ls, (solver e₀).Offers n x)
    (hmax : atMostOneVars groupSize n ls ≤ Var.maxCount) : ∃ e',
      (atMostOne ls groupSize).exec e = (.ok (Engine.okay e'), e') ∧
        Given e₀ f (cs ++ atMostOneClauses groupSize n ls) (atMostOneVars groupSize n ls) e' := by
  fun_induction atMostOneClauses groupSize n ls generalizing e cs with
  | case1 n ls hle =>
    rw [atMostOneVars, if_pos hle]
    obtain ⟨e₁, h1, hg1⟩ := h.addClauses hp (offers_pairClauses hls)
    exact ⟨e₁, by rw [atMostOne_eq, if_pos hle, atMostOneByPairs, EngineM.exec_bind_ok h1]; rfl, hg1⟩
  | case2 n ls hlt ih =>
    rw [atMostOneVars, if_neg hlt] at hmax ⊢
    have hroom := Nat.le_trans (le_atMostOneVars groupSize _ _) hmax
    have hsize : 0 < max 2 groupSize := by omega
    have hgroups : ∀ g ∈ groups (max 2 groupSize) ls, ∀ x ∈ g, (solver e₀).Offers n x := fun g hg x hx =>
      hls x (mem_of_mem_groups hsize hg hx)
    obtain ⟨e₁, h1, hg1⟩ := commandGroups_given hp h hgroups hroom
    obtain ⟨e₂, h2, hg2⟩ := ih hg1 (offers_numbersFrom h.varCount_le hroom) hmax
    refine ⟨e₂, ?_, by rwa [← List.append_assoc]⟩
    rw [atMostOne_eq, if_neg hlt, EngineM.exec_bind_ok h1, h2]

end Runs

/-- **Commanders are exact, unless a pending literal is true.** Whatever the group size is, the recursion ends: it goes
on with the commanders, and they are fewer than the literals. For literals of variables that are allocated and not
eliminated, repeated or opposite ones included, and as long as there are no more variables than supported, the engine
accepts the clauses of all levels, the first one together with the literals that were pending. An assignment of the
variables there were can be continued to the commanders so that all added clauses are true if at most one of the
literals is true, and just then if no pending literal is true. -/
theorem atMostOne_exact {σ : Type} [Engine σ] [SolverEngine σ] [AddingEngine σ] {e : σ} {f : List (List Lit)}
    (groupSize : Nat) {numbers : List Int32} {ls : List Lit} (h : Reachable .words (solver e) f)
    (hls : litsOf numbers = .ok ls) (hallows : ∀ l ∈ ls, (solver e).Allows l) :
    let size := max 2 groupSize
    let n := (solver e).varCount
    let e' := ((atMostOne numbers groupSize).exec e).2
    let added := joined (AddingEngine.pending e) (atMostOneClauses groupSize n numbers)
    (∀ (xs : List Int32) (e : σ), (atMostOne xs groupSize).exec e =
      if xs.length ≤ size then (atMostOneByPairs xs).exec e
      else (commandGroups (groups size xs) >>= fun commanders => atMostOne commanders groupSize).exec e) ∧
    (∀ (xs commanders : List Int32) (e e₁ : σ), size < xs.length →
      (commandGroups (groups size xs)).exec e = (.ok commanders, e₁) → commanders.length < xs.length) ∧
    (atMostOneVars groupSize n numbers ≤ Var.maxCount → (∀ l ∈ AddingEngine.pending e, (solver e).Allows l) →
      ((atMostOne numbers groupSize).exec e = (.ok (Engine.okay e'), e') ∧
        (solver e').varCount = atMostOneVars groupSize n numbers ∧ Reachable .words (solver e') (f ++ added)) ∧
      ExpressesUnless n (AddingEngine.pending e) added (fun a => ls.countP (fun l => l.Holds a) ≤ 1) ∧
      (AddingEngine.pending e = [] → Expresses n added fun a => ls.countP (fun l => l.Holds a) ≤ 1)) := by
  intro size n e' added
  obtain ⟨rfl, -⟩ := litsOf_eq_ok hls
  have hnumbers := Solver.offers_of_litsOf hls hallows
  refine ⟨fun xs e => atMostOne_eq xs groupSize e, fun xs commanders e e₁ hlt hrun => ?_,
    fun hmax hpending => ?_⟩
  · rw [length_commandGroups hrun]
    exact length_groups_lt (Nat.le_max_left 2 groupSize) hlt
  · simp only [countP_holds]
    obtain ⟨e₁, h1, hg⟩ := atMostOne_given hpending (Given.start h) hnumbers hmax
    obtain rfl : e' = e₁ := congrArg Prod.snd h1
    have hunless : ExpressesUnless n (AddingEngine.pending e) added fun a => numbers.countP a.truth ≤ 1 :=
      (atMostOneClauses_expresses (Nat.le_refl _) hnumbers hmax).unless fun l hl => (hpending l hl).1
    refine ⟨⟨h1, hg.varCount_eq, hg.reachable⟩, hunless, fun hnone => ?_⟩
    rw [hnone] at hunless
    exact expressesUnless_nil.1 hunless

/-- A simplifying engine with four variables. -/
def fourVariables : SimplifyingEngine := runCalls (.ofMode .once) (List.replicate 4 (.newVariable {}))

/-- Groups of no size have two literals. The five literals, of which two are the same, have three commanders, and these
have two. -/
theorem atMostOne_exact_five_literals :
    let numbers : List Int32 := [1, 2, -3, 1, 4]
    let e' := ((atMostOne numbers 0).exec fourVariables).2
    let added := litClauses (atMostOneClauses 0 4 numbers)
    e'.solver.varCount = 9 ∧ Reachable .words e'.solver added ∧
      Expresses 4 added fun a => ([⟨0⟩, ⟨2⟩, ⟨5⟩, ⟨0⟩, ⟨6⟩] : List Lit).countP (fun l => l.Holds a) ≤ 1 := by
  intro numbers e' added
  have hnew : EngineReachable fourVariables [] :=
    (EngineReachable.new ⟨.stable, .once, rfl⟩ : EngineReachable (SimplifyingEngine.ofMode .once) []).runAll _
  have hread : litsOf numbers = .ok [⟨0⟩, ⟨2⟩, ⟨5⟩, ⟨0⟩, ⟨6⟩] := rfl
  have hallows : ∀ l ∈ ([⟨0⟩, ⟨2⟩, ⟨5⟩, ⟨0⟩, ⟨6⟩] : List Lit),
    l.var.index < fourVariables.solver.varCount ∧ fourVariables.solver.hasEliminated l.var = false := by decide +kernel
  have hcount : (solver fourVariables).varCount = 4 := by decide +kernel
  have hvars : atMostOneVars 0 4 numbers = 9 := by
    rw [atMostOneVars, if_neg (by decide), atMostOneVars, if_neg (by decide), atMostOneVars, if_pos (by decide)]
    decide
  have hexact := atMostOne_exact 0 hnew.solver_reachable hread hallows
  rw [hcount] at hexact
  dsimp only at hexact
  rw [hvars] at hexact
  obtain ⟨-, -, hclauses⟩ := hexact
  obtain ⟨⟨-, hend, hreach⟩, -, hexpresses⟩ := hclauses (by decide) fun l hl => nomatch hl
  rw [show AddingEngine.pending fourVariables = [] from rfl, joined_nil] at hreach hexpresses
  exact ⟨hend, hreach, hexpresses rfl⟩

/-- The pending literal joins the clause for the first two literals. If it is true, both of them may be true. -/
theorem atMostOne_inexact : ¬ ∀ (e : PlainEngine) f, EngineReachable e f → ∀ numbers ls groupSize,
    litsOf numbers = .ok ls → (∀ l ∈ ls, e.solver.Allows l) →
      atMostOneVars groupSize e.solver.varCount numbers ≤ Var.maxCount →
        Expresses e.solver.varCount (joined e.pending (atMostOneClauses groupSize e.solver.varCount numbers))
          fun a => ls.countP (fun l => l.Holds a) ≤ 1 := by
  intro h
  have hallows : ∀ l ∈ ([⟨0⟩, ⟨2⟩] : List Lit), l.var.index < pendingFive.solver.varCount ∧
    pendingFive.solver.hasEliminated l.var = false := by decide +kernel
  have hcount : pendingFive.solver.varCount = 5 := by decide +kernel
  have hclauses : atMostOneClauses 2 5 [1, 2] = pairClauses [1, 2] := by rw [atMostOneClauses, if_pos (by decide)]
  have hvars : atMostOneVars 2 5 [1, 2] ≤ Var.maxCount := by
    rw [atMostOneVars, if_pos (by decide)]
    decide
  have hexact := h pendingFive [] reachable_pendingFive [1, 2] [⟨0⟩, ⟨2⟩] 2 rfl hallows (hcount ▸ hvars)
  rw [hcount, hclauses] at hexact
  let a : Assignment := fun v => decide (v.index = 0 ∨ v.index = 1 ∨ v.index = 4)
  exact absurd ((hexact a).1 ⟨a, fun _ _ => rfl, by decide +kernel⟩) (by decide)

end ClauseLearning.Encoding
