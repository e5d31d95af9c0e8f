import Mathlib.Data.Nat.Count
import ClauseLearning.Encoding.AtMostK
import ClauseLearning.Proofs.Faults
import ClauseLearning.Proofs.GivenClauses

/-!
# Sequential counters

* `Encoding.indexedClauses`, `Encoding.counterClauses_eq` : the clauses of a counter by the places of literals and
  variables;
* `Encoding.Step`, `Encoding.Counter` : what the clauses say of the values of literals and variables;
* `Encoding.Counter.count_le`, `Encoding.counter_of_count_le` : a row is a bound for the number of true literals so far,
  and can be this number;
* `Encoding.counterClausesChecked`, `Encoding.counterClausesChecked_eq` : every access to a list succeeds;
* `Encoding.rowsFrom`, `Encoding.atMostKClauses_expresses` : the rows that are allocated, and what is said with them;
* `Encoding.atMostK_exact` : an engine gets clauses that say that at most `k` literals are true.
-/

namespace ClauseLearning.Encoding

open SolverEngine (solver)

/-! ## Clauses by places -/

section Places

variable {n k : Nat} {l : Int32} {lit : Nat → Int32} {var : Nat → Nat → Int32} {p c : Nat → Int32}

/-- The clauses of a row after another, by the places of the variables in the rows. -/
def stepClauses (k : Nat) (l : Int32) (p c : Nat → Int32) : List (List Int32) :=
  [-l, c 0] :: [-p 0, c 0] ::
    (List.range (k - 1)).flatMap (fun j => [[-l, -p j, c (j + 1)], [-p (j + 1), c (j + 1)]]) ++ [[-l, -p (k - 1)]]

/-- The clauses of a counter for `n` literals, by the places of the literals and of the variables. -/
def indexedClauses (n k : Nat) (lit : Nat → Int32) (var : Nat → Nat → Int32) : List (List Int32) :=
  [-lit 0, var 0 0] :: (List.range (k - 1)).map (fun j => [-var 0 (j + 1)]) ++
    (List.range (n - 2)).flatMap (fun i => stepClauses k (lit (i + 1)) (var i) (var (i + 1))) ++
      [[-lit (n - 1), -var (n - 2) (k - 1)]]

/-- The element at a place. -/
def place (xs : List Int32) (i : Nat) : Int32 := xs.getD i 0

/-- The element at a place of a row. -/
def rowPlace (rows : List (List Int32)) (i : Nat) : Nat → Int32 := place (rows.getD i [])

theorem indexedClauses_forall {P : Int32 → Prop} (hk : 0 < k) (hn : 1 < n) (hneg : ∀ x, P x → P (-x))
    (hlit : ∀ i < n, P (lit i)) (hvar : ∀ i, i + 1 < n → ∀ j < k, P (var i j)) :
    ∀ d ∈ indexedClauses n k lit var, ∀ x ∈ d, P x := by
  intro d hd x hx
  simp only [indexedClauses, stepClauses, List.mem_append, List.mem_cons, List.mem_map, List.mem_flatMap,
    List.mem_range, List.not_mem_nil, or_false] at hd
  rcases hd with ((rfl | ⟨j, hj, rfl⟩) | ⟨i, hi, (rfl | rfl | ⟨j, hj, rfl | rfl⟩) | rfl⟩) | rfl <;>
    simp only [List.mem_cons, List.not_mem_nil, or_false] at hx <;> grind

variable {ls previous current ps cs : List Int32} {rows : List (List Int32)} {row : List Int32}

theorem getLast?_eq_place (h : row.length = k) (hk : 0 < k) : row.getLast? = some (place row (k - 1)) := by
  have hlt : k - 1 < row.length := by omega
  rw [List.getLast?_eq_getElem?, h, place, List.getD_eq_getElem?_getD, List.getElem?_eq_getElem hlt]
  rfl

theorem map_drop_one {α : Type} (f : Int32 → α) (h : row.length = k) :
    (row.drop 1).map f = (List.range (k - 1)).map fun j => f (place row (j + 1)) := by
  subst h
  apply List.ext_getElem
  · simp
  · intro j hj hj'
    simp only [List.length_map, List.length_drop] at hj
    simp [place, show j + 1 < row.length by omega]

theorem firstRow_eq (h : row.length = k) (hk : 0 < k) : firstRow l row =
    [-l, place row 0] :: (List.range (k - 1)).map fun j => [-place row (j + 1)] := by
  rw [← map_drop_one (fun c => [-c]) h]
  obtain ⟨c, cs, rfl⟩ := List.exists_cons_of_length_pos (h ▸ hk)
  rfl

theorem carryClauses_eq (q : Int32) (h : ps.length = cs.length) : carryClauses l (q :: ps) cs =
    (List.range cs.length).flatMap fun j =>
      [[-l, -place (q :: ps) j, place cs j], [-place ps j, place cs j]] := by
  induction cs generalizing q ps with
  | nil =>
    obtain rfl := List.length_eq_zero_iff.1 h
    rfl
  | cons c cs ih =>
    obtain ⟨p, ps, rfl⟩ := List.exists_cons_of_length_eq_add_one h
    rw [carryClauses, ih p (by simpa using h), List.length_cons, List.range_succ_eq_map, List.flatMap_cons,
      List.flatMap_map]
    rfl

theorem nextRow_eq (hp : previous.length = k) (hc : current.length = k) (hk : 0 < k) :
    nextRow l previous current = stepClauses k l (place previous) (place current) := by
  have hlast := getLast?_eq_place hp hk
  obtain ⟨p, ps, rfl⟩ := List.exists_cons_of_length_pos (hp ▸ hk)
  obtain ⟨c, cs, rfl⟩ := List.exists_cons_of_length_pos (hc ▸ hk)
  have hps : ps.length = cs.length := by simp at hp hc; omega
  rw [nextRow, carryClauses_eq p hps, hlast, stepClauses, show k - 1 = cs.length by simp [← hc]]
  rfl

theorem laterClauses_eq (hrow : row.length = k) (hk : 0 < k) (hrows : ∀ r ∈ rows, r.length = k)
    (hls : ls.length = rows.length + 1) : laterClauses row ls rows =
      (List.range rows.length).flatMap
        (fun i => stepClauses k (place ls i) (rowPlace (row :: rows) i) (rowPlace (row :: rows) (i + 1))) ++
        [[-place ls rows.length, -rowPlace (row :: rows) rows.length (k - 1)]] := by
  induction rows generalizing row ls with
  | nil =>
    obtain ⟨l, rfl⟩ := List.length_eq_one_iff.1 hls
    simp [laterClauses, getLast?_eq_place hrow hk, place, rowPlace]
  | cons next rows ih =>
    obtain ⟨hnext, hrows⟩ := List.forall_mem_cons.1 hrows
    obtain ⟨l, ls, rfl⟩ := List.exists_cons_of_length_pos (by omega : 0 < ls.length)
    have hlen : ls.length = rows.length + 1 := by simpa using hls
    obtain ⟨l', ls', rfl⟩ := List.exists_cons_of_length_pos (by omega : 0 < ls.length)
    rw [laterClauses, ih hnext hrows hlen, nextRow_eq hrow hnext hk, List.length_cons, List.range_succ_eq_map,
      List.flatMap_cons, List.flatMap_map, List.append_assoc]
    · rfl
    · exact fun h => nomatch h

theorem counterClauses_eq (hk : 0 < k) (hls : ls.length = n) (hn : 1 < n) (hlen : rows.length = n - 1)
    (hrows : ∀ r ∈ rows, r.length = k) :
    counterClauses ls rows = indexedClauses n k (place ls) (rowPlace rows) := by
  obtain ⟨l, ls, rfl⟩ := List.exists_cons_of_length_pos (by omega : 0 < ls.length)
  obtain ⟨row, rows, rfl⟩ := List.exists_cons_of_length_pos (by omega : 0 < rows.length)
  obtain ⟨hrow, hrows⟩ := List.forall_mem_cons.1 hrows
  simp only [List.length_cons] at hls hlen
  rw [counterClauses, firstRow_eq hrow hk, laterClauses_eq hrow hk hrows (by omega), indexedClauses,
    ← List.append_assoc, show n - 2 = rows.length by omega, show n - 1 = rows.length + 1 by omega]
  rfl

end Places

/-! ## What the clauses say -/

section Meaning

variable {n k : Nat} {t : Int32 → Bool} {l : Int32} {lit : Nat → Int32} {var : Nat → Nat → Int32} {p c : Nat → Int32}

/-- From a row to the next one: what was counted stays counted, a true literal is counted, and never beyond `k`. -/
structure Step (k : Nat) (l : Bool) (p c : Nat → Bool) : Prop where
  keeps : ∀ j < k, p j = true → c j = true
  starts : l = true → c 0 = true
  counts : ∀ j, j + 1 < k → l = true → p j = true → c (j + 1) = true
  bounded : l = true → p (k - 1) = false

/-- A counter for `n` literals. -/
structure Counter (n k : Nat) (lit : Nat → Bool) (row : Nat → Nat → Bool) : Prop where
  starts : lit 0 = true → row 0 0 = true
  empty : ∀ j, j + 1 < k → row 0 (j + 1) = false
  step : ∀ i, i + 2 < n → Step k (lit (i + 1)) (row i) (row (i + 1))
  bounded : lit (n - 1) = true → row (n - 2) (k - 1) = false

theorem allTrue_stepClauses (hk : 0 < k) (hl : Opposed t l) (hp : ∀ j < k, Opposed t (p j)) :
    AllTrue t (stepClauses k l p c) ↔ Step k (t l) (fun j => t (p j)) (fun j => t (c j)) := by
  have hcarry (j : Nat) (hj : j + 1 < k) : AllTrue t [[-l, -p j, c (j + 1)], [-p (j + 1), c (j + 1)]] ↔
      (t l = true → t (p j) = true → t (c (j + 1)) = true) ∧ (t (p (j + 1)) = true → t (c (j + 1)) = true) := by
    simp only [allTrue_cons, allTrue_nil, someTrue_neg_cons hl, someTrue_neg_cons (hp j (by omega)),
      someTrue_neg_cons (hp (j + 1) hj), and_true]
    simp only [someTrue_singleton]
  have hfirst : AllTrue t [[-l, c 0], [-p 0, c 0]] ↔
      (t l = true → t (c 0) = true) ∧ (t (p 0) = true → t (c 0) = true) := by
    simp only [allTrue_cons, allTrue_nil, someTrue_neg_cons hl, someTrue_neg_cons (hp 0 hk), and_true]
    simp only [someTrue_singleton]
  have hlast : AllTrue t [[-l, -p (k - 1)]] ↔ (t l = true → t (p (k - 1)) = false) := by
    simp only [allTrue_cons, allTrue_nil, someTrue_neg_cons hl, someTrue_neg_cons (hp (k - 1) (by omega)), and_true,
      not_someTrue_nil, imp_false, Bool.not_eq_true]
  have hsplit : AllTrue t (stepClauses k l p c) ↔ AllTrue t [[-l, c 0], [-p 0, c 0]] ∧
      (∀ j < k - 1, AllTrue t [[-l, -p j, c (j + 1)], [-p (j + 1), c (j + 1)]]) ∧ AllTrue t [[-l, -p (k - 1)]] := by
    simp only [stepClauses, allTrue_append, allTrue_cons, allTrue_flatMap, List.mem_range, allTrue_nil, and_true,
      and_assoc]
  rw [hsplit, hfirst, hlast]
  constructor
  · rintro ⟨⟨hstarts, hfirst⟩, hcarries, hbounded⟩
    refine ⟨fun j hj hpj => ?_, hstarts, fun j hj => ((hcarry j hj).1 (hcarries j (by omega))).1, hbounded⟩
    cases j with
    | zero => exact hfirst hpj
    | succ j => exact ((hcarry j hj).1 (hcarries j (by omega))).2 hpj
  · intro h
    exact ⟨⟨h.starts, h.keeps 0 hk⟩, fun j hj => (hcarry j (by omega)).2
      ⟨h.counts j (by omega), h.keeps (j + 1) (by omega)⟩, h.bounded⟩

theorem allTrue_indexedClauses (hk : 0 < k) (hn : 1 < n) (hlit : ∀ i < n, Opposed t (lit i))
    (hvar : ∀ i, i + 1 < n → ∀ j < k, Opposed t (var i j)) :
    AllTrue t (indexedClauses n k lit var) ↔ Counter n k (fun i => t (lit i)) (fun i j => t (var i j)) := by
  have hstarts : SomeTrue t [-lit 0, var 0 0] ↔ (t (lit 0) = true → t (var 0 0) = true) := by
    rw [someTrue_neg_cons (hlit 0 (by omega)), someTrue_singleton]
  have hempty (j : Nat) (hj : j + 1 < k) : SomeTrue t [-var 0 (j + 1)] ↔ t (var 0 (j + 1)) = false := by
    simp [someTrue_neg_cons (hvar 0 (by omega) (j + 1) hj)]
  have hbounded : SomeTrue t [-lit (n - 1), -var (n - 2) (k - 1)] ↔
      (t (lit (n - 1)) = true → t (var (n - 2) (k - 1)) = false) := by
    simp [someTrue_neg_cons (hlit (n - 1) (by omega)), someTrue_neg_cons (hvar (n - 2) (by omega) (k - 1) (by omega))]
  have hstep (i : Nat) (hi : i + 2 < n) :=
    allTrue_stepClauses (c := var (i + 1)) hk (hlit (i + 1) (by omega)) (hvar i (by omega))
  simp only [indexedClauses, allTrue_append, allTrue_cons, allTrue_nil, allTrue_map, allTrue_flatMap, List.mem_range,
    and_true, hstarts, hbounded]
  constructor
  · rintro ⟨⟨⟨h1, h2⟩, h3⟩, h4⟩
    exact ⟨h1, fun j hj => (hempty j hj).1 (h2 j (by omega)), fun i hi => (hstep i hi).1 (h3 i (by omega)), h4⟩
  · intro h
    exact ⟨⟨⟨h.starts, fun j hj => (hempty j (by omega)).2 (h.empty j (by omega))⟩,
      fun i hi => (hstep i (by omega)).2 (h.step i (by omega))⟩, h.bounded⟩

end Meaning

/-! ## Counting -/

section Counting

variable {n k : Nat} {lit : Nat → Bool} {row : Nat → Nat → Bool}

/-- The number of true literals before a place. -/
def trueBefore (lit : Nat → Bool) (i : Nat) : Nat := Nat.count (fun i => lit i = true) i

theorem trueBefore_succ (lit : Nat → Bool) (i : Nat) :
    trueBefore lit (i + 1) = trueBefore lit i + if lit i = true then 1 else 0 := Nat.count_succ _ i

theorem trueBefore_length (t : Int32 → Bool) (ls : List Int32) :
    trueBefore (fun i => t (place ls i)) ls.length = ls.countP t := by
  induction ls with
  | nil => rfl
  | cons l ls ih =>
    rw [List.length_cons, trueBefore, Nat.count_succ', List.countP_cons, ← ih]
    rfl

theorem Counter.rows (h : Counter n k lit row) (hk : 0 < k) {i : Nat} (hi : i + 1 < n) :
    trueBefore lit (i + 1) ≤ k ∧ ∀ j < trueBefore lit (i + 1), row i j = true := by
  induction i with
  | zero =>
    rw [trueBefore_succ, show trueBefore lit 0 = 0 from rfl]
    split
    · next hl => exact ⟨hk, fun j hj => by rw [show j = 0 by omega]; exact h.starts hl⟩
    · exact ⟨Nat.zero_le k, fun j hj => absurd hj (Nat.not_lt_zero j)⟩
  | succ i ih =>
    obtain ⟨hle, hrow⟩ := ih (by omega)
    have hs := h.step i hi
    rw [trueBefore_succ]
    split
    · next hl =>
      -- the counter has room for another literal, for its last variable is false
      have hlt : trueBefore lit (i + 1) < k := Nat.lt_of_le_of_ne hle fun heq => by
        have htrue := hrow (k - 1) (by omega)
        rw [hs.bounded hl] at htrue
        cases htrue
      refine ⟨hlt, fun j hj => ?_⟩
      cases j with
      | zero => exact hs.starts hl
      | succ j => exact hs.counts j (by omega) hl (hrow j (by omega))
    · exact ⟨hle, fun j hj => hs.keeps j (by omega) (hrow j hj)⟩

theorem Counter.count_le (h : Counter n k lit row) (hk : 0 < k) (hn : 1 < n) : trueBefore lit n ≤ k := by
  obtain ⟨m, rfl⟩ : ∃ m, n = m + 2 := ⟨n - 2, by omega⟩
  obtain ⟨hle, hrow⟩ := h.rows hk (i := m) (by omega)
  rw [trueBefore_succ]
  split
  · next hl =>
    refine Nat.lt_of_le_of_ne hle fun heq => ?_
    have htrue := hrow (k - 1) (by omega)
    rw [show row m (k - 1) = false from h.bounded hl] at htrue
    cases htrue
  · exact hle

/-- The variables can say just how many literals are true so far. -/
theorem counter_of_count_le (hk : 0 < k) (hn : 1 < n)
    (hrow : ∀ i, i + 1 < n → ∀ j < k, row i j = decide (j < trueBefore lit (i + 1))) (h : trueBefore lit n ≤ k) :
    Counter n k lit row := by
  have hmono {i j : Nat} (hij : i ≤ j) : trueBefore lit i ≤ trueBefore lit j := Nat.count_monotone _ hij
  have hroom (i : Nat) (hi : i + 1 < n) (hl : lit (i + 1) = true) : row i (k - 1) = false := by
    have hsucc := trueBefore_succ lit (i + 1)
    have hle := hmono (show i + 1 + 1 ≤ n by omega)
    rw [if_pos hl] at hsucc
    rw [hrow i hi (k - 1) (by omega)]
    exact decide_eq_false (by omega)
  refine ⟨fun hl => ?_, fun j hj => ?_, fun i hi => ⟨fun j hj hp => ?_, fun hl => ?_, fun j hj hl hp => ?_, ?_⟩, ?_⟩
  · rw [hrow 0 (by omega) 0 hk, trueBefore_succ, if_pos hl]
    exact decide_eq_true (Nat.succ_pos _)
  · rw [hrow 0 (by omega) (j + 1) hj, trueBefore_succ, show trueBefore lit 0 = 0 from rfl]
    exact decide_eq_false (by split <;> omega)
  · rw [hrow i (by omega) j hj, decide_eq_true_eq] at hp
    rw [hrow (i + 1) (by omega) j hj]
    exact decide_eq_true (Nat.lt_of_lt_of_le hp (hmono (by omega)))
  · rw [hrow (i + 1) (by omega) 0 hk, trueBefore_succ, if_pos hl]
    exact decide_eq_true (Nat.succ_pos _)
  · rw [hrow i (by omega) j (by omega), decide_eq_true_eq] at hp
    rw [hrow (i + 1) (by omega) (j + 1) hj, trueBefore_succ, if_pos hl]
    exact decide_eq_true (by omega)
  · exact hroom i (by omega)
  · have hlast := hroom (n - 2) (by omega)
    rwa [show n - 2 + 1 = n - 1 by omega] at hlast

end Counting

/-! ## Accesses to lists -/

section Checked

theorem flatten_map_range' {α : Type} (g : Nat → List α) (m : Nat) :
    ((List.range' 1 m).map g).flatten = (List.range m).flatMap fun i => g (i + 1) := by
  rw [List.range'_eq_map_range, List.map_map, List.flatMap_def]
  simp [Function.comp_def, Nat.add_comm 1]

variable {k i a b : Nat} {l : Int32} {xs ls previous current : List Int32} {rows : List (List Int32)}

theorem length_getD_rows (hrows : ∀ r ∈ rows, r.length = k) (hi : i < rows.length) : (rows.getD i []).length = k := by
  simpa [hi] using hrows _ (List.getElem_mem hi)

variable [Build]

/-- The element at a place, which has to be in the list. -/
def placeChecked (xs : List Int32) (i : Nat) : Fallible Int32 := do
  require (i < xs.length) .outOfRange
  return place xs i

/-- The row at a place, which has to be there. -/
def rowChecked (rows : List (List Int32)) (i : Nat) : Fallible (List Int32) := do
  require (i < rows.length) .outOfRange
  return rows.getD i []

/-- The elements from a place on, which must not be beyond the end. -/
def dropChecked (xs : List Int32) (i : Nat) : Fallible (List Int32) := do
  require (i ≤ xs.length) .outOfRange
  return xs.drop i

/-- A difference, which must not be negative. -/
def minusChecked (a b : Nat) : Fallible Nat := do
  require (b ≤ a) .underflow
  return a - b

/-- The clauses of the row of a literal. -/
def stepClausesChecked (k : Nat) (l : Int32) (previous current : List Int32) : Fallible (List (List Int32)) := do
  let c ← placeChecked current 0
  let p ← placeChecked previous 0
  let carries ← (List.range' 1 (k - 1)).mapM fun j => do
    let p ← placeChecked previous (← minusChecked j 1)
    let c ← placeChecked current j
    let q ← placeChecked previous j
    return [[-l, -p, c], [-q, c]]
  let last ← placeChecked previous (← minusChecked k 1)
  return [-l, c] :: [-p, c] :: carries.flatten ++ [[-l, -last]]

/-- The clauses of a counter, with every access to the lists checked. -/
def counterClausesChecked (k : Nat) (ls : List Int32) (rows : List (List Int32)) : Fallible (List (List Int32)) := do
  let l ← placeChecked ls 0
  let row ← rowChecked rows 0
  let c ← placeChecked row 0
  let others ← dropChecked row 1
  let rowCount ← minusChecked ls.length 1
  let steps ← (List.range' 1 (rowCount - 1)).mapM fun i => do
    let l ← placeChecked ls i
    let previous ← rowChecked rows (← minusChecked i 1)
    let current ← rowChecked rows i
    stepClausesChecked k l previous current
  let last ← placeChecked ls (← minusChecked ls.length 1)
  let row ← rowChecked rows (← minusChecked ls.length 2)
  let d ← placeChecked row (← minusChecked k 1)
  return [-l, c] :: others.map (fun c => [-c]) ++ steps.flatten ++ [[-last, -d]]

theorem placeChecked_eq (h : i < xs.length) : placeChecked xs i = .ok (place xs i) := require_bind h _

theorem rowChecked_eq (h : i < rows.length) : rowChecked rows i = .ok (rows.getD i []) := require_bind h _

theorem dropChecked_eq (h : i ≤ xs.length) : dropChecked xs i = .ok (xs.drop i) := require_bind h _

theorem minusChecked_eq (h : b ≤ a) : minusChecked a b = .ok (a - b) := require_bind h _

theorem stepClausesChecked_eq (hk : 0 < k) (hp : previous.length = k) (hc : current.length = k) :
    stepClausesChecked k l previous current = .ok (stepClauses k l (place previous) (place current)) := by
  have hloop := mapM_ok
    (f := fun j => do
      let p ← placeChecked previous (← minusChecked j 1)
      let c ← placeChecked current j
      let q ← placeChecked previous j
      return [[-l, -p, c], [-q, c]])
    (g := fun j => [[-l, -place previous (j - 1), place current j], [-place previous j, place current j]])
    fun j (hj : j ∈ List.range' 1 (k - 1)) => by
      obtain ⟨h1, hlt⟩ := List.mem_range'_1.1 hj
      simp only [minusChecked_eq h1, ok_bind, placeChecked_eq (show j - 1 < previous.length by omega),
        placeChecked_eq (show j < current.length by omega), placeChecked_eq (show j < previous.length by omega)]
      rfl
  unfold stepClausesChecked
  rw [placeChecked_eq (by omega), ok_bind, placeChecked_eq (by omega), ok_bind, hloop, ok_bind,
    minusChecked_eq (by omega), ok_bind, placeChecked_eq (by omega), ok_bind, flatten_map_range']
  rfl

/-- No access fails. -/
theorem counterClausesChecked_eq (hk : 0 < k) (hkn : k < ls.length) (hlen : rows.length = ls.length - 1)
    (hrows : ∀ r ∈ rows, r.length = k) : counterClausesChecked k ls rows = .ok (counterClauses ls rows) := by
  have hlength {i : Nat} (hi : i + 1 < ls.length) : (rows.getD i []).length = k :=
    length_getD_rows hrows (by omega)
  have hloop := mapM_ok
    (f := fun i => do
      let l ← placeChecked ls i
      let previous ← rowChecked rows (← minusChecked i 1)
      let current ← rowChecked rows i
      stepClausesChecked k l previous current)
    (g := fun i => stepClauses k (place ls i) (rowPlace rows (i - 1)) (rowPlace rows i))
    fun i (hi : i ∈ List.range' 1 (ls.length - 1 - 1)) => by
      obtain ⟨h1, hlt⟩ := List.mem_range'_1.1 hi
      simp only [minusChecked_eq h1, ok_bind, placeChecked_eq (show i < ls.length by omega),
        rowChecked_eq (show i - 1 < rows.length by omega), rowChecked_eq (show i < rows.length by omega)]
      exact stepClausesChecked_eq hk (hlength (by omega)) (hlength (by omega))
  have hfirst := hlength (show 0 + 1 < ls.length by omega)
  have hlast := hlength (show ls.length - 2 + 1 < ls.length by omega)
  unfold counterClausesChecked
  rw [placeChecked_eq (by omega), ok_bind, rowChecked_eq (by omega), ok_bind, placeChecked_eq (by omega), ok_bind,
    dropChecked_eq (by omega), ok_bind, minusChecked_eq (by omega), ok_bind, hloop, ok_bind, ok_bind,
    placeChecked_eq (by omega), ok_bind, minusChecked_eq (by omega), ok_bind, rowChecked_eq (by omega), ok_bind,
    minusChecked_eq (by omega), ok_bind, placeChecked_eq (by omega), ok_bind, map_drop_one _ hfirst,
    flatten_map_range', counterClauses_eq hk rfl (by omega) hlen hrows]
  rfl

end Checked

/-! ## Runs -/

section Rows

variable {n i j width : Nat}

/-- The numbers of the variables from `n` on, in rows. -/
def rowsFrom (n width : Nat) : Nat → List (List Int32)
  | 0 => []
  | count + 1 => numbersFrom n width :: rowsFrom (n + width) width count

theorem length_rowsFrom (count : Nat) : (rowsFrom n width count).length = count := by
  induction count generalizing n with
  | zero => rfl
  | succ count ih => rw [rowsFrom, List.length_cons, ih]

theorem length_of_mem_rowsFrom {count : Nat} : ∀ row ∈ rowsFrom n width count, row.length = width := by
  induction count generalizing n with
  | zero => exact fun row hrow => nomatch hrow
  | succ count ih => exact List.forall_mem_cons.2 ⟨length_numbersFrom n width, ih⟩

theorem rowPlace_rowsFrom {count : Nat} (hi : i < count) (hj : j < width) :
    rowPlace (rowsFrom n width count) i j = (Var.mk (n + i * width + j)).number := by
  induction count generalizing n i with
  | zero => omega
  | succ count ih =>
    cases i with
    | zero => simp [rowPlace, rowsFrom, place, numbersFrom, hj]
    | succ i =>
      have h := ih (n := n + width) (i := i) (by omega)
      rw [show n + width + i * width = n + (i + 1) * width by rw [Nat.succ_mul]; omega] at h
      exact h

theorem place_mem {xs : List Int32} (h : i < xs.length) : place xs i ∈ xs := by
  simp [place, h]

theorem row_index_lt {count : Nat} (hi : i < count) (hj : j < width) : n + i * width + j < n + count * width := by
  rw [Nat.add_assoc]
  exact Nat.add_lt_add_left (rowIndex_lt hi hj) n

end Rows

section Expressed

variable {s : Solver} {k i j : Nat} {numbers : List Int32} {a b : Assignment}

/-- The clauses of `atMostK` when the next variable is `n`. -/
def atMostKClauses (n : Nat) (ls : List Int32) (k : Nat) : List (List Int32) :=
  if k = 0 then ls.map fun l => [-l]
  else if k < ls.length then counterClauses ls (rowsFrom n k (ls.length - 1))
  else []

/-- The number of variables that `atMostK` allocates for `n` literals. -/
def counterSize (n k : Nat) : Nat := if 0 < k ∧ k < n then (n - 1) * k else 0

theorem trueBefore_congr {f g : Nat → Bool} {n : Nat} (h : ∀ i < n, f i = g i) : trueBefore f n = trueBefore g n := by
  induction n with
  | zero => rfl
  | succ n ih => rw [trueBefore_succ, trueBefore_succ, ih fun i hi => h i (by omega), h n (by omega)]

theorem offers_row {count : Nat} (hmax : s.varCount + count * k ≤ Var.maxCount) (hi : i < count) (hj : j < k) :
    s.Offers (s.varCount + count * k) (rowPlace (rowsFrom s.varCount k count) i j) := by
  rw [rowPlace_rowsFrom hi hj]
  exact Solver.offers_number (by omega) (row_index_lt hi hj) hmax

section Room

variable (hk : 0 < k) (hkn : k < numbers.length) (hnumbers : ∀ x ∈ numbers, s.Offers s.varCount x)
  (hmax : s.varCount + (numbers.length - 1) * k ≤ Var.maxCount)
include hk hkn hnumbers hmax

theorem offers_counterClauses : ∀ d ∈ counterClauses numbers (rowsFrom s.varCount k (numbers.length - 1)),
    ∀ x ∈ d, s.Offers (s.varCount + (numbers.length - 1) * k) x := by
  rw [counterClauses_eq hk rfl (by omega) (length_rowsFrom _) length_of_mem_rowsFrom]
  exact indexedClauses_forall hk (by omega) (fun x hx => hx.neg)
    (fun i hi => (hnumbers _ (place_mem hi)).mono (Nat.le_add_right _ _))
    fun i hi j hj => offers_row hmax (by omega) hj

theorem allTrue_counterClauses :
    AllTrue a.truth (counterClauses numbers (rowsFrom s.varCount k (numbers.length - 1))) ↔
      Counter numbers.length k (fun i => a.truth (place numbers i))
        fun i j => a.truth (rowPlace (rowsFrom s.varCount k (numbers.length - 1)) i j) := by
  rw [counterClauses_eq hk rfl (by omega) (length_rowsFrom _) length_of_mem_rowsFrom]
  exact allTrue_indexedClauses hk (by omega) (fun i hi => opposed_truth (hnumbers _ (place_mem hi)))
    fun i hi j hj => opposed_truth (offers_row hmax (by omega) hj)

theorem counter_expresses :
    Expresses s.varCount (litClauses (counterClauses numbers (rowsFrom s.varCount k (numbers.length - 1))))
      fun a => numbers.countP a.truth ≤ k := by
  intro a
  constructor
  · rintro ⟨a', hagree, hsat⟩
    have hcounter := (allTrue_counterClauses hk hkn hnumbers hmax).1 (satisfiesAll_litClauses.1 hsat)
    rw [← countP_truth_congr hnumbers hagree, ← trueBefore_length]
    exact hcounter.count_le hk (by omega)
  · intro hle
    change numbers.countP a.truth ≤ k at hle
    rw [← trueBefore_length] at hle
    -- variable `j` of row `i` has the index `i * k + j` after those there were
    let a' : Assignment := fun v =>
      if v.index < s.varCount then a v
      else decide ((v.index - s.varCount) % k <
        trueBefore (fun i => a.truth (place numbers i)) ((v.index - s.varCount) / k + 1))
    have hagree : ∀ v : Var, v.index < s.varCount → a' v = a v := fun v hv => if_pos hv
    have hbefore {m : Nat} (hm : m ≤ numbers.length) : trueBefore (fun i => a'.truth (place numbers i)) m =
        trueBefore (fun i => a.truth (place numbers i)) m :=
      trueBefore_congr fun i hi => truth_congr (hnumbers _ (place_mem (by omega))) hagree
    refine ⟨a', hagree, satisfiesAll_litClauses.2 ((allTrue_counterClauses hk hkn hnumbers hmax).2 ?_)⟩
    refine counter_of_count_le hk (by omega) (fun i hi j hj => ?_) (by rwa [hbefore (Nat.le_refl _)])
    have hlt := row_index_lt (n := s.varCount) (show i < numbers.length - 1 by omega) hj
    rw [rowPlace_rowsFrom (by omega) hj, truth_number (by omega), hbefore (by omega)]
    have hplace : s.varCount + i * k + j - s.varCount = i * k + j := by omega
    show (if s.varCount + i * k + j < s.varCount then _ else _) = _
    rw [if_neg (by omega), hplace, rowIndex_mod hj, rowIndex_div hj]

end Room

section All

variable (k : Nat) (hnumbers : ∀ x ∈ numbers, s.Offers s.varCount x)
  (hmax : s.varCount + counterSize numbers.length k ≤ Var.maxCount)
include hnumbers hmax

theorem offers_atMostKClauses : ∀ d ∈ atMostKClauses s.varCount numbers k, ∀ x ∈ d,
    s.Offers (s.varCount + counterSize numbers.length k) x := by
  unfold atMostKClauses
  split
  · intro d hd x hx
    obtain ⟨y, hy, rfl⟩ := List.mem_map.1 hd
    rw [List.mem_singleton.1 hx]
    exact (hnumbers y hy).neg.mono (Nat.le_add_right _ _)
  · next hzero =>
    split
    · next hkn =>
      have hk := Nat.pos_of_ne_zero hzero
      rw [counterSize, if_pos ⟨hk, hkn⟩] at hmax ⊢
      exact offers_counterClauses hk hkn hnumbers hmax
    · exact fun d hd => nomatch hd

/-- The clauses say that at most `k` of the numbers are true, also if there is no counter. -/
theorem atMostKClauses_expresses :
    Expresses s.varCount (litClauses (atMostKClauses s.varCount numbers k)) fun a => numbers.countP a.truth ≤ k := by
  rcases Nat.eq_zero_or_pos k with rfl | hk
  · refine expresses_self (offers_atMostKClauses 0 hnumbers hmax) fun a => ?_
    rw [atMostKClauses, if_pos rfl, allTrue_map, Nat.le_zero, List.countP_eq_zero]
    refine forall₂_congr fun x hx => ?_
    simp [someTrue_neg_cons (opposed_truth (a := a) (hnumbers x hx))]
  · rw [atMostKClauses, if_neg hk.ne']
    split
    · next hkn =>
      rw [counterSize, if_pos ⟨hk, hkn⟩] at hmax
      exact counter_expresses hk hkn hnumbers hmax
    · next hkn =>
      refine expresses_self (s := s) (fun d hd => nomatch hd) fun a => ?_
      exact iff_of_true allTrue_nil (Nat.le_trans List.countP_le_length (Nat.le_of_not_lt hkn))

end All

example : atMostKClauses 3 [1, 2, 3] 1 = [[-1, 4], [-2, 5], [-4, 5], [-2, -4], [-3, -5]] := by decide

end Expressed

section Runs

open AddingEngine (pending)

variable {σ : Type} [Engine σ]

theorem shape_newVariables {flags : VarFlags} {count : Nat} {e e' : σ} {xs : List Int32}
    (h : (Engine.newVariables flags count).exec e = (.ok xs, e')) : xs.length = count := by
  induction count generalizing e e' xs with
  | zero =>
    obtain rfl := Except.ok.inj (Prod.mk.inj h).1
    rfl
  | succ count ih =>
    obtain ⟨x, e₁, -, h⟩ := EngineM.exec_bind_eq_ok.1 h
    obtain ⟨xs', e₂, hxs, h⟩ := EngineM.exec_bind_eq_ok.1 h
    obtain rfl := Except.ok.inj (Prod.mk.inj h).1
    rw [List.length_cons, ih hxs]

theorem shape_newRows {width count : Nat} {e e' : σ} {rows : List (List Int32)}
    (h : (newRows width count).exec e = (.ok rows, e')) :
    rows.length = count ∧ ∀ row ∈ rows, row.length = width := by
  induction count generalizing e e' rows with
  | zero =>
    obtain rfl := Except.ok.inj (Prod.mk.inj h).1
    exact ⟨rfl, fun row hrow => nomatch hrow⟩
  | succ count ih =>
    obtain ⟨row, e₁, hrow, h⟩ := EngineM.exec_bind_eq_ok.1 h
    obtain ⟨rows', e₂, hrows, h⟩ := EngineM.exec_bind_eq_ok.1 h
    obtain rfl := Except.ok.inj (Prod.mk.inj h).1
    exact ⟨congrArg (· + 1) (ih hrows).1, List.forall_mem_cons.2 ⟨shape_newVariables hrow, (ih hrows).2⟩⟩

variable [SolverEngine σ] [AddingEngine σ] {e₀ e : σ} {f : List (List Lit)} {cs : List (List Int32)} {n : Nat}

theorem newRows_given (width count : Nat) (h : Given e₀ f cs n e) : ∃ e',
    (Encoding.newRows width count).exec e = (.ok (rowsFrom n width count), e') ∧
      Given e₀ f cs (n + count * width) e' := by
  induction count generalizing e n with
  | zero => exact ⟨e, rfl, by rwa [Nat.zero_mul, Nat.add_zero]⟩
  | succ count ih =>
    obtain ⟨e₁, h1, hg1⟩ := h.newVariables { eliminate := true } width
    obtain ⟨e₂, h2, hg2⟩ := ih hg1
    refine ⟨e₂, ?_, by rwa [Nat.succ_mul, Nat.add_comm (count * width), ← Nat.add_assoc]⟩
    rw [Encoding.newRows, EngineM.exec_bind_ok h1, EngineM.exec_bind_ok h2]
    rfl

theorem exec_atMostK (k : Nat) (numbers : List Int32) (h : Reachable .words (solver e) f) : ∃ e₁,
    Given e f [] ((solver e).varCount + counterSize numbers.length k) e₁ ∧
      (atMostK numbers k).exec e =
        (Engine.addClauses (atMostKClauses (solver e).varCount numbers k) >>= fun _ => Engine.stillOkay).exec e₁ := by
  have hg := Given.start h
  rcases Nat.eq_zero_or_pos k with rfl | hk
  · exact ⟨e, hg, rfl⟩
  · by_cases hkn : k < numbers.length
    · obtain ⟨e₁, h1, hg1⟩ := newRows_given k (numbers.length - 1) hg
      refine ⟨e₁, by rwa [counterSize, if_pos ⟨hk, hkn⟩], ?_⟩
      rw [atMostK, atMostKClauses, if_neg hk.ne', if_pos hkn]
      dsimp only
      rw [if_neg hk.ne', if_pos hkn, EngineM.exec_bind_ok h1]
    · refine ⟨e, by rwa [counterSize, if_neg fun h => hkn h.2], ?_⟩
      rw [atMostK, atMostKClauses, if_neg hk.ne', if_neg hkn]
      dsimp only
      rw [if_neg hk.ne', if_neg hkn]
      rfl

/-- **The counter is exact, unless a pending literal is true.** For literals of variables that are allocated and not
eliminated, repeated or opposite ones included, a counter allocates a row of `k` variables for each literal but the last
one, unless no literal or all of them may be true, and no access to a list fails. As long as there are no more variables
than supported, the engine accepts its clauses, the first one together with the literals that were pending. An
assignment of the variables there were can be continued so that all added clauses are true if at most `k` of the
literals are true, and just then if no pending literal is true. -/
theorem atMostK_exact (k : Nat) {numbers : List Int32} {ls : List Lit} (h : Reachable .words (solver e) f)
    (hls : litsOf numbers = .ok ls) (hallows : ∀ l ∈ ls, (solver e).Allows l) :
    let n := (solver e).varCount
    let e' := ((atMostK numbers k).exec e).2
    let added := joined (pending e) (atMostKClauses n numbers k)
    ((solver e').varCount = n + if 0 < k ∧ k < numbers.length then (numbers.length - 1) * k else 0) ∧
    (0 < k → k < numbers.length → ∀ (b : Build) rows e₁, (newRows k (numbers.length - 1)).exec e = (.ok rows, e₁) →
      @counterClausesChecked b k numbers rows = .ok (counterClauses numbers rows)) ∧
    ((solver e').varCount ≤ Var.maxCount → (∀ l ∈ pending e, (solver e).Allows l) →
      ((atMostK numbers k).exec e = (.ok (Engine.okay e'), e') ∧ Reachable .words (solver e') (f ++ added)) ∧
      ExpressesUnless n (pending e) added (fun a => ls.countP (fun l => l.Holds a) ≤ k) ∧
      (pending e = [] → Expresses n added fun a => ls.countP (fun l => l.Holds a) ≤ k)) := by
  intro n e' added
  obtain ⟨rfl, -⟩ := litsOf_eq_ok hls
  have hnumbers := Solver.offers_of_litsOf hls hallows
  obtain ⟨e₁, hg, hexec⟩ := exec_atMostK k numbers h
  have hstate : e' = ((Engine.addClauses (atMostKClauses n numbers k)).exec e₁).2 := by
    rw [← Engine.exec_bind_stillOkay, ← hexec]
  have hcount : (solver e').varCount = n + counterSize numbers.length k := by
    rw [hstate, varCount_addClauses hg.reachable fun d hd x hx l hl => ?_, hg.varCount_eq]
    rw [hg.varCount_eq]
    -- beyond the supported variables, numbers are those of variables that are there if they are read at all
    by_cases hmax : n + counterSize numbers.length k ≤ Var.maxCount
    · obtain ⟨l', hl', hlt, -⟩ := offers_atMostKClauses k hnumbers hmax d hd x hx
      rwa [Except.ok.inj (hl.symm.trans hl')]
    · exact Nat.lt_trans (index_lt_of_litOf hl) (Nat.lt_of_not_le hmax)
  refine ⟨hcount, fun hk hkn b rows e₂ hrows => ?_, fun hmax hpending => ?_⟩
  · obtain ⟨hlen, hwidth⟩ := shape_newRows hrows
    exact counterClausesChecked_eq hk hkn hlen hwidth
  · rw [hcount] at hmax
    simp only [countP_holds]
    obtain ⟨e₂, h2, hg2⟩ := hg.addClauses hpending (offers_atMostKClauses k hnumbers hmax)
    obtain rfl : e' = e₂ := hstate.trans (congrArg Prod.snd h2)
    have hunless : ExpressesUnless n (pending e) added fun a => numbers.countP a.truth ≤ k :=
      (atMostKClauses_expresses k hnumbers hmax).unless fun l hl => (hpending l hl).1
    refine ⟨⟨by rw [hexec, EngineM.exec_bind_ok h2]; rfl, hg2.reachable⟩, hunless, fun hnone => ?_⟩
    rw [hnone] at hunless
    exact expressesUnless_nil.1 hunless

/-- A plain engine with three variables. -/
def threeVariables : PlainEngine := runCalls {} [.newVariable {}, .newVariable {}, .newVariable {}]

theorem reachable_threeVariables : EngineReachable threeVariables [] :=
  (EngineReachable.new ⟨.stable, rfl⟩ : EngineReachable ({} : PlainEngine) []).runAll _

/-- At most two of three literals, with two rows of two variables. -/
theorem atMostK_exact_two_of_three :
    let e' := ((atMostK [1, -2, 3] 2).exec threeVariables).2
    let added := litClauses (atMostKClauses 3 [1, -2, 3] 2)
    e'.solver.varCount = 7 ∧ Reachable .words e'.solver added ∧
      Expresses 3 added fun a => ([⟨0⟩, ⟨3⟩, ⟨4⟩] : List Lit).countP (fun l => l.Holds a) ≤ 2 := by
  intro e' added
  have hallows : ∀ l ∈ ([⟨0⟩, ⟨3⟩, ⟨4⟩] : List Lit), l.var.index < threeVariables.solver.varCount ∧
    threeVariables.solver.hasEliminated l.var = false := by decide +kernel
  have hread : litsOf [1, -2, 3] = .ok [⟨0⟩, ⟨3⟩, ⟨4⟩] := rfl
  obtain ⟨hcount, -, hclauses⟩ := atMostK_exact 2 reachable_threeVariables.solver_reachable hread hallows
  obtain ⟨⟨-, hreach⟩, -, hexpresses⟩ := hclauses (hcount ▸ by decide +kernel) fun l hl => nomatch hl
  exact ⟨hcount, hreach, hexpresses rfl⟩

/-- The pending literal joins the clause that lets the first literal count. If it is true, two of three literals may be
true although one is allowed. -/
theorem atMostK_inexact : ¬ ∀ (e : PlainEngine) f, EngineReachable e f → ∀ numbers ls k, litsOf numbers = .ok ls →
    (∀ l ∈ ls, e.solver.Allows l) → (solver ((atMostK numbers k).exec e).2).varCount ≤ Var.maxCount →
      Expresses e.solver.varCount (joined e.pending (atMostKClauses e.solver.varCount numbers k))
        fun a => ls.countP (fun l => l.Holds a) ≤ k := by
  intro h
  have hallows : ∀ l ∈ ([⟨0⟩, ⟨2⟩, ⟨4⟩] : List Lit), l.var.index < pendingFive.solver.varCount ∧
    pendingFive.solver.hasEliminated l.var = false := by decide +kernel
  have hexact := h pendingFive [] reachable_pendingFive [1, 2, 3] [⟨0⟩, ⟨2⟩, ⟨4⟩] 1 rfl hallows (by decide +kernel)
  rw [show pendingFive.solver.varCount = 5 by decide +kernel] at hexact
  -- both variables of the counter follow from the second literal
  let a : Assignment := fun v => decide (v.index = 0 ∨ v.index = 1 ∨ v.index = 4 ∨ v.index = 6)
  exact absurd ((hexact a).1 ⟨a, fun _ _ => rfl, by decide +kernel⟩) (by decide)

end Runs

end ClauseLearning.Encoding
