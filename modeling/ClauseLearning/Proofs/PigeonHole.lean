import Mathlib.Data.Fintype.Pigeonhole
import Mathlib.Logic.Equiv.Basic
import ClauseLearning.Formula.PigeonHole
import ClauseLearning.Proofs.Arrays
import ClauseLearning.Proofs.Assignment
import ClauseLearning.Proofs.Faults

/-!
# The pigeonhole principle needs every clause

* `Formula.MinimallyUnsatisfiable` : no assignment satisfies all clauses, and any one of them is needed for that;
* `pigeonHoleClauses`, `pigeonHole_eq` : the clauses that the generator adds, if the variables are among those
  supported;
* `not_satisfiesAll_pigeonHole` : two of the pigeons would have to share a hole;
* `exists_seating_without` : a `seating`, which tells where the pigeons sit, that satisfies all clauses but a given one.
  If a pigeon needs no hole, the others close ranks; if two may share a hole, one of them counts as the other;
* `pigeonHole_minimallyUnsatisfiable` : the pigeonhole formulas of all sizes are minimally unsatisfiable.
-/

namespace ClauseLearning.Formula

/-- No assignment satisfies all clauses, but without any one of them some assignment does. -/
structure MinimallyUnsatisfiable (f : Formula) : Prop where
  unsatisfiable (a : Assignment) : ¬ SatisfiesAll a f.clauses.toList
  satisfiable_without (i : Nat) : i < f.size → ∃ a, SatisfiesAll a (f.clauses.toList.eraseIdx i)

variable {holes pigeon other hole hole' : Nat} {seat : Nat → Option Nat} {a : Assignment} {c d : List Lit}

/-! ## Clauses -/

/-- The literal that is true when the pigeon sits in the hole. -/
def spot (holes pigeon hole : Nat) : Lit := (Var.mk (pigeon * holes + hole)).positive

/-- A pigeon sits in some hole. -/
def pigeonNeedsHole (holes pigeon : Nat) : List Lit := (List.range holes).map (spot holes pigeon)

/-- The two pigeons do not both sit in the hole. -/
def apart (holes hole pigeon other : Nat) : List Lit := [-spot holes pigeon hole, -spot holes other hole]

/-- No two of the first `pigeons` pigeons sit in the hole: a clause for each pair, by the later pigeon, then the
earlier. -/
def holeTakesOne (holes pigeons hole : Nat) : List (List Lit) :=
  (List.range pigeons).flatMap fun pigeon => (List.range pigeon).map (apart holes hole pigeon)

/-- The clauses of the pigeonhole principle. -/
def pigeonHoleClauses (holes : Nat) : List (List Lit) :=
  (List.range (holes + 1)).map (pigeonNeedsHole holes) ++
    (List.range holes).flatMap (holeTakesOne holes (holes + 1))

theorem mem_pigeonHoleClauses : c ∈ pigeonHoleClauses holes ↔ (∃ pigeon ≤ holes, c = pigeonNeedsHole holes pigeon) ∨
    ∃ hole < holes, ∃ pigeon ≤ holes, ∃ other < pigeon, c = apart holes hole pigeon other := by
  simp only [pigeonHoleClauses, holeTakesOne, apart, List.mem_append, List.mem_map, List.mem_flatMap, List.mem_range,
    Nat.lt_succ_iff, @eq_comm _ c]

theorem satisfies_pigeonNeedsHole :
    Satisfies a (pigeonNeedsHole holes pigeon) ↔ ∃ hole < holes, (spot holes pigeon hole).Holds a := by
  simp [Satisfies, pigeonNeedsHole]

theorem satisfies_apart : Satisfies a (apart holes hole pigeon other) ↔
    ¬ ((spot holes pigeon hole).Holds a ∧ (spot holes other hole).Holds a) := by
  rw [not_and_or]
  simp [Satisfies, apart]

theorem index_spot : (spot holes pigeon hole).var.index = pigeon * holes + hole := by
  rw [spot, Var.positive, Lit.var_lit]

theorem spot_inj (hh : hole < holes) (hh' : hole' < holes) (h : spot holes pigeon hole = spot holes other hole') :
    pigeon = other ∧ hole = hole' := by
  have hx := congrArg (fun l : Lit => l.var.index) h
  simp only [index_spot] at hx
  exact rowIndex_inj hh hh' hx

theorem index_lt_of_pigeonHole (hc : c ∈ pigeonHoleClauses holes) {l : Lit} (hl : l ∈ c) :
    l.var.index < (holes + 1) * holes := by
  rcases mem_pigeonHoleClauses.1 hc with ⟨pigeon, hp, rfl⟩ | ⟨hole, hh, pigeon, hp, other, ho, rfl⟩
  · obtain ⟨hole, hh, rfl⟩ := List.mem_map.1 hl
    exact index_spot ▸ rowIndex_lt (Nat.lt_succ_of_le hp) (List.mem_range.1 hh)
  · rcases List.mem_pair.1 hl with rfl | rfl
    · rw [Lit.var_neg, index_spot]
      exact rowIndex_lt (Nat.lt_succ_of_le hp) hh
    · rw [Lit.var_neg, index_spot]
      exact rowIndex_lt (ho.trans (Nat.lt_succ_of_le hp)) hh

/-! ## No seating for all -/

theorem not_satisfiesAll_pigeonHole (holes : Nat) (a : Assignment) : ¬ SatisfiesAll a (pigeonHoleClauses holes) := by
  intro h
  have hneeds (pigeon : Fin (holes + 1)) : ∃ hole : Fin holes, (spot holes pigeon hole).Holds a := by
    have hc := h _ (mem_pigeonHoleClauses.2 (Or.inl ⟨pigeon, Nat.le_of_lt_succ pigeon.2, rfl⟩))
    obtain ⟨hole, hh, hs⟩ := satisfies_pigeonNeedsHole.1 hc
    exact ⟨⟨hole, hh⟩, hs⟩
  choose seat hseat using hneeds
  obtain ⟨p, q, hne, heq⟩ := Fintype.exists_ne_map_eq_of_card_lt seat (by simp)
  -- the clause of a pair names the later pigeon first
  wlog hlt : q < p generalizing p q
  · exact this q p hne.symm heq.symm (lt_of_le_of_ne (not_lt.1 hlt) hne)
  have hc := h _ (mem_pigeonHoleClauses.2
    (Or.inr ⟨seat p, (seat p).2, p, Nat.le_of_lt_succ p.2, q, hlt, rfl⟩))
  exact satisfies_apart.1 hc ⟨hseat p, heq ▸ hseat q⟩

/-! ## Seatings -/

/-- The assignment under which each pigeon sits where `seat` tells. -/
def seating (holes : Nat) (seat : Nat → Option Nat) : Assignment := fun v =>
  decide (seat (v.index / holes) = some (v.index % holes))

theorem holds_seating (hh : hole < holes) :
    (spot holes pigeon hole).Holds (seating holes seat) ↔ seat pigeon = some hole := by
  rw [Lit.Holds, seating, index_spot, rowIndex_div hh, rowIndex_mod hh, spot, Var.positive, Lit.isPositive_lit,
    decide_eq_true_iff]

theorem satisfies_pigeonNeedsHole_seating :
    Satisfies (seating holes seat) (pigeonNeedsHole holes pigeon) ↔ ∃ hole < holes, seat pigeon = some hole := by
  rw [satisfies_pigeonNeedsHole]
  exact exists_congr fun hole => and_congr_right holds_seating

theorem satisfies_apart_seating (hh : hole < holes) : Satisfies (seating holes seat) (apart holes hole pigeon other) ↔
    ¬ (seat pigeon = some hole ∧ seat other = some hole) := by
  rw [satisfies_apart, holds_seating hh, holds_seating hh]

/-- The numbers of the pigeons other than `pigeon`, without a gap. -/
def closeRanks (pigeon other : Nat) : Nat := if other < pigeon then other else other - 1

/-- All pigeons but one have holes of their own. -/
def seatOthers (pigeon other : Nat) : Option Nat := if other = pigeon then none else some (closeRanks pigeon other)

/-- Two pigeons have the given hole, and the others have holes of their own. -/
def seatTogether (hole pigeon twin other : Nat) : Nat :=
  Equiv.swap twin hole (if other = pigeon then twin else closeRanks pigeon other)

theorem seatOthers_eq_some (hp : pigeon ≤ holes) (ho : other ≤ holes) (hne : other ≠ pigeon) :
    ∃ hole < holes, seatOthers pigeon other = some hole := by
  refine ⟨closeRanks pigeon other, ?_, if_neg hne⟩
  unfold closeRanks
  split <;> omega

theorem seatOthers_inj {p q : Nat} (hp : seatOthers pigeon p = some hole) (hq : seatOthers pigeon q = some hole) :
    p = q := by
  simp only [seatOthers, closeRanks] at hp hq
  grind

theorem seatTogether_lt {twin : Nat} (hh : hole < holes) (ht : twin < pigeon) (hp : pigeon ≤ holes)
    (ho : other ≤ holes) : seatTogether hole pigeon twin other < holes := by
  simp only [seatTogether, closeRanks, Equiv.swap_apply_def]
  split_ifs <;> omega

theorem seatTogether_inj {twin p q : Nat} (ht : twin < pigeon) (hlt : q < p)
    (h : seatTogether hole pigeon twin p = hole') (h' : seatTogether hole pigeon twin q = hole') :
    hole' = hole ∧ p = pigeon ∧ q = twin := by
  have heq := (Equiv.swap twin hole).injective (h.trans h'.symm)
  have hp : p = pigeon ∧ q = twin := by
    simp only [closeRanks] at heq
    split_ifs at heq <;> omega
  obtain ⟨rfl, rfl⟩ := hp
  refine ⟨?_, rfl, rfl⟩
  rw [← h, seatTogether, if_pos rfl, Equiv.swap_apply_left]

/-- Without any one clause there is room for all pigeons. -/
theorem exists_seating_without (hd : d ∈ pigeonHoleClauses holes) :
    ∃ a, ∀ c ∈ pigeonHoleClauses holes, c ≠ d → Satisfies a c := by
  rcases mem_pigeonHoleClauses.1 hd with ⟨pigeon, hp, rfl⟩ | ⟨hole, hh, pigeon, hp, twin, ht, rfl⟩
  · refine ⟨seating holes (seatOthers pigeon), fun c hc hne => ?_⟩
    rcases mem_pigeonHoleClauses.1 hc with ⟨other, ho, rfl⟩ | ⟨hole, hh, p, -, q, hlt, rfl⟩
    · exact satisfies_pigeonNeedsHole_seating.2 (seatOthers_eq_some hp ho fun h => hne (h ▸ rfl))
    · rw [satisfies_apart_seating hh]
      rintro ⟨h, h'⟩
      exact hlt.ne' (seatOthers_inj h h')
  · refine ⟨seating holes fun other => some (seatTogether hole pigeon twin other), fun c hc hne => ?_⟩
    rcases mem_pigeonHoleClauses.1 hc with ⟨other, ho, rfl⟩ | ⟨hole', hh', p, -, q, hlt, rfl⟩
    · exact satisfies_pigeonNeedsHole_seating.2 ⟨_, seatTogether_lt hh ht hp ho, rfl⟩
    · rw [satisfies_apart_seating hh']
      rintro ⟨h, h'⟩
      obtain ⟨rfl, rfl, rfl⟩ := seatTogether_inj ht hlt (Option.some.inj h) (Option.some.inj h')
      exact hne rfl

/-! ## All clauses are different -/

theorem pigeonNeedsHole_inj (hh : 0 < holes) (h : pigeonNeedsHole holes pigeon = pigeonNeedsHole holes other) :
    pigeon = other := by
  have hhead := congrArg List.head? h
  simp only [pigeonNeedsHole, List.head?_map, List.head?_range, Nat.ne_of_gt hh, if_false, Option.map_some,
    Option.some.injEq] at hhead
  exact (spot_inj hh hh hhead).1

theorem apart_inj {p q : Nat} (hh : hole < holes) (hh' : hole' < holes)
    (h : apart holes hole pigeon other = apart holes hole' p q) : hole = hole' ∧ pigeon = p ∧ other = q := by
  simp only [apart, List.cons.injEq, Lit.neg_inj, and_true] at h
  obtain ⟨rfl, rfl⟩ := spot_inj hh hh' h.1
  exact ⟨rfl, rfl, (spot_inj hh hh' h.2).1⟩

theorem pigeonNeedsHole_ne_apart {p q : Nat} : pigeonNeedsHole holes pigeon ≠ apart holes hole p q := by
  intro h
  have hmem : -spot holes p hole ∈ pigeonNeedsHole holes pigeon := h ▸ List.mem_cons_self
  obtain ⟨k, -, hk⟩ := List.mem_map.1 hmem
  have hpos := congrArg Lit.isPositive hk
  simp [spot, Var.positive] at hpos

theorem nodup_holeTakesOne (hh : hole < holes) (pigeons : Nat) : (holeTakesOne holes pigeons hole).Nodup := by
  refine List.nodup_flatMap.2 ⟨fun pigeon _ => List.nodup_range.map_on fun p _ q _ h => (apart_inj hh hh h).2.2, ?_⟩
  refine List.nodup_range.imp fun {p q} hne c hc hc' => ?_
  obtain ⟨_, -, rfl⟩ := List.mem_map.1 hc
  obtain ⟨_, -, h⟩ := List.mem_map.1 hc'
  exact hne (apart_inj hh hh h).2.1.symm

theorem nodup_pigeonHoleClauses (holes : Nat) : (pigeonHoleClauses holes).Nodup := by
  refine List.nodup_append.2 ⟨?_, List.nodup_flatMap.2 ⟨fun hole hh => ?_, ?_⟩, ?_⟩
  · refine List.nodup_range.map_on fun p hp q hq h => ?_
    rcases Nat.eq_zero_or_pos holes with rfl | hpos
    · have hp := List.mem_range.1 hp
      have hq := List.mem_range.1 hq
      omega
    · exact pigeonNeedsHole_inj hpos h
  · exact nodup_holeTakesOne (List.mem_range.1 hh) _
  · refine List.nodup_range.imp_of_mem fun {hole hole'} hh hh' hne c hc hc' => ?_
    simp only [holeTakesOne, List.mem_flatMap, List.mem_map] at hc hc'
    obtain ⟨p, -, q, -, rfl⟩ := hc
    obtain ⟨p', -, q', -, h⟩ := hc'
    exact hne (apart_inj (List.mem_range.1 hh') (List.mem_range.1 hh) h).1.symm
  · rintro c hc _ hc' rfl
    simp only [holeTakesOne, List.mem_flatMap, List.mem_map] at hc hc'
    obtain ⟨p, -, rfl⟩ := hc
    obtain ⟨hole, -, q, -, r, -, h⟩ := hc'
    exact pigeonNeedsHole_ne_apart h.symm

/-! ## The formula that is built -/

theorem span_le {n : Nat} (h : ∀ l ∈ c, l.var.index < n) : span c ≤ n := by
  suffices hf : ∀ k ≤ n, c.foldl (fun n l => max n (l.var.index + 1)) k ≤ n from hf 0 (Nat.zero_le n)
  induction c with
  | nil => exact fun k hk => hk
  | cons l c ih =>
    intro k hk
    exact ih (fun l hl => h l (List.mem_cons_of_mem _ hl)) _ (Nat.max_le.2 ⟨hk, h l List.mem_cons_self⟩)

theorem foldl_add {f : Formula} {cs : List (List Lit)} (h : ∀ c ∈ cs, ∀ l ∈ c, l.var.index < f.varCount) :
    cs.foldl add f = { f with clauses := f.clauses ++ cs.toArray } := by
  induction cs generalizing f with
  | nil => simp
  | cons c cs ih =>
    have hc : f.add c = { f with clauses := f.clauses.push c } := by
      rw [add, Nat.max_eq_left (span_le (h c List.mem_cons_self))]
    have hcs := ih (f := f.add c) (by rw [hc]; exact fun d hd => h d (List.mem_cons_of_mem c hd))
    rw [List.foldl_cons, hcs, hc]
    simp

section Build

variable [Build]

theorem sits_eq (hm : (holes + 1) * holes ≤ Var.maxCount) (hp : pigeon ≤ holes) (hh : hole < holes) :
    sits holes pigeon hole = .ok (spot holes pigeon hole) := by
  have hlt : pigeon * holes + hole < Var.maxCount :=
    Nat.lt_of_lt_of_le (rowIndex_lt (Nat.lt_succ_of_le hp) hh) hm
  have hcode : 2 * (pigeon * holes + hole) % UInt32.size = 2 * (pigeon * holes + hole) :=
    Nat.mod_eq_of_lt (by simp only [Var.maxCount] at hlt; simp only [UInt32.size]; omega)
  have hword : pigeon * holes + hole < UInt64.size := Nat.lt_trans hlt (by decide)
  rw [sits, word_eq (Nat.lt_of_le_of_lt (Nat.le_add_right _ _) hword), ok_bind, word_eq hword, ok_bind, Lit.ofIndex,
    require_bind hlt, hcode]
  rfl

theorem addPigeon_eq (hm : (holes + 1) * holes ≤ Var.maxCount) (hp : pigeon ≤ holes) (f : Formula) :
    addPigeon holes f pigeon = .ok (f.add (pigeonNeedsHole holes pigeon)) := by
  rw [addPigeon, mapM_ok fun hole hh => sits_eq hm hp (List.mem_range.1 hh)]
  rfl

theorem foldlM_addPair_eq (hm : (holes + 1) * holes ≤ Var.maxCount) (hp : pigeon ≤ holes) (hh : hole < holes)
    (f : Formula) : (List.range pigeon).foldlM (addPair holes hole pigeon) f =
      .ok (((List.range pigeon).map (apart holes hole pigeon)).foldl add f) := by
  rw [List.foldl_map]
  refine foldlM_eq fun f other ho => ?_
  have ho := List.mem_range.1 ho
  rw [addPair, sits_eq hm hp hh, ok_bind, sits_eq hm (Nat.le_of_lt (ho.trans_le hp)) hh]
  rfl

theorem addHole_eq (hm : (holes + 1) * holes ≤ Var.maxCount) (hh : hole < holes) (f : Formula) :
    addHole holes (holes + 1) f hole = .ok ((holeTakesOne holes (holes + 1) hole).foldl add f) := by
  rw [holeTakesOne, List.foldl_flatMap]
  exact foldlM_eq fun f pigeon hp => foldlM_addPair_eq hm (Nat.le_of_lt_succ (List.mem_range.1 hp)) hh f

/-- If the variables are among those supported, the clauses are those of the principle. -/
theorem pigeonHole_eq (hm : (holes + 1) * holes ≤ Var.maxCount) :
    pigeonHole holes = .ok ⟨(holes + 1) * holes, (pigeonHoleClauses holes).toArray⟩ := by
  have hpigeons : holes + 1 < UInt64.size := by
    rcases Nat.eq_zero_or_pos holes with rfl | hpos
    · decide
    · exact Nat.lt_of_le_of_lt ((Nat.le_mul_of_pos_right _ hpos).trans hm) (by decide)
  have hneeds (f : Formula) : (List.range (holes + 1)).foldlM (addPigeon holes) f =
      .ok (((List.range (holes + 1)).map (pigeonNeedsHole holes)).foldl add f) := by
    rw [List.foldl_map]
    exact foldlM_eq fun f pigeon hp => addPigeon_eq hm (Nat.le_of_lt_succ (List.mem_range.1 hp)) f
  have htakes (f : Formula) : (List.range holes).foldlM (addHole holes (holes + 1)) f =
      .ok (((List.range holes).flatMap (holeTakesOne holes (holes + 1))).foldl add f) := by
    rw [List.foldl_flatMap]
    exact foldlM_eq fun f hole hh => addHole_eq hm (List.mem_range.1 hh) f
  have hcovered : ∀ c ∈ pigeonHoleClauses holes, ∀ l ∈ c,
      l.var.index < (raiseVarCount {} ((holes + 1) * holes)).varCount := by
    intro c hc l hl
    exact Nat.lt_of_lt_of_le (index_lt_of_pigeonHole hc hl) (Nat.le_max_right _ _)
  rw [pigeonHole, word_eq hpigeons, ok_bind, word_eq (Nat.lt_of_le_of_lt hm (by decide)), ok_bind]
  dsimp only
  rw [hneeds, ok_bind, htakes, ← List.foldl_append, ← pigeonHoleClauses, foldl_add hcovered]
  simp [raiseVarCount]

theorem index_lt_of_sits {l : Lit} (h : sits holes pigeon hole = .ok l) : l.var.index < UInt32.size := by
  obtain ⟨row, -, h⟩ := bind_eq_ok.1 h
  obtain ⟨index, -, h⟩ := bind_eq_ok.1 h
  obtain ⟨-, -, h⟩ := bind_eq_ok.1 h
  cases h
  have := Nat.mod_lt (2 * index) (show 0 < UInt32.size by decide)
  simp only [Lit.var, if_true]
  omega

theorem varCount_lt_of_pigeonHole {f : Formula} (h : pigeonHole holes = .ok f) : f.varCount < UInt64.size := by
  have hadd {f : Formula} {c : List Lit} (hf : f.varCount < UInt64.size)
      (hc : ∀ l ∈ c, l.var.index < UInt32.size) : (f.add c).varCount < UInt64.size :=
    Nat.max_lt.2 ⟨hf, Nat.lt_of_le_of_lt (span_le hc) (by decide)⟩
  obtain ⟨pigeons, -, h⟩ := bind_eq_ok.1 h
  obtain ⟨count, hcount, h⟩ := bind_eq_ok.1 h
  obtain ⟨g, hg, h⟩ := bind_eq_ok.1 h
  have hstart : (raiseVarCount {} count).varCount < UInt64.size :=
    Nat.max_lt.2 ⟨by decide, lt_of_word_eq_ok hcount⟩
  have hneeds := foldlM_keeps (P := fun f => f.varCount < UInt64.size) (fun f f' pigeon _ hf hs => by
    obtain ⟨c, hc, hs⟩ := bind_eq_ok.1 hs
    cases hs
    refine hadd hf fun l hl => ?_
    obtain ⟨hole, -, hl⟩ := exists_of_mapM_eq_ok hc hl
    exact index_lt_of_sits hl) hstart hg
  refine foldlM_keeps (P := fun f => f.varCount < UInt64.size) (fun f f' hole _ hf hs => ?_) hneeds h
  refine foldlM_keeps (P := fun f => f.varCount < UInt64.size) (fun f f' pigeon _ hf hs => ?_) hf hs
  refine foldlM_keeps (P := fun f => f.varCount < UInt64.size) (fun f f' earlier _ hf hs => ?_) hf hs
  obtain ⟨x, hx, hs⟩ := bind_eq_ok.1 hs
  obtain ⟨y, hy, hs⟩ := bind_eq_ok.1 hs
  cases hs
  refine hadd hf fun l hl => ?_
  rcases List.mem_pair.1 hl with rfl | rfl
  · exact Lit.var_neg x ▸ index_lt_of_sits hx
  · exact Lit.var_neg y ▸ index_lt_of_sits hy

end Build

attribute [local instance] Build.checked

theorem checked_word {n k : Nat} (h : @word .checked n = .ok k) : k = n := by
  obtain ⟨_, hn, h⟩ := bind_eq_ok.1 h
  cases h
  exact Nat.mod_eq_of_lt ((require_eq_ok.1 hn).resolve_right nofun)

theorem le_maxCount_of_checked_pigeonHole {f : Formula} (h : @pigeonHole .checked holes = .ok f) :
    (holes + 1) * holes ≤ Var.maxCount := by
  obtain ⟨_, hp, h⟩ := bind_eq_ok.1 h
  obtain ⟨_, _, h⟩ := bind_eq_ok.1 h
  obtain ⟨_, hg, _⟩ := bind_eq_ok.1 h
  obtain rfl := checked_word hp
  rcases Nat.eq_zero_or_pos holes with rfl | hpos
  · decide
  · obtain ⟨_, _, h⟩ := exists_of_foldlM_eq_ok hg (List.mem_range.2 (Nat.lt_succ_self holes))
    obtain ⟨_, hc, _⟩ := bind_eq_ok.1 h
    obtain ⟨_, h⟩ := exists_eq_ok_of_mapM hc (List.mem_range.2 (Nat.sub_lt hpos Nat.one_pos))
    obtain ⟨_, hrow, h⟩ := bind_eq_ok.1 h
    obtain ⟨_, hindex, h⟩ := bind_eq_ok.1 h
    obtain ⟨_, hmax, _⟩ := bind_eq_ok.1 h
    obtain rfl := checked_word hrow
    obtain rfl := checked_word hindex
    have hlast := (require_eq_ok.1 hmax).resolve_right nofun
    rw [Nat.succ_mul]
    omega

/-! ## All sizes -/

/-- **The pigeonhole formula is minimally unsatisfiable.** If the variables are among those supported, in any build the
formula has a variable for each pigeon and hole and no others, no assignment satisfies it, and without any one of its
clauses some assignment does. A build with checks has no other pigeonhole formulas. -/
theorem pigeonHole_minimallyUnsatisfiable (holes : Nat) :
    ((holes + 1) * holes ≤ Var.maxCount → ∀ b : Build, ∃ f, @pigeonHole b holes = .ok f ∧
      f.varCount = (holes + 1) * holes ∧ (∀ c ∈ f.clauses, ∀ l ∈ c, l.var.index < f.varCount) ∧
        f.MinimallyUnsatisfiable) ∧
      ((∃ f, @pigeonHole .checked holes = .ok f) → (holes + 1) * holes ≤ Var.maxCount) := by
  refine ⟨fun hm b => ⟨_, pigeonHole_eq hm, rfl, fun c hc l hl => ?_, fun a => ?_, fun i hi => ?_⟩, ?_⟩
  · exact index_lt_of_pigeonHole (by simpa using hc) hl
  · exact not_satisfiesAll_pigeonHole holes a
  · have hi' : i < (pigeonHoleClauses holes).length := hi
    obtain ⟨a, ha⟩ := exists_seating_without (List.getElem_mem hi')
    refine ⟨a, fun c hc => ?_⟩
    have hnodup := nodup_pigeonHoleClauses holes
    change c ∈ (pigeonHoleClauses holes).eraseIdx i at hc
    rw [← hnodup.erase_getElem i hi', hnodup.mem_erase_iff] at hc
    exact ha c hc.2 hc.1
  · rintro ⟨f, h⟩
    exact le_maxCount_of_checked_pigeonHole h

/-- Two holes make nine clauses over six variables. -/
theorem pigeonHole_minimallyUnsatisfiable_two : (2 + 1) * 2 ≤ Var.maxCount ∧ ∃ f, @pigeonHole .checked 2 = .ok f ∧
    f.clauses[8]? = some [⟨11⟩, ⟨7⟩] ∧ f.MinimallyUnsatisfiable := by
  obtain ⟨f, hf, -, -, hm⟩ := (pigeonHole_minimallyUnsatisfiable 2).1 (by decide) .checked
  refine ⟨by decide, f, hf, ?_, hm⟩
  have h2 := hf.symm.trans (show @pigeonHole .checked 2 = _ from rfl)
  cases h2
  rfl

/-- There is no formula with more variables than a word can count, in whatever build: the generator stops, or the number
of variables wraps around. -/
theorem pigeonHole_not_for_all_sizes : ¬ ∃ (b : Build) (f : Formula), @pigeonHole b (2 ^ 32) = .ok f ∧
    f.varCount = (2 ^ 32 + 1) * 2 ^ 32 := by
  rintro ⟨b, f, h, hcount⟩
  have := varCount_lt_of_pigeonHole h
  rw [hcount] at this
  exact absurd this (by decide)

end ClauseLearning.Formula
