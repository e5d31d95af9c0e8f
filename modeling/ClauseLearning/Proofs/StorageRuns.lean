import Mathlib.Data.List.Perm.Subperm
import ClauseLearning.Proofs.Accounts
import ClauseLearning.Proofs.ClauseLives
import ClauseLearning.Proofs.Compaction
import ClauseLearning.Proofs.Headers

/-!
# The storage of a clause database

The clauses of a database are kept in a storage, `Database.Held`. Whatever a run does to the database can be done by
adding, changing and compacting clauses of the storage.

* `Storage.Built.rewrite` : a clause becomes one with a part of its literals, in any order;
* `Database.Unmoved`, `Database.Held.age` : steps in which clauses stay in place;
* `Database.Held.add`, `Database.Held.compact` : the others;
* `Stock.Step.held` : all steps of a run, as long as the storage has room.
-/

namespace ClauseLearning

theorem Clause.codes_subperm {c c' : Clause} (h : c'.lits.Subperm c.lits) : c'.codes.Subperm c.codes := by
  obtain ⟨ls, hperm, hsub⟩ := h
  exact ⟨_, hperm.map _, hsub.map _⟩

theorem Clause.length_codes (c : Clause) : c.codes.length = c.size := by
  rw [codes, List.length_map]
  rfl

namespace Storage

variable {s s' : Storage} {r q : UInt32} {rs cs : List UInt32} {h : Header} {c : Clause}

/-- A clause is stored at a reference. -/
structure Holds (s : Storage) (r : UInt32) (c : Clause) : Prop where
  header_eq : s.header r = c.header
  codes_eq : s.codes r = c.codes

theorem Holds.of_same (hs : s.Holds r c) (h : s.Same r s' q) : s'.Holds q c :=
  ⟨h.header_eq.trans hs.header_eq, h.codes_eq.trans hs.codes_eq⟩

theorem Laid.extent_eq_words (hl : s.Laid rs) (hr : r ∈ rs) (h : s.Holds r c) : s.extent r = c.words := by
  have hlen := hl.length_codes hr
  rw [h.codes_eq, Clause.codes, List.length_map] at hlen
  rw [extent, ← hlen]
  rfl

theorem Filled.words_take {a : Nat} {cs : List Clause} (hf : s.Filled a rs)
    (hc : List.Forall₂ (fun q c => s.Holds q c) rs cs) :
    (∀ i, (hi : i < rs.length) → rs[i].toNat = a + Database.wordsOf (cs.take i)) ∧
      s.words.size = a + Database.wordsOf cs := by
  induction hc generalizing a with
  | nil => exact ⟨fun i hi => absurd hi (Nat.not_lt_zero i), hf.symm⟩
  | @cons r c rs cs hr _ ih =>
    have hext := hf.laid.extent_eq_words List.mem_cons_self hr
    obtain ⟨hra, hf⟩ := hf
    obtain ⟨hplaces, hsize⟩ := ih hf
    refine ⟨fun i hi => ?_, ?_⟩
    · cases i with
      | zero => exact hra
      | succ i =>
        rw [List.getElem_cons_succ, hplaces i (Nat.lt_of_succ_lt_succ hi), hext, Nat.add_assoc]
        rfl
    · rw [hsize, hext, Nat.add_assoc]
      rfl

/-- A clause becomes one with a part of its literals, in any order, while the others stay as they are. -/
theorem Built.rewrite (hb : s.Built rs) (h : Header) (hr : r ∈ rs) (hs : cs.Subperm (s.codes r))
    (hn : h.length = UInt32.ofNat cs.length) : ∃ s' : Storage, s'.Built rs ∧ s'.words.size = s.words.size ∧
      s'.header r = h ∧ s'.codes r = cs ∧ ∀ q ∈ rs, q ≠ r → s.Same q s' q := by
  have hl := hb.laid
  obtain ⟨ls, hperm, hsub⟩ := hs
  obtain ⟨rest, hrest⟩ := hsub.exists_perm_append
  have hcs : (cs ++ rest).Perm (s.codes r) := (hperm.symm.append_right rest).trans hrest.symm
  have hlen : (cs ++ rest).length = (s.header r).length.toNat := hcs.length_eq.trans (hl.length_codes hr)
  have hn' : h.length.toNat = cs.length := by
    rw [hn]
    refine UInt32.toNat_ofNat_of_lt' (Nat.lt_of_le_of_lt ?_ (UInt32.toNat_lt (s.header r).length))
    rw [← hlen, List.length_append]
    exact Nat.le_add_right _ _
  -- the literals that stay are put first, and the clause is cut off behind them
  have hb' := hb.permute hr hcs
  have hle : h.length ≤ ((s.setCodes r (cs ++ rest)).header r).length := by
    rw [header_setCodes hl hr hlen, UInt32.le_iff_toNat_le, hn', ← hlen, List.length_append]
    exact Nat.le_add_right _ _
  refine ⟨_, hb'.change hr hle, ?_, header_setHeader hb'.laid hr, ?_, fun q hq hne => ?_⟩
  · exact (size_setHeader hb'.laid hr).trans (size_setCodes hl hr hlen)
  · rw [codes_setHeader hb'.laid hr hle, codes_setCodes hl hr hlen, hn', List.take_left]
  · exact (hl.same_setCodes hr hlen hq hne).trans (hb'.laid.same_setHeader hr hq hne)

end Storage

namespace Database

variable {d e : Database} {r q : ClauseRef}

/-! ## Clauses that stay in place -/

/-- The words of clauses are where they were. -/
structure Unmoved (d e : Database) : Prop where
  size_eq : e.slots.size = d.slots.size
  offsets_eq : e.offsets = d.offsets
  words_eq : e.words = d.words

namespace Unmoved

theorem refl (d : Database) : d.Unmoved d := ⟨rfl, rfl, rfl⟩

theorem trans {d₁ d₂ d₃ : Database} (h : d₁.Unmoved d₂) (h' : d₂.Unmoved d₃) : d₁.Unmoved d₃ :=
  ⟨h'.size_eq.trans h.size_eq, h'.offsets_eq.trans h.offsets_eq, h'.words_eq.trans h.words_eq⟩

theorem modify (d : Database) (r : ClauseRef) (f : Clause → Clause) : d.Unmoved (d.modify r f) :=
  ⟨size_modify, rfl, rfl⟩

theorem delete (d : Database) (r : ClauseRef) : d.Unmoved (d.delete r) := ⟨size_delete, rfl, rfl⟩

theorem setTier (d : Database) (r : ClauseRef) (t : Tier) : d.Unmoved (d.setTier r t) := by
  unfold Database.setTier
  dsimp only
  split
  · exact refl d
  · exact ⟨Array.size_modify, rfl, rfl⟩

theorem sweepList (keep? : Clause → Option Clause) (rs : List ClauseRef) (kept : Array ClauseRef) (d : Database) :
    d.Unmoved (sweepList keep? rs kept d).2 := by
  induction rs generalizing kept d with
  | nil => exact refl d
  | cons r rs ih =>
    rw [Database.sweepList]
    dsimp only
    split
    · exact ih kept d
    · split
      · refine trans ?_ (ih _ _)
        exact ⟨size_modify, rfl, rfl⟩
      · exact (delete d r).trans (ih _ _)

theorem sweep (d : Database) (keep? : Clause → Option Clause) : d.Unmoved (d.sweep keep?) :=
  (sweepList keep? d.listed.toList #[] d).trans ⟨rfl, rfl, rfl⟩

theorem rescale (d : Database) : d.Unmoved d.rescale := by
  have hall (rs : List ClauseRef) (e : Database) (he : d.Unmoved e) : d.Unmoved
      (rs.foldl (fun d r => d.modify r fun c => { c with activity := c.activity * rescaleFactor }) e) := by
    induction rs generalizing e with
    | nil => exact he
    | cons r rs ih => exact ih _ (he.trans (modify e r _))
  exact hall d.live _ ⟨rfl, rfl, rfl⟩

theorem firstEntries (t : Tier) (rs : List ClauseRef) (d : Database) : d.Unmoved (firstEntries t rs d).2 := by
  induction rs generalizing d with
  | nil => exact refl d
  | cons r rs ih =>
    rw [Database.firstEntries]
    dsimp only
    split
    · exact ih d
    · exact (modify d r _).trans (ih _)

theorem cull (rs : List ClauseRef) (quota : Nat) (p : Propagator) :
    p.clauses.Unmoved (Propagator.cull rs quota p).2.clauses := by
  induction rs generalizing quota p with
  | nil => exact refl _
  | cons r rs ih =>
    have hunmark : p.clauses.Unmoved (p.clauses.unmark r) := modify _ _ _
    rw [Propagator.cull]
    dsimp only
    refine hunmark.trans ?_
    split
    · exact ih 0 { p with clauses := p.clauses.unmark r }
    · split
      · exact (modify _ r _).trans (ih quota { p with clauses := _ })
      · split
        · exact ih quota { p with clauses := p.clauses.unmark r }
        · exact (delete _ r).trans (ih (quota - 1) { p with clauses := _ })

theorem demote (rs : List ClauseRef) (d : Database) : d.Unmoved (Propagator.demote rs d).2 := by
  induction rs generalizing d with
  | nil => exact refl d
  | cons r rs ih =>
    have hunmark : d.Unmoved (d.unmark r) := modify _ _ _
    rw [Propagator.demote]
    dsimp only
    refine hunmark.trans ?_
    split
    · exact (modify _ r _).trans (ih _)
    · exact (setTier _ r _).trans (ih _)

theorem reduceLocals (p : Propagator) (ties : TieOrder) : p.clauses.Unmoved (p.reduceLocals ties).2.clauses := by
  have hentries := firstEntries .loc p.clauses.byTier.loc.toList p.clauses
  unfold Propagator.reduceLocals
  generalize p.clauses.firstEntries .loc p.clauses.byTier.loc.toList = out at hentries
  obtain ⟨entries, clauses⟩ := out
  have hcull (locals : List ClauseRef) := cull locals (locals.length / 2) { p with clauses := clauses }
  exact (hentries.trans (hcull _)).trans ⟨rfl, rfl, rfl⟩

theorem reduceMids (p : Propagator) : p.clauses.Unmoved p.reduceMids.2.clauses := by
  have hentries := firstEntries .mid p.clauses.byTier.mid.toList p.clauses
  unfold Propagator.reduceMids
  generalize p.clauses.firstEntries .mid p.clauses.byTier.mid.toList = out at hentries
  obtain ⟨entries, clauses⟩ := out
  exact (hentries.trans (demote entries clauses)).trans ⟨rfl, rfl, rfl⟩

end Unmoved

end Database

/-! ## Databases in storages -/

namespace Database

open Storage (Holds Built Same)

variable {d e : Database} {s : Storage} {rs : List UInt32} {r q : ClauseRef} {c : Clause}

/-- The reference of a clause in the storage. -/
def place (d : Database) (r : ClauseRef) : UInt32 := UInt32.ofNat (d.offset r)

/-- A storage that holds the clauses of a database, deleted ones included. -/
structure Held (d : Database) (s : Storage) (rs : List UInt32) : Prop where
  built : s.Built rs
  size_eq : s.words.size = d.words
  offset_lt {r : ClauseRef} : r < d.slots.size → d.offset r < UInt32.size
  ascending {r q : ClauseRef} : r < q → q < d.slots.size → d.offset r < d.offset q
  mem {r : ClauseRef} : r < d.slots.size → d.place r ∈ rs
  holds {r : ClauseRef} : r < d.slots.size → s.Holds (d.place r) (d.get r)

theorem held_empty : ({} : Database).Held {} [] where
  built := .empty
  size_eq := rfl
  offset_lt h := absurd h (Nat.not_lt_zero _)
  ascending _ h := absurd h (Nat.not_lt_zero _)
  mem h := absurd h (Nat.not_lt_zero _)
  holds h := absurd h (Nat.not_lt_zero _)

namespace Held

theorem toNat_place (h : d.Held s rs) (hr : r < d.slots.size) : (d.place r).toNat = d.offset r :=
  UInt32.toNat_ofNat_of_lt' (h.offset_lt hr)

theorem place_inj (h : d.Held s rs) (hr : r < d.slots.size) (hq : q < d.slots.size) (he : d.place r = d.place q) :
    r = q := by
  have hoff : d.offset r = d.offset q := by rw [← h.toNat_place hr, he, h.toNat_place hq]
  rcases Nat.lt_trichotomy r q with hlt | heq | hgt
  · exact absurd hoff (Nat.ne_of_lt (h.ascending hlt hq))
  · exact heq
  · exact absurd hoff.symm (Nat.ne_of_lt (h.ascending hgt hr))

theorem offset_lt_words (h : d.Held s rs) (hr : r < d.slots.size) : d.offset r < d.words := by
  have hin := h.built.laid.within (h.mem hr)
  have h3 := s.three_le_extent (d.place r)
  rw [h.toNat_place hr, h.size_eq] at hin
  omega

theorem room (h : d.Held s rs) (hw : d.words + c.words ≤ UInt32.size) : ∃ r s',
    s.add? c.header c.codes = some (r, s') ∧ r.toNat = d.words ∧ s'.words.size = d.words + c.words ∧ s'.Holds r c := by
  have hc : c.codes.length < UInt32.size := by
    rw [c.length_codes]
    unfold Clause.words at hw
    omega
  have hroom : s.words.size < UInt32.size := by
    rw [h.size_eq]
    unfold Clause.words at hw
    omega
  obtain ⟨r, s', ha⟩ : ∃ r s', s.add? c.header c.codes = some (r, s') :=
    ⟨_, _, if_pos ⟨c.length_codes ▸ Nat.le_add_left 2 _, hroom⟩⟩
  refine ⟨r, s', ha, (Storage.add?_eq_some ha).1.trans h.size_eq, ?_, ?_, Storage.codes_add ha hc⟩
  · rw [Storage.size_add ha, h.size_eq, c.length_codes]
    rfl
  · rw [Storage.header_add ha, c.length_codes]
    rfl

/-- A clause is added to both. -/
theorem add (h : d.Held s rs) (hb : d.Balanced) (hw : d.words + c.words ≤ UInt32.size) :
    ∃ r s', s.add? c.header c.codes = some (r, s') ∧ (d.add c).2.Held s' (r :: rs) := by
  obtain ⟨r, s', ha, hr, hsize, hholds⟩ := h.room hw
  have hnew : (d.add c).2.place d.slots.size = r := by
    rw [place, offset_add hb, if_pos rfl, ← hr, UInt32.ofNat_toNat]
  have hold {q : ClauseRef} (hq : q < d.slots.size) : (d.add c).2.offset q = d.offset q := by
    rw [offset_add hb, if_neg (Nat.ne_of_lt hq)]
  have hplace {q : ClauseRef} (hq : q < d.slots.size) : (d.add c).2.place q = d.place q := by rw [place, hold hq, place]
  have hcases {q : ClauseRef} (hq : q < (d.add c).2.slots.size) : q < d.slots.size ∨ q = d.slots.size := by
    rw [size_add] at hq
    exact Nat.lt_succ_iff_lt_or_eq.1 hq
  refine ⟨r, s', ha, h.built.add ha, hsize, fun hq => ?_, fun {q p} hlt hp => ?_, fun hq => ?_, fun hq => ?_⟩
  · rcases hcases hq with hq | rfl
    · exact hold hq ▸ h.offset_lt hq
    · rw [offset_add hb, if_pos rfl, ← hr]
      exact r.toNat_lt
  · rcases hcases hp with hp | rfl
    · rw [hold hp, hold (Nat.lt_trans hlt hp)]
      exact h.ascending hlt hp
    · rw [hold hlt, offset_add hb, if_pos rfl]
      exact h.offset_lt_words hlt
  · rcases hcases hq with hq | rfl
    · exact List.mem_cons_of_mem r (hplace hq ▸ h.mem hq)
    · exact hnew ▸ List.mem_cons_self
  · rw [get_add]
    rcases hcases hq with hq | rfl
    · rw [if_neg (Nat.ne_of_lt hq), hplace hq]
      exact (h.holds hq).of_same (h.built.laid.same_add ha (h.mem hq))
    · rw [if_pos rfl, hnew]
      exact hholds

theorem rewrites (h : d.Held s rs) (hl : ∀ r < d.slots.size, (e.get r).lits.Subperm (d.get r).lits) {n : Nat}
    (hn : n ≤ d.slots.size) : ∃ s' : Storage, s'.Built rs ∧ s'.words.size = d.words ∧
      ∀ r < d.slots.size, s'.Holds (d.place r) (if r < n then e.get r else d.get r) := by
  induction n with
  | zero => exact ⟨s, h.built, h.size_eq, fun r hr => h.holds hr⟩
  | succ n ih =>
    obtain ⟨s', hb, hsize, hholds⟩ := ih (Nat.le_of_succ_le hn)
    have hcodes := (hholds n hn).codes_eq
    rw [if_neg (Nat.lt_irrefl n)] at hcodes
    obtain ⟨s'', hb', hsize', hheader, hcodes', hsame⟩ := hb.rewrite (e.get n).header
      (h.mem hn) (hcodes ▸ Clause.codes_subperm (hl n hn)) (congrArg UInt32.ofNat (e.get n).length_codes.symm)
    refine ⟨s'', hb', hsize'.trans hsize, fun r hr => ?_⟩
    by_cases hrn : r = n
    · rw [hrn, if_pos (Nat.lt_succ_self n)]
      exact ⟨hheader, hcodes'⟩
    · have := (hholds r hr).of_same (hsame _ (h.mem hr) fun he => hrn (h.place_inj hr hn he))
      rwa [if_congr (show r < n ↔ r < n + 1 by omega) rfl rfl] at this

/-- Each clause keeps a part of its literals. -/
theorem age (h : d.Held s rs) (hu : d.Unmoved e)
    (hl : ∀ r < d.slots.size, (e.get r).lits.Subperm (d.get r).lits) : ∃ s' : Storage, e.Held s' rs := by
  have hoffset (r : ClauseRef) : e.offset r = d.offset r := by rw [offset, hu.offsets_eq, offset]
  have hplace (r : ClauseRef) : e.place r = d.place r := by rw [place, hoffset, place]
  have hlt {r : ClauseRef} (hr : r < e.slots.size) : r < d.slots.size := hu.size_eq ▸ hr
  obtain ⟨s', hb, hsize, hholds⟩ := h.rewrites hl (Nat.le_refl _)
  refine ⟨s', hb, hsize.trans hu.words_eq.symm, fun {r} hr => ?_, fun {r q} hrq hq => ?_, fun {r} hr => ?_,
    fun {r} hr => ?_⟩
  · exact hoffset r ▸ h.offset_lt (hlt hr)
  · rw [hoffset, hoffset]
    exact h.ascending hrq (hlt hq)
  · exact hplace r ▸ h.mem (hlt hr)
  · have := hholds r (hlt hr)
    rw [if_pos (hlt hr)] at this
    exact hplace r ▸ this

theorem kept_eq (h : d.Held s rs) (hl : d.Listed) : s.kept (d.listed.map d.place) =
    ((sortBy d.offset d.listed.toList).filter d.isLive).map d.place := by
  have hperm := sortBy_perm d.offset d.listed.toList
  have hsort : sortBy UInt32.toNat (d.listed.map d.place).toList = (sortBy d.offset d.listed.toList).map d.place := by
    refine (sortBy_sorted _ _).eq_of_perm (fun _ _ => UInt32.toNat_inj.1) ?_ ?_
    · refine List.pairwise_map.2 ((sortBy_sorted d.offset d.listed.toList).imp_of_mem fun hr hq hle => ?_)
      show (d.place _).toNat ≤ (d.place _).toNat
      rw [h.toNat_place (hl.lt (hperm.mem_iff.1 hr)), h.toNat_place (hl.lt (hperm.mem_iff.1 hq))]
      exact hle
    · rw [Array.toList_map]
      exact (sortBy_perm _ _).trans (hperm.map _).symm
  rw [Storage.kept, hsort, List.filter_map]
  refine congrArg _ (List.filter_congr fun r hr => ?_)
  rw [Function.comp_apply, Storage.keeps, (h.holds (hl.lt (hperm.mem_iff.1 hr))).header_eq, (d.get r).reads_header.1,
    isLive]

theorem of_filled (hb : s.Built rs) (hf : s.Filled 0 rs)
    (hh : List.Forall₂ (fun q c => s.Holds q c) rs (d.gather d.listed.toList)) : d.compact.2.Held s rs := by
  obtain ⟨hplaces, hsize⟩ := hf.words_take hh
  have hlt {r : ClauseRef} (hr : r < d.compact.2.slots.size) : r < rs.length := by
    rwa [size_compact, ← hh.length_eq] at hr
  have hoffset {r : ClauseRef} (hr : r < d.compact.2.slots.size) :
      d.compact.2.offset r = (rs.get ⟨r, hlt hr⟩).toNat := by
    rw [offset_compact (size_compact ▸ hr), List.get_eq_getElem, hplaces r (hlt hr), Nat.zero_add]
  have hplace {r : ClauseRef} (hr : r < d.compact.2.slots.size) : d.compact.2.place r = rs.get ⟨r, hlt hr⟩ := by
    rw [place, hoffset hr, UInt32.ofNat_toNat]
  refine ⟨hb, hsize.trans (Nat.zero_add _), fun hr => ?_, fun {r q} hrq hq => ?_, fun hr => ?_, fun {r} hr => ?_⟩
  · exact hoffset hr ▸ UInt32.toNat_lt _
  · rw [size_compact] at hq
    rw [offset_compact (Nat.lt_trans hrq hq), offset_compact hq]
    exact Nat.lt_of_lt_of_le (Nat.lt_add_of_pos_right (Nat.add_pos_left (by decide) _))
      (wordsOf_take_add (Nat.lt_trans hrq hq) hrq)
  · exact hplace hr ▸ List.get_mem _ _
  · rw [hplace hr, get_compact (size_compact ▸ hr)]
    exact (List.forall₂_iff_get.1 hh).2 r (hlt hr) (size_compact ▸ hr)

/-- Both are compacted alike. -/
theorem compact (h : d.Held s rs) (hl : d.Listed) : (s.compact (d.listed.map d.place)).1 = d.compact.1 ∧
    d.compact.2.Held (s.compact (d.listed.map d.place)).2.2 (s.compact (d.listed.map d.place)).2.1.toList := by
  have hn : (d.listed.map d.place).toList.Nodup := by
    rw [Array.toList_map]
    exact hl.nodup.map_on fun r hr q hq he => h.place_inj (hl.lt hr) (hl.lt hq) he
  have hsub : ∀ r ∈ (d.listed.map d.place).toList, r ∈ rs := by
    intro r hr
    rw [Array.toList_map, List.mem_map] at hr
    obtain ⟨q, hq, rfl⟩ := hr
    exact h.mem (hl.lt hq)
  obtain ⟨hsame, hfilled, hfreed⟩ := h.built.laid.compact hn hsub
  rw [h.kept_eq hl, List.forall₂_map_left_iff] at hsame
  -- each clause that stays is the same at its new reference
  have hholds : List.Forall₂ (fun q c => (s.compact (d.listed.map d.place)).2.2.Holds q c)
      (s.compact (d.listed.map d.place)).2.1.toList (d.gather d.listed.toList) := by
    rw [gather_eq, List.forall₂_map_right_iff]
    refine List.forall₂_iff_get.2 ⟨hsame.length_eq.symm, fun i hi hi' => ?_⟩
    have hmem := (sortBy_perm d.offset d.listed.toList).mem_iff.1 (List.mem_filter.1 (List.get_mem _ ⟨i, hi'⟩)).1
    exact (h.holds (hl.lt hmem)).of_same ((List.forall₂_iff_get.1 hsame).2 i hi' hi)
  have hcompact := of_filled (h.built.compact hn hsub) hfilled hholds
  refine ⟨?_, hcompact⟩
  show _ = d.words - d.compact.2.words
  rw [← hcompact.size_eq, ← h.size_eq, ← hfreed, Nat.add_sub_cancel]

end Held

end Database

namespace Stock

variable {σ τ : Stock}

theorem Edit.unmoved (h : σ.Edit τ) : σ.clauses.Unmoved τ.clauses ∨ ∃ c, τ.clauses = (σ.clauses.add c).2 := by
  cases h with
  | add hc => exact .inr ⟨_, rfl⟩
  | delete hr => exact .inl (.delete _ _)
  | permute hf => exact .inl (.modify _ _ _)
  | sweep hk => exact .inl (.sweep _ _)
  | activate hr => exact .inl (.modify _ _ _)
  | regrade hr hl hg => exact .inl ((Database.Unmoved.modify _ _ _).trans (.setTier _ _ _))
  | @bump d a r =>
    refine .inl ?_
    dsimp only [Database.bumpActivity]
    split
    · exact (Database.Unmoved.modify d r _).trans (.rescale _)
    · exact .modify d r _
  | @decay d a =>
    refine .inl ?_
    dsimp only [Database.decayActivities]
    split
    · exact .rescale d
    · exact .refl d
  | configure => exact .inl (.refl _)
  | reduceLocals ties => exact .inl (.reduceLocals _ ties)
  | reduceMids => exact .inl (.reduceMids _)

/-- What a step does to the clauses can be done in their storage, as long as that has room. -/
theorem Step.held {s : Storage} {rs : List UInt32} (hstep : σ.Step τ) (ha : σ.clauses.Accounted)
    (h : σ.clauses.Held s rs) (hw : τ.clauses.words ≤ UInt32.size) : ∃ s' rs', τ.clauses.Held s' rs' := by
  cases hstep with
  | edit he =>
    rcases he.unmoved with hu | ⟨c, hc⟩
    · obtain ⟨s', hs'⟩ := h.age hu fun r hr => by
        rcases he.aged ha r with hage | ⟨rfl, -⟩
        · exact hage.lits
        · exact absurd hr (Nat.lt_irrefl _)
      exact ⟨s', rs, hs'⟩
    · rw [hc] at hw ⊢
      obtain ⟨r, s', -, hs'⟩ := h.add ha.toBalanced hw
      exact ⟨s', r :: rs, hs'⟩
  | compact => exact ⟨_, _, (h.compact ha.toListed).2⟩

/-- Some steps in which the storage is never exhausted. -/
def RoomySteps (σ τ : Stock) : Prop := Relation.ReflTransGen (fun σ τ => σ.Step τ ∧ τ.clauses.words ≤ UInt32.size) σ τ

theorem RoomySteps.steps (h : σ.RoomySteps τ) : σ.Steps τ := by
  induction h with
  | refl => exact .refl _
  | tail _ h ih => exact ih.tail h.1

/-- The clauses of a run are held by a storage. -/
theorem RoomySteps.held (h : RoomySteps {} τ) : ∃ s rs, τ.clauses.Held s rs := by
  induction h with
  | refl => exact ⟨_, _, Database.held_empty⟩
  | tail h hstep ih =>
    obtain ⟨s, rs, hs⟩ := ih
    exact hstep.1.held ((RoomySteps.steps h).accounted Database.accounted_empty) hs hstep.2

end Stock

end ClauseLearning
