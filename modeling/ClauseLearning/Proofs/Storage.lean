import Mathlib.Data.List.GetD
import ClauseLearning.Proofs.Sorting
import ClauseLearning.Storage

/-!
# Clause storage

* `Storage.Same` : a clause reads the same in two storages;
* `Storage.Laid` : the words of different clauses do not overlap;
* `Storage.Laid.write` : what is written over a clause leaves the others as they are.
-/

namespace ClauseLearning

namespace Storage

variable {s s' : Storage} {r q : UInt32} {i j k n : Nat} {ws cs : List UInt32} {rs : List UInt32} {h : Header}

/-! ## Words -/

theorem word_eq (s : Storage) (i : Nat) : s.word i = s.words.toList.getD i 0 := by
  rw [word, Array.getD_eq_getD_getElem?, List.getD_eq_getElem?_getD, Array.getElem?_toList]

theorem toList_slice (s : Storage) (i n : Nat) : s.slice i n = (s.words.toList.drop i).take n := by
  rw [slice, Array.toList_extract, List.extract, Nat.add_sub_cancel_left]

theorem length_slice (h : i + n ≤ s.words.size) : (s.slice i n).length = n := by
  rw [toList_slice, List.length_take, List.length_drop, Array.length_toList]
  omega

theorem getD_slice (hk : k < n) : (s.slice i n).getD k 0 = s.word (i + k) := by
  rw [toList_slice, word_eq, List.getD_eq_getElem?_getD, List.getElem?_take_of_lt hk, List.getElem?_drop,
    List.getD_eq_getElem?_getD]

theorem slice_congr (hi : i + n ≤ s.words.size) (hj : j + n ≤ s'.words.size)
    (hw : ∀ k < n, s'.word (j + k) = s.word (i + k)) : s'.slice j n = s.slice i n := by
  refine List.ext_getElem ((length_slice hj).trans (length_slice hi).symm) fun k hk hk' => ?_
  rw [length_slice hj] at hk
  have hword := hw k hk
  rw [← getD_slice hk, ← getD_slice hk] at hword
  rwa [List.getD_eq_getElem _ _ (by rwa [length_slice hj]), List.getD_eq_getElem _ _ hk'] at hword

theorem toList_write (s : Storage) (i : Nat) (ws : List UInt32) :
    (s.write i ws).words.toList = s.words.toList.take i ++ ws ++ s.words.toList.drop (i + ws.length) := by
  rw [write, Array.toList_append, Array.toList_append, Array.toList_extract, Array.toList_extract, List.extract,
    List.extract, List.drop_zero, Nat.sub_zero, ← Array.length_toList, ← List.length_drop, List.take_length]

theorem size_write (hi : i + ws.length ≤ s.words.size) : (s.write i ws).words.size = s.words.size := by
  rw [← Array.length_toList, toList_write, List.length_append, List.length_append, List.length_take,
    List.length_drop, Array.length_toList]
  omega

theorem word_write (hi : i + ws.length ≤ s.words.size) (j : Nat) :
    (s.write i ws).word j = if i ≤ j ∧ j < i + ws.length then ws.getD (j - i) 0 else s.word j := by
  have hlen : (s.words.toList.take i).length = i := by
    rw [List.length_take, Array.length_toList]
    omega
  rw [word_eq, word_eq, toList_write, List.append_assoc]
  simp only [List.getD_eq_getElem?_getD]
  split
  · next hj => rw [List.getElem?_append_right (hlen.symm ▸ hj.1), hlen, List.getElem?_append_left (by omega)]
  · next hj =>
    rcases Nat.lt_or_ge j i with hlt | hge
    · rw [List.getElem?_append_left (hlen.symm ▸ hlt), List.getElem?_take_of_lt hlt]
    · rw [List.getElem?_append_right (hlen.symm ▸ hge), hlen, List.getElem?_append_right (by omega), List.getElem?_drop]
      congr 2
      omega

/-! ## Clauses -/

theorem three_le_extent (s : Storage) (r : UInt32) : 3 ≤ s.extent r := Nat.le_add_right 3 _

/-- A clause reads the same at a reference of another storage. -/
structure Same (s : Storage) (r : UInt32) (s' : Storage) (q : UInt32) : Prop where
  header_eq : s'.header q = s.header r
  codes_eq : s'.codes q = s.codes r

theorem Same.trans {s'' : Storage} {p : UInt32} (h : s.Same r s' q) (h' : s'.Same q s'' p) : s.Same r s'' p :=
  ⟨h'.header_eq.trans h.header_eq, h'.codes_eq.trans h.codes_eq⟩

theorem Same.extent_eq (h : s.Same r s' q) : s'.extent q = s.extent r := by rw [extent, h.header_eq, extent]

theorem header_congr (hw : ∀ k < 3, s'.word (q.toNat + k) = s.word (r.toNat + k)) : s'.header q = s.header r := by
  have h0 := hw 0 (by decide)
  have h1 := hw 1 (by decide)
  have h2 := hw 2 (by decide)
  rw [Nat.add_zero, Nat.add_zero] at h0
  rw [header, header, h0, h1, h2]

theorem same_of_words (hr : r.toNat + s.extent r ≤ s.words.size) (hq : q.toNat + s.extent r ≤ s'.words.size)
    (hw : ∀ k < s.extent r, s'.word (q.toNat + k) = s.word (r.toNat + k)) : s.Same r s' q := by
  have h3 := three_le_extent s r
  have hheader : s'.header q = s.header r := header_congr fun k hk => hw k (Nat.lt_of_lt_of_le hk h3)
  refine ⟨hheader, ?_⟩
  unfold extent at hr hq hw
  rw [codes, codes, hheader]
  refine slice_congr (by omega) (by omega) fun k hk => ?_
  have hword := hw (3 + k) (by omega)
  rwa [← Nat.add_assoc, ← Nat.add_assoc] at hword

/-- The clauses of some references are in use, and their words do not overlap. -/
structure Laid (s : Storage) (rs : List UInt32) : Prop where
  within {r : UInt32} : r ∈ rs → r.toNat + s.extent r ≤ s.words.size
  apart {r q : UInt32} : r ∈ rs → q ∈ rs → r.toNat < q.toNat → r.toNat + s.extent r ≤ q.toNat

theorem laid_nil (s : Storage) : s.Laid [] := ⟨fun h => absurd h List.not_mem_nil, fun h => absurd h List.not_mem_nil⟩

theorem Laid.length_codes (hl : s.Laid rs) (hr : r ∈ rs) : (s.codes r).length = (s.header r).length.toNat := by
  have hin := hl.within hr
  unfold extent at hin
  exact length_slice (by omega)

theorem Laid.same_write (hl : s.Laid rs) (hr : r ∈ rs) (hi : r.toNat ≤ i) (hn : i + ws.length ≤ r.toNat + s.extent r)
    (hq : q ∈ rs) (hne : q ≠ r) : s.Same q (s.write i ws) q := by
  have hrin := hl.within hr
  have hqin := hl.within hq
  have hsize : (s.write i ws).words.size = s.words.size := size_write (by omega)
  refine same_of_words hqin (hsize ▸ hqin) fun k hk => ?_
  rw [word_write (by omega), if_neg ?_]
  rcases Nat.lt_or_gt_of_ne fun he => hne (UInt32.toNat_inj.1 he) with hlt | hgt
  · have := hl.apart hq hr hlt
    omega
  · have := hl.apart hr hq hgt
    omega

/-- Words of a clause may be written over so that it takes no more words than before. -/
theorem Laid.write (hl : s.Laid rs) (hr : r ∈ rs) (hi : r.toNat ≤ i) (hn : i + ws.length ≤ r.toNat + s.extent r)
    (he : (s.write i ws).extent r ≤ s.extent r) : (s.write i ws).Laid rs := by
  have hsize : (s.write i ws).words.size = s.words.size := size_write (Nat.le_trans hn (hl.within hr))
  have hle {q : UInt32} (hq : q ∈ rs) : (s.write i ws).extent q ≤ s.extent q := by
    by_cases hqr : q = r
    · exact hqr ▸ he
    · exact Nat.le_of_eq (hl.same_write hr hi hn hq hqr).extent_eq
  refine ⟨fun hq => ?_, fun hq hp hlt => ?_⟩
  · rw [hsize]
    exact Nat.le_trans (Nat.add_le_add_left (hle hq) _) (hl.within hq)
  · exact Nat.le_trans (Nat.add_le_add_left (hle hq) _) (hl.apart hq hp hlt)

/-! ## Literals in place -/

section setCodes

variable (hl : s.Laid rs) (hr : r ∈ rs) (hn : cs.length = (s.header r).length.toNat)

include hn in
theorem setCodes_within : r.toNat + 3 + cs.length ≤ r.toNat + s.extent r := by
  rw [extent, hn]
  omega

include hl hr hn

theorem size_setCodes : (s.setCodes r cs).words.size = s.words.size :=
  size_write (Nat.le_trans (setCodes_within hn) (hl.within hr))

theorem Laid.same_setCodes (hq : q ∈ rs) (hne : q ≠ r) : s.Same q (s.setCodes r cs) q :=
  hl.same_write hr (Nat.le_add_right _ 3) (setCodes_within hn) hq hne

theorem header_setCodes : (s.setCodes r cs).header r = s.header r := by
  have hin := hl.within hr
  have hn' := setCodes_within hn
  refine header_congr fun k hk => ?_
  rw [setCodes, word_write (by omega), if_neg (by omega)]

theorem codes_setCodes : (s.setCodes r cs).codes r = cs := by
  have hin := hl.within hr
  have hn' := setCodes_within hn
  have hsize := size_setCodes hl hr hn
  rw [codes, header_setCodes hl hr hn, ← hn]
  refine List.ext_getElem (length_slice (by omega)) fun k hk hk' => ?_
  rw [← List.getD_eq_getElem _ 0 hk, getD_slice hk', setCodes, word_write (by omega), if_pos (by omega),
    Nat.add_sub_cancel_left, List.getD_eq_getElem _ _ hk']

theorem Laid.setCodes : (s.setCodes r cs).Laid rs :=
  hl.write hr (Nat.le_add_right _ _) (setCodes_within hn) <| by
    rw [← Storage.setCodes, extent, header_setCodes hl hr hn]
    exact Nat.le_refl _

end setCodes

/-! ## Headers in place -/

section setHeader

variable (hl : s.Laid rs) (hr : r ∈ rs)

theorem header_within (r : UInt32) (h : Header) : r.toNat + h.words.length ≤ r.toNat + s.extent r :=
  Nat.add_le_add_left (three_le_extent s r) _

include hl hr

theorem size_setHeader : (s.setHeader r h).words.size = s.words.size :=
  size_write (Nat.le_trans (header_within r h) (hl.within hr))

theorem Laid.same_setHeader (hq : q ∈ rs) (hne : q ≠ r) : s.Same q (s.setHeader r h) q :=
  hl.same_write hr (Nat.le_refl _) (header_within r h) hq hne

theorem header_setHeader : (s.setHeader r h).header r = h := by
  have hin := Nat.le_trans (header_within r h) (hl.within hr)
  have hword (k : Nat) (hk : k < 3) : (s.setHeader r h).word (r.toNat + k) = h.words.getD k 0 := by
    rw [setHeader, word_write hin, if_pos ⟨Nat.le_add_right _ _, Nat.add_lt_add_left hk _⟩, Nat.add_sub_cancel_left]
  have h0 := hword 0 (by decide)
  rw [Nat.add_zero] at h0
  rw [header, h0, hword 1 (by decide), hword 2 (by decide)]
  rfl

theorem codes_setHeader (hn : h.length ≤ (s.header r).length) :
    (s.setHeader r h).codes r = (s.codes r).take h.length.toNat := by
  have hin := hl.within hr
  have hin' := Nat.le_trans (header_within r h) hin
  have hsize := size_setHeader (h := h) hl hr
  have hle : h.length.toNat ≤ (s.header r).length.toNat := UInt32.le_iff_toNat_le.1 hn
  unfold extent at hin
  have hcodes : (s.codes r).take h.length.toNat = s.slice (r.toNat + 3) h.length.toNat := by
    rw [codes, toList_slice, toList_slice, List.take_take, Nat.min_eq_left hle]
  rw [hcodes, codes, header_setHeader hl hr]
  refine slice_congr (by omega) (by omega) fun k _ => ?_
  rw [setHeader, word_write hin', if_neg]
  exact fun hk => absurd hk.2 (Nat.not_lt.2 (Nat.le_trans (Nat.le_of_eq rfl) (Nat.le_add_right (r.toNat + 3) k)))

theorem Laid.setHeader (hn : h.length ≤ (s.header r).length) : (s.setHeader r h).Laid rs :=
  hl.write hr (Nat.le_refl _) (header_within r h) <| by
    rw [← Storage.setHeader, extent, header_setHeader hl hr]
    exact Nat.add_le_add_left (UInt32.le_iff_toNat_le.1 hn) 3

end setHeader

/-! ## New clauses -/

theorem add?_eq_some (ha : s.add? h cs = some (r, s')) : r.toNat = s.words.size ∧ 2 ≤ cs.length ∧
    s'.words.toList = s.words.toList ++ ({ h with length := UInt32.ofNat cs.length } : Header).words ++ cs := by
  rw [add?] at ha
  split at ha
  · next hc =>
    simp only [Option.some.injEq, Prod.mk.injEq] at ha
    obtain ⟨rfl, rfl⟩ := ha
    refine ⟨UInt32.toNat_ofNat_of_lt' hc.2, hc.1, ?_⟩
    rw [Array.toList_append, Array.toList_append]
  · cases ha

section add

variable (hl : s.Laid rs) (ha : s.add? h cs = some (r, s'))

include ha

theorem word_add (hi : i < s.words.size) : s'.word i = s.word i := by
  rw [← Array.length_toList] at hi
  rw [word_eq, word_eq, (add?_eq_some ha).2.2, List.append_assoc, List.getD_append _ _ _ _ hi]

theorem size_add : s'.words.size = s.words.size + (3 + cs.length) := by
  rw [← Array.length_toList, (add?_eq_some ha).2.2, List.length_append, List.length_append, Array.length_toList,
    Nat.add_assoc]
  rfl

theorem word_add_new (k : Nat) : s'.word (r.toNat + k) =
    (({ h with length := UInt32.ofNat cs.length } : Header).words ++ cs).getD k 0 := by
  obtain ⟨hr, -, hw⟩ := add?_eq_some ha
  rw [← Array.length_toList] at hr
  rw [word_eq, hw, List.append_assoc, hr, List.getD_append_right _ _ _ _ (Nat.le_add_right _ k),
    Nat.add_sub_cancel_left]

theorem header_add : s'.header r = { h with length := UInt32.ofNat cs.length } := by
  have h0 := word_add_new ha 0
  rw [Nat.add_zero] at h0
  rw [header, h0, word_add_new ha 1, word_add_new ha 2]
  rfl

theorem codes_add (hn : cs.length < UInt32.size) : s'.codes r = cs := by
  obtain ⟨hr, -, -⟩ := add?_eq_some ha
  have hsize := size_add ha
  have hlen : ({ h with length := UInt32.ofNat cs.length } : Header).length.toNat = cs.length :=
    UInt32.toNat_ofNat_of_lt' hn
  rw [codes, header_add ha, hlen]
  refine List.ext_getElem (length_slice (by omega)) fun k hk hk' => ?_
  rw [← List.getD_eq_getElem _ 0 hk, getD_slice hk', Nat.add_assoc, word_add_new ha,
    List.getD_append_right _ _ _ _ (Nat.le_add_right 3 k)]
  exact (congrArg (cs.getD · 0) (Nat.add_sub_cancel_left 3 k)).trans (List.getD_eq_getElem _ _ hk')

include hl

theorem Laid.same_add (hq : q ∈ rs) : s.Same q s' q := by
  have hin := hl.within hq
  have hsize := size_add ha
  exact same_of_words hin (by omega) fun k hk => word_add ha (by omega)

theorem Laid.add : s'.Laid (r :: rs) := by
  obtain ⟨hr, -, -⟩ := add?_eq_some ha
  have hsize := size_add ha
  have hext : s'.extent r ≤ 3 + cs.length := by
    rw [extent, header_add ha]
    exact Nat.add_le_add_left (Nat.mod_le _ _) 3
  have hold {q : UInt32} (hq : q ∈ rs) : q.toNat + s'.extent q ≤ s.words.size :=
    (hl.same_add ha hq).extent_eq ▸ hl.within hq
  refine ⟨fun hq => ?_, fun {q p} hq hp hlt => ?_⟩
  · rcases List.mem_cons.1 hq with rfl | hq
    · omega
    · have := hold hq
      omega
  · have h3 := three_le_extent s' p
    rcases List.mem_cons.1 hq with hq | hq
    · rcases List.mem_cons.1 hp with hp | hp
      · exact absurd (hq ▸ hp ▸ hlt) (Nat.lt_irrefl _)
      · have := hold hp
        rw [hq] at hlt
        omega
    · rcases List.mem_cons.1 hp with hp | hp
      · rw [hp, hr]
        exact hold hq
      · rw [(hl.same_add ha hq).extent_eq]
        exact hl.apart hq hp hlt

end add

end Storage

end ClauseLearning
