import ClauseLearning.Proofs.Storage

/-!
# Compaction of the storage

The words that are written never reach a clause that is still to be read, as each clause is moved towards the start.
So at any time the storage begins with the words of the clauses kept so far, and the rest is as it was
(`Compaction.At`, `Compaction.At.step`).

* `Storage.Filled` : clauses that follow one another and fill the storage;
* `Storage.Built` : storages that come about by adding, changing and compacting clauses;
* `Storage.Laid.compact` : every clause that is kept reads as before.
-/

namespace ClauseLearning

namespace Storage

variable {s s' : Storage} {r q : UInt32} {a : Nat} {rs ks : List UInt32}

/-- Whether compaction keeps a clause. -/
def keeps (s : Storage) (r : UInt32) : Bool := !(s.header r).has .deleted

/-- The references of a list to clauses that compaction keeps, in storage order. -/
def kept (s : Storage) (refs : Array UInt32) : List UInt32 := (sortBy UInt32.toNat refs.toList).filter s.keeps

/-- Clauses that follow one another from a position on, and fill the storage. -/
def Filled (s : Storage) : Nat → List UInt32 → Prop
  | a, [] => a = s.words.size
  | a, r :: rs => r.toNat = a ∧ s.Filled (a + s.extent r) rs

/-- Clauses in storage order. -/
def InOrder (s : Storage) (rs : List UInt32) : Prop :=
  (rs.Pairwise fun r q => r.toNat + s.extent r ≤ q.toNat) ∧ ∀ r ∈ rs, r.toNat + s.extent r ≤ s.words.size

/-- The words of some clauses. -/
def blocks (s : Storage) (rs : List UInt32) : List UInt32 := rs.flatMap fun r => s.slice r.toNat (s.extent r)

/-- The references of clauses that follow one another from a position on. -/
def refsFrom (s : Storage) : Nat → List UInt32 → List UInt32
  | _, [] => []
  | a, r :: rs => UInt32.ofNat a :: s.refsFrom (a + s.extent r) rs

theorem length_refsFrom (s : Storage) (a : Nat) (rs : List UInt32) : (s.refsFrom a rs).length = rs.length := by
  induction rs generalizing a with
  | nil => rfl
  | cons r rs ih => rw [refsFrom, List.length_cons, List.length_cons, ih]

theorem InOrder.cons (h : s.InOrder (r :: rs)) : (∀ q ∈ rs, r.toNat + s.extent r ≤ q.toNat) ∧
    r.toNat + s.extent r ≤ s.words.size ∧ s.InOrder rs :=
  ⟨(List.pairwise_cons.1 h.1).1, h.2 r List.mem_cons_self, (List.pairwise_cons.1 h.1).2,
    fun q hq => h.2 q (List.mem_cons_of_mem r hq)⟩

theorem InOrder.sublist (h : s.InOrder rs) (hs : ks.Sublist rs) : s.InOrder ks :=
  ⟨h.1.sublist hs, fun r hr => h.2 r (hs.subset hr)⟩

theorem InOrder.refsFrom_append (h : s.InOrder ks) (a : Nat) (r : UInt32) :
    s.refsFrom a (ks ++ [r]) = s.refsFrom a ks ++ [UInt32.ofNat (a + (s.blocks ks).length)] := by
  induction ks generalizing a with
  | nil => rfl
  | cons k ks ih =>
    obtain ⟨-, hin, h⟩ := h.cons
    rw [List.cons_append, refsFrom, refsFrom, ih h, blocks, blocks, List.flatMap_cons, List.length_append,
      length_slice hin, Nat.add_assoc, List.cons_append]

theorem InOrder.add_length_blocks_le (h : s.InOrder (ks ++ [r])) (ha : ∀ q ∈ ks ++ [r], a ≤ q.toNat) :
    a + (s.blocks ks).length ≤ r.toNat := by
  induction ks generalizing a with
  | nil => exact ha r List.mem_cons_self
  | cons k ks ih =>
    obtain ⟨hlt, hin, h⟩ := h.cons
    have hk := ha k List.mem_cons_self
    have hrest := ih (a := a + s.extent k) h fun q hq => Nat.le_trans (Nat.add_le_add_right hk _) (hlt q hq)
    rw [blocks, List.flatMap_cons, List.length_append, length_slice hin]
    unfold blocks at hrest
    omega

theorem InOrder.length_blocks_le (h : s.InOrder ks) : (s.blocks ks).length ≤ s.words.size := by
  rcases List.eq_nil_or_concat ks with rfl | ⟨init, r, rfl⟩
  · exact Nat.zero_le _
  · rw [List.concat_eq_append] at h ⊢
    have hin := h.2 r (List.mem_append_right init List.mem_cons_self)
    have hle := h.add_length_blocks_le (a := 0) fun q _ => Nat.zero_le _
    rw [blocks, List.flatMap_append, List.flatMap_singleton, List.length_append, length_slice hin]
    unfold blocks at hle
    omega

theorem InOrder.same_refsFrom (h : s.InOrder ks) {ws : List UInt32} (hw : s'.words.toList = ws ++ s.blocks ks)
    (ha : ∀ q ∈ ks, ws.length ≤ q.toNat) :
    List.Forall₂ (fun r q => s.Same r s' q) ks (s.refsFrom ws.length ks) ∧
      s'.Filled ws.length (s.refsFrom ws.length ks) := by
  induction ks generalizing ws with
  | nil =>
    refine ⟨.nil, ?_⟩
    rw [refsFrom, Filled, ← Array.length_toList, hw, blocks, List.flatMap_nil, List.append_nil]
  | cons r ks ih =>
    obtain ⟨hlt, hin, h⟩ := h.cons
    have hr := ha r List.mem_cons_self
    have hq : (UInt32.ofNat ws.length).toNat = ws.length :=
      UInt32.toNat_ofNat_of_lt' (Nat.lt_of_le_of_lt hr r.toNat_lt)
    have hlen : (ws ++ s.slice r.toNat (s.extent r)).length = ws.length + s.extent r := by
      rw [List.length_append, length_slice hin]
    rw [blocks, List.flatMap_cons, ← List.append_assoc] at hw
    have hsize : (UInt32.ofNat ws.length).toNat + s.extent r ≤ s'.words.size := by
      rw [← Array.length_toList, hw, List.length_append, hlen, hq]
      exact Nat.le_add_right _ _
    have hsame : s.Same r s' (UInt32.ofNat ws.length) := by
      refine same_of_words hin hsize fun k hk => ?_
      rw [word_eq, hw, hq, List.getD_append _ _ _ _ (hlen ▸ Nat.add_lt_add_left hk _),
        List.getD_append_right _ _ _ _ (Nat.le_add_right _ _), Nat.add_sub_cancel_left, getD_slice hk]
    have hrest := ih h hw fun q hq => by
      rw [hlen]
      exact Nat.le_trans (Nat.add_le_add_right hr _) (hlt q hq)
    rw [hlen] at hrest
    rw [refsFrom, Filled, hq, hsame.extent_eq]
    exact ⟨.cons hsame hrest.1, rfl, hrest.2⟩

end Storage

namespace Compaction

open Storage

variable {s : Storage} {sorted : List UInt32} {c : Compaction} {i : Nat}

/-- The state of a compaction after some clauses of the sorted list, of which `ks` were kept. -/
structure At (s : Storage) (sorted ks : List UInt32) (c : Compaction) : Prop where
  words : c.storage.words.toList = s.blocks ks ++ s.words.toList.drop c.stop
  refs : c.refs.toList = s.refsFrom 0 ks ++ sorted.drop ks.length
  kept : c.kept = ks.length
  stop : c.stop = (s.blocks ks).length

theorem At.word_eq {ks : List UInt32} (h : At s sorted ks c) {j : Nat} (hj : c.stop ≤ j) :
    c.storage.word j = s.word j := by
  rw [Storage.word_eq, Storage.word_eq, h.words, List.getD_append_right _ _ _ _ (h.stop ▸ hj), ← h.stop,
    List.getD_eq_getElem?_getD, List.getElem?_drop, Nat.add_sub_cancel' hj, List.getD_eq_getElem?_getD]

section next

variable {ks : List UInt32} {r : UInt32} (h : At s sorted ks c)

include h

theorem At.header_eq (hr : c.stop ≤ r.toNat) : c.storage.header r = s.header r :=
  header_congr fun k _ => h.word_eq (Nat.le_trans hr (Nat.le_add_right _ k))

theorem At.slice_eq {j n : Nat} (hj : c.stop ≤ j) : c.storage.slice j n = s.slice j n := by
  rw [toList_slice, toList_slice, h.words, List.drop_append, List.drop_of_length_le (h.stop ▸ hj), List.nil_append,
    ← h.stop, List.drop_drop, Nat.add_sub_cancel' hj]

theorem At.toList_write (ws : List UInt32) : (c.storage.write c.stop ws).words.toList =
    s.blocks ks ++ ws ++ s.words.toList.drop (c.stop + ws.length) := by
  rw [Storage.toList_write, h.words, List.take_append_of_le_length (Nat.le_of_eq h.stop), h.stop, List.take_length,
    List.drop_append, List.drop_of_length_le (Nat.le_add_right _ _), List.nil_append, Nat.add_sub_cancel_left,
    List.drop_drop]

theorem At.keep (hlt : ks.length < sorted.length) (ho : s.InOrder (ks ++ [r])) : At s sorted (ks ++ [r])
    { storage := c.storage.write c.stop (s.slice r.toNat (s.extent r))
      refs := c.refs.setIfInBounds c.kept (UInt32.ofNat c.stop)
      kept := c.kept + 1
      stop := c.stop + s.extent r } := by
  have hblocks : s.blocks (ks ++ [r]) = s.blocks ks ++ s.slice r.toNat (s.extent r) := by
    rw [blocks, List.flatMap_append, List.flatMap_singleton, blocks]
  have hlen : (s.slice r.toNat (s.extent r)).length = s.extent r :=
    length_slice (ho.2 r (List.mem_append_right ks List.mem_cons_self))
  refine ⟨?_, ?_, ?_, ?_⟩
  · rw [h.toList_write, hlen, hblocks]
  · rw [Array.toList_setIfInBounds, h.refs, h.kept, List.set_append_right _ _ (Nat.le_of_eq (length_refsFrom _ _ _)),
      length_refsFrom, Nat.sub_self, List.drop_eq_getElem_cons hlt, List.set_cons_zero,
      (ho.sublist (List.sublist_append_left ks [r])).refsFrom_append, h.stop, Nat.zero_add, List.length_append,
      List.append_assoc]
    rfl
  · rw [h.kept, List.length_append]
    rfl
  · rw [h.stop, hblocks, List.length_append, hlen]

end next

/-- A step keeps the clause of the next reference unless it is deleted. Its words are still as they were, as the kept
clauses before it take no more room than there was. -/
theorem At.step (ho : s.InOrder sorted) (hi : i < sorted.length)
    (h : At s sorted ((sorted.take i).filter s.keeps) c) :
    At s sorted ((sorted.take (i + 1)).filter s.keeps) (c.step i) := by
  rw [List.take_succ_eq_append_getElem hi, List.filter_append]
  have hsub : ((sorted.take i).filter s.keeps ++ [sorted[i]]).Sublist sorted :=
    (List.filter_sublist.append_right _).trans (List.take_succ_eq_append_getElem hi ▸ List.take_sublist _ _)
  have hle : ((sorted.take i).filter s.keeps).length ≤ i :=
    Nat.le_trans (List.length_filter_le _ _) (List.length_take_le _ _)
  generalize (sorted.take i).filter s.keeps = ks at h hsub hle ⊢
  have hr : c.refs.getD i 0 = sorted[i] := by
    rw [Array.getD_eq_getD_getElem?, ← Array.getElem?_toList, h.refs,
      List.getElem?_append_right (length_refsFrom s 0 ks ▸ hle), length_refsFrom, List.getElem?_drop,
      Nat.add_sub_cancel' hle, List.getElem?_eq_getElem hi, Option.getD_some]
  generalize sorted[i] = r at hr hsub ⊢
  have hord := ho.sublist hsub
  have hstop : c.stop ≤ r.toNat := by
    rw [h.stop, ← Nat.zero_add (s.blocks ks).length]
    exact hord.add_length_blocks_le fun q _ => Nat.zero_le _
  have hheader := h.header_eq hstop
  have hextent : c.storage.extent r = s.extent r := by rw [extent, hheader, extent]
  rw [Compaction.step, hr, hheader]
  dsimp only
  split
  · next hdel =>
    rw [List.filter_cons_of_neg (by rw [keeps, hdel]; exact Bool.false_ne_true), List.filter_nil, List.append_nil]
    exact h
  · next hdel =>
    rw [List.filter_cons_of_pos (by rw [keeps, Bool.eq_false_iff.2 hdel]; rfl), List.filter_nil, hextent,
      h.slice_eq hstop]
    exact h.keep (Nat.lt_of_le_of_lt hle hi) hord

theorem At.run (ho : s.InOrder sorted) {n : Nat} (hn : n ≤ sorted.length) :
    At s sorted ((sorted.take n).filter s.keeps)
      ((List.range n).foldl Compaction.step { storage := s, refs := sorted.toArray }) := by
  induction n with
  | zero => exact ⟨rfl, rfl, rfl, rfl⟩
  | succ n ih =>
    rw [List.range_succ, List.foldl_append]
    exact (ih (Nat.le_of_succ_le hn)).step ho hn

end Compaction

namespace Storage

variable {s s' : Storage} {r q : UInt32} {rs : List UInt32} {refs : Array UInt32}

theorem Laid.inOrder (h : s.Laid rs) (hn : refs.toList.Nodup) (hsub : ∀ r ∈ refs.toList, r ∈ rs) :
    s.InOrder (sortBy UInt32.toNat refs.toList) := by
  have hperm := sortBy_perm UInt32.toNat refs.toList
  have hmem {r : UInt32} (hr : r ∈ sortBy UInt32.toNat refs.toList) : r ∈ rs := hsub r (hperm.mem_iff.1 hr)
  refine ⟨?_, fun r hr => h.within (hmem hr)⟩
  have hle := sortBy_sorted UInt32.toNat refs.toList
  have hne : (sortBy UInt32.toNat refs.toList).Nodup := hperm.nodup_iff.2 hn
  refine (hle.and hne).imp_of_mem fun hr hq hlt => h.apart (hmem hr) (hmem hq) ?_
  exact Nat.lt_of_le_of_ne hlt.1 fun he => hlt.2 (UInt32.toNat_inj.1 he)

/-- Every clause that is kept reads as before. The kept ones follow one another and fill the storage. -/
theorem Laid.compact (h : s.Laid rs) (hn : refs.toList.Nodup) (hsub : ∀ r ∈ refs.toList, r ∈ rs) :
    List.Forall₂ (fun r q => s.Same r (s.compact refs).2.2 q) (s.kept refs) (s.compact refs).2.1.toList ∧
      (s.compact refs).2.2.Filled 0 (s.compact refs).2.1.toList ∧
      (s.compact refs).1 + (s.compact refs).2.2.words.size = s.words.size := by
  have hord := h.inOrder hn hsub
  have hkept : s.InOrder (s.kept refs) := hord.sublist List.filter_sublist
  have hat := Compaction.At.run hord (Nat.le_refl _)
  rw [List.take_length, ← kept] at hat
  rw [Storage.compact, List.size_toArray]
  dsimp only
  generalize (List.range _).foldl Compaction.step _ = c at hat ⊢
  generalize s.kept refs = ks at hat hkept ⊢
  have hrefs : (c.refs.take c.kept).toList = s.refsFrom 0 ks := by
    rw [Array.toList_extract, List.extract, List.drop_zero, hat.refs, hat.kept, ← length_refsFrom s 0, Nat.sub_zero,
      List.take_append_of_le_length (Nat.le_refl _), List.take_length]
  have hwords : ({ words := c.storage.words.take c.stop } : Storage).words.toList = [] ++ s.blocks ks := by
    rw [List.nil_append, Array.toList_extract, List.extract, List.drop_zero, hat.words, hat.stop, Nat.sub_zero,
      List.take_append_of_le_length (Nat.le_refl _), List.take_length]
  have hsize : (c.storage.words.take c.stop).size = c.stop := by
    rw [← Array.length_toList, hwords, List.nil_append, hat.stop]
  have hread := hkept.same_refsFrom hwords fun _ _ => Nat.zero_le _
  rw [hrefs, hsize]
  exact ⟨hread.1, hread.2, Nat.sub_add_cancel (hat.stop ▸ hkept.length_blocks_le)⟩

theorem Filled.le_size {a : Nat} (h : s.Filled a rs) : a ≤ s.words.size := by
  induction rs generalizing a with
  | nil => exact Nat.le_of_eq h
  | cons q rs ih => exact Nat.le_trans (Nat.le_add_right _ _) (ih h.2)

theorem Filled.le {a : Nat} (h : s.Filled a rs) (hr : r ∈ rs) : a ≤ r.toNat := by
  induction rs generalizing a with
  | nil => exact absurd hr List.not_mem_nil
  | cons q rs ih =>
    rcases List.mem_cons.1 hr with rfl | hr
    · exact Nat.le_of_eq h.1.symm
    · exact Nat.le_trans (Nat.le_add_right _ _) (ih h.2 hr)

theorem Filled.laid {a : Nat} (h : s.Filled a rs) : s.Laid rs := by
  induction rs generalizing a with
  | nil => exact laid_nil s
  | cons k rs ih =>
    obtain ⟨rfl, h⟩ := h
    have hlaid := ih h
    refine ⟨fun hr => ?_, fun {r q} hr hq hlt => ?_⟩
    · rcases List.mem_cons.1 hr with rfl | hr
      · exact h.le_size
      · exact hlaid.within hr
    · have h3 := three_le_extent s k
      rcases List.mem_cons.1 hr with rfl | hr
      · rcases List.mem_cons.1 hq with rfl | hq
        · exact absurd hlt (Nat.lt_irrefl _)
        · exact h.le hq
      · have hle := h.le hr
        rcases List.mem_cons.1 hq with rfl | hq
        · omega
        · exact hlaid.apart hr hq hlt

/-! ## Storages that come about -/

/-- Storages that come about from the empty one, with the references that are in use. Clauses are added, their literals
are permuted, they are shortened, deleted or changed otherwise in their headers, and they are moved together. -/
inductive Built : Storage → List UInt32 → Prop
  | empty : Built {} []
  | add {s s' : Storage} {rs cs : List UInt32} {h : Header} {r : UInt32} :
    Built s rs → s.add? h cs = some (r, s') → Built s' (r :: rs)
  | permute {s : Storage} {rs cs : List UInt32} {r : UInt32} :
    Built s rs → r ∈ rs → cs.Perm (s.codes r) → Built (s.setCodes r cs) rs
  | change {s : Storage} {rs : List UInt32} {r : UInt32} {h : Header} :
    Built s rs → r ∈ rs → h.length ≤ (s.header r).length → Built (s.setHeader r h) rs
  | compact {s : Storage} {rs : List UInt32} {refs : Array UInt32} : Built s rs → refs.toList.Nodup →
    (∀ r ∈ refs.toList, r ∈ rs) → Built (s.compact refs).2.2 (s.compact refs).2.1.toList

theorem Built.laid (h : s.Built rs) : s.Laid rs := by
  induction h with
  | empty => exact laid_nil _
  | add _ ha ih => exact ih.add ha
  | permute _ hr hp ih => exact ih.setCodes hr (hp.length_eq.trans (ih.length_codes hr))
  | change _ hr hn ih => exact ih.setHeader hr hn
  | compact _ hn hsub ih => exact (ih.compact hn hsub).2.1.laid

end Storage

end ClauseLearning
