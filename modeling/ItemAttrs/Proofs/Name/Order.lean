import Mathlib.Algebra.BigOperators.Fin
import Mathlib.Data.List.Sort
import Mathlib.Data.Prod.Lex
import ItemAttrs.Proofs.Name.Packing

/-!
# Names as words, and their order

A name is its word cut between bit 27 and bit 28. The quotient and the remainder by which the parts
are read off are a shift and a mask (`shard_eq_shiftRight`, `slot_eq_and`), and the bits of the two
parts do not overlap, so that the word is also their disjunction (`raw_eq_or`).

Words are compared by their high bits first. So names are in the order of their shards, and within
one shard in the order of their slots (`le_iff_parts`), and sorting names puts the names of each
shard together, sorted by slot (`sorted_eq_byShard`).
-/

namespace ItemAttrs.Name

variable {m n : Name} {names : List Name}

/-! ### Bits -/

theorem raw_eq_parts (n : Name) : n.raw.toNat = n.shard.val * slotCount + n.slot :=
  (Nat.div_add_mod' n.raw.toNat slotCount).symm

theorem shard_eq_shiftRight (n : Name) : n.shard.val = (n.raw >>> 28).toNat := by
  rw [UInt32.toNat_shiftRight]
  exact (Nat.shiftRight_eq_div_pow n.raw.toNat 28).symm

theorem slot_eq_and (n : Name) : n.slot = (n.raw &&& 0x0FFFFFFF).toNat := by
  rw [UInt32.toNat_and]
  exact (Nat.and_two_pow_sub_one_eq_mod n.raw.toNat 28).symm

/-- A shard moved up to the high bits of a word stays whole. -/
theorem toNat_shiftLeft_shard {shard : Nat} (h : shard < shardCount) :
    (UInt32.ofNat shard <<< 28).toNat = shard <<< 28 := by
  simp only [shardCount] at h
  have hword : (UInt32.ofNat shard).toNat = shard :=
    UInt32.toNat_ofNat_of_lt' (Nat.lt_trans h (by decide))
  have hshift : (28 : UInt32).toNat % 32 = 28 := rfl
  rw [UInt32.toNat_shiftLeft, hword, hshift, Nat.shiftLeft_eq, Nat.mod_eq_of_lt (by omega)]

/-- **The parts do not overlap,** so putting them together is a disjunction of bits. -/
theorem raw_eq_or (n : Name) :
    n.raw = UInt32.ofNat n.shard.val <<< 28 ||| UInt32.ofNat n.slot := by
  have hslot : n.slot < 2 ^ 28 := n.slot_lt
  have hlow : (UInt32.ofNat n.slot).toNat = n.slot :=
    UInt32.toNat_ofNat_of_lt' (Nat.lt_trans hslot (by decide))
  apply UInt32.toNat_inj.mp
  calc n.raw.toNat
      = n.shard.val * 2 ^ 28 + n.slot := raw_eq_parts n
    _ = n.shard.val <<< 28 + n.slot := by rw [Nat.shiftLeft_eq]
    _ = n.shard.val <<< 28 ||| n.slot := Nat.shiftLeft_add_eq_or_of_lt hslot n.shard.val
    _ = (UInt32.ofNat n.shard.val <<< 28 ||| UInt32.ofNat n.slot).toNat := by
      rw [UInt32.toNat_or, toNat_shiftLeft_shard n.shard.isLt, hlow]

/-! ### Order -/

/-- Names in the order of their words. -/
instance : LinearOrder Name where
  le_refl n := UInt32.le_refl n.raw
  le_trans _ _ _ := UInt32.le_trans
  le_antisymm _ _ h h' := congrArg mk (UInt32.le_antisymm h h')
  le_total m n := UInt32.le_total m.raw n.raw
  lt_iff_le_not_ge m n := Std.LawfulOrderLT.lt_iff m.raw n.raw
  toDecidableLE := inferInstance
  toDecidableLT := inferInstance
  toDecidableEq := inferInstance

/-- The shard and then the slot, to be compared in this order. -/
def parts (n : Name) : Fin shardCount ×ₗ Nat := toLex (n.shard, n.slot)

/-- **Names are in the order of their parts.** -/
theorem le_iff_parts : m ≤ n ↔ m.parts ≤ n.parts := by
  have hm := raw_eq_parts m
  have hn := raw_eq_parts n
  have hmslot := m.slot_lt
  have hnslot := n.slot_lt
  simp only [slotCount] at hm hn hmslot hnslot
  have hraw : m ≤ n ↔ m.raw.toNat ≤ n.raw.toNat := UInt32.le_iff_toNat_le
  have hparts : m.parts ≤ n.parts ↔
      m.shard.val < n.shard.val ∨ m.shard = n.shard ∧ m.slot ≤ n.slot := Prod.Lex.toLex_le_toLex
  rw [hraw, hparts, Fin.ext_iff]
  omega

theorem lt_iff_parts : m < n ↔ m.parts < n.parts := by
  rw [← not_le, ← not_le, le_iff_parts]

/-! ### Sorting -/

theorem sorted_perm (names : List Name) : (sorted names).Perm names := List.mergeSort_perm _ _

theorem pairwise_sorted (names : List Name) : (sorted names).Pairwise (· ≤ ·) :=
  List.pairwise_mergeSort' (· ≤ ·) names

/-- The names of one shard, in the order of their slots. -/
def bySlot (k : Fin shardCount) (names : List Name) : List Name :=
  (names.filter fun n => n.shard = k).mergeSort fun m n => decide (m.slot ≤ n.slot)

/-- The names shard by shard, in each shard in the order of their slots. -/
def byShard (names : List Name) : List Name :=
  (List.finRange shardCount).flatMap fun k => bySlot k names

theorem bySlot_perm (k : Fin shardCount) (names : List Name) :
    (bySlot k names).Perm (names.filter fun n => n.shard = k) := List.mergeSort_perm _ _

theorem mem_bySlot {k : Fin shardCount} : n ∈ bySlot k names ↔ n ∈ names ∧ n.shard = k := by
  rw [(bySlot_perm k names).mem_iff, List.mem_filter, decide_eq_true_iff]

theorem pairwise_bySlot (k : Fin shardCount) (names : List Name) :
    (bySlot k names).Pairwise fun m n => m.slot ≤ n.slot :=
  List.pairwise_mergeSort' (fun m n : Name => m.slot ≤ n.slot) _

/-- **Each name is in the group of its shard,** as often as before. -/
theorem byShard_perm (names : List Name) : (byShard names).Perm names := by
  rw [List.perm_iff_count]
  intro n
  have hgroup : ∀ k, (bySlot k names).count n = if n.shard = k then names.count n else 0 := by
    intro k
    rw [(bySlot_perm k names).count_eq]
    split
    · next h => exact List.count_filter (decide_eq_true h)
    · next h =>
      refine List.count_eq_zero_of_not_mem fun hn => h ?_
      exact of_decide_eq_true (List.mem_filter.mp hn).2
  calc (byShard names).count n
      = ((List.finRange shardCount).map fun k => (bySlot k names).count n).sum :=
        List.count_flatMap
    _ = ∑ k, if n.shard = k then names.count n else 0 := by
      simp only [hgroup, Fin.sum_univ_def]
    _ = names.count n := by simp

theorem pairwise_byShard (names : List Name) : (byShard names).Pairwise (· ≤ ·) := by
  rw [byShard, List.pairwise_flatMap]
  constructor
  · -- within one shard the slots decide
    intro k _
    refine (pairwise_bySlot k names).imp_of_mem fun hm hn hslot => ?_
    rw [le_iff_parts]
    have hshard := (mem_bySlot.mp hm).2.trans (mem_bySlot.mp hn).2.symm
    exact Prod.Lex.toLex_le_toLex.mpr (.inr ⟨hshard, hslot⟩)
  · -- names of two shards are in the order of the shards
    refine (List.pairwise_lt_finRange shardCount).imp fun hlt m hm n hn => ?_
    obtain ⟨-, rfl⟩ := mem_bySlot.mp hm
    obtain ⟨-, rfl⟩ := mem_bySlot.mp hn
    rw [le_iff_parts]
    exact Prod.Lex.toLex_le_toLex.mpr (.inl hlt)

/-- **Sorting goes shard by shard.** -/
theorem sorted_eq_byShard (names : List Name) : sorted names = byShard names := by
  -- there is only one order in which all names are at their places
  have hperm : (sorted names).Perm (byShard names) :=
    (sorted_perm names).trans (byShard_perm names).symm
  exact hperm.eq_of_pairwise' (pairwise_sorted names) (pairwise_byShard names)

/-- **Names are packed shard first.** Every shard and slot have a name, whose word is made up of
their bits, and every word is the name of just one shard and slot, which can be read off its bits.
Words are in the lexicographic order of shard and slot, so sorted names stand shard by shard, in
each shard in the order of their slots. -/
theorem packed_shard_first :
    (∀ shard slot, shard < shardCount → slot ≤ maxSlot → ∃ n : Name, ofParts shard slot = .ok n ∧
      n.shard.val = shard ∧ n.slot = slot ∧ n.raw.toNat = shard * 2 ^ 28 + slot ∧
      n.raw = UInt32.ofNat shard <<< 28 ||| UInt32.ofNat slot) ∧
    (∀ n : Name, ofParts n.shard n.slot = .ok n ∧
      n.shard.val = (n.raw >>> 28).toNat ∧ n.slot = (n.raw &&& 0x0FFFFFFF).toNat ∧
      ∀ shard slot, ofParts shard slot = .ok n → shard = n.shard ∧ slot = n.slot) ∧
    (∀ m n : Name, (m ≤ n ↔ toLex (m.shard, m.slot) ≤ toLex (n.shard, n.slot)) ∧
      (m < n ↔ toLex (m.shard, m.slot) < toLex (n.shard, n.slot))) ∧
    ∀ names, (sorted names).Perm names ∧ sorted names = byShard names := by
  refine ⟨fun shard slot hshard hslot => ?_, fun n => ?_, fun m n => ⟨le_iff_parts, lt_iff_parts⟩,
    fun names => ⟨sorted_perm names, sorted_eq_byShard names⟩⟩
  · obtain ⟨n, hn, rfl, rfl⟩ := exists_ofParts hshard hslot
    exact ⟨n, hn, rfl, rfl, raw_eq_parts n, raw_eq_or n⟩
  · refine ⟨ofParts_eq_ok_iff.mpr ⟨rfl, rfl⟩, shard_eq_shiftRight n, slot_eq_and n, ?_⟩
    intro shard slot h
    obtain ⟨hshard, hslot⟩ := ofParts_eq_ok_iff.mp h
    exact ⟨hshard.symm, hslot.symm⟩

/-- The last slot of the last shard fills the word, and it comes after slot 1000 of shard 5, which
comes after the last slot of the first shard. -/
theorem packed_shard_first_corners :
    let last : Name := ⟨4294967295⟩
    let middle : Name := ⟨1342178280⟩
    let low : Name := ⟨268435455⟩
    (5 < shardCount ∧ 1000 ≤ maxSlot ∧
      ∃ n : Name, ofParts 5 1000 = .ok n ∧ n.raw = (5 : UInt32) <<< 28 ||| 1000 ∧ n = middle) ∧
    (ofParts 15 268435455 = .ok last ∧
      ∀ shard slot, ofParts shard slot = .ok last → shard = 15 ∧ slot = 268435455) ∧
    (low < middle ∧ middle < last) ∧ sorted [last, middle, low] = [low, middle, last] := by
  intro last middle low
  obtain ⟨hpack, hunpack, horder, hsorted⟩ := packed_shard_first
  obtain ⟨n, hn, -, -, -, hbits⟩ := hpack 5 1000 (by decide) (by decide)
  have hshard : last.shard.val = 15 := by decide
  have hslot : last.slot = 268435455 := by decide
  obtain ⟨hlast, -, -, hunique⟩ := hunpack last
  simp only [hshard, hslot] at hlast hunique
  have hlow : low < middle := (horder low middle).2.mpr (by decide)
  have hmiddle : middle < last := (horder middle last).2.mpr (by decide)
  refine ⟨⟨by decide, by decide, n, hn, hbits, ?_⟩, ⟨hlast, hunique⟩, ⟨hlow, hmiddle⟩, ?_⟩
  · have hmid : ofParts 5 1000 = .ok middle := by decide
    exact Except.ok.inj (hn.symm.trans hmid)
  · rw [(hsorted [last, middle, low]).2]
    decide +kernel

end ItemAttrs.Name
