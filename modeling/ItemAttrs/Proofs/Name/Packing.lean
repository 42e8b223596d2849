import ItemAttrs.Name

/-!
# Names and their parts

A name is the same as a shard and a slot: `ofParts_eq_ok_iff` says that `Name.ofParts` puts
together exactly the name with the given parts, `eq_of_parts` that no two names agree in both, and
`lt_iff_of_shard_eq` that the names of one shard are in the order of their slots.
-/

namespace ItemAttrs.Name

theorem eq_of_parts {m n : Name} (hshard : m.shard = n.shard) (hslot : m.slot = n.slot) :
    m = n := by
  -- the word is made up of its quotient and its remainder
  have hq : m.raw.toNat / slotCount = n.raw.toNat / slotCount := congrArg Fin.val hshard
  have hraw : m.raw.toNat = n.raw.toNat := by
    rw [← Nat.div_add_mod m.raw.toNat slotCount, ← Nat.div_add_mod n.raw.toNat slotCount, hq]
    exact congrArg _ hslot
  rcases m with ⟨a⟩
  rcases n with ⟨b⟩
  exact congrArg Name.mk (UInt32.toNat_inj.mp hraw)

/-- **Putting a name together** succeeds if there are such a shard and such a slot, and the
name has the given parts. -/
theorem exists_ofParts {shard slot : Nat} (hshard : shard < shardCount) (hslot : slot ≤ maxSlot) :
    ∃ n, ofParts shard slot = .ok n ∧ n.shard.val = shard ∧ n.slot = slot := by
  simp only [shardCount, maxSlot] at hshard hslot
  -- the largest slot of the last shard still fits into a word
  have hword : (UInt32.ofNat (shard * slotCount + slot)).toNat = shard * 268435456 + slot := by
    rw [UInt32.toNat_ofNat_of_lt']
    · rfl
    · simp only [slotCount, UInt32.size]
      omega
  refine ⟨⟨UInt32.ofNat (shard * slotCount + slot)⟩, ?_, ?_, ?_⟩
  · rw [ofParts, if_neg (by simp only [shardCount]; omega), if_neg (by simp only [maxSlot]; omega)]
  · change (UInt32.ofNat (shard * slotCount + slot)).toNat / 268435456 = shard
    rw [hword]
    omega
  · change (UInt32.ofNat (shard * slotCount + slot)).toNat % 268435456 = slot
    rw [hword]
    omega

/-- **Putting a name together and taking it apart** undo each other. -/
theorem ofParts_eq_ok_iff {shard slot : Nat} {n : Name} :
    ofParts shard slot = .ok n ↔ n.shard.val = shard ∧ n.slot = slot := by
  constructor
  · intro h
    -- parts out of range are faults
    have hshard : shard < shardCount := by
      refine Nat.lt_of_not_le fun hge => ?_
      rw [ofParts, if_pos hge] at h
      exact nomatch h
    have hslot : slot ≤ maxSlot := by
      refine Nat.le_of_not_lt fun hgt => ?_
      rw [ofParts, if_neg (by omega), if_pos hgt] at h
      exact nomatch h
    obtain ⟨m, hm, hparts⟩ := exists_ofParts hshard hslot
    obtain rfl : m = n := by simpa [hm] using h
    exact hparts
  · rintro ⟨rfl, rfl⟩
    have hslot : n.slot ≤ maxSlot := Nat.le_of_lt_succ n.slot_lt
    obtain ⟨m, hm, hs, hl⟩ := exists_ofParts n.shard.isLt hslot
    rw [hm, eq_of_parts (Fin.ext hs) hl]

/-- **Within one shard** names are in the order of their slots. -/
theorem lt_iff_of_shard_eq {m n : Name} (h : m.shard = n.shard) : m < n ↔ m.slot < n.slot := by
  have hq : m.raw.toNat / slotCount = n.raw.toNat / slotCount := congrArg Fin.val h
  have hm := Nat.div_add_mod m.raw.toNat slotCount
  have hn := Nat.div_add_mod n.raw.toNat slotCount
  rw [hq] at hm
  -- the words have the same quotient, so they are as far apart as their remainders
  change m.raw < n.raw ↔ m.raw.toNat % slotCount < n.raw.toNat % slotCount
  rw [UInt32.lt_iff_toNat_lt]
  omega

end ItemAttrs.Name
