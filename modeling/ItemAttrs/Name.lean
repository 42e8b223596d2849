import ItemAttrs.Fault

/-!
# Names

A **name** stands for an interned text: one 32-bit word whose four high bits choose a
shard of the interner and whose other bits are the slot of the text in that shard.
Comparing two names compares two words; the text comes back from the interner that gave
the name out (`ItemAttrs.Interner.Basic`).

* `Name.shard` and `Name.slot` take the word apart, `Name.ofParts` puts it together;
* `≤` on names is the order of the words, which is the order of the pairs (shard, slot);
* `Name.sorted` sorts by it.
-/

namespace ItemAttrs

/-- **An interned text.** Every word is a name; whether a text stands behind it depends on
the interner. -/
structure Name where
  raw : UInt32
  deriving DecidableEq, Repr, Inhabited

namespace Name

/-- The number of shards that names tell apart. -/
def shardCount : Nat := 16

/-- The number of slots that names tell apart in one shard. -/
def slotCount : Nat := 268435456

/-- The largest slot of a name. -/
def maxSlot : Nat := 268435455

/-- The name of the empty text, which every interner holds first. -/
def empty : Name := ⟨0⟩

/-- The shard: the four high bits of the word. -/
def shard (n : Name) : Fin shardCount :=
  ⟨n.raw.toNat / slotCount, by
    have := n.raw.toNat_lt
    simp only [shardCount, slotCount]
    omega⟩

/-- The slot: the twenty-eight low bits of the word. -/
def slot (n : Name) : Nat := n.raw.toNat % slotCount

/-- **The name of a slot in a shard,** if there is such a shard and it has such a slot. The
shard is looked at first. -/
def ofParts (shard slot : Nat) : Except Fault Name :=
  if shardCount ≤ shard then .error .shardIndex
  else if maxSlot < slot then .error .slotIndex
  else .ok ⟨UInt32.ofNat (shard * slotCount + slot)⟩

instance : LE Name := ⟨fun m n => m.raw ≤ n.raw⟩

instance (m n : Name) : Decidable (m ≤ n) := inferInstanceAs (Decidable (m.raw ≤ n.raw))

instance : LT Name := ⟨fun m n => m.raw < n.raw⟩

instance (m n : Name) : Decidable (m < n) := inferInstanceAs (Decidable (m.raw < n.raw))

/-- The names in ascending order. -/
def sorted (names : List Name) : List Name := names.mergeSort fun m n => decide (m ≤ n)

/-- How a name is shown where its text is not known. -/
def dumpText (n : Name) : String := s!"Name(shard={n.shard.val}, local={n.slot})"

theorem slot_lt (n : Name) : n.slot < slotCount := Nat.mod_lt _ (by decide)

end Name

end ItemAttrs
