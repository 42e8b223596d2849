import Mathlib.Algebra.GroupWithZero.Nat
import Mathlib.Data.List.Nodup
import ItemAttrs.Interner.Basic
import ItemAttrs.Proofs.Name.Packing

/-!
# The invariant of the interner

In every shard, the slots by text and the texts by slot say the same, and every text is in
its home shard. This is `Interner.WellFormed`; it speaks of the shards alone, because the
count lags behind them while several threads are at work.

* `WellFormed.lookup_eq_ok_iff`: what a name stands for, read from either half of its shard;
* `Interner.add` stores a new text, and `WellFormed.add` is its part of the invariant;
* `Naming` lists the three outcomes of naming a text, and `intern_naming` says that there
  are no others. Nothing below it unfolds `Interner.intern`.
-/

namespace ItemAttrs

/-! ### One shard -/

namespace Shard

/-- **The two halves of a shard are inverse to each other.** -/
def Consistent (sh : Shard) : Prop := ∀ s i, sh.find? s = some i ↔ sh.strings[i]? = some s

theorem consistent_empty : empty.Consistent := by
  intro s i
  rw [find?_empty]
  simp [empty]

variable {sh : Shard} {s : String}

theorem Consistent.find?_eq_none_iff (h : sh.Consistent) :
    sh.find? s = none ↔ s ∉ sh.strings := by
  rw [Array.mem_iff_getElem?, not_exists, Option.eq_none_iff_forall_ne_some]
  exact forall_congr' fun i => not_congr (h s i)

theorem Consistent.nodup (h : sh.Consistent) : sh.strings.toList.Nodup := by
  -- a text in two slots would be found in both, but it is found in one
  rw [List.nodup_iff_getElem?_ne_getElem?]
  intro i j hij hj heq
  rw [Array.getElem?_toList, Array.getElem?_toList] at heq
  rw [Array.length_toList] at hj
  have hsj : sh.strings[j]? = some sh.strings[j] := Array.getElem?_eq_getElem hj
  have hi := (h _ i).mpr (heq.trans hsj)
  have hj := (h _ j).mpr hsj
  rw [hi, Option.some.injEq] at hj
  omega

/-- A new text keeps the halves inverse. -/
theorem Consistent.push (h : sh.Consistent) (hs : sh.find? s = none) :
    (sh.push s).Consistent := by
  intro r i
  change (sh.push s).find? r = some i ↔ (sh.strings.push s)[i]? = some r
  rw [find?_push, Array.getElem?_push]
  by_cases hi : i = sh.strings.size
  · -- the slot of the new text, in which there was nothing before
    rw [if_pos hi]
    subst hi
    by_cases hsr : s = r
    · simp [hsr, size]
    · have hfree : sh.find? r ≠ some sh.strings.size := fun hr => by
        simpa using (h r _).mp hr
      simp [hsr, hfree]
  · rw [if_neg hi, ← h r i]
    by_cases hsr : s = r
    · -- the new text has no other slot
      subst hsr
      simp only [if_pos, hs, size, Option.some.injEq, reduceCtorEq, iff_false]
      exact fun h => hi h.symm
    · rw [if_neg hsr]

end Shard

namespace Interner

/-! ### The texts of an interner -/

/-- The shard with number `k`. -/
def shard (t : Interner) (k : Fin Name.shardCount) : Shard := t.shards.get k

/-- All stored texts, shard by shard. -/
def texts (t : Interner) : List String := t.shards.toList.flatMap fun sh => sh.strings.toList

/-- The state in which a text has been put into its home shard. The count is not raised yet. -/
def add (t : Interner) (s : String) : Interner := t.setHome s ((t.home s).push s)

variable {t : Interner} {s r : String} {n m : Name}

theorem shard_eq_getElem (t : Interner) (k : Fin Name.shardCount) : t.shard k = t.shards[k] := rfl

theorem home_eq_shard (t : Interner) (s : String) : t.home s = t.shard (shardOf s) := rfl

theorem shard_add (k : Fin Name.shardCount) :
    (t.add s).shard k = if shardOf s = k then (t.home s).push s else t.shard k := by
  have hval : (shardOf s).val = k.val ↔ shardOf s = k := Fin.ext_iff.symm
  simp only [shard_eq_getElem, add, setHome, Fin.getElem_fin, Vector.getElem_set, hval]

theorem mem_texts_iff : s ∈ t.texts ↔ ∃ k : Fin Name.shardCount, s ∈ (t.shard k).strings := by
  simp only [texts, List.mem_flatMap, Vector.mem_toList_iff, Vector.mem_iff_getElem,
    Array.mem_toList_iff]
  constructor
  · rintro ⟨_, ⟨k, hk, rfl⟩, hs⟩
    exact ⟨⟨k, hk⟩, hs⟩
  · rintro ⟨k, hs⟩
    exact ⟨_, ⟨k.val, k.isLt, rfl⟩, hs⟩

/-- Storing a text changes its home shard and leaves the shards on both sides of it alone. -/
theorem exists_toList_shards (t : Interner) (s : String) :
    ∃ before after, t.shards.toList = before ++ t.home s :: after ∧
      (t.add s).shards.toList = before ++ (t.home s).push s :: after := by
  have hk : (shardOf s).val < t.shards.toList.length := by simp
  have hhome : t.shards.toList[(shardOf s).val] = t.home s := by simp [home]
  refine ⟨t.shards.toList.take (shardOf s).val, t.shards.toList.drop ((shardOf s).val + 1), ?_, ?_⟩
  · rw [← hhome, List.getElem_cons_drop, List.take_append_drop]
  · rw [add, setHome, Vector.toList_set, List.set_eq_take_append_cons_drop, if_pos hk]

/-- **Storing a text adds it once** to the texts. -/
theorem texts_add_perm (t : Interner) (s : String) : (t.add s).texts.Perm (s :: t.texts) := by
  obtain ⟨before, after, hold, hnew⟩ := exists_toList_shards t s
  have hpush : ((t.home s).push s).strings.toList = (t.home s).strings.toList ++ [s] :=
    Array.toList_push
  rw [texts, texts, hnew, hold]
  simp only [List.flatMap_append, List.flatMap_cons, hpush, List.append_assoc,
    List.singleton_append]
  rw [← List.append_assoc, ← List.append_assoc]
  exact List.perm_middle

theorem length_texts_add (t : Interner) (s : String) :
    (t.add s).texts.length = t.texts.length + 1 :=
  (texts_add_perm t s).length_eq

theorem size_home_le (t : Interner) (s : String) : (t.home s).size ≤ t.texts.length := by
  have hmem : t.home s ∈ t.shards.toList := by
    rw [Vector.mem_toList_iff]
    exact Vector.getElem_mem (shardOf s).isLt
  have hsub : (t.home s).strings.toList.Sublist t.texts :=
    List.sublist_flatten_of_mem (List.mem_map_of_mem hmem)
  exact hsub.length_le

/-! ### The invariant -/

/-- **The invariant of the shards.** -/
structure WellFormed (t : Interner) : Prop where
  /-- The two halves of each shard are inverse to each other. -/
  consistent : ∀ k : Fin Name.shardCount, (t.shard k).Consistent
  /-- Every text is in its home shard. -/
  homed : ∀ (k : Fin Name.shardCount), ∀ s ∈ (t.shard k).strings, shardOf s = k
  /-- Names can tell the slots of each shard apart. -/
  bounded : ∀ k : Fin Name.shardCount, (t.shard k).size ≤ Name.slotCount

theorem WellFormed.of_shards {t' : Interner} (h : t.WellFormed) (hs : t'.shards = t.shards) :
    t'.WellFormed where
  consistent k := by
    rw [shard, hs]
    exact h.consistent k
  homed k := by
    rw [shard, hs]
    exact h.homed k
  bounded k := by
    rw [shard, hs]
    exact h.bounded k

theorem WellFormed.find?_eq_none_iff (h : t.WellFormed) :
    (t.home s).find? s = none ↔ s ∉ t.texts := by
  rw [home_eq_shard, (h.consistent _).find?_eq_none_iff, mem_texts_iff, not_exists]
  constructor
  · intro hs k hk
    -- the one shard that may hold the text is its home shard
    obtain rfl := h.homed k s hk
    exact hs hk
  · exact fun hs => hs (shardOf s)

/-- **Storing a new text keeps the invariant,** as long as its shard has a slot left. -/
theorem WellFormed.add (h : t.WellFormed) (hs : (t.home s).find? s = none)
    (hsize : (t.home s).size ≤ Name.maxSlot) : (t.add s).WellFormed where
  consistent k := by
    rw [shard_add]
    split
    · exact (h.consistent _).push hs
    · exact h.consistent k
  homed k r hr := by
    rw [shard_add] at hr
    split at hr
    · next hk =>
      rcases Array.mem_push.mp hr with hr | rfl
      · exact (h.homed _ r hr).trans hk
      · exact hk
    · exact h.homed k r hr
  bounded k := by
    rw [shard_add]
    split
    · rw [Shard.size_push]
      exact Nat.succ_le_succ hsize
    · exact h.bounded k

/-- **No text is stored twice,** not even in two shards. -/
theorem WellFormed.nodup_texts (h : t.WellFormed) : t.texts.Nodup := by
  have hshard : ∀ k (hk : k < t.shards.toList.length),
      t.shards.toList[k] = t.shards[(⟨k, by simpa using hk⟩ : Fin Name.shardCount)] := by
    intro k hk
    simp
  rw [texts, List.nodup_flatMap]
  constructor
  · -- within one shard
    intro sh hsh
    obtain ⟨k, hk, rfl⟩ := List.mem_iff_getElem.mp hsh
    rw [hshard k hk]
    exact (h.consistent _).nodup
  · -- in two shards, one of which would not be the home shard
    rw [List.pairwise_iff_getElem]
    intro i j hi hj hij s hsi hsj
    rw [hshard, Array.mem_toList_iff] at hsi hsj
    have heq := (h.homed _ s hsi).symm.trans (h.homed _ s hsj)
    have := congrArg Fin.val heq
    simp only at this
    omega

/-! ### What a name stands for -/

theorem lookup_eq_ok : t.lookup n = .ok s ↔ (t.shard n.shard).strings[n.slot]? = some s := by
  rw [lookup, ← shard_eq_getElem]
  cases hr : (t.shard n.shard).strings[n.slot]? with
  | some r => rw [Except.ok.injEq, Option.some.injEq]
  | none => simp only [reduceCtorEq]

/-- **A name and its text** determine each other: the name has the home shard of the text, and
the slot at which the text is found there. -/
theorem WellFormed.lookup_eq_ok_iff (h : t.WellFormed) :
    t.lookup n = .ok s ↔ n.shard = shardOf s ∧ (t.home s).find? s = some n.slot := by
  rw [lookup_eq_ok]
  constructor
  · intro hn
    have hshard := h.homed _ s (Array.mem_of_getElem? hn)
    rw [home_eq_shard, hshard]
    exact ⟨rfl, (h.consistent _ s _).mpr hn⟩
  · rintro ⟨hshard, hslot⟩
    rw [home_eq_shard, ← hshard] at hslot
    exact (h.consistent _ s _).mp hslot

theorem WellFormed.eq_of_lookup (h : t.WellFormed) (hm : t.lookup m = .ok s)
    (hn : t.lookup n = .ok s) : m = n := by
  obtain ⟨hmshard, hmslot⟩ := h.lookup_eq_ok_iff.mp hm
  obtain ⟨hnshard, hnslot⟩ := h.lookup_eq_ok_iff.mp hn
  have hslot : m.slot = n.slot := Option.some.inj (hmslot.symm.trans hnslot)
  exact Name.eq_of_parts (hmshard.trans hnshard.symm) hslot

/-- **Names are as different as their texts.** -/
theorem WellFormed.eq_iff_of_lookup (h : t.WellFormed) (hm : t.lookup m = .ok s)
    (hn : t.lookup n = .ok r) : m = n ↔ s = r := by
  constructor
  · rintro rfl
    exact Except.ok.inj (hm.symm.trans hn)
  · rintro rfl
    exact h.eq_of_lookup hm hn

theorem mem_texts_of_lookup (h : t.lookup n = .ok s) : s ∈ t.texts :=
  mem_texts_iff.mpr ⟨n.shard, Array.mem_of_getElem? (lookup_eq_ok.mp h)⟩

/-- **Names keep their texts** when another text is stored. -/
theorem lookup_add (h : t.lookup n = .ok s) (r : String) : (t.add r).lookup n = .ok s := by
  rw [lookup_eq_ok] at h ⊢
  rw [shard_add]
  split
  · next hk =>
    rw [← hk, ← home_eq_shard] at h
    have hlt : n.slot < (t.home r).strings.size := (Array.getElem?_eq_some_iff.mp h).1
    change ((t.home r).strings.push r)[n.slot]? = some s
    rwa [Array.getElem?_push, if_neg (Nat.ne_of_lt hlt)]
  · exact h

/-! ### Naming a text -/

theorem intern_of_find? {slot : Nat} (hs : (t.home s).find? s = some slot) :
    intern s t = (Name.ofParts (shardOf s) slot, t) := by
  simp only [intern, hs]

theorem intern_of_new (hs : (t.home s).find? s = none) (hsize : (t.home s).size ≤ Name.maxSlot) :
    intern s t =
      (Name.ofParts (shardOf s) (t.home s).size, { t.add s with count := t.count + 1 }) := by
  simp only [intern, hs, if_pos hsize, add]

theorem intern_of_full (hs : (t.home s).find? s = none)
    (hsize : ¬(t.home s).size ≤ Name.maxSlot) :
    intern s t = (.error (.shardFull (shardOf s) (t.home s).size), t) := by
  simp only [intern, hs, if_neg hsize]

/-- **What comes of naming a text:** the answer and the state after it. The text is there, or it
is new and is stored, or it is new and its shard is full; then nothing changes. -/
inductive Naming (t : Interner) (s : String) : Except Fault Name → Interner → Prop where
  | found (n : Name) (hn : t.lookup n = .ok s) : Naming t s (.ok n) t
  | added (n : Name) (hs : (t.home s).find? s = none) (hsize : (t.home s).size ≤ Name.maxSlot)
      (hn : (t.add s).lookup n = .ok s) : Naming t s (.ok n) { t.add s with count := t.count + 1 }
  | full (hs : (t.home s).find? s = none) (hsize : (t.home s).size = Name.slotCount) :
      Naming t s (.error (.shardFull (shardOf s) Name.slotCount)) t

theorem naming_intern (h : t.WellFormed) (s : String) :
    Naming t s (intern s t).1 (intern s t).2 := by
  have hbounded : (t.home s).size ≤ Name.slotCount := h.bounded (shardOf s)
  cases hs : (t.home s).find? s with
  | some slot =>
    -- a slot that is taken is in range
    have hlt : slot < (t.home s).size :=
      (Array.getElem?_eq_some_iff.mp ((h.consistent _ s slot).mp hs)).1
    have hslot : slot ≤ Name.maxSlot := Nat.le_of_lt_succ (Nat.lt_of_lt_of_le hlt hbounded)
    obtain ⟨n, hn, hnshard, hnslot⟩ := Name.exists_ofParts (shardOf s).isLt hslot
    rw [intern_of_find? hs, hn]
    exact .found n (h.lookup_eq_ok_iff.mpr ⟨Fin.ext hnshard, hnslot ▸ hs⟩)
  | none =>
    by_cases hsize : (t.home s).size ≤ Name.maxSlot
    · obtain ⟨n, hn, hnshard, hnslot⟩ := Name.exists_ofParts (shardOf s).isLt hsize
      rw [intern_of_new hs hsize, hn]
      refine .added n hs hsize ((h.add hs hsize).lookup_eq_ok_iff.mpr ⟨Fin.ext hnshard, ?_⟩)
      rw [add, home_setHome, Shard.find?_push, if_pos rfl, hnslot]
    · have hfull : (t.home s).size = Name.slotCount :=
        Nat.le_antisymm hbounded (Nat.lt_of_not_le hsize)
      rw [intern_of_full hs hsize, hfull]
      exact .full hs hfull

section Naming

variable {t' : Interner} {answer : Except Fault Name}

/-- **Naming a text has no other outcome.** In particular the parts that a name is put
together from are always in range. -/
theorem intern_naming (h : t.WellFormed) (hs : intern s t = (answer, t')) :
    Naming t s answer t' := by
  have hn := naming_intern h s
  rw [hs] at hn
  exact hn

theorem Naming.wellFormed (h : t.WellFormed) (hn : Naming t s answer t') : t'.WellFormed := by
  cases hn with
  | found n _ => exact h
  | added n hs hsize _ => exact (h.add hs hsize).of_shards rfl
  | full _ _ => exact h

theorem Naming.lookup (hn : Naming t s answer t') (hm : t.lookup m = .ok r) :
    t'.lookup m = .ok r := by
  cases hn with
  | found n _ => exact hm
  | added n _ _ _ => exact lookup_add hm s
  | full _ _ => exact hm

theorem Naming.lookup_self (hn : Naming t s (.ok n) t') : t'.lookup n = .ok s := by
  cases hn with
  | found _ h => exact h
  | added _ _ _ h => exact h

theorem Naming.count_eq (hn : Naming t s answer t') (h : t.count = t.texts.length) :
    t'.count = t'.texts.length := by
  cases hn with
  | found n _ => exact h
  | added n _ _ _ =>
    change t.count + 1 = (t.add s).texts.length
    rw [length_texts_add, h]
  | full _ _ => exact h

theorem Naming.length_texts_le (hn : Naming t s answer t') :
    t'.texts.length ≤ t.texts.length + 1 := by
  cases hn with
  | found _ _ => exact Nat.le_succ _
  | added _ _ _ _ => exact Nat.le_of_eq (length_texts_add t s)
  | full _ _ => exact Nat.le_succ _

theorem Naming.mem_texts_iff (hn : Naming t s (.ok n) t') : r ∈ t'.texts ↔ r ∈ t.texts ∨ r = s := by
  cases hn with
  | found _ h =>
    constructor
    · exact Or.inl
    · rintro (hr | rfl)
      · exact hr
      · exact mem_texts_of_lookup h
  | added _ _ _ _ =>
    change r ∈ (t.add s).texts ↔ _
    rw [(texts_add_perm t s).mem_iff, List.mem_cons, or_comm]

end Naming

/-- **A text that is already stored** keeps its name, and the state does not change. -/
theorem WellFormed.intern_of_mem (h : t.WellFormed) (hs : s ∈ t.texts) :
    ∃ n, intern s t = (.ok n, t) := by
  -- of the three outcomes, two are for new texts
  have hnot : (t.home s).find? s ≠ none := fun hnone => h.find?_eq_none_iff.mp hnone hs
  generalize hres : intern s t = res
  obtain ⟨answer, t'⟩ := res
  cases intern_naming h hres with
  | found n _ => exact ⟨n, rfl⟩
  | added n hnone _ _ => exact absurd hnone hnot
  | full hnone _ => exact absurd hnone hnot

theorem WellFormed.intern_of_lookup (h : t.WellFormed) (hn : t.lookup n = .ok s) :
    intern s t = (.ok n, t) := by
  obtain ⟨m, hm⟩ := h.intern_of_mem (mem_texts_of_lookup hn)
  have hself := (intern_naming h hm).lookup_self
  rw [hm, h.eq_of_lookup hself hn]

theorem WellFormed.exists_intern (h : t.WellFormed) (hsize : (t.home s).size ≤ Name.maxSlot) :
    ∃ n t', intern s t = (.ok n, t') := by
  generalize hres : intern s t = res
  obtain ⟨answer, t'⟩ := res
  cases intern_naming h hres with
  | found n _ => exact ⟨n, _, rfl⟩
  | added n _ _ _ => exact ⟨n, _, rfl⟩
  | full _ hfull =>
    rw [hfull] at hsize
    exact absurd hsize (by decide)

end Interner

end ItemAttrs
