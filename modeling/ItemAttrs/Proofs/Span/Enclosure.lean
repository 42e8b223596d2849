import Mathlib.Data.FinEnum
import Mathlib.Data.Set.Card
import Mathlib.Order.Bounds.Basic
import Mathlib.Order.Interval.Finset.Nat
import ItemAttrs.Span.Range

/-!
# Enclosure, joins and lengths

Enclosure orders all spans, inverted ones too, and the join of two spans is the least span that
encloses both. So the spans are a semilattice, and whatever is joined up from some spans, in any
order and grouping, is the least span that encloses them (`Joins.isLUB`).

The length of a span that is not inverted is the number of offsets in it (`exists_length`). Hence a
span is at least as long as one that it encloses, because it contains the same offsets and perhaps
more. What a span encloses can be read off the offsets, as long as there are any
(`covers_iff_offsets_subset`): spans without offsets are told apart by their ends only.
-/

namespace ItemAttrs.Span

variable {s t : Span}

/-! ### The order of enclosure -/

theorem Covers.refl (s : Span) : s.Covers s := ⟨UInt32.le_refl s.start, UInt32.le_refl s.stop⟩

theorem Covers.trans {u : Span} (h : s.Covers t) (h' : t.Covers u) : s.Covers u :=
  ⟨UInt32.le_trans h.1 h'.1, UInt32.le_trans h'.2 h.2⟩

theorem covers_iff_toNat :
    s.Covers t ↔ s.start.toNat ≤ t.start.toNat ∧ t.stop.toNat ≤ s.stop.toNat := by
  rw [Covers, UInt32.le_iff_toNat_le, UInt32.le_iff_toNat_le]

theorem Covers.antisymm (h : s.Covers t) (h' : t.Covers s) : s = t := by
  have hstart : s.start = t.start := UInt32.le_antisymm h.1 h'.1
  have hstop : s.stop = t.stop := UInt32.le_antisymm h'.2 h.2
  cases s
  cases t
  exact congrArg₂ mk hstart hstop

/-- What encloses both of two spans encloses their join, and nothing else does. -/
theorem covers_join_iff (s t u : Span) : u.Covers (s.join t) ↔ u.Covers s ∧ u.Covers t := by
  simp only [covers_iff_toNat, join_start, join_stop, UInt32.toNat_min, UInt32.toNat_max,
    Nat.le_min, Nat.max_le]
  tauto

theorem covers_join_left (s t : Span) : (s.join t).Covers s :=
  ((covers_join_iff s t _).mp (.refl _)).1

theorem covers_join_right (s t : Span) : (s.join t).Covers t :=
  ((covers_join_iff s t _).mp (.refl _)).2

/-- **Spans as a semilattice.** A span is below those that enclose it. -/
instance : SemilatticeSup Span where
  le s t := t.Covers s
  sup := join
  le_refl := .refl
  le_trans _ _ _ hst htu := htu.trans hst
  le_antisymm _ _ hst hts := hts.antisymm hst
  le_sup_left := covers_join_left
  le_sup_right := covers_join_right
  sup_le s t u hs ht := (covers_join_iff s t u).mpr ⟨hs, ht⟩

/-- **A span joined up from the spans of a list,** two at a time, in any order and grouping. -/
inductive Joins : List Span → Span → Prop where
  | single (s : Span) : Joins [s] s
  | join {l l' : List Span} {s t : Span} (h : Joins l s) (h' : Joins l' t) :
      Joins (l ++ l') (s.join t)

/-- **Joins are least upper bounds.** So the order, the grouping and repetitions do not matter. -/
theorem Joins.isLUB {l : List Span} (h : Joins l s) : IsLUB {x | x ∈ l} s := by
  induction h with
  | single s =>
    have hsingle : {x | x ∈ [s]} = {s} := by
      ext x
      exact List.mem_singleton
    rw [hsingle]
    exact isLUB_singleton
  | @join l l' s t _ _ ih ih' =>
    have hunion : {x | x ∈ l ++ l'} = {x | x ∈ l} ∪ {x | x ∈ l'} := by
      ext x
      exact List.mem_append
    rw [hunion]
    exact ih.union ih'

theorem Joins.covers_iff {l : List Span} (h : Joins l s) : t.Covers s ↔ ∀ x ∈ l, t.Covers x :=
  isLUB_iff_le_iff.mp h.isLUB t

/-! ### Offsets and length -/

/-- The offsets in a span. -/
def offsets (s : Span) : Set UInt32 := {o | s.contains o = true}

theorem mem_offsets {o : UInt32} : o ∈ s.offsets ↔ s.start ≤ o ∧ o < s.stop := s.contains_iff o

theorem not_inverted_iff : ¬s.Inverted ↔ s.start.toNat ≤ s.stop.toNat := by
  rw [Inverted, UInt32.lt_iff_toNat_lt, Nat.not_lt]

theorem ncard_offsets (s : Span) : s.offsets.ncard = s.stop.toNat - s.start.toNat := by
  -- as unbounded numbers the offsets are all those from the start up to the stop
  have himage : UInt32.toNat '' s.offsets = ↑(Finset.Ico s.start.toNat s.stop.toNat) := by
    ext i
    rw [Set.mem_image, Finset.mem_coe, Finset.mem_Ico]
    constructor
    · rintro ⟨o, ho, rfl⟩
      rw [mem_offsets, UInt32.le_iff_toNat_le, UInt32.lt_iff_toNat_lt] at ho
      exact ho
    · intro hi
      have hword : (UInt32.ofNat i).toNat = i :=
        UInt32.toNat_ofNat_of_lt' (Nat.lt_trans hi.2 s.stop.toNat_lt)
      refine ⟨UInt32.ofNat i, ?_, hword⟩
      rw [mem_offsets, UInt32.le_iff_toNat_le, UInt32.lt_iff_toNat_lt, hword]
      exact hi
  calc s.offsets.ncard
      = (UInt32.toNat '' s.offsets).ncard :=
        (Set.ncard_image_of_injective _ fun _ _ => UInt32.toNat_inj.mp).symm
    _ = s.stop.toNat - s.start.toNat := by rw [himage, Set.ncard_coe_finset, Nat.card_Ico]

theorem length_eq_error_iff {cause : Fault} :
    s.length = .error cause ↔ s.Inverted ∧ cause = .negativeLength := by
  rw [length]
  split
  · next h => simp [h, eq_comm]
  · next h => simp [h]

/-- **The length is the number of offsets.** -/
theorem exists_length (h : ¬s.Inverted) : ∃ n, s.length = .ok n ∧ n.toNat = s.offsets.ncard := by
  refine ⟨s.stop - s.start, if_neg h, ?_⟩
  rw [ncard_offsets]
  exact UInt32.toNat_sub_of_le _ _ (UInt32.le_iff_toNat_le.mpr (not_inverted_iff.mp h))

theorem offsets_eq_empty_iff : s.offsets = ∅ ↔ s.offsets.ncard = 0 :=
  (Set.ncard_eq_zero s.offsets.toFinite).symm

theorem isEmpty_iff_ncard (h : ¬s.Inverted) : s.isEmpty = true ↔ s.offsets.ncard = 0 := by
  have hle := not_inverted_iff.mp h
  rw [isEmpty_iff, ncard_offsets, ← UInt32.toNat_inj]
  omega

theorem start_lt_stop (h : ¬s.Inverted) (hne : s.isEmpty = false) : s.start < s.stop := by
  have hle := not_inverted_iff.mp h
  rw [isEmpty, beq_eq_false_iff_ne, ne_eq, ← UInt32.toNat_inj] at hne
  rw [UInt32.lt_iff_toNat_lt]
  omega

/-! ### Enclosure and offsets -/

theorem Covers.offsets_subset (h : s.Covers t) : t.offsets ⊆ s.offsets := by
  intro o ho
  rw [mem_offsets] at ho ⊢
  exact ⟨UInt32.le_trans h.1 ho.1, UInt32.lt_of_lt_of_le ho.2 h.2⟩

/-- **Enclosure can be read off the offsets** of a span that has any. -/
theorem covers_iff_offsets_subset (h : t.start < t.stop) :
    s.Covers t ↔ t.offsets ⊆ s.offsets := by
  refine ⟨Covers.offsets_subset, fun hsub => ?_⟩
  rw [UInt32.lt_iff_toNat_lt] at h
  -- the first offset and the last one tell where the other span starts and stops
  have hlast : (t.stop - 1).toNat = t.stop.toNat - 1 :=
    UInt32.toNat_sub_of_le _ _ (UInt32.le_iff_toNat_le.mpr (Nat.one_le_of_lt h))
  have hfirst : t.start ∈ s.offsets := hsub (mem_offsets.mpr ⟨UInt32.le_refl _, h⟩)
  have hend : t.stop - 1 ∈ s.offsets := by
    apply hsub
    rw [mem_offsets, UInt32.le_iff_toNat_le, UInt32.lt_iff_toNat_lt, hlast]
    omega
  refine ⟨(mem_offsets.mp hfirst).1, ?_⟩
  have hstop := (mem_offsets.mp hend).2
  rw [UInt32.lt_iff_toNat_lt, hlast] at hstop
  rw [UInt32.le_iff_toNat_le]
  omega

theorem Covers.not_inverted (h : s.Covers t) (ht : ¬t.Inverted) : ¬s.Inverted := by
  obtain ⟨hstart, hstop⟩ := h
  rw [UInt32.le_iff_toNat_le] at hstart hstop
  rw [not_inverted_iff] at ht ⊢
  omega

/-- **Both spans have a length, and the first one is at least as long.** -/
def AtLeastAsLong (s t : Span) : Prop :=
  ∃ m n, s.length = .ok m ∧ t.length = .ok n ∧ n ≤ m

/-- **A span is at least as long as what it encloses,** since it contains the same offsets. -/
theorem Covers.atLeastAsLong (h : s.Covers t) (ht : ¬t.Inverted) : s.AtLeastAsLong t := by
  obtain ⟨m, hm, hmcard⟩ := exists_length (h.not_inverted ht)
  obtain ⟨n, hn, hncard⟩ := exists_length ht
  refine ⟨m, n, hm, hn, UInt32.le_iff_toNat_le.mpr ?_⟩
  calc n.toNat
      = t.offsets.ncard := hncard
    _ ≤ s.offsets.ncard := Set.ncard_le_ncard h.offsets_subset s.offsets.toFinite
    _ = m.toNat := hmcard.symm

/-- A join of spans that have a length has one, too. -/
theorem Joins.not_inverted {l : List Span} (h : Joins l s) (hl : ∀ x ∈ l, ¬x.Inverted) :
    ¬s.Inverted := by
  induction h with
  | single s => exact hl s List.mem_cons_self
  | @join l l' s t _ _ ih _ =>
    -- the join encloses its first part
    have hs := ih fun x hx => hl x (List.mem_append_left l' hx)
    exact (covers_join_left s t).not_inverted hs

/-- **Spans are ordered by enclosure,** joins are least upper bounds, and lengths count offsets.
A length is missing for the inverted spans only. A span that is not inverted is empty exactly if its
length is zero, and exactly if there is no offset in it; if there is one, the offsets tell whether
the span is enclosed in another. A span joined up from any number of others is the least one that
encloses them; if they are not inverted, it is not inverted either, and at least as long as each of
them. -/
theorem ordered_by_enclosure :
    ((∀ s : Span, s.covers s) ∧ (∀ s t : Span, s.covers t → t.covers s → s = t) ∧
      ∀ s t u : Span, s.covers t → t.covers u → s.covers u) ∧
    ((∀ s t : Span, (s.join t).covers s ∧ (s.join t).covers t ∧
        ∀ u : Span, u.covers s → u.covers t → u.covers (s.join t)) ∧
      (∀ s t : Span, s.join t = t.join s) ∧
      (∀ s t u : Span, (s.join t).join u = s.join (t.join u)) ∧ ∀ s : Span, s.join s = s) ∧
    ((∀ (s : Span) cause, s.length = .error cause ↔ s.Inverted ∧ cause = .negativeLength) ∧
      ∀ s : Span, ¬s.Inverted → ∃ n, s.length = .ok n ∧
        n.toNat = {o | s.contains o = true}.ncard ∧ (s.isEmpty ↔ n = 0) ∧
        (n = 0 ↔ ∀ o, s.contains o = false)) ∧
    (∀ s t : Span, ¬t.Inverted → t.isEmpty = false →
      (s.covers t ↔ ∀ o, t.contains o → s.contains o)) ∧
    (∀ s t : Span, ¬s.Inverted → ¬t.Inverted →
      ¬(s.join t).Inverted ∧ (s.join t).AtLeastAsLong s ∧ (s.join t).AtLeastAsLong t) ∧
    ∀ l s, Joins l s → (∀ u : Span, u.covers s ↔ ∀ x ∈ l, u.covers x) ∧
      ((∀ x ∈ l, ¬x.Inverted) →
        ¬s.Inverted ∧ (∃ n, s.length = .ok n) ∧ ∀ x ∈ l, s.AtLeastAsLong x) := by
  simp only [covers_iff]
  refine ⟨⟨.refl, fun s t => Covers.antisymm, fun s t u => .trans⟩,
    ⟨fun s t => ⟨covers_join_left s t, covers_join_right s t, fun u hs ht => ?_⟩,
      fun s t => sup_comm s t, fun s t u => sup_assoc s t u, fun s => sup_idem s⟩,
    ⟨fun s cause => length_eq_error_iff, fun s hs => ?_⟩, fun s t ht hne => ?_,
    fun s t hs ht => ?_, fun l s h => ⟨fun u => h.covers_iff, fun hl => ?_⟩⟩
  · exact (covers_join_iff s t u).mpr ⟨hs, ht⟩
  · obtain ⟨n, hn, hcard⟩ := exists_length hs
    have hzero : n = 0 ↔ s.offsets.ncard = 0 := by
      rw [← hcard, ← UInt32.toNat_inj]
      rfl
    refine ⟨n, hn, hcard, (isEmpty_iff_ncard hs).trans hzero.symm, ?_⟩
    rw [hzero, ← offsets_eq_empty_iff, Set.eq_empty_iff_forall_notMem]
    exact forall_congr' fun o => Bool.eq_false_iff.symm
  · exact covers_iff_offsets_subset (start_lt_stop ht hne)
  · have hleft := covers_join_left s t
    exact ⟨hleft.not_inverted hs, hleft.atLeastAsLong hs,
      (covers_join_right s t).atLeastAsLong ht⟩
  · have hs := h.not_inverted hl
    obtain ⟨n, hn, -⟩ := exists_length hs
    exact ⟨hs, ⟨n, hn⟩, fun x hx => (h.covers_iff.mp (.refl s) x hx).atLeastAsLong (hl x hx)⟩

/-- An opening bracket, a closing one and the end of the longest file, with everything between
them: the join reaches up to the last offset, and it encloses an inverted span, which has no length
of its own. -/
theorem ordered_by_enclosure_brackets :
    let opening : Span := ⟨4, 6⟩
    let closing : Span := ⟨15, 16⟩
    let ending : Span := ⟨4294967295, 4294967295⟩
    let whole : Span := ⟨4, 4294967295⟩
    (Joins [opening, closing, ending] whole ∧ ∀ x ∈ [opening, closing, ending], ¬x.Inverted) ∧
      (∀ x ∈ [opening, closing, ending], whole.AtLeastAsLong x) ∧
      (¬opening.Inverted ∧ opening.isEmpty = false ∧ ∀ o, opening.contains o → whole.contains o) ∧
      (opening.join closing).AtLeastAsLong closing ∧
      {o | opening.contains o = true}.ncard = 2 ∧
      whole.covers ⟨6, 4⟩ ∧ (⟨6, 4⟩ : Span).length = .error .negativeLength := by
  intro opening closing ending whole
  obtain ⟨-, -, ⟨hfaults, hlengths⟩, hoffsets, hlonger, hjoins⟩ := ordered_by_enclosure
  have h : Joins [opening, closing, ending] whole :=
    .join (.single opening) (.join (.single closing) (.single ending))
  have hl : ∀ x ∈ [opening, closing, ending], ¬x.Inverted := by decide
  obtain ⟨hcovers, hlong⟩ := hjoins _ _ h
  obtain ⟨-, -, hlong⟩ := hlong hl
  have hopening : whole.covers opening := (hcovers whole).mp (by decide) opening List.mem_cons_self
  obtain ⟨n, hn, hcard, -⟩ := hlengths opening (by decide)
  have htwo : opening.length = .ok 2 := by decide
  obtain rfl : 2 = n := Except.ok.inj (htwo.symm.trans hn)
  exact ⟨⟨h, hl⟩, hlong, ⟨by decide, by decide, (hoffsets _ _ (by decide) (by decide)).mp hopening⟩,
    (hlonger opening closing (by decide) (by decide)).2.2, hcard.symm, by decide,
    (hfaults _ _).mpr ⟨by decide, rfl⟩⟩

end ItemAttrs.Span
