import Mathlib.Logic.Basic
import ItemAttrs.Span.Range

/-!
# Ranges that fit into a span

A range has a span exactly if it is not inverted and stops at the largest offset or before it; then
the span has the very ends of the range, so nothing is cut off. Every other range is refused for one
cause (`Classified`). Reading a span as a range and making a span of it again gives the span back,
unless it is inverted (`ofRange_toRange`).
-/

namespace ItemAttrs.Span

variable {start stop : Nat} {s : Span}

/-- **What comes of a range.** An inverted range is refused as such, whatever its ends are; of the
other ones the start is looked at before the stop. -/
inductive Classified (start stop : Nat) : Except Fault Span → Prop where
  | fits (s : Span) (hle : start ≤ stop) (hmax : stop ≤ maxOffset)
      (hends : s.toRange = (start, stop)) : Classified start stop (.ok s)
  | inverted (h : stop < start) : Classified start stop (.error (.inverted start stop))
  | startTooLarge (hle : start ≤ stop) (hmax : maxOffset < start) :
      Classified start stop (.error (.startTooLarge start))
  | stopTooLarge (hstart : start ≤ maxOffset) (hmax : maxOffset < stop) :
      Classified start stop (.error (.stopTooLarge stop))

/-- Offsets that fit are not cut off. -/
theorem toRange_ofNat (hstart : start ≤ maxOffset) (hstop : stop ≤ maxOffset) :
    toRange ⟨UInt32.ofNat start, UInt32.ofNat stop⟩ = (start, stop) := by
  rw [toRange, UInt32.toNat_ofNat_of_lt' (Nat.lt_succ_of_le hstart),
    UInt32.toNat_ofNat_of_lt' (Nat.lt_succ_of_le hstop)]

theorem classified_ofRange (start stop : Nat) : Classified start stop (ofRange start stop) := by
  rw [ofRange]
  split
  · next h => exact .inverted h
  · next h =>
    have hle : start ≤ stop := Nat.le_of_not_lt h
    split
    · next hstart => exact .startTooLarge hle hstart
    · next hstart =>
      have hstart : start ≤ maxOffset := Nat.le_of_not_lt hstart
      split
      · next hstop => exact .stopTooLarge hstart hstop
      · next hstop =>
        have hstop : stop ≤ maxOffset := Nat.le_of_not_lt hstop
        exact .fits _ hle hstop (toRange_ofNat hstart hstop)

theorem Classified.ofRange_eq {answer : Except Fault Span} (h : Classified start stop answer) :
    ofRange start stop = answer := by
  cases h with
  | fits s hle hmax hends =>
    have hnot : ¬maxOffset < start := Nat.not_lt_of_le (Nat.le_trans hle hmax)
    rw [ofRange, if_neg (Nat.not_lt_of_le hle), if_neg hnot, if_neg (Nat.not_lt_of_le hmax)]
    -- the words with these values are the ends of the span
    obtain ⟨rfl, rfl⟩ := Prod.mk.inj hends
    rw [UInt32.ofNat_toNat, UInt32.ofNat_toNat]
  | inverted h => rw [ofRange, if_pos h]
  | startTooLarge hle hmax => rw [ofRange, if_neg (Nat.not_lt_of_le hle), if_pos hmax]
  | stopTooLarge hstart hmax =>
    have hle : start ≤ stop := Nat.le_of_lt (Nat.lt_of_le_of_lt hstart hmax)
    rw [ofRange, if_neg (Nat.not_lt_of_le hle), if_neg (Nat.not_lt_of_le hstart), if_pos hmax]

/-- **Every range is classified,** and in one way only. -/
theorem ofRange_eq_iff {answer : Except Fault Span} :
    ofRange start stop = answer ↔ Classified start stop answer :=
  ⟨fun h => h ▸ classified_ofRange start stop, Classified.ofRange_eq⟩

theorem exists_ofRange_iff :
    (∃ s, ofRange start stop = .ok s) ↔ start ≤ stop ∧ stop ≤ maxOffset := by
  constructor
  · rintro ⟨s, hs⟩
    cases ofRange_eq_iff.mp hs with
    | fits _ hle hmax _ => exact ⟨hle, hmax⟩
  · rintro ⟨hle, hmax⟩
    have hends := toRange_ofNat (Nat.le_trans hle hmax) hmax
    exact ⟨_, ofRange_eq_iff.mpr (.fits _ hle hmax hends)⟩

theorem ofRange_eq_inverted_iff :
    ofRange start stop = .error (.inverted start stop) ↔ stop < start := by
  rw [ofRange_eq_iff]
  constructor
  · intro h
    cases h with
    | inverted hlt => exact hlt
  · exact .inverted

theorem ofRange_eq_startTooLarge_iff :
    ofRange start stop = .error (.startTooLarge start) ↔ maxOffset < start ∧ start ≤ stop := by
  rw [ofRange_eq_iff]
  constructor
  · intro h
    cases h with
    | startTooLarge hle hmax => exact ⟨hmax, hle⟩
  · rintro ⟨hmax, hle⟩
    exact .startTooLarge hle hmax

theorem ofRange_eq_stopTooLarge_iff :
    ofRange start stop = .error (.stopTooLarge stop) ↔ start ≤ maxOffset ∧ maxOffset < stop := by
  rw [ofRange_eq_iff]
  constructor
  · intro h
    cases h with
    | stopTooLarge hstart hmax => exact ⟨hstart, hmax⟩
  · rintro ⟨hstart, hmax⟩
    exact .stopTooLarge hstart hmax

/-- A span has the ends of the range that it is made of. -/
theorem toRange_of_ofRange (h : ofRange start stop = .ok s) : s.toRange = (start, stop) := by
  cases ofRange_eq_iff.mp h with
  | fits _ _ _ hends => exact hends

/-- **Reading a span as a range** and making a span of it again. -/
theorem ofRange_toRange (s : Span) : ofRange s.toRange.1 s.toRange.2 =
    if s.Inverted then .error (.inverted s.toRange.1 s.toRange.2) else .ok s := by
  rw [ofRange_eq_iff]
  split
  · next h => exact .inverted (UInt32.lt_iff_toNat_lt.mp h)
  · next h =>
    rw [Inverted, UInt32.lt_iff_toNat_lt, Nat.not_lt] at h
    exact .fits s h (Nat.le_of_lt_succ s.stop.toNat_lt) rfl

theorem ofCheckedRange_eq_ok_iff :
    ofCheckedRange start stop = .ok s ↔ ofRange start stop = .ok s := by
  rw [ofCheckedRange]
  cases ofRange start stop with
  | ok s' => exact (Except.ok.injEq _ _).to_iff.trans (Except.ok.injEq _ _).to_iff.symm
  | error cause => exact iff_of_false nofun nofun

theorem ofCheckedRange_eq_error_iff {text : String} : ofCheckedRange start stop = .error text ↔
    ∃ cause, ofRange start stop = .error cause ∧ cause.message = text := by
  rw [ofCheckedRange]
  cases ofRange start stop with
  | ok s => exact iff_of_false nofun nofun
  | error cause =>
    constructor
    · exact fun h => ⟨cause, rfl, Except.error.inj h⟩
    · rintro ⟨_, h, rfl⟩
      cases h
      rfl

/-- **A range is classified by its ends.** It has a span exactly if it is not inverted and stops at
the largest offset or before it, and then the span has these ends. Otherwise it is inverted, or its
start is too large, or only its stop is. For a range that was said to fit, the same span or the
wording of the same fault comes back. A span, read as a range, comes back unless it is inverted. -/
theorem classified_by_ends :
    (∀ start stop : Nat,
      ((∃ s, ofRange start stop = .ok s) ↔ start ≤ stop ∧ stop ≤ maxOffset) ∧
      (∀ s, ofRange start stop = .ok s → s.toRange = (start, stop)) ∧
      (ofRange start stop = .error (.inverted start stop) ↔ stop < start) ∧
      (ofRange start stop = .error (.startTooLarge start) ↔ maxOffset < start ∧ start ≤ stop) ∧
      (ofRange start stop = .error (.stopTooLarge stop) ↔
        start ≤ maxOffset ∧ maxOffset < stop) ∧
      (∀ s, ofCheckedRange start stop = .ok s ↔ ofRange start stop = .ok s) ∧
      ∀ text, ofCheckedRange start stop = .error text ↔
        ∃ cause, ofRange start stop = .error cause ∧ cause.message = text) ∧
    ∀ s : Span, ofRange s.toRange.1 s.toRange.2 =
      if s.Inverted then .error (.inverted s.toRange.1 s.toRange.2) else .ok s := by
  refine ⟨fun start stop => ⟨exists_ofRange_iff, fun s hs => toRange_of_ofRange hs, ?_⟩,
    ofRange_toRange⟩
  exact ⟨ofRange_eq_inverted_iff, ofRange_eq_startTooLarge_iff, ofRange_eq_stopTooLarge_iff,
    fun s => ofCheckedRange_eq_ok_iff, fun text => ofCheckedRange_eq_error_iff⟩

/-- The largest offset as an end, and the first one past it. An inverted range is reported as such
although its start is too large as well. -/
theorem classified_by_ends_edges :
    (∃ s, ofRange 4294967295 4294967295 = .ok s ∧ s.toRange = (4294967295, 4294967295)) ∧
      ofRange 4294967295 4294967296 = .error (.stopTooLarge 4294967296) ∧
      ofRange 4294967296 4294967295 = .error (.inverted 4294967296 4294967295) ∧
      ofCheckedRange 4294967296 4294967296 =
        .error "span start 4294967296 (0x100000000) exceeds u32::MAX (0xFFFFFFFF)" := by
  obtain ⟨hok, hends, -⟩ := classified_by_ends.1 4294967295 4294967295
  obtain ⟨-, -, -, -, hstop, -⟩ := classified_by_ends.1 4294967295 4294967296
  obtain ⟨-, -, hinverted, -⟩ := classified_by_ends.1 4294967296 4294967295
  obtain ⟨-, -, -, hstart, -, -, htext⟩ := classified_by_ends.1 4294967296 4294967296
  obtain ⟨s, hs⟩ := hok.mpr (by decide)
  refine ⟨⟨s, hs, hends s hs⟩, hstop.mpr (by decide), hinverted.mpr (by decide), ?_⟩
  exact (htext _).mpr ⟨_, hstart.mpr (by decide), by decide +kernel⟩

end ItemAttrs.Span
