/-!
# Spans of source text

A **span** is a pair of byte offsets into one file: where a piece of source starts, and
where the text after it begins. Nothing orders the two offsets. A span whose stop lies
before its start is *inverted*; it contains no offset and has no length
(`ItemAttrs.Span.Range`), but it may still be stored, compared, covered and joined.

* `Span.Covers` is the order of enclosure, decided by `Span.covers`;
* `Span.join` is the smallest span that encloses two others;
* `Span.toText` is the written form `start..stop`.
-/

namespace ItemAttrs

/-- **A range of byte offsets.** `start` is the first offset of the text, `stop` the first
one after it. -/
structure Span where
  start : UInt32
  stop : UInt32
  deriving DecidableEq, Repr, Inhabited

namespace Span

/-- The span of whatever no source text stands behind. -/
def dummy : Span := ⟨0, 0⟩

/-- The stop lies before the start. -/
def Inverted (s : Span) : Prop := s.stop < s.start

instance (s : Span) : Decidable s.Inverted := inferInstanceAs (Decidable (_ < _))

/-- The two ends coincide. An inverted span is not empty in this sense. -/
def isEmpty (s : Span) : Bool := s.start == s.stop

/-- The offset lies in the span: at its start or after it, and before its stop. -/
def contains (s : Span) (offset : UInt32) : Bool := s.start ≤ offset && offset < s.stop

/-- **Enclosure.** `s` encloses `t` when `t` starts no earlier and stops no later. -/
def Covers (s t : Span) : Prop := s.start ≤ t.start ∧ t.stop ≤ s.stop

instance (s t : Span) : Decidable (s.Covers t) := inferInstanceAs (Decidable (_ ∧ _))

/-- Enclosure, as a test. -/
def covers (s t : Span) : Bool := decide (s.Covers t)

/-- **The smallest span that encloses both:** from the earlier start to the later stop. -/
def join (s t : Span) : Span := ⟨min s.start t.start, max s.stop t.stop⟩

/-- The two offsets as unbounded numbers. -/
def toRange (s : Span) : Nat × Nat := (s.start.toNat, s.stop.toNat)

/-- The written form, `start..stop`. -/
def toText (s : Span) : String := s!"{s.start.toNat}..{s.stop.toNat}"

@[simp] theorem covers_iff (s t : Span) : s.covers t = true ↔ s.Covers t := decide_eq_true_iff

@[simp] theorem contains_iff (s : Span) (o : UInt32) :
    s.contains o = true ↔ s.start ≤ o ∧ o < s.stop := by
  simp [contains]

@[simp] theorem isEmpty_iff (s : Span) : s.isEmpty = true ↔ s.start = s.stop := by
  simp [isEmpty]

@[simp] theorem join_start (s t : Span) : (s.join t).start = min s.start t.start := rfl

@[simp] theorem join_stop (s t : Span) : (s.join t).stop = max s.stop t.stop := rfl

end Span

/-- **Nodes that have a place in the source.** A report only needs the place of what it
points at, so it takes any such node. -/
class Spanned (α : Type) where
  /-- Where the node stands. -/
  spanOf : α → Span

end ItemAttrs
