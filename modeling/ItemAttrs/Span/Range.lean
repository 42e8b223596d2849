import ItemAttrs.Fault

/-!
# Spans and ranges of unbounded offsets

A parser counts bytes without a bound; a span holds offsets below `2 ^ 32`.
`Span.ofRange` makes a span of a range that fits and otherwise says what is wrong with it;
`Span.ofCheckedRange` is for callers to whom a range that does not fit is a mistake of their own.
`Span.length` is defined on the spans that are not inverted. `Span.toRange` undoes
`Span.ofRange`.
-/

namespace ItemAttrs.Span

/-- The largest offset that a span can hold. -/
def maxOffset : Nat := 4294967295

/-- **The span of a range of offsets.** A range that stops before it starts is inverted,
whatever else is wrong with it; then the start is looked at, then the stop. -/
def ofRange (start stop : Nat) : Except Fault Span :=
  if stop < start then .error (.inverted start stop)
  else if maxOffset < start then .error (.startTooLarge start)
  else if maxOffset < stop then .error (.stopTooLarge stop)
  else .ok ⟨UInt32.ofNat start, UInt32.ofNat stop⟩

/-- **The span of a range that is known to fit.** If it does not fit after all, only the wording of
the fault is left. -/
def ofCheckedRange (start stop : Nat) : Except String Span :=
  (ofRange start stop).mapError Fault.message

/-- **The number of bytes,** which an inverted span does not have. -/
def length (s : Span) : Except Fault UInt32 :=
  if s.Inverted then .error .negativeLength else .ok (s.stop - s.start)

end ItemAttrs.Span
