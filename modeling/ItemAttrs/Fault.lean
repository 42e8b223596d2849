import ItemAttrs.Span.Basic
import ItemAttrs.Attr.Shape

/-!
# Faults

A **fault** is the cause for which an operation gives no result: its caller broke the
contract, or a store ran out of room. Each operation that can fail answers in
`Except Fault`, so the cause is a value that theorems can name; `Fault.message` is its
wording, the only place where one is fixed.
-/

namespace ItemAttrs

/-- **Why an operation gave no result.** -/
inductive Fault where
  /-- A name was put together from a shard that does not exist. -/
  | shardIndex
  /-- A name was put together from a slot too large for its shard. -/
  | slotIndex
  /-- An element was asked for at an index not below the number of elements. -/
  | pastEnd (size index : Nat)
  /-- The length of an inverted span was asked for. -/
  | negativeLength
  /-- A range starts past the largest offset. -/
  | startTooLarge (value : Nat)
  /-- A range stops past the largest offset. -/
  | stopTooLarge (value : Nat)
  /-- A range stops before it starts. -/
  | inverted (start stop : Nat)
  /-- A shard of an interner holds as many strings as names can tell apart. -/
  | shardFull (shard count : Nat)
  /-- An attribute name was to be built from no segment. -/
  | noSegments
  /-- The sole segment was asked for of a name that has another number of segments. -/
  | notTrivial (segments : Nat)
  /-- A payload was read as a shape that it does not have. -/
  | wrongShape (place : Span) (found expected : Shape)
  deriving DecidableEq, Repr

namespace Fault

/-- Upper-case hexadecimal digits. -/
def hexUpper (n : Nat) : String :=
  String.ofList ((Nat.toDigits 16 n).map Char.toUpper)

/-- The wording for an offset `value` too large to be an end of a span. -/
def tooLarge (side : String) (value : Nat) : String :=
  s!"span {side} {value} (0x{hexUpper value}) exceeds u32::MAX (0xFFFFFFFF)"

/-- **The wording of each fault.** -/
def message : Fault → String
  | shardIndex => "assertion failed: shard < 16"
  | slotIndex => "assertion failed: local <= Self::MAX_LOCAL"
  | pastEnd size index => s!"index out of bounds: the len is {size} but the index is {index}"
  | negativeLength => "attempt to subtract with overflow"
  | startTooLarge value => tooLarge "start" value
  | stopTooLarge value => tooLarge "end" value
  | inverted start stop => s!"span end {stop} lies before its start {start}"
  | shardFull shard count =>
    s!"interner shard {shard} exceeded capacity: {count} strings, max is 268435455"
  | noSegments => "attribute name must have at least one segment"
  | notTrivial segments =>
    s!"as_trivial() called on an attribute name with {segments} segments"
  | wrongShape place found expected =>
    s!"attribute at {place.toText} has a `{found.label}` payload, not `{expected.label}`"

end Fault

end ItemAttrs
