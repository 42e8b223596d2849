import ItemAttrs.Span.Basic

/-!
# Events of a check

While it runs, a check tells a log what it is doing. An **event** is one entry of that log;
a check is a computation that adds events at the end of the log and may end with a fault, in
which case the events before the fault stay.
-/

namespace ItemAttrs

/-- **An entry of the log.** -/
inductive Event where
  /-- A check of some lists has begun. -/
  | began
  /-- An unused attribute was found. -/
  | unused (span : Span) (attr : String)
  /-- A check of some lists is over. -/
  | finished (lists reported : Nat)
  deriving DecidableEq, Repr

/-- The written form of an event. -/
def Event.text : Event → String
  | began => "span DEBUG check_unused_attributes"
  | unused span attr => s!"event TRACE message=unused attribute at={span.toText} attr={attr}"
  | finished lists reported =>
    s!"event DEBUG message=unused attribute check finished lists={lists} reported={reported}"

end ItemAttrs
