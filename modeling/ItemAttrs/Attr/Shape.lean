/-!
# Shapes of payloads

What can stand behind an attribute's name comes in four shapes: nothing, an expression
that is still to be evaluated, a text, or nested attributes. A pass that expects one shape
and meets another has broken its contract; the message names both (`ItemAttrs.Fault`).
-/

namespace ItemAttrs

/-- The four shapes of a payload. -/
inductive Shape where
  /-- `#[name]` -/
  | bare
  /-- `#[name = <expression>]` -/
  | value
  /-- `#[name = "text"]` -/
  | text
  /-- `#[name(item, item)]` -/
  | nested
  deriving DecidableEq, Repr

/-- The word for a shape in messages and dumps. -/
def Shape.label : Shape → String
  | bare => "None"
  | value => "ValueUnexpanded"
  | text => "String"
  | nested => "List"

end ItemAttrs
