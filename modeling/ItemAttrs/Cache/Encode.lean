import ItemAttrs.Attr.List
import ItemAttrs.Json.Basic

/-!
# Attributes as cache documents

A cache keeps attribute lists between two runs as JSON documents. Structures become objects
with their fields in a fixed order. A variant becomes its tag, with its content behind it if
it has any. Names are written as their words and floats as their bits, so the document is as
exact as the list (`ItemAttrs.Cache.Decode` reads it back).
-/

namespace ItemAttrs

/-- A variant with content. -/
def Json.tagged (tag : String) (content : Json) : Json := .ofRecord [(tag, content)]

/-- The document of a span. -/
def Span.toJson (s : Span) : Json :=
  .ofRecord [("start", .ofNat s.start.toNat), ("end", .ofNat s.stop.toNat)]

/-- The document of a name. -/
def Name.toJson (n : Name) : Json := .ofNat n.raw.toNat

/-- The document of a list of names. -/
def Name.allToJson (names : List Name) : Json := .array (names.map toJson)

/-- The document of a literal. -/
def Literal.toJson : Literal Name → Json
  | .int n => .tagged "Int" (.ofNat n.toNat)
  | .float bits => .tagged "Float" (.ofNat bits.toNat)
  | .bool b => .tagged "Bool" (.bool b)
  | .char c => .tagged "Char" (.ofText (String.singleton c))
  | .str n => .tagged "Str" n.toJson

namespace Expr

/-- The document of a node and of its span. -/
def recordJson (kind : Json) (s : Span) : Json := .ofRecord [("kind", kind), ("span", s.toJson)]

mutual

/-- **The document of an expression.** -/
def toJson : Expr Name → Json
  | .literal l s => recordJson l.toJson s
  | .path p s => recordJson (.tagged "Path" (Name.allToJson p)) s
  | .call p args s =>
    recordJson (.tagged "MacroCall"
      (.ofRecord [("path", Name.allToJson p), ("args", .array (allToJson args))])) s
  | .unary op e s =>
    recordJson (.tagged "Unary"
      (.ofRecord [("op", .ofText op.label), ("operand", e.toJson)])) s
  | .binary op l r s =>
    recordJson (.tagged "Binary"
      (.ofRecord [("op", .ofText op.label), ("lhs", l.toJson), ("rhs", r.toJson)])) s
  | .paren e s => recordJson (.tagged "Paren" e.toJson) s

/-- The documents of several expressions. -/
def allToJson : List (Expr Name) → List Json
  | [] => []
  | e :: es => e.toJson :: allToJson es

end

end Expr

/-- The document of the name of an attribute. -/
def AttrName.toJson (name : AttrName Name) : Json :=
  .ofRecord [("segments", Name.allToJson name.segments)]

mutual

/-- **The document of an attribute.** -/
def Attr.toJson : Attr Name → Json
  | ⟨span, name, payload, used⟩ =>
    .ofRecord
      [("span", span.toJson), ("name", name.toJson), ("data", payload.toJson),
       ("is_used", .bool used)]

/-- The document of a payload. -/
def Payload.toJson : Payload Name → Json
  | .bare => .ofText Shape.bare.label
  | .value e => .tagged Shape.value.label e.toJson
  | .text n => .tagged Shape.text.label n.toJson
  | .nested items => .tagged Shape.nested.label (.array (Attr.allToJson items))

/-- The documents of several attributes. -/
def Attr.allToJson : List (Attr Name) → List Json
  | [] => []
  | a :: as => a.toJson :: Attr.allToJson as

end

/-- **The document of a list.** -/
def AttrList.toJson (l : AttrList Name) : Json :=
  .ofRecord [("items", .array (Attr.allToJson l.items))]

end ItemAttrs
