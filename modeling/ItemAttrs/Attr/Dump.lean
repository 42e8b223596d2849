import ItemAttrs.Attr.List
import ItemAttrs.Expr.Dump

/-!
# Dumps of attributes

The dump of an attribute shows all that there is to it: span, name, payload and usage flag.
Two lists have the same dump exactly when they are equal.
-/

namespace ItemAttrs

/-- The dump of the name of an attribute. -/
def AttrName.dump (name : AttrName Name) : Dump :=
  .record "AttributeName" [("segments", Name.dumpAll name.segments)]

mutual

/-- **The dump of an attribute.** -/
def Attr.dump : Attr Name → Dump
  | ⟨span, name, payload, used⟩ =>
    .record "Attribute"
      [("span", span.dump), ("name", name.dump), ("data", payload.dump),
       ("is_used", .bool used)]

/-- The dump of a payload. -/
def Payload.dump : Payload Name → Dump
  | .bare => .word Shape.bare.label
  | .value e => .tuple Shape.value.label [e.dump]
  | .text n => .tuple Shape.text.label [n.dump]
  | .nested items => .tuple Shape.nested.label [.list (Attr.dumpAll items)]

/-- The dumps of several attributes. -/
def Attr.dumpAll : List (Attr Name) → List Dump
  | [] => []
  | a :: as => a.dump :: Attr.dumpAll as

end

/-- **The dump of a list.** -/
def AttrList.dump (l : AttrList Name) : Dump := .list (Attr.dumpAll l.items)

end ItemAttrs
