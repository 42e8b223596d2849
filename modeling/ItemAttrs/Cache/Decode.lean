import ItemAttrs.Cache.Encode
import ItemAttrs.Json.Read

/-!
# Attributes from cache documents

Reading a cache document is generous in form and strict in content. An object may have its
fields in any order and others besides; an array may stand for an object with exactly its
fields. But each field has to be there, once, and to hold a value of its kind.

Containers are only opened to a limited depth, so that no document can exhaust the reader.
Each function here takes the number of containers, one inside the other, that it may still
open: its `room`. A structure, an array and a variant with content take one each; what is
passed over takes none. A document made by `AttrList.toJson` is read back as the same list,
given room enough.
-/

namespace ItemAttrs

/-- How many containers may be open at once in a document from a file. -/
def nestingLimit : Nat := 127

namespace Json

/-- A number below `2 ^ 32`. -/
def asUInt32? (j : Json) : Option UInt32 := do
  let n ← j.asNat?
  if n < UInt32.size then some (UInt32.ofNat n) else none

/-- A number below `2 ^ 64`. -/
def asUInt64? (j : Json) : Option UInt64 := do
  let n ← j.asNat?
  if n < UInt64.size then some (UInt64.ofNat n) else none

/-- A text of one character. -/
def asChar? (j : Json) : Option Char := do
  match (← j.asText?).toList with
  | [c] => some c
  | _ => none

end Json

/-- Reads a span. -/
def Span.ofJson? : Nat → Json → Option Span
  | 0, _ => none
  | _ + 1, j => do
    match ← j.record? ["start", "end"] with
    | [start, stop] => return ⟨← start.asUInt32?, ← stop.asUInt32?⟩
    | _ => none

/-- Reads a name. Every word is one. -/
def Name.ofJson? (j : Json) : Option Name := do return ⟨← j.asUInt32?⟩

/-- Reads a list of names. -/
def Name.allOfJson? : Nat → Json → Option (List Name)
  | 0, _ => none
  | _ + 1, j => do (← j.asArray?).mapM ofJson?

/-- Reads a tag without content as an operator or the like. A tag may also have `null` for
its content. -/
def Json.label? (room : Nat) (j : Json) : Option String := do
  match ← j.variant? with
  | (tag, none) => some tag
  | (tag, some .null) => if 0 < room then some tag else none
  | _ => none

mutual

/-- **Reads an expression.** -/
def Expr.ofJson? : Nat → Json → Option (Expr Name)
  | 0, _ => none
  | room + 1, j => do
    match ← j.record? ["kind", "span"] with
    | [kind, span] => Expr.ofKind? room (← Span.ofJson? room span) kind
    | _ => none

/-- Reads the kind of an expression with the given span. -/
def Expr.ofKind? : Nat → Span → Json → Option (Expr Name)
  | 0, _, _ => none
  | room + 1, span, kind => do
    match ← kind.variant? with
    | ("Int", some content) => return .literal (.int (← content.asUInt64?)) span
    | ("Float", some content) => return .literal (.float (← content.asUInt64?)) span
    | ("Bool", some content) => return .literal (.bool (← content.asBool?)) span
    | ("Char", some content) => return .literal (.char (← content.asChar?)) span
    | ("Str", some content) => return .literal (.str (← Name.ofJson? content)) span
    | ("Path", some content) => return .path (← Name.allOfJson? room content) span
    | ("MacroCall", some content) => Expr.ofCall? room span content
    | ("Unary", some content) => Expr.ofUnary? room span content
    | ("Binary", some content) => Expr.ofBinary? room span content
    | ("Paren", some content) => return .paren (← Expr.ofJson? room content) span
    | _ => none

/-- Reads the parts of a call. -/
def Expr.ofCall? : Nat → Span → Json → Option (Expr Name)
  | 0, _, _ => none
  | room + 1, span, j => do
    match ← j.record? ["path", "args"] with
    | [callee, args] =>
      return .call (← Name.allOfJson? room callee) (← Expr.allOfJson? room args) span
    | _ => none

/-- Reads an operator and its operand. -/
def Expr.ofUnary? : Nat → Span → Json → Option (Expr Name)
  | 0, _, _ => none
  | room + 1, span, j => do
    match ← j.record? ["op", "operand"] with
    | [op, operand] =>
      let op ← UnaryOp.ofLabel? (← op.label? room)
      return .unary op (← Expr.ofJson? room operand) span
    | _ => none

/-- Reads an operator and its two operands. -/
def Expr.ofBinary? : Nat → Span → Json → Option (Expr Name)
  | 0, _, _ => none
  | room + 1, span, j => do
    match ← j.record? ["op", "lhs", "rhs"] with
    | [op, lhs, rhs] =>
      let op ← BinaryOp.ofLabel? (← op.label? room)
      return .binary op (← Expr.ofJson? room lhs) (← Expr.ofJson? room rhs) span
    | _ => none

/-- Reads a list of expressions. -/
def Expr.allOfJson? : Nat → Json → Option (List (Expr Name))
  | 0, _ => none
  | room + 1, j => do (← j.asArray?).mapM (Expr.ofJson? room)

end

/-- Reads the name of an attribute. It may have no segment at all. -/
def AttrName.ofJson? : Nat → Json → Option (AttrName Name)
  | 0, _ => none
  | room + 1, j => do
    match ← j.record? ["segments"] with
    | [segments] => return ⟨← Name.allOfJson? room segments⟩
    | _ => none

mutual

/-- **Reads an attribute.** -/
def Attr.ofJson? : Nat → Json → Option (Attr Name)
  | 0, _ => none
  | room + 1, j => do
    match ← j.record? ["span", "name", "data", "is_used"] with
    | [span, name, data, used] =>
      let span ← Span.ofJson? room span
      let name ← AttrName.ofJson? room name
      let payload ← Payload.ofJson? room data
      return ⟨span, name, payload, ← used.asBool?⟩
    | _ => none

/-- Reads a payload. One that is bare opens no container, unless it has `null` for its content. -/
def Payload.ofJson? : Nat → Json → Option (Payload Name)
  | 0, j => do
    match ← j.variant? with
    | ("None", none) => some .bare
    | _ => none
  | room + 1, j => do
    match ← j.variant? with
    | ("None", none) => some .bare
    | ("None", some .null) => some .bare
    | ("ValueUnexpanded", some content) => return .value (← Expr.ofJson? room content)
    | ("String", some content) => return .text (← Name.ofJson? content)
    | ("List", some content) => return .nested (← Attr.allOfJson? room content)
    | _ => none

/-- Reads a list of attributes. -/
def Attr.allOfJson? : Nat → Json → Option (List (Attr Name))
  | 0, _ => none
  | room + 1, j => do (← j.asArray?).mapM (Attr.ofJson? room)

end

/-- **Reads a list.** -/
def AttrList.ofJson? : Nat → Json → Option (AttrList Name)
  | 0, _ => none
  | room + 1, j => do
    match ← j.record? ["items"] with
    | [items] => return ⟨← Attr.allOfJson? room items⟩
    | _ => none

end ItemAttrs
