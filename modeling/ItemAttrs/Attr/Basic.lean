import ItemAttrs.Attr.Name
import ItemAttrs.Expr.Basic

/-!
# Attributes

An **attribute** is one annotation of an item, `#[name …]`: a span, a name, a payload and a
flag that says whether some pass has made use of it. The payload is nothing, an expression
still to be evaluated, a text, or attributes nested in parentheses, so attributes are finite
trees. Like expressions they are made over a type `ν` of names.

Reading a payload as a shape that it does not have is a fault of the reader
(`Attr.value`, `Attr.text`, `Attr.items`); `Payload.asValue?` and its kin ask instead.
-/

namespace ItemAttrs

mutual

/-- **What stands behind the name of an attribute.** -/
inductive Payload (ν : Type) where
  /-- `#[name]` -/
  | bare
  /-- `#[name = <expression>]` -/
  | value (expr : Expr ν)
  /-- `#[name = "text"]` -/
  | text (content : ν)
  /-- `#[name(item, item)]` -/
  | nested (items : List (Attr ν))

/-- **One annotation of an item.** -/
structure Attr (ν : Type) where
  span : Span
  name : AttrName ν
  payload : Payload ν
  /-- Some pass has made use of the attribute. -/
  used : Bool

end

variable {ν μ : Type}

instance : Inhabited (Payload ν) := ⟨.bare⟩

instance : Inhabited (Attr ν) := ⟨⟨.dummy, ⟨[]⟩, .bare, false⟩⟩

instance : Spanned (Attr ν) := ⟨Attr.span⟩

namespace Payload

/-- The shape of a payload. -/
def shape : Payload ν → Shape
  | .bare => .bare
  | .value _ => .value
  | .text _ => .text
  | .nested _ => .nested

/-- The expression of a payload that is one. -/
def asValue? : Payload ν → Option (Expr ν)
  | .value e => some e
  | .bare | .text _ | .nested _ => none

/-- The text of a payload that is one. -/
def asText? : Payload ν → Option ν
  | .text n => some n
  | .bare | .value _ | .nested _ => none

/-- The nested attributes of a payload that has them. -/
def asItems? : Payload ν → Option (List (Attr ν))
  | .nested items => some items
  | .bare | .value _ | .text _ => none

/-- The payload with one more nested attribute, if it has nested attributes. -/
def pushItem? (p : Payload ν) (item : Attr ν) : Option (Payload ν) :=
  p.asItems?.map fun items => .nested (items ++ [item])

end Payload

namespace Attr

/-- A new attribute, which nobody has used yet. -/
def new (span : Span) (name : AttrName ν) (payload : Payload ν) : Attr ν :=
  ⟨span, name, payload, false⟩

/-- The attribute with its usage flag set. -/
def markUsed (a : Attr ν) : Attr ν := { a with used := true }

/-- The attribute with another payload. -/
def withPayload (a : Attr ν) (p : Payload ν) : Attr ν := { a with payload := p }

/-- **Swaps in another payload** and gives the former one back. -/
def replacePayload (a : Attr ν) (p : Payload ν) : Attr ν × Payload ν :=
  (a.withPayload p, a.payload)

/-- The fault of a reader that expects another shape. -/
def wrongShape (a : Attr ν) (expected : Shape) : Fault :=
  .wrongShape a.span a.payload.shape expected

/-- The expression of `#[name = <expression>]`. -/
def value (a : Attr ν) : Except Fault (Expr ν) :=
  match a.payload with
  | .value e => .ok e
  | _ => .error (a.wrongShape .value)

/-- The text of `#[name = "text"]`. -/
def text (a : Attr ν) : Except Fault ν :=
  match a.payload with
  | .text n => .ok n
  | _ => .error (a.wrongShape .text)

/-- **The nested attributes** of `#[name(item, item)]`. -/
def items (a : Attr ν) : Except Fault (List (Attr ν)) :=
  match a.payload with
  | .nested items => .ok items
  | _ => .error (a.wrongShape .nested)

end Attr

/-! ### Equality -/

section Equality

variable [DecidableEq ν]

mutual

/-- Decides whether two attributes agree, in their spans and flags, too. -/
def Attr.decEq : (a b : Attr ν) → Decidable (a = b)
  | ⟨s, n, p, u⟩, ⟨s', n', p', u'⟩ =>
    have := Payload.decEq p p'
    decidable_of_iff (s = s' ∧ n = n' ∧ p = p' ∧ u = u') (by simp)

/-- Decides whether two payloads agree. -/
def Payload.decEq : (p q : Payload ν) → Decidable (p = q)
  | .bare, .bare => isTrue rfl
  | .value e, .value e' => decidable_of_iff (e = e') (by simp)
  | .text n, .text n' => decidable_of_iff (n = n') (by simp)
  | .nested as, .nested bs =>
    have := Attr.decEqAll as bs
    decidable_of_iff (as = bs) (by simp)
  | .bare, .value _ | .bare, .text _ | .bare, .nested _
  | .value _, .bare | .value _, .text _ | .value _, .nested _
  | .text _, .bare | .text _, .value _ | .text _, .nested _
  | .nested _, .bare | .nested _, .value _ | .nested _, .text _ => isFalse (by simp)

/-- Decides whether two lists of attributes agree. -/
def Attr.decEqAll : (as bs : List (Attr ν)) → Decidable (as = bs)
  | [], [] => isTrue rfl
  | a :: as, b :: bs =>
    have := Attr.decEq a b
    have := Attr.decEqAll as bs
    decidable_of_iff (a = b ∧ as = bs) (by simp)
  | [], _ :: _ | _ :: _, [] => isFalse (by simp)

end

instance : DecidableEq (Attr ν) := Attr.decEq

instance : DecidableEq (Payload ν) := Payload.decEq

end Equality

/-! ### Names -/

section Traverse

variable {m : Type → Type} [Monad m]

mutual

/-- **Replaces the names of an attribute,** from left to right: those of its own name, then
those of its payload. -/
def Attr.traverse (f : ν → m μ) : Attr ν → m (Attr μ)
  | ⟨span, name, payload, used⟩ => do
    let name ← name.traverse f
    let payload ← Payload.traverse f payload
    return ⟨span, name, payload, used⟩

/-- Replaces the names of a payload, from left to right. -/
def Payload.traverse (f : ν → m μ) : Payload ν → m (Payload μ)
  | .bare => pure .bare
  | .value e => do return .value (← e.traverse f)
  | .text n => do return .text (← f n)
  | .nested items => do return .nested (← Attr.traverseAll f items)

/-- Replaces the names of several attributes, from left to right. -/
def Attr.traverseAll (f : ν → m μ) : List (Attr ν) → m (List (Attr μ))
  | [] => pure []
  | a :: as => do
    let a ← Attr.traverse f a
    let as ← Attr.traverseAll f as
    return a :: as

end

end Traverse

mutual

/-- The names of an attribute, from left to right, its own segments first. -/
def Attr.names : Attr ν → List ν
  | ⟨_, name, payload, _⟩ => name.segments ++ payload.names

/-- The names of a payload, from left to right. -/
def Payload.names : Payload ν → List ν
  | .bare => []
  | .value e => e.names
  | .text n => [n]
  | .nested items => Attr.namesAll items

/-- The names of several attributes, from left to right. -/
def Attr.namesAll : List (Attr ν) → List ν
  | [] => []
  | a :: as => a.names ++ Attr.namesAll as

end

end ItemAttrs
