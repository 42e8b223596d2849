import ItemAttrs.Attr.List
import ItemAttrs.Expr.Write

/-!
# Attributes as source text

`Attr.write` writes an attribute over texts as `#[…]`, and `Attr.writeBody` without the
brackets around it, which is how nested attributes are written. A list takes one line for
each entry. As with expressions, the functions named `render` do this for attributes over
names and fail with the fault of the first name that has no text.
-/

namespace ItemAttrs

variable (hidden : Char → Bool)

/-- The name of an attribute as source text. -/
def AttrName.write (name : AttrName String) : List Char := pathText name.segments

mutual

/-- **An attribute as source text,** without the brackets around it. -/
def Attr.writeBody : Attr String → List Char
  | ⟨_, name, payload, _⟩ => name.write ++ payload.write

/-- A payload as source text, together with what separates it from the name. -/
def Payload.write : Payload String → List Char
  | .bare => []
  | .value e => [' ', '=', ' '] ++ e.write hidden
  | .text s => [' ', '=', ' '] ++ (Text.Quoting.text hidden).quote s.toList
  | .nested items => ['('] ++ listSeparator.intercalate (Attr.writeBodies items) ++ [')']

/-- Each attribute as source text, without brackets. -/
def Attr.writeBodies : List (Attr String) → List (List Char)
  | [] => []
  | a :: as => a.writeBody :: Attr.writeBodies as

end

/-- **An attribute as source text.** -/
def Attr.write (a : Attr String) : List Char := ['#', '['] ++ a.writeBody hidden ++ [']']

/-- **A list as source text,** one line for each entry. -/
def AttrList.write (l : AttrList String) : List Char :=
  ['\n'].intercalate (l.items.map (Attr.write hidden))

/-! ### Over names -/

/-- The name of an attribute over names, as source text. -/
def AttrName.render (t : Interner) (name : AttrName Name) : Except Fault String := do
  return String.ofList (← name.traverse t.lookup).write

/-- An attribute over names as source text, without the brackets around it. -/
def Attr.renderBody (t : Interner) (a : Attr Name) : Except Fault String := do
  return String.ofList ((← a.traverse t.lookup).writeBody Text.isInvisible)

/-- **An attribute over names, as source text.** -/
def Attr.render (t : Interner) (a : Attr Name) : Except Fault String := do
  return String.ofList ((← a.traverse t.lookup).write Text.isInvisible)

/-- **A list over names, as source text.** -/
def AttrList.render (t : Interner) (l : AttrList Name) : Except Fault String := do
  return String.ofList ((← l.traverse t.lookup).write Text.isInvisible)

end ItemAttrs
