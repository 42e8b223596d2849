import ItemAttrs.Attr.Basic

/-!
# The attributes of an item

An **attribute list** holds the attributes of one item in source order. Duplicates are kept,
and a look-up by name gives the first entry with that trivial name. Only the entries
themselves are looked up and reported; what is nested in them belongs to them.
-/

namespace ItemAttrs

/-- **The attributes of one item,** in source order. -/
structure AttrList (ν : Type) where
  items : List (Attr ν)
  deriving DecidableEq, Inhabited

namespace AttrList

variable {ν μ : Type}

/-- The list of an item without attributes. -/
def empty : AttrList ν := ⟨[]⟩

/-- The number of entries. -/
def length (l : AttrList ν) : Nat := l.items.length

/-- The list with one more entry at its end. -/
def push (l : AttrList ν) (a : Attr ν) : AttrList ν := ⟨l.items ++ [a]⟩

/-- The entries that no pass has used, in source order. -/
def unused (l : AttrList ν) : List (Attr ν) := l.items.filter fun a => !a.used

/-- Replaces the names of a list, from left to right. -/
def traverse {m : Type → Type} [Monad m] (f : ν → m μ) (l : AttrList ν) : m (AttrList μ) := do
  return ⟨← Attr.traverseAll f l.items⟩

section LookUp

variable [DecidableEq ν]

/-- **The first entry with a trivial name.** -/
def find? (l : AttrList ν) (n : ν) : Option (Attr ν) := l.items.find? fun a => a.name.is n

/-- The index of the first entry with a trivial name. -/
def findIdx? (l : AttrList ν) (n : ν) : Option Nat := l.items.findIdx? fun a => a.name.is n

/-- There is an entry with that trivial name. -/
def has (l : AttrList ν) (n : ν) : Bool := (l.find? n).isSome

/-- Marks every entry with a trivial name. -/
def markAll (l : AttrList ν) (n : ν) : AttrList ν :=
  ⟨l.items.map fun a => if a.name.is n then a.markUsed else a⟩

/-- **What a pass does that handles one name:** it looks the name up and marks the entry that
it finds. -/
def consume (l : AttrList ν) (n : ν) : AttrList ν :=
  match l.findIdx? n with
  | some i => ⟨l.items.modify i Attr.markUsed⟩
  | none => l

/-- Several passes, each of which handles one name. -/
def consumeAll (l : AttrList ν) (names : List ν) : AttrList ν := names.foldl consume l

end LookUp

@[simp] theorem items_empty : (empty : AttrList ν).items = [] := rfl

@[simp] theorem items_push (l : AttrList ν) (a : Attr ν) : (l.push a).items = l.items ++ [a] := rfl

theorem mem_unused {l : AttrList ν} {a : Attr ν} :
    a ∈ l.unused ↔ a ∈ l.items ∧ a.used = false := by
  simp [unused]

end AttrList

end ItemAttrs
