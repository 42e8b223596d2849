import ItemAttrs.Attr.List

/-!
# Reading and editing attributes in place

A nested attribute is reached from an entry of a list by a path of indices, one for each
level of nesting. `AttrList.read` follows a path and gives the attribute at its end;
`AttrList.edit` puts another attribute in its place and keeps everything else.

An **edit** is one change to one attribute. Its entry may be chosen by index or by name; an
entry that is not there leaves the list alone and is no fault. From the entry on, an index
that is too large or a payload without nested attributes is a fault, and the list does not
change either (`AttrList.after`).

* `AttrList.read`, `AttrList.edit`: one access along a path;
* `Step`, `AttrList.run`: what becomes of a list in a sequence of pushes and edits.
-/

namespace ItemAttrs

variable {ν : Type}

/-- **One change to one attribute.** -/
inductive Edit (ν : Type) where
  /-- Sets the usage flag. -/
  | markUsed
  /-- Swaps in another payload. -/
  | replacePayload (p : Payload ν)
  /-- Stores another attribute in its place. -/
  | assign (a : Attr ν)
  /-- Adds a nested attribute behind the others. -/
  | pushItem (item : Attr ν)
  /-- Removes all nested attributes. -/
  | clearItems
  deriving DecidableEq

/-- What an edit gives back. -/
inductive Outcome (ν : Type) where
  /-- Nothing. -/
  | done
  /-- The payload that was swapped out. -/
  | payload (p : Payload ν)
  /-- The attribute that was replaced. -/
  | attr (a : Attr ν)
  /-- The number of nested attributes there are now. -/
  | count (n : Nat)
  deriving DecidableEq

/-- **Makes a change to an attribute.** Changes to nested attributes need a payload that has
them. -/
def Edit.apply (a : Attr ν) : Edit ν → Except Fault (Attr ν × Outcome ν)
  | .markUsed => .ok (a.markUsed, .done)
  | .replacePayload p => .ok ((a.replacePayload p).1, .payload (a.replacePayload p).2)
  | .assign b => .ok (b, .attr a)
  | .pushItem item => do
    let items ← a.items
    return (a.withPayload (.nested (items ++ [item])), .count (items.length + 1))
  | .clearItems => do
    let _ ← a.items
    return (a.withPayload (.nested []), .done)

namespace Attr

/-- The nested attribute at an index. -/
def item (a : Attr ν) (j : Nat) : Except Fault (Attr ν) := do
  let items ← a.items
  match items[j]? with
  | some b => .ok b
  | none => .error (.pastEnd items.length j)

/-- The attribute with another one at an index among its nested attributes. -/
def setItem (a : Attr ν) (j : Nat) (b : Attr ν) : Attr ν :=
  match a.payload with
  | .nested items => a.withPayload (.nested (items.set j b))
  | _ => a

/-- **The attribute at the end of a path** that starts here. -/
def read (a : Attr ν) : List Nat → Except Fault (Attr ν)
  | [] => .ok a
  | j :: path => do (← a.item j).read path

/-- **Edits the attribute at the end of a path** that starts here. -/
def edit (e : Edit ν) (a : Attr ν) : List Nat → Except Fault (Attr ν × Outcome ν)
  | [] => e.apply a
  | j :: path => do
    let (b, outcome) ← edit e (← a.item j) path
    return (a.setItem j b, outcome)

end Attr

/-- **How an entry of a list is chosen.** -/
inductive Entry (ν : Type) where
  /-- The entry at an index. -/
  | index (i : Nat)
  /-- The first entry with a trivial name. -/
  | named (n : ν)
  deriving DecidableEq

namespace AttrList

/-- **The attribute at the end of a path:** first the index of an entry, then the indices of
nested attributes. -/
def read (l : AttrList ν) (i : Nat) (path : List Nat) : Except Fault (Attr ν) :=
  match l.items[i]? with
  | some a => a.read path
  | none => .error (.pastEnd l.length i)

/-- Edits the attribute at the end of a path that starts at the entry with index `i`. -/
def editAt (l : AttrList ν) (i : Nat) (path : List Nat) (e : Edit ν) :
    Except Fault (Option (AttrList ν × Outcome ν)) :=
  match l.items[i]? with
  | some a => do
    let (b, outcome) ← a.edit e path
    return some (⟨l.items.set i b⟩, outcome)
  | none => .ok none

section LookUp

variable [DecidableEq ν]

/-- The index of a chosen entry. A name that no entry has chooses nothing. -/
def locate? (l : AttrList ν) : Entry ν → Option Nat
  | .index i => some i
  | .named n => l.findIdx? n

/-- **Edits the attribute at the end of a path** that starts at a chosen entry. There is no
result, and no fault, if there is no such entry. -/
def edit (l : AttrList ν) (entry : Entry ν) (path : List Nat) (e : Edit ν) :
    Except Fault (Option (AttrList ν × Outcome ν)) :=
  match l.locate? entry with
  | some i => l.editAt i path e
  | none => .ok none

/-- The list after an edit. It is the same if there was no such entry, or a fault. -/
def after (l : AttrList ν) (entry : Entry ν) (path : List Nat) (e : Edit ν) : AttrList ν :=
  match l.edit entry path e with
  | .ok (some (l', _)) => l'
  | _ => l

end LookUp

end AttrList

/-- **One step in the life of a list.** -/
inductive Step (ν : Type) where
  | push (a : Attr ν)
  | edit (entry : Entry ν) (path : List Nat) (e : Edit ν)
  deriving DecidableEq

namespace AttrList

variable [DecidableEq ν]

/-- The list after a step. -/
def step (l : AttrList ν) : Step ν → AttrList ν
  | .push a => l.push a
  | .edit entry path e => l.after entry path e

/-- **The list after some steps.** -/
def run (l : AttrList ν) (steps : List (Step ν)) : AttrList ν := steps.foldl step l

end AttrList

end ItemAttrs
