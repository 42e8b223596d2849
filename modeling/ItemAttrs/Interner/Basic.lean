import Std.Data.ExtTreeMap
import ItemAttrs.Name
import ItemAttrs.Path

/-!
# The interner

An **interner** gives each text a name, the same one every time, and gives the text back
for the name. Its texts are spread over sixteen shards by a hash of their first bytes, so
that threads that intern different texts rarely wait for each other
(`ItemAttrs.Interner.Shared`). Within a shard, slots are handed out in order of arrival.

* `Interner.intern` names a text, storing it on first sight;
* `Interner.lookup` gives the text of a name back;
* `Interner.initial` is the state everything starts from: the empty text, then the
  attribute names every compilation meets.
-/

namespace ItemAttrs

/-- **One shard.** `strings` holds its texts by slot and `slots` the slot of each text. -/
structure Shard where
  strings : Array String
  slots : Std.ExtTreeMap String Nat

namespace Shard

/-- A shard without texts. -/
def empty : Shard := ⟨#[], ∅⟩

/-- The number of texts. -/
def size (sh : Shard) : Nat := sh.strings.size

/-- The slot of a text, if the shard has it. -/
def find? (sh : Shard) (s : String) : Option Nat := sh.slots[s]?

/-- The shard with one more text, in the next slot. -/
def push (sh : Shard) (s : String) : Shard :=
  ⟨sh.strings.push s, sh.slots.insert s sh.strings.size⟩

@[simp] theorem size_empty : empty.size = 0 := rfl

@[simp] theorem find?_empty (s : String) : empty.find? s = none :=
  Std.ExtTreeMap.getElem?_empty

@[simp] theorem size_push (sh : Shard) (s : String) : (sh.push s).size = sh.size + 1 :=
  Array.size_push s

theorem find?_push (sh : Shard) (s r : String) :
    (sh.push s).find? r = if s = r then some sh.size else sh.find? r := by
  simp [find?, push, size, Std.ExtTreeMap.getElem?_insert]

end Shard

/-- **The state of an interner:** its shards and the number of texts stored so far, which is
kept apart so that it can be read without looking at any shard. -/
structure Interner where
  shards : Vector Shard Name.shardCount
  count : Nat

/-- Steps on an interner that may fail. Texts stored before a failure stay stored. -/
abbrev InternM := ExceptT Fault (StateM Interner)

/-- The hash of a text's first eight bytes, in words that wrap around. -/
def textHash (s : String) : UInt32 :=
  (s.toByteArray.data.toList.take 8).foldl (fun h byte => h * 31 + byte.toUInt32) 0

/-- The shard that a text belongs to. -/
def shardOf (s : String) : Fin Name.shardCount :=
  ⟨(textHash s).toNat % Name.shardCount, Nat.mod_lt _ (by decide)⟩

namespace Interner

/-- The shard that a text belongs to, in this state. -/
def home (t : Interner) (s : String) : Shard := t.shards[shardOf s]

/-- The state after the home shard of a text has changed to `sh`. -/
def setHome (t : Interner) (s : String) (sh : Shard) : Interner :=
  { t with shards := t.shards.set (shardOf s) sh }

@[simp] theorem home_setHome (t : Interner) (s : String) (sh : Shard) :
    (t.setHome s sh).home s = sh := by
  simp [home, setHome]

theorem home_setHome_of_ne (t : Interner) (s r : String) (sh : Shard) (h : shardOf s ≠ shardOf r) :
    (t.setHome s sh).home r = t.home r := by
  have : (shardOf s).val ≠ (shardOf r).val := fun e => h (Fin.ext e)
  simp [home, setHome, this]

/-- **Names a text.** A text that is already stored keeps its name and the state does not
change; a new one takes the next slot of its home shard, if names can tell that slot from
the others. -/
def intern (s : String) : InternM Name := fun t =>
  match (t.home s).find? s with
  | some slot => (Name.ofParts (shardOf s) slot, t)
  | none =>
    let size := (t.home s).size
    if size ≤ Name.maxSlot then
      (Name.ofParts (shardOf s) size,
        { t.setHome s ((t.home s).push s) with count := t.count + 1 })
    else (.error (.shardFull (shardOf s) size), t)

/-- Names the segments of a written path, from the left. -/
def internPath (path : String) : InternM (List Name) := (Path.split path).mapM intern

/-- **The text of a name.** A name whose slot is not taken in its shard has none. -/
def lookup (t : Interner) (n : Name) : Except Fault String :=
  let sh := t.shards[n.shard]
  match sh.strings[n.slot]? with
  | some s => .ok s
  | none => .error (.pastEnd sh.size n.slot)

/-- The number of texts stored. -/
def size (t : Interner) : Nat := t.count

/-- Nothing but the empty text is stored. -/
def isEmpty (t : Interner) : Bool := t.size ≤ 1

/-- The interner that holds the empty text alone, in slot 0 of shard 0. -/
def blank : Interner :=
  { shards := (Vector.replicate Name.shardCount Shard.empty).set 0 (Shard.empty.push "")
    count := 1 }

/-- The attribute names that every compilation meets. -/
def builtins : List String :=
  -- conditional compilation
  ["cfg", "cfg_attr", "test", "feature", "target_os",
   -- expansion
   "derive", "macro_export", "proc_macro",
   -- documentation
   "doc",
   -- lint levels
   "allow", "warn", "deny", "forbid", "deprecated", "must_use",
   -- code generation
   "inline", "cold", "repr",
   -- linkage
   "link", "link_name", "no_mangle", "export_name", "path",
   -- tools
   "rustfmt", "clippy", "skip"]

/-- The state after naming each of some texts in turn. -/
def internAll (texts : List String) (t : Interner) : Interner :=
  texts.foldl (fun t s => (intern s t).2) t

/-- **The state everything starts from.** -/
def initial : Interner := internAll builtins blank

end Interner

end ItemAttrs
