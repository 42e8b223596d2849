import ItemAttrs.Interner.Basic

/-!
# Names of attributes

An attribute is named by the segments of a path, as in `#[rustfmt::skip]`. A name of one
segment is **trivial**; only trivial names are found by a look-up. Names built here have a
segment (`AttrName.ofSegments`); one read from a cache document may have none, so the
operations answer for that, too.
-/

namespace ItemAttrs

/-- **The name of an attribute,** over segments `ν`. -/
structure AttrName (ν : Type) where
  segments : List ν
  deriving DecidableEq, Repr, Inhabited

namespace AttrName

variable {ν μ : Type}

/-- The name with one segment. -/
def trivial (n : ν) : AttrName ν := ⟨[n]⟩

/-- **The name with the given segments,** of which there must be one at least. -/
def ofSegments : List ν → Except Fault (AttrName ν)
  | [] => .error .noSegments
  | segments => .ok ⟨segments⟩

/-- There is exactly one segment. -/
def isTrivial (name : AttrName ν) : Bool := name.segments.length == 1

/-- The only segment of a trivial name. -/
def soleSegment (name : AttrName ν) : Except Fault ν :=
  match name.segments with
  | [only] => .ok only
  | segments => .error (.notTrivial segments.length)

/-- **The name is the trivial name `n`.** -/
def is [DecidableEq ν] (name : AttrName ν) (n : ν) : Bool :=
  match name.segments with
  | [only] => only == n
  | _ => false

/-- The name is trivial and its text is `text`. The text itself need not be interned. -/
def matchesText (name : AttrName Name) (text : String) (t : Interner) : Except Fault Bool :=
  match name.segments with
  | [only] => return (← t.lookup only) == text
  | _ => .ok false

/-- Replaces the segments, from left to right. -/
def traverse {m : Type → Type} [Monad m] (f : ν → m μ) (name : AttrName ν) :
    m (AttrName μ) := do
  return ⟨← name.segments.mapM f⟩

theorem is_iff [DecidableEq ν] (name : AttrName ν) (n : ν) :
    name.is n = true ↔ name = trivial n := by
  rcases name with ⟨_ | ⟨a, _ | ⟨b, rest⟩⟩⟩ <;> simp [is, trivial]

end AttrName

end ItemAttrs
