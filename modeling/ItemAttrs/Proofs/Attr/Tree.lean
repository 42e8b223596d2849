import ItemAttrs.Attr.Write
import ItemAttrs.Proofs.Expr.Tree

/-!
# Attributes as trees

What `ItemAttrs.Proofs.Expr.Tree` says of expressions, for attributes: the functions on lists of
attributes are the `map`, `mapM` or `flatMap` of those on attributes, and `Attr.induct` is the
induction in which an attribute may assume the claim for each one nested in it.
-/

namespace ItemAttrs.Attr

variable {ν μ : Type}

/-- **Induction over attributes,** by the shape of the payload. -/
@[elab_as_elim, induction_eliminator]
theorem induct {motive : Attr ν → Prop}
    (bare : ∀ span name used, motive ⟨span, name, .bare, used⟩)
    (value : ∀ span name expr used, motive ⟨span, name, .value expr, used⟩)
    (text : ∀ span name content used, motive ⟨span, name, .text content, used⟩)
    (nested : ∀ span name items used, (∀ a ∈ items, motive a) →
      motive ⟨span, name, .nested items, used⟩) (a : Attr ν) : motive a :=
  match a with
  | ⟨span, name, .bare, used⟩ => bare span name used
  | ⟨span, name, .value expr, used⟩ => value span name expr used
  | ⟨span, name, .text content, used⟩ => text span name content used
  | ⟨span, name, .nested items, used⟩ =>
    nested span name items used fun b _ => induct bare value text nested b
termination_by a
decreasing_by
  have hb : sizeOf b < sizeOf items := List.sizeOf_lt_of_mem ‹b ∈ items›
  simp only [Attr.mk.sizeOf_spec, Payload.nested.sizeOf_spec]
  omega

@[simp] theorem namesAll_eq_flatMap (as : List (Attr ν)) : namesAll as = as.flatMap names := by
  induction as with
  | nil => rfl
  | cons a as ih => rw [namesAll, ih, List.flatMap_cons]

@[simp] theorem traverseAll_eq_mapM {m : Type → Type} [Monad m] [LawfulMonad m] (f : ν → m μ)
    (as : List (Attr ν)) : traverseAll f as = as.mapM (traverse f) := by
  induction as with
  | nil => rw [traverseAll, List.mapM_nil]
  | cons a as ih => rw [traverseAll, ih, List.mapM_cons]

@[simp] theorem writeBodies_eq_map (hidden : Char → Bool) (as : List (Attr String)) :
    writeBodies hidden as = as.map (writeBody hidden) := by
  induction as with
  | nil => rfl
  | cons a as ih => rw [writeBodies, ih, List.map_cons]

end ItemAttrs.Attr
