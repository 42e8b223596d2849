import ItemAttrs.Expr.Write

/-!
# Expressions as trees

A function on expressions is defined together with one on lists of expressions. The second
one always is the `map`, `mapM` or `flatMap` of the first, and the equations here say so, so
that nothing else has to mention it. `Expr.induct` is the induction that goes with them: a
call may assume the claim for each of its arguments.
-/

namespace ItemAttrs.Expr

variable {ν μ : Type}

/-- **Induction over expressions.** -/
@[elab_as_elim, induction_eliminator]
theorem induct {motive : Expr ν → Prop}
    (literal : ∀ value span, motive (.literal value span))
    (path : ∀ segments span, motive (.path segments span))
    (call : ∀ macroPath args span, (∀ e ∈ args, motive e) → motive (.call macroPath args span))
    (unary : ∀ op operand span, motive operand → motive (.unary op operand span))
    (binary : ∀ op lhs rhs span, motive lhs → motive rhs → motive (.binary op lhs rhs span))
    (paren : ∀ inner span, motive inner → motive (.paren inner span)) (e : Expr ν) : motive e :=
  match e with
  | .literal value span => literal value span
  | .path segments span => path segments span
  | .call macroPath args span =>
    call macroPath args span fun e _ => induct literal path call unary binary paren e
  | .unary op operand span =>
    unary op operand span (induct literal path call unary binary paren operand)
  | .binary op lhs rhs span =>
    binary op lhs rhs span (induct literal path call unary binary paren lhs)
      (induct literal path call unary binary paren rhs)
  | .paren inner span => paren inner span (induct literal path call unary binary paren inner)

@[simp] theorem namesAll_eq_flatMap (es : List (Expr ν)) : namesAll es = es.flatMap names := by
  induction es with
  | nil => rfl
  | cons e es ih => rw [namesAll, ih, List.flatMap_cons]

@[simp] theorem traverseAll_eq_mapM {m : Type → Type} [Monad m] [LawfulMonad m] (f : ν → m μ)
    (es : List (Expr ν)) : traverseAll f es = es.mapM (traverse f) := by
  induction es with
  | nil => rw [traverseAll, List.mapM_nil]
  | cons e es ih => rw [traverseAll, ih, List.mapM_cons]

@[simp] theorem writeAll_eq_map (hidden : Char → Bool) (es : List (Expr String)) :
    writeAll hidden es = es.map (write hidden) := by
  induction es with
  | nil => rfl
  | cons e es ih => rw [writeAll, ih, List.map_cons]

end ItemAttrs.Expr
