import ItemAttrs.Span.Basic
import ItemAttrs.Expr.Operator

/-!
# Expressions

The value of an attribute may be an expression that nobody has evaluated yet. An
**expression** is a finite tree that owns its parts; every node records the span it was read
from. The trees are made over a type `ν` of names: `Expr Name` holds interned names, and
`Expr String` the texts behind them.

* `Expr.traverse` replaces the names of a tree from left to right, in any monad;
* `Expr.names` lists them in that order;
* two trees are equal when they agree in every node and every span.
-/

namespace ItemAttrs

/-- **Literals.** A float is kept as its 64 bits, so that equality of literals is equality
of words. -/
inductive Literal (ν : Type) where
  | int (value : UInt64)
  | float (bits : UInt64)
  | bool (value : Bool)
  | char (value : Char)
  | str (value : ν)
  deriving DecidableEq, Repr

namespace Literal

variable {ν μ : Type} {m : Type → Type} [Monad m]

/-- Replaces the name in a literal, if it has one. -/
def traverse (f : ν → m μ) : Literal ν → m (Literal μ)
  | .int n => pure (.int n)
  | .float bits => pure (.float bits)
  | .bool b => pure (.bool b)
  | .char c => pure (.char c)
  | .str n => do return .str (← f n)

/-- The name in a literal. -/
def names : Literal ν → List ν
  | .str n => [n]
  | .int _ | .float _ | .bool _ | .char _ => []

end Literal

/-- **Expressions over names `ν`.** -/
inductive Expr (ν : Type) where
  /-- `42`, `1.5`, `true`, `'a'`, `"text"` -/
  | literal (value : Literal ν) (span : Span)
  /-- `FOO`, `config::VERSION` -/
  | path (segments : List ν) (span : Span)
  /-- `concat!("a", "b")` -/
  | call (macroPath : List ν) (args : List (Expr ν)) (span : Span)
  /-- `-1`, `!x` -/
  | unary (op : UnaryOp) (operand : Expr ν) (span : Span)
  /-- `1 << 4` -/
  | binary (op : BinaryOp) (lhs rhs : Expr ν) (span : Span)
  /-- `(x)`. Parentheses are kept, so that the written form shows them again. -/
  | paren (inner : Expr ν) (span : Span)

namespace Expr

variable {ν μ : Type}

instance [Inhabited ν] : Inhabited (Expr ν) := ⟨.path [] .dummy⟩

/-- Where the expression stands. -/
def span : Expr ν → Span
  | .literal _ s | .path _ s | .call _ _ s | .unary _ _ s | .binary _ _ _ s | .paren _ s => s

instance : Spanned (Expr ν) := ⟨span⟩

/-! ### Equality -/

section Equality

variable [DecidableEq ν]

mutual

/-- Decides whether two expressions agree in every node. -/
def decEq : (a b : Expr ν) → Decidable (a = b)
  | .literal l s, .literal l' s' => decidable_of_iff (l = l' ∧ s = s') (by simp)
  | .path p s, .path p' s' => decidable_of_iff (p = p' ∧ s = s') (by simp)
  | .call p as s, .call p' as' s' =>
    have := decEqAll as as'
    decidable_of_iff (p = p' ∧ as = as' ∧ s = s') (by simp)
  | .unary op e s, .unary op' e' s' =>
    have := decEq e e'
    decidable_of_iff (op = op' ∧ e = e' ∧ s = s') (by simp)
  | .binary op l r s, .binary op' l' r' s' =>
    have := decEq l l'
    have := decEq r r'
    decidable_of_iff (op = op' ∧ l = l' ∧ r = r' ∧ s = s') (by simp)
  | .paren e s, .paren e' s' =>
    have := decEq e e'
    decidable_of_iff (e = e' ∧ s = s') (by simp)
  | .literal .., .path .. | .literal .., .call .. | .literal .., .unary ..
  | .literal .., .binary .. | .literal .., .paren ..
  | .path .., .literal .. | .path .., .call .. | .path .., .unary ..
  | .path .., .binary .. | .path .., .paren ..
  | .call .., .literal .. | .call .., .path .. | .call .., .unary ..
  | .call .., .binary .. | .call .., .paren ..
  | .unary .., .literal .. | .unary .., .path .. | .unary .., .call ..
  | .unary .., .binary .. | .unary .., .paren ..
  | .binary .., .literal .. | .binary .., .path .. | .binary .., .call ..
  | .binary .., .unary .. | .binary .., .paren ..
  | .paren .., .literal .. | .paren .., .path .. | .paren .., .call ..
  | .paren .., .unary .. | .paren .., .binary .. => isFalse (by simp)

/-- Decides whether two lists of expressions agree in every node. -/
def decEqAll : (as bs : List (Expr ν)) → Decidable (as = bs)
  | [], [] => isTrue rfl
  | a :: as, b :: bs =>
    have := decEq a b
    have := decEqAll as bs
    decidable_of_iff (a = b ∧ as = bs) (by simp)
  | [], _ :: _ | _ :: _, [] => isFalse (by simp)

end

instance : DecidableEq (Expr ν) := decEq

end Equality

/-! ### Names -/

section Traverse

variable {m : Type → Type} [Monad m]

mutual

/-- **Replaces the names of an expression,** from left to right. -/
def traverse (f : ν → m μ) : Expr ν → m (Expr μ)
  | .literal l s => do return .literal (← l.traverse f) s
  | .path p s => do return .path (← p.mapM f) s
  | .call p args s => do
    let p ← p.mapM f
    let args ← traverseAll f args
    return .call p args s
  | .unary op e s => do return .unary op (← traverse f e) s
  | .binary op l r s => do
    let l ← traverse f l
    let r ← traverse f r
    return .binary op l r s
  | .paren e s => do return .paren (← traverse f e) s

/-- Replaces the names of several expressions, from left to right. -/
def traverseAll (f : ν → m μ) : List (Expr ν) → m (List (Expr μ))
  | [] => pure []
  | e :: es => do
    let e ← traverse f e
    let es ← traverseAll f es
    return e :: es

end

end Traverse

mutual

/-- The names of an expression, from left to right. -/
def names : Expr ν → List ν
  | .literal l _ => l.names
  | .path p _ => p
  | .call p args _ => p ++ namesAll args
  | .unary _ e _ => e.names
  | .binary _ l r _ => l.names ++ r.names
  | .paren e _ => e.names

/-- The names of several expressions, from left to right. -/
def namesAll : List (Expr ν) → List ν
  | [] => []
  | e :: es => e.names ++ namesAll es

end

end Expr

end ItemAttrs
