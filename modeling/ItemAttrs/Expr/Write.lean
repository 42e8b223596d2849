import ItemAttrs.Decimal.Notation
import ItemAttrs.Expr.Basic
import ItemAttrs.Interner.Basic
import ItemAttrs.Text.Quoted

/-!
# Expressions as source text

`Expr.write` writes an expression over texts the way it may stand in a source file. Nothing
is put in parentheses that was not read so, since a parenthesised expression is a node of
its own. `Expr.render` does the same for an expression over names, and fails with the fault
of the first name that has no text.

The characters that quoted text shows by number are a parameter, `hidden`: what the written
form says does not depend on the choice.
-/

namespace ItemAttrs

/-- **How floats are written.** Positional from `0.0001` to below `10 ^ 16`, else with an
exponent. -/
def floatNotation : Decimal.Notation where
  leastPoint := -3
  mostPoint := 16
  infinity := "inf"
  notANumber := "NaN"

/-- A truth value as source text. -/
def boolText (b : Bool) : List Char := (if b then "true" else "false").toList

/-- What stands between the arguments of a macro and between nested attributes. -/
def listSeparator : List Char := [',', ' ']

variable (hidden : Char → Bool)

/-- A literal as source text. -/
def Literal.write : Literal String → List Char
  | .int n => Nat.toDigits 10 n.toNat
  | .float bits => floatNotation.binary64 (.ofBits bits)
  | .bool b => boolText b
  | .char c => (Text.Quoting.char hidden).quote [c]
  | .str s => (Text.Quoting.text hidden).quote s.toList

/-- A path as source text. -/
def pathText (segments : List String) : List Char :=
  Path.joinChars (segments.map String.toList)

namespace Expr

mutual

/-- **An expression as source text.** -/
def write : Expr String → List Char
  | .literal l _ => l.write hidden
  | .path p _ => pathText p
  | .call p args _ =>
    pathText p ++ ['!', '('] ++ listSeparator.intercalate (writeAll args) ++ [')']
  | .unary op e _ => op.symbol.toList ++ e.write
  | .binary op l r _ => l.write ++ [' '] ++ op.symbol.toList ++ [' '] ++ r.write
  | .paren e _ => ['('] ++ e.write ++ [')']

/-- Each expression as source text. -/
def writeAll : List (Expr String) → List (List Char)
  | [] => []
  | e :: es => e.write :: writeAll es

end

/-- **An expression over names, as source text.** -/
def render (t : Interner) (e : Expr Name) : Except Fault String := do
  return String.ofList ((← e.traverse t.lookup).write Text.isInvisible)

end Expr

end ItemAttrs
