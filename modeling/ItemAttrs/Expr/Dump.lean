import ItemAttrs.Dump
import ItemAttrs.Expr.Basic
import ItemAttrs.Name

/-!
# Dumps of expressions

The dump of an expression shows each node with its span behind it, and names by shard and
slot. An expression takes one line in both layouts.
-/

namespace ItemAttrs

/-- The dump of a span. -/
def Span.dump (s : Span) : Dump := .word s.toText

/-- The dump of a name. -/
def Name.dump (n : Name) : Dump := .word n.dumpText

/-- The dump of a list of names. -/
def Name.dumpAll (names : List Name) : Dump := .list (names.map dump)

/-- The dump of a literal. -/
def Literal.dump : Literal Name → Dump
  | .int n => .tuple "Int" [.word (toString n.toNat)]
  | .float bits => .tuple "Float" [.word (toString bits.toNat)]
  | .bool b => .tuple "Bool" [.bool b]
  | .char c => .tuple "Char" [.word (Text.quoteChar c)]
  | .str n => .tuple "Str" [n.dump]

namespace Expr

/-- An expression on one line: its node, and the span behind it. -/
def atSpan (node : Dump) (s : Span) : Dump :=
  .atom (node.write ++ [' ', '@', ' '] ++ s.toText.toList)

mutual

/-- **The dump of a node,** without its span. -/
def dumpNode : Expr Name → Dump
  | .literal l _ => l.dump
  | .path p _ => .tuple "Path" [Name.dumpAll p]
  | .call p args _ =>
    .record "MacroCall" [("path", Name.dumpAll p), ("args", .list (dumpAll args))]
  | .unary op e _ =>
    .record "Unary" [("op", .word op.label), ("operand", atSpan e.dumpNode e.span)]
  | .binary op l r _ =>
    .record "Binary"
      [("op", .word op.label), ("lhs", atSpan l.dumpNode l.span),
       ("rhs", atSpan r.dumpNode r.span)]
  | .paren e _ => .tuple "Paren" [atSpan e.dumpNode e.span]

/-- The dumps of several expressions. -/
def dumpAll : List (Expr Name) → List Dump
  | [] => []
  | e :: es => atSpan e.dumpNode e.span :: dumpAll es

end

/-- **The dump of an expression.** -/
def dump (e : Expr Name) : Dump := atSpan e.dumpNode e.span

end Expr

end ItemAttrs
