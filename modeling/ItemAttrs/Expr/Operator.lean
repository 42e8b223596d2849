/-!
# Operators

The operators that may stand in the value of an attribute. Each has a **symbol**, its
spelling in source text, and a **label**, its name in dumps and cache documents.
`UnaryOp.ofLabel?` and `BinaryOp.ofLabel?` read labels.
-/

namespace ItemAttrs

/-- Operators in front of one operand. -/
inductive UnaryOp where
  | neg | not
  deriving DecidableEq, Repr

/-- Operators between two operands. -/
inductive BinaryOp where
  | add | sub | mul | div | rem
  | eq | ne | lt | le | gt | ge
  | and | or
  | bitAnd | bitOr | bitXor | shl | shr
  deriving DecidableEq, Repr

namespace UnaryOp

/-- All unary operators. -/
def all : List UnaryOp := [neg, not]

/-- The spelling in source text. -/
def symbol : UnaryOp → String
  | neg => "-"
  | not => "!"

/-- The name in dumps and documents. -/
def label : UnaryOp → String
  | neg => "Neg"
  | not => "Not"

/-- The operator with a label. -/
def ofLabel? (s : String) : Option UnaryOp := all.find? fun op => op.label == s

end UnaryOp

namespace BinaryOp

/-- All binary operators. -/
def all : List BinaryOp :=
  [add, sub, mul, div, rem, eq, ne, lt, le, gt, ge, and, or, bitAnd, bitOr, bitXor, shl, shr]

/-- The spelling in source text. -/
def symbol : BinaryOp → String
  | add => "+"
  | sub => "-"
  | mul => "*"
  | div => "/"
  | rem => "%"
  | eq => "=="
  | ne => "!="
  | lt => "<"
  | le => "<="
  | gt => ">"
  | ge => ">="
  | and => "&&"
  | or => "||"
  | bitAnd => "&"
  | bitOr => "|"
  | bitXor => "^"
  | shl => "<<"
  | shr => ">>"

/-- The name in dumps and documents. -/
def label : BinaryOp → String
  | add => "Add"
  | sub => "Sub"
  | mul => "Mul"
  | div => "Div"
  | rem => "Rem"
  | eq => "Eq"
  | ne => "NotEq"
  | lt => "Lt"
  | le => "LtEq"
  | gt => "Gt"
  | ge => "GtEq"
  | and => "And"
  | or => "Or"
  | bitAnd => "BitAnd"
  | bitOr => "BitOr"
  | bitXor => "BitXor"
  | shl => "Shl"
  | shr => "Shr"

/-- The operator with a label. -/
def ofLabel? (s : String) : Option BinaryOp := all.find? fun op => op.label == s

end BinaryOp

@[simp] theorem UnaryOp.ofLabel?_label (op : UnaryOp) : ofLabel? op.label = some op := by
  cases op <;> decide

@[simp] theorem BinaryOp.ofLabel?_label (op : BinaryOp) : ofLabel? op.label = some op := by
  cases op <;> decide

end ItemAttrs
