/-!
# Codes of diagnostics

Every kind of finding has a **code**, by which it can be searched for: a letter, `E` for
errors and `W` for warnings, and four digits, the first of which tells the stage that
reports it.
-/

namespace ItemAttrs

/-- **What a diagnostic is about.** -/
inductive Code where
  /-- No pass has made use of an attribute. -/
  | unusedAttribute
  deriving DecidableEq, Repr

namespace Code

/-- All codes. -/
def all : List Code := [unusedAttribute]

/-- The written form of a code. -/
def text : Code → String
  | unusedAttribute => "W1001"

/-- A summary in one line. -/
def description : Code → String
  | unusedAttribute => "unused attribute"

/-- The code is one of a warning. -/
def isWarning (c : Code) : Bool := c.text.toList.head? == some 'W'

/-- **Reads a code,** in upper or lower case. Only ASCII letters have their case changed: no
other character becomes a letter or a digit of a code in upper case. -/
def ofText? (s : String) : Option Code :=
  all.find? fun c => c.text.toList == s.toList.map Char.toUpper

end Code

end ItemAttrs
