import ItemAttrs.Text.Quoted

/-!
# Dumps

A **dump** shows a value in full, for those who debug the program. Values are first turned
into a small tree, `Dump`, and the tree is written in one of two layouts: on one line
(`Dump.write`) or indented, with every part on a line of its own (`Dump.writeIndented`).
-/

namespace ItemAttrs

/-- The three kinds of brackets around the parts of a value. -/
inductive Brackets where
  /-- `Head { part, part }` -/
  | braces
  /-- `Head(part, part)` -/
  | parentheses
  /-- `[part, part]` -/
  | square
  deriving DecidableEq, Repr

/-- **A value, laid out for show.** -/
inductive Dump where
  /-- A text that stands for itself, on one line in both layouts. -/
  | atom (text : List Char)
  /-- A part with its label. -/
  | field (label : String) (value : Dump)
  /-- Parts between brackets, behind a head. -/
  | group (brackets : Brackets) (head : String) (parts : List Dump)

namespace Brackets

/-- The opening and the closing bracket on one line. -/
def inline : Brackets → List Char × List Char
  | braces => ([' ', '\x7b', ' '], [' ', '\x7d'])
  | parentheses => (['('], [')'])
  | square => (['['], [']'])

/-- The opening and the closing bracket around lines. -/
def aroundLines : Brackets → List Char × List Char
  | braces => ([' ', '\x7b'], ['\x7d'])
  | parentheses => (['('], [')'])
  | square => (['['], [']'])

end Brackets

namespace Dump

mutual

/-- The layout on one line. -/
def write : Dump → List Char
  | .atom text => text
  | .field label value => label.toList ++ [':', ' '] ++ value.write
  | .group brackets head parts =>
    head.toList ++ brackets.inline.1 ++ [',', ' '].intercalate (writeAll parts)
      ++ brackets.inline.2

/-- Each part on one line. -/
def writeAll : List Dump → List (List Char)
  | [] => []
  | part :: parts => part.write :: writeAll parts

end

/-- What a line at the given depth starts with. -/
def indentation (depth : Nat) : List Char := List.replicate (4 * depth) ' '

mutual

/-- The layout with every part on a line of its own, inside a value at the given depth. -/
def writeIndented (depth : Nat) : Dump → List Char
  | .atom text => text
  | .field label value => label.toList ++ [':', ' '] ++ value.writeIndented depth
  | .group brackets head [] => head.toList ++ brackets.inline.1 ++ brackets.inline.2
  | .group brackets head (part :: parts) =>
    head.toList ++ brackets.aroundLines.1 ++ ['\n']
      ++ writeLines (depth + 1) (part :: parts)
      ++ indentation depth ++ brackets.aroundLines.2

/-- The parts, each on its lines and followed by a comma. -/
def writeLines (depth : Nat) : List Dump → List Char
  | [] => []
  | part :: parts =>
    indentation depth ++ part.writeIndented depth ++ [',', '\n'] ++ writeLines depth parts

end

/-- **The dump on one line.** -/
def text (d : Dump) : String := String.ofList d.write

/-- **The indented dump.** -/
def indentedText (d : Dump) : String := String.ofList (d.writeIndented 0)

/-- A word that stands for itself. -/
def word (s : String) : Dump := atom s.toList

/-- A quoted text. -/
def quoted (s : String) : Dump := word (Text.quoteText s)

/-- A truth value. -/
def bool (b : Bool) : Dump := word (if b then "true" else "false")

/-- Values in square brackets. -/
def list (parts : List Dump) : Dump := group .square "" parts

/-- Labelled values in braces. -/
def record (head : String) (parts : List (String × Dump)) : Dump :=
  group .braces head (parts.map fun p => field p.1 p.2)

/-- Values in parentheses. -/
def tuple (head : String) (parts : List Dump) : Dump := group .parentheses head parts

end Dump

end ItemAttrs
