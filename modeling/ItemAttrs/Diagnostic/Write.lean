import ItemAttrs.Diagnostic.Basic
import ItemAttrs.Expr.Dump

/-!
# Diagnostics as text

A written diagnostic is a header line and one line for each label, note and suggestion, in
this order. What distinguishes the lines stands at their starts: `-->` marks a primary label,
blanks of the same width another one, and `= note:` and `= help:` the rest. `Diagnostic.dump`
shows a diagnostic in full.
-/

namespace ItemAttrs

namespace Label

/-- The line of a label. -/
def line (l : Label) : List Char :=
  (if l.isPrimary then "  --> " else "      ").toList ++ l.span.toText.toList ++ [':', ' ']
    ++ l.message.toList

/-- The dump of a label. -/
def dump (l : Label) : Dump :=
  .record "Label"
    [("span", l.span.dump), ("message", .quoted l.message), ("is_primary", .bool l.isPrimary)]

end Label

namespace Substitution

/-- The dump of a substitution. -/
def dump (s : Substitution) : Dump :=
  .record "Substitution" [("span", s.span.dump), ("snippet", .quoted s.snippet)]

end Substitution

namespace Suggestion

/-- The line of a suggestion. -/
def line (s : Suggestion) : List Char := "  = help: ".toList ++ s.message.toList

/-- The dump of a suggestion. -/
def dump (s : Suggestion) : Dump :=
  .record "Suggestion"
    [("message", .quoted s.message),
     ("substitutions", .list (s.substitutions.map Substitution.dump)),
     ("applicability", .word s.applicability.label)]

end Suggestion

namespace Diagnostic

/-- The line of a note. -/
def noteLine (note : String) : List Char := "  = note: ".toList ++ note.toList

/-- The first line: severity, code and message. -/
def header (d : Diagnostic) : List Char :=
  d.severity.text.toList ++ [' ', '['] ++ d.code.text.toList ++ [']', ':', ' ']
    ++ d.message.toList

/-- **The lines of a diagnostic.** -/
def lines (d : Diagnostic) : List (List Char) :=
  d.header :: (d.labels.map Label.line ++ d.notes.map noteLine
    ++ d.suggestions.map Suggestion.line)

/-- **The written form of a diagnostic.** -/
def text (d : Diagnostic) : String := String.ofList (['\n'].intercalate d.lines)

/-- **The dump of a diagnostic.** -/
def dump (d : Diagnostic) : Dump :=
  .record "Diagnostic"
    [("code", .word d.code.text), ("severity", .word d.severity.label),
     ("message", .quoted d.message), ("labels", .list (d.labels.map Label.dump)),
     ("notes", .list (d.notes.map Dump.quoted)),
     ("suggestions", .list (d.suggestions.map Suggestion.dump))]

end Diagnostic

end ItemAttrs
