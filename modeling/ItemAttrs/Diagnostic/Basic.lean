import ItemAttrs.Diagnostic.Code
import ItemAttrs.Span.Basic

/-!
# Diagnostics

A **diagnostic** says what was found (code, severity and message), where (labels), what else
there is to know (notes) and what may be done about it (suggestions). It is built step by
step: the message and the severity are set, the other parts grow at their ends, so the order
of two steps matters only when they are of one kind.

* `Diagnostic.error` and `Diagnostic.warning` start one;
* `Diagnostic.Step` and `Diagnostic.build` are the steps as values;
* `Diagnostic.primarySpan` and `Diagnostic.machineApplicable` read one.
-/

namespace ItemAttrs

/-- How grave a finding is. -/
inductive Severity where
  | error | warning | note | help
  deriving DecidableEq, Repr

namespace Severity

/-- All severities. -/
def all : List Severity := [error, warning, note, help]

/-- The word that opens a written diagnostic. -/
def text : Severity → String
  | error => "error"
  | warning => "warning"
  | note => "note"
  | help => "help"

/-- The name in dumps. -/
def label : Severity → String
  | error => "Error"
  | warning => "Warning"
  | note => "Note"
  | help => "Help"

/-- The severity with a label. -/
def ofLabel? (s : String) : Option Severity := all.find? fun x => x.label == s

end Severity

/-- How sure it is that a suggestion is right. -/
inductive Applicability where
  /-- Right without doubt; a tool may apply it unasked. -/
  | machineApplicable
  /-- Likely right, but a person should look. -/
  | maybeIncorrect
  /-- Contains gaps for a person to fill in. -/
  | hasPlaceholders
  /-- Nothing is known. -/
  | unspecified
  deriving DecidableEq, Repr

namespace Applicability

/-- All applicabilities. -/
def all : List Applicability := [machineApplicable, maybeIncorrect, hasPlaceholders, unspecified]

/-- What holds of a suggestion when nothing is said. -/
def default : Applicability := unspecified

/-- The name in dumps. -/
def label : Applicability → String
  | machineApplicable => "MachineApplicable"
  | maybeIncorrect => "MaybeIncorrect"
  | hasPlaceholders => "HasPlaceholders"
  | unspecified => "Unspecified"

/-- The applicability with a label. -/
def ofLabel? (s : String) : Option Applicability := all.find? fun x => x.label == s

/-- A tool may apply the suggestion unasked. -/
def isMachine (a : Applicability) : Bool := a == machineApplicable

end Applicability

/-- **A change to the source:** the text at `span` becomes `snippet`. An empty snippet
deletes it. -/
structure Substitution where
  span : Span
  snippet : String
  deriving DecidableEq, Repr

/-- **A way to mend what was found.** -/
structure Suggestion where
  message : String
  substitutions : List Substitution
  applicability : Applicability
  deriving DecidableEq, Repr

namespace Suggestion

/-- A suggestion with one substitution. -/
def new (message : String) (span : Span) (snippet : String) (applicability : Applicability) :
    Suggestion :=
  ⟨message, [⟨span, snippet⟩], applicability⟩

/-- A suggestion that a tool may apply unasked. -/
def machineApplicable (message : String) (span : Span) (snippet : String) : Suggestion :=
  new message span snippet .machineApplicable

/-- A suggestion, which a tool may apply unasked, to delete the text at `span`. -/
def removal (message : String) (span : Span) : Suggestion := machineApplicable message span ""

end Suggestion

/-- **A message for a place in the source.** The place of the finding itself is primary,
other places only help to understand it. -/
structure Label where
  span : Span
  message : String
  isPrimary : Bool
  deriving DecidableEq, Repr

/-- **A finding,** with all that is needed to show it. -/
structure Diagnostic where
  code : Code
  severity : Severity
  message : String
  labels : List Label
  notes : List String
  suggestions : List Suggestion
  deriving DecidableEq, Repr

namespace Diagnostic

/-- A diagnostic of which only code and severity are known. -/
def new (severity : Severity) (code : Code) : Diagnostic := ⟨code, severity, "", [], [], []⟩

/-- A new error. -/
def error (code : Code) : Diagnostic := new .error code

/-- A new warning. -/
def warning (code : Code) : Diagnostic := new .warning code

/-! ### Building -/

/-- Sets the message. -/
def withMessage (d : Diagnostic) (message : String) : Diagnostic := { d with message }

/-- Sets the severity. -/
def withSeverity (d : Diagnostic) (severity : Severity) : Diagnostic := { d with severity }

/-- Adds a primary label. -/
def withLabel (d : Diagnostic) (span : Span) (message : String) : Diagnostic :=
  { d with labels := d.labels ++ [⟨span, message, true⟩] }

/-- Adds a primary label at the place of a node. -/
def withLabelAt {α : Type} [Spanned α] (d : Diagnostic) (node : α) (message : String) :
    Diagnostic :=
  d.withLabel (Spanned.spanOf node) message

/-- Adds a label that is not primary. -/
def withSecondaryLabel (d : Diagnostic) (span : Span) (message : String) : Diagnostic :=
  { d with labels := d.labels ++ [⟨span, message, false⟩] }

/-- Adds a note. -/
def withNote (d : Diagnostic) (note : String) : Diagnostic :=
  { d with notes := d.notes ++ [note] }

/-- Adds a suggestion. -/
def withSuggestion (d : Diagnostic) (suggestion : Suggestion) : Diagnostic :=
  { d with suggestions := d.suggestions ++ [suggestion] }

/-- **One step of building a diagnostic.** -/
inductive Step where
  | message (text : String)
  | label (span : Span) (message : String)
  | secondaryLabel (span : Span) (message : String)
  | note (text : String)
  | suggestion (s : Suggestion)
  | severity (s : Severity)
  deriving DecidableEq, Repr

/-- The step that adds a primary label at the place of a node. -/
def Step.labelAt {α : Type} [Spanned α] (node : α) (message : String) : Step :=
  .label (Spanned.spanOf node) message

/-- The diagnostic after a step. -/
def step (d : Diagnostic) : Step → Diagnostic
  | .message text => d.withMessage text
  | .label span message => d.withLabel span message
  | .secondaryLabel span message => d.withSecondaryLabel span message
  | .note text => d.withNote text
  | .suggestion s => d.withSuggestion s
  | .severity s => d.withSeverity s

/-- **The diagnostic after some steps.** -/
def build (d : Diagnostic) (steps : List Step) : Diagnostic := steps.foldl step d

/-! ### Reading -/

/-- **The place of the finding:** that of the first primary label. -/
def primarySpan (d : Diagnostic) : Option Span :=
  (d.labels.find? fun l => l.isPrimary).map fun l => l.span

/-- The severity is that of an error, whatever the code says. -/
def isError (d : Diagnostic) : Bool := d.severity == .error

/-- **The suggestions that a tool may apply unasked.** -/
def machineApplicable (d : Diagnostic) : List Suggestion :=
  d.suggestions.filter fun s => s.applicability.isMachine

end Diagnostic

end ItemAttrs
