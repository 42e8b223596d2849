import ItemAttrs.Attr.Write
import ItemAttrs.Diagnostic.Basic
import ItemAttrs.Lint.Event

/-!
# The check for unused attributes

After the last pass, every entry that no pass has used is reported, together with a fix that
deletes it. Only entries are checked: a nested attribute is used as part of the entry around
it, whatever its own flag says.

* `UnusedCheck` collects the reports of any number of lists;
* `checkUnused` checks some lists and says so in the log.

A report shows the attribute, so it fails with the fault of the first name without text.
-/

namespace ItemAttrs

/-- A computation that writes to the log and may fail. -/
abbrev LogM := ExceptT Fault (StateM (List Event))

/-- Adds an event to the log. -/
def emit (e : Event) : LogM Unit := modify fun log => log ++ [e]

/-- The result of a computation on an empty log, and the log that it leaves. -/
def LogM.start {α : Type} (x : LogM α) : Except Fault α × List Event := x.run.run []

/-- The report about an unused attribute, whose text is `shown`. -/
def unusedReport (a : Attr Name) (shown : String) : Diagnostic :=
  ((Diagnostic.warning .unusedAttribute).withMessage s!"unused attribute `{shown}`"
    |>.withLabelAt a "no pass consumed this attribute")
    |>.withSuggestion (.removal "remove the unused attribute" a.span)

/-- **The reports collected so far,** in the order of the lists and of their entries. -/
structure UnusedCheck where
  reports : List Diagnostic
  deriving DecidableEq

namespace UnusedCheck

/-- No list has been checked. -/
def new : UnusedCheck := ⟨[]⟩

/-- Reports one attribute, first to the log. -/
def report (t : Interner) (c : UnusedCheck) (a : Attr Name) : LogM UnusedCheck := do
  let shown ← (a.render t : Except Fault String)
  emit (.unused a.span shown)
  return ⟨c.reports ++ [unusedReport a shown]⟩

/-- **Reports every unused entry of a list.** -/
def checkList (t : Interner) (c : UnusedCheck) (l : AttrList Name) : LogM UnusedCheck :=
  l.unused.foldlM (report t) c

/-- All reports. -/
def finish (c : UnusedCheck) : List Diagnostic := c.reports

end UnusedCheck

/-- **Checks some lists for unused attributes,** in the given order. -/
def checkUnused (t : Interner) (lists : List (AttrList Name)) : LogM (List Diagnostic) := do
  emit .began
  let c ← lists.foldlM (UnusedCheck.checkList t) .new
  let reports := c.finish
  emit (.finished lists.length reports.length)
  return reports

end ItemAttrs
