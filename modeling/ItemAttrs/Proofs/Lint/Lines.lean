import Mathlib.Data.List.Forall2
import ItemAttrs.Proofs.Attr.Lines
import ItemAttrs.Proofs.Diagnostic.Lines
import ItemAttrs.Proofs.Lint.Faults

/-!
# Lists and reports line by line

If no segment breaks a line, each entry of a list is written on a line of its own, and each report
about an unused entry has three lines. Texts and characters with newlines in them do not matter,
since they are quoted.

* `AttrList.WrittenByLine` and `ReportedByLine` are what a reader of the lines relies on;
* `splitOn_unusedReport` has the lines of one report;
* `one_line_each` says it of all lists and all checks.
-/

namespace ItemAttrs

/-- **The lines of a report** about an unused attribute: what it is, where it is, and what may be
done about it. -/
def reportLines (a : Attr Name) (shown : String) : List (List Char) :=
  ["warning [W1001]: unused attribute `".toList ++ shown.toList ++ ['`'],
    "  --> ".toList ++ a.span.toText.toList ++ ": no pass consumed this attribute".toList,
    "  = help: remove the unused attribute".toList]

/-- **The lines of the list are its entries,** in order. It is written if all its names have
texts. -/
structure AttrList.WrittenByLine (t : Interner) (l : AttrList Name) : Prop where
  written : (∀ n ∈ Attr.namesAll l.items, ¬t.Dangling n) → ∃ text, l.render t = .ok text
  lines : ∀ text, l.render t = .ok text → ∃ shown, l.items.mapM (Attr.render t) = .ok shown ∧
    text.toList.splitOn '\n' = shown.map String.toList

/-- **Each unused entry is reported in three lines.** There are reports if all names in unused
entries have texts. -/
structure ReportedByLine (t : Interner) (lists : List (AttrList Name)) : Prop where
  reported : (∀ a ∈ unusedEntries lists, ∀ n ∈ a.names, ¬t.Dangling n) →
    ∃ ds, (checkUnused t lists).start.1 = .ok ds
  lines : ∀ ds, (checkUnused t lists).start.1 = .ok ds →
    List.Forall₂ (fun a d => ∃ shown, a.render t = .ok shown ∧
      d.text.toList.splitOn '\n' = reportLines a shown) (unusedEntries lists) ds

variable {t : Interner}

theorem AttrList.Unbroken.writtenByLine {l : AttrList Name} (h : l.Unbroken t)
    (hne : l.items ≠ []) : l.WrittenByLine t where
  written hnames := (AttrList.showing_render t l).exists_ok hnames
  lines _ hrender := AttrList.splitOn_of_render hne h hrender

/-! ### Reports -/

theorem unusedReport_message (a : Attr Name) (shown : String) :
    (unusedReport a shown).message.toList =
      "unused attribute `".toList ++ shown.toList ++ ['`'] := by
  show ("unused attribute `" ++ shown ++ "`").toList = _
  rw [String.toList_append, String.toList_append]
  rfl

theorem lines_unusedReport (a : Attr Name) (shown : String) :
    (unusedReport a shown).lines = reportLines a shown := by
  have hheader : (unusedReport a shown).header =
      "warning [W1001]: unused attribute `".toList ++ shown.toList ++ ['`'] := by
    rw [Diagnostic.header, unusedReport_message]
    show Severity.warning.text.toList ++ _ ++ Code.unusedAttribute.text.toList ++ _ ++ _ = _
    simp [Severity.text, Code.text]
  have hlabel : Label.line ⟨a.span, "no pass consumed this attribute", true⟩ =
      "  --> ".toList ++ a.span.toText.toList ++ ": no pass consumed this attribute".toList := by
    simp [Label.line]
  have hhelp : Suggestion.line (.removal "remove the unused attribute" a.span) =
      "  = help: remove the unused attribute".toList := by
    show "  = help: ".toList ++ "remove the unused attribute".toList = _
    simp
  rw [Diagnostic.lines, hheader, reportLines, ← hlabel, ← hhelp]
  rfl

/-- **A report has three lines,** if the written attribute stands on one. -/
theorem splitOn_unusedReport (a : Attr Name) {shown : String} (h : OneLine shown.toList) :
    (unusedReport a shown).text.toList.splitOn '\n' = reportLines a shown := by
  have hunbroken : (unusedReport a shown).Unbroken := by
    constructor
    · rw [unusedReport_message, oneLine_append, oneLine_append]
      exact ⟨⟨by decide +kernel, h⟩, by decide⟩
    · have hlabel : OneLine "no pass consumed this attribute".toList := by decide +kernel
      exact List.forall_mem_singleton.mpr hlabel
    · exact nofun
    · have hhelp : OneLine "remove the unused attribute".toList := by decide +kernel
      exact List.forall_mem_singleton.mpr hhelp
  rw [Diagnostic.splitOn_text hunbroken, lines_unusedReport]

theorem reportedByLine {lists : List (AttrList Name)} (h : ∀ l ∈ lists, l.Unbroken t) :
    ReportedByLine t lists where
  reported hnames := by
    rw [start_checkUnused_eq]
    apply (showing_reports t (unusedEntries lists)).exists_ok
    intro n hn
    obtain ⟨a, ha, hna⟩ := List.mem_flatMap.mp hn
    exact hnames a ha n hna
  lines ds hds := by
    rw [start_checkUnused_eq] at hds
    -- an unused entry is an entry of one of the lists, so its segments break no line
    have hsegments : ∀ a ∈ unusedEntries lists, NamesUnbroken t.lookup a.segments := by
      intro a ha
      obtain ⟨l, hl, hal, -⟩ := mem_unusedEntries.mp ha
      exact (h l hl).namesUnbroken hal
    have hreports := (List.forall₂_and_left _ _).mpr ⟨hsegments, forall₂_of_mapM hds⟩
    refine hreports.imp ?_
    rintro a d ⟨ha, hreport⟩
    obtain ⟨shown, hshown, hd⟩ := exists_of_bind_eq_ok hreport
    cases hd
    exact ⟨shown, hshown, splitOn_unusedReport a (Attr.oneLine_of_render ha hshown)⟩

/-- **One line each.** If no segment in them breaks a line, the lines of a list are its entries, and
each report about an unused entry has a header, a label and a suggestion, one line each. Texts and
characters may contain whatever they like. A list without entries is the exception, since its text
is empty, but still has a line. -/
theorem one_line_each (t : Interner) :
    (∀ l : AttrList Name, l.items ≠ [] → l.Unbroken t → l.WrittenByLine t) ∧
      ∀ lists : List (AttrList Name), (∀ l ∈ lists, l.Unbroken t) → ReportedByLine t lists :=
  ⟨fun _ hne h => h.writtenByLine hne, fun _ h => reportedByLine h⟩

/-- A text of two lines deep inside of an entry, and a newline as a character. -/
theorem one_line_each_quoted :
    let t := (Interner.intern "one\ntwo" .initial).2
    let cfg : Name := ⟨1073741824⟩
    let skip : Name := ⟨4026531840⟩
    let nested : Attr Name := .new ⟨0, 9⟩ (.trivial cfg)
      (.nested [.new ⟨3, 8⟩ (.trivial skip) (.text ⟨2147483649⟩)])
    let value : Attr Name := .new ⟨10, 20⟩ (.trivial skip)
      (.value (.binary .ne (.path [cfg] .dummy) (.literal (.char '\n') .dummy) .dummy))
    let l : AttrList Name := ⟨[nested, value.markUsed]⟩
    l.Unbroken t ∧
      (∃ text, l.render t = .ok text ∧ text.toList.splitOn '\n' =
        ["#[cfg(skip = \"one\\ntwo\")]".toList, "#[skip = cfg != '\\n']".toList]) ∧
      ∃ d, (checkUnused t [l]).start.1 = .ok [d] ∧
        d.text.toList.splitOn '\n' = reportLines nested "#[cfg(skip = \"one\\ntwo\")]" := by
  intro t cfg skip nested value l
  have hcfg : t.lookup cfg = .ok "cfg" := by decide +kernel
  have hskip : t.lookup skip = .ok "skip" := by decide +kernel
  have hname : ∀ {n : Name} {s : String}, t.lookup n = .ok s → OneLine s.toList →
      ∀ s', t.lookup n = .ok s' → OneLine s'.toList := by
    intro n s hs hline s' hs'
    cases hs.symm.trans hs'
    exact hline
  have hcfg' := hname hcfg (by decide +kernel)
  have hskip' := hname hskip (by decide +kernel)
  have hunbroken : l.Unbroken t := by
    show ∀ n ∈ [cfg, skip, skip, cfg], _
    simp only [List.forall_mem_cons]
    exact ⟨hcfg', hskip', hskip', hcfg', nofun⟩
  have hitems : l.items ≠ [] := List.cons_ne_nil _ _
  have hshown : l.items.mapM (Attr.render t) =
      .ok ["#[cfg(skip = \"one\\ntwo\")]", "#[skip = cfg != '\\n']"] := by decide +kernel
  obtain ⟨hlists, hreports⟩ := one_line_each t
  refine ⟨hunbroken, ?_, ?_⟩
  · obtain ⟨text, htext⟩ := (hlists l hitems hunbroken).written (by decide +kernel)
    obtain ⟨shown, hshown', hlines⟩ := (hlists l hitems hunbroken).lines text htext
    cases hshown.symm.trans hshown'
    exact ⟨text, htext, hlines⟩
  · have hreported := hreports [l] (List.forall_mem_singleton.mpr hunbroken)
    obtain ⟨ds, hds⟩ := hreported.reported (by decide +kernel)
    -- the other entry is used, so there is one report
    obtain ⟨d, rest, ⟨shown, hnested, hlines⟩, hrest, rfl⟩ :=
      List.forall₂_cons_left_iff.mp (hreported.lines ds hds)
    cases hrest
    have hrender : nested.render t = .ok "#[cfg(skip = \"one\\ntwo\")]" := by decide +kernel
    cases hrender.symm.trans hnested
    exact ⟨d, hds, hlines⟩

end ItemAttrs
