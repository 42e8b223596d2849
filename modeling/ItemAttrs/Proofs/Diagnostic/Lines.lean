import ItemAttrs.Diagnostic.Write
import ItemAttrs.Proofs.Text.Line

/-!
# The lines of a diagnostic

A written diagnostic can be taken apart into its lines, if nothing in it breaks a line
(`Diagnostic.splitOn_text`). The header tells severity, code and message, one after the other
(`Diagnostic.eq_of_header`). Each other line tells what it shows, whatever texts are in it, and
begins with a mark that tells labels, notes and suggestions apart. As these come in this order,
the lines of one kind are told from those after them (`eq_of_map_append`), and in the end all that
is shown is told (`Diagnostic.shown_by_text`).
-/

namespace ItemAttrs

/-- **Nothing breaks a line:** neither the message nor any other text that is shown. -/
structure Diagnostic.Unbroken (d : Diagnostic) : Prop where
  message : OneLine d.message.toList
  labels : ∀ l ∈ d.labels, OneLine l.message.toList
  notes : ∀ n ∈ d.notes, OneLine n.toList
  suggestions : ∀ s ∈ d.suggestions, OneLine s.message.toList

/-- **The same is shown of both:** all but the substitutions of suggestions and their
applicability. -/
structure Diagnostic.ShowsSame (d d' : Diagnostic) : Prop where
  severity_eq : d.severity = d'.severity
  code_eq : d.code = d'.code
  message_eq : d.message = d'.message
  labels_eq : d.labels = d'.labels
  notes_eq : d.notes = d'.notes
  suggestions_eq : d.suggestions.map Suggestion.message = d'.suggestions.map Suggestion.message

/-- The line of a suggestion with a message. -/
def Suggestion.helpLine (message : String) : List Char := "  = help: ".toList ++ message.toList

/-! ### Severities and codes -/

theorem Severity.isAlpha_of_mem_text (s : Severity) : ∀ c ∈ s.text.toList, c.isAlpha = true := by
  apply List.all_eq_true.mp
  cases s <;> decide +kernel

theorem Severity.text_injective : Function.Injective Severity.text := by
  intro s s' h
  cases s <;> cases s' <;> first | rfl | exact absurd h (by decide)

theorem Code.isAlphanum_of_mem_text (c : Code) : ∀ x ∈ c.text.toList, x.isAlphanum = true := by
  apply List.all_eq_true.mp
  cases c
  decide +kernel

theorem Code.text_injective : Function.Injective Code.text := by
  rintro ⟨⟩ ⟨⟩ _
  rfl

/-! ### One line -/

/-- The third character of the line of a label is the first one of an arrow, or blank. -/
theorem Label.third_of_line (l : Label) :
    l.line[2]? = some (if l.isPrimary then '-' else ' ') := by
  unfold line
  cases l.isPrimary
  · simp
  · simp

/-- **A label is told by its line.** -/
theorem Label.line_injective : Function.Injective Label.line := by
  intro l l' h
  obtain ⟨span, message, isPrimary⟩ := l
  obtain ⟨span', message', isPrimary'⟩ := l'
  have hthird : some (if isPrimary then '-' else ' ') = some (if isPrimary' then '-' else ' ') :=
    (third_of_line _).symm.trans ((congrArg (·[2]?) h).trans (third_of_line _))
  have hprimary : isPrimary = isPrimary' := by
    revert hthird
    cases isPrimary <;> cases isPrimary' <;> decide
  subst hprimary
  simp only [line, List.append_assoc] at h
  -- a message may look like a span, but the colon in front of it ends the digits of the span
  have hcolon : ∀ r, Stops (·.isDigit = true) ([':', ' '] ++ r) := by
    intro r
    exact stops_cons (by decide) _
  obtain ⟨rfl, hrest⟩ := span.tells_toText span' _ _ (hcolon _) (hcolon _)
    (List.append_cancel_left h)
  obtain rfl : message = message' := String.toList_inj.mp (List.append_cancel_left hrest)
  rfl

theorem Suggestion.helpLine_injective : Function.Injective Suggestion.helpLine := by
  intro m m' h
  exact String.toList_inj.mp (List.append_cancel_left h)

theorem Suggestion.map_line (l : List Suggestion) :
    l.map Suggestion.line = (l.map Suggestion.message).map helpLine := by
  rw [List.map_map]
  rfl

namespace Diagnostic

variable {d d' : Diagnostic}

theorem noteLine_injective : Function.Injective noteLine := by
  intro n n' h
  exact String.toList_inj.mp (List.append_cancel_left h)

/-- No label looks like a note or a suggestion. -/
theorem line_ne_append {mark : List Char} (hmark : mark[2]? = some '=') (l : Label)
    (text : List Char) : l.line ≠ mark ++ text := by
  intro h
  have hthird : l.line[2]? = some '=' := by
    rw [h, List.getElem?_append_left (List.getElem?_eq_some_iff.mp hmark).1, hmark]
  have hne : ∀ isPrimary : Bool, some (if isPrimary then '-' else ' ') ≠ some '=' := by decide
  exact hne l.isPrimary (l.third_of_line.symm.trans hthird)

/-- No note looks like a suggestion. -/
theorem noteLine_ne_helpLine (n m : String) : noteLine n ≠ Suggestion.helpLine m := by
  intro h
  obtain ⟨hmark, -⟩ := List.append_inj h (by decide +kernel)
  exact absurd hmark (by decide +kernel)

/-- **The header** tells severity, code and message. A message can contain whatever it likes,
since it comes last. -/
theorem eq_of_header (h : d.header = d'.header) :
    d.severity = d'.severity ∧ d.code = d'.code ∧ d.message = d'.message := by
  simp only [header, List.append_assoc] at h
  -- a severity has letters only and a code letters and digits, so both show where they end
  have hblank : ∀ r, Stops (·.isAlpha = true) ([' ', '['] ++ r) := by
    intro r
    exact stops_cons (by decide) _
  have hbracket : ∀ r, Stops (·.isAlphanum = true) ([']', ':', ' '] ++ r) := by
    intro r
    exact stops_cons (by decide) _
  obtain ⟨hseverity, hrest⟩ := eq_of_stretch d.severity.isAlpha_of_mem_text
    d'.severity.isAlpha_of_mem_text (hblank _) (hblank _) h
  obtain ⟨hcode, hrest⟩ := eq_of_stretch d.code.isAlphanum_of_mem_text
    d'.code.isAlphanum_of_mem_text (hbracket _) (hbracket _) (List.append_cancel_left hrest)
  exact ⟨Severity.text_injective (String.toList_inj.mp hseverity),
    Code.text_injective (String.toList_inj.mp hcode),
    String.toList_inj.mp (List.append_cancel_left hrest)⟩

/-! ### All lines -/

/-- **Lines of one kind in front of others** are told, and so are those behind them. -/
theorem eq_of_map_append {α β : Type} {f : α → β} (hf : Function.Injective f) {as as' : List α}
    {r r' : List β} (hr : ∀ a, f a ∉ r) (hr' : ∀ a, f a ∉ r')
    (h : as.map f ++ r = as'.map f ++ r') : as = as' ∧ r = r' := by
  induction as generalizing as' with
  | nil =>
    cases as' with
    | nil => exact ⟨rfl, h⟩
    | cons a as' =>
      obtain rfl : r = f a :: (as'.map f ++ r') := h
      exact absurd List.mem_cons_self (hr a)
  | cons a as ih =>
    cases as' with
    | nil =>
      obtain rfl : f a :: (as.map f ++ r) = r' := h
      exact absurd List.mem_cons_self (hr' a)
    | cons a' as' =>
      obtain ⟨hhead, htail⟩ := List.cons.inj h
      obtain ⟨htail, hrest⟩ := ih htail
      exact ⟨congrArg₂ List.cons (hf hhead) htail, hrest⟩

/-- **The lines** tell all that is shown, whether or not a text in them breaks a line. -/
theorem showsSame_of_lines (h : d.lines = d'.lines) : d.ShowsSame d' := by
  simp only [lines, Suggestion.map_line, List.append_assoc] at h
  obtain ⟨hheader, hrest⟩ := List.cons.inj h
  obtain ⟨hseverity, hcode, hmessage⟩ := eq_of_header hheader
  have hlabel : ∀ (d : Diagnostic) (l : Label), l.line ∉ d.notes.map noteLine ++
      (d.suggestions.map Suggestion.message).map Suggestion.helpLine := by
    intro d l hmem
    rcases List.mem_append.mp hmem with hnote | hhelp
    · obtain ⟨n, -, hn⟩ := List.mem_map.mp hnote
      exact line_ne_append (by decide +kernel) l n.toList hn.symm
    · obtain ⟨m, -, hm⟩ := List.mem_map.mp hhelp
      exact line_ne_append (by decide +kernel) l m.toList hm.symm
  have hnote : ∀ (d : Diagnostic) (n : String),
      noteLine n ∉ (d.suggestions.map Suggestion.message).map Suggestion.helpLine := by
    intro d n hmem
    obtain ⟨m, -, hm⟩ := List.mem_map.mp hmem
    exact noteLine_ne_helpLine n m hm.symm
  -- labels come first, then notes, and what is left are the suggestions
  obtain ⟨hlabels, hrest⟩ := eq_of_map_append Label.line_injective (hlabel d) (hlabel d') hrest
  obtain ⟨hnotes, hhelps⟩ := eq_of_map_append noteLine_injective (hnote d) (hnote d') hrest
  exact ⟨hseverity, hcode, hmessage, hlabels, hnotes,
    List.map_injective_iff.mpr Suggestion.helpLine_injective hhelps⟩

theorem ShowsSame.lines_eq (h : d.ShowsSame d') : d.lines = d'.lines := by
  simp only [lines, header, Suggestion.map_line]
  rw [h.severity_eq, h.code_eq, h.message_eq, h.labels_eq, h.notes_eq, h.suggestions_eq]

/-- **If no text breaks a line,** there is one line for the header and one for each label, note
and suggestion. -/
theorem Unbroken.oneLine_of_mem_lines (h : d.Unbroken) : ∀ line ∈ d.lines, OneLine line := by
  have hword : ∀ {P : Char → Bool} {cs : List Char}, P '\n' = false →
      (∀ c ∈ cs, P c = true) → OneLine cs := by
    intro P cs hnewline hcs hmem
    exact Bool.false_ne_true (hnewline.symm.trans (hcs _ hmem))
  have harrow : ∀ isPrimary : Bool,
      OneLine (if isPrimary then "  --> " else "      ").toList := by decide +kernel
  intro line hline
  simp only [lines, List.mem_cons, List.mem_append, List.mem_map, or_assoc] at hline
  obtain rfl | ⟨l, hl, rfl⟩ | ⟨n, hn, rfl⟩ | ⟨s, hs, rfl⟩ := hline
  · unfold header
    simp only [oneLine_append]
    exact ⟨⟨⟨⟨hword rfl d.severity.isAlpha_of_mem_text, by decide⟩,
      hword rfl d.code.isAlphanum_of_mem_text⟩, by decide⟩, h.message⟩
  · unfold Label.line
    simp only [oneLine_append]
    exact ⟨⟨⟨harrow _, l.span.oneLine_toText⟩, by decide⟩, h.labels l hl⟩
  · exact oneLine_append.mpr ⟨by decide +kernel, h.notes n hn⟩
  · exact oneLine_append.mpr ⟨by decide +kernel, h.suggestions s hs⟩

theorem splitOn_text (h : d.Unbroken) : d.text.toList.splitOn '\n' = d.lines := by
  unfold text
  rw [String.toList_ofList]
  exact splitOn_newline (List.cons_ne_nil _ _) h.oneLine_of_mem_lines

/-- **What is shown is told by the text,** if no text in it breaks a line, and nothing else has a
part in the text. Without newlines a text cannot imitate a label, a note or a suggestion; with
newlines it can. -/
theorem shown_by_text (d d' : Diagnostic) :
    (d.Unbroken → d'.Unbroken → d.text = d'.text → d.ShowsSame d') ∧
      (d.ShowsSame d' → d.text = d'.text) := by
  refine ⟨fun hd hd' htext => ?_, fun h => ?_⟩
  · apply showsSame_of_lines
    calc d.lines
      _ = d.text.toList.splitOn '\n' := (splitOn_text hd).symm
      _ = d'.text.toList.splitOn '\n' := by rw [htext]
      _ = d'.lines := splitOn_text hd'
  · unfold text
    rw [h.lines_eq]

/-- A newline in a message lets it imitate a note. -/
example : (Diagnostic.mk .unusedAttribute .error "unused\n  = note: cfg" [] [] []).text =
    (Diagnostic.mk .unusedAttribute .error "unused" [] ["cfg"] []).text := by decide +kernel

/-- A message that imitates a label and a note that imitates a suggestion stay what they are, and
of the suggestion itself only the message is told. -/
theorem shown_by_text_imitated :
    let d : Diagnostic := ⟨.unusedAttribute, .error, "  --> 0..4: here",
      [⟨⟨0, 4⟩, "5..6: ", false⟩], ["  = help: delete"], [.removal "0..4" ⟨0, 4⟩]⟩
    let d' : Diagnostic := ⟨.unusedAttribute, .error, "  --> 0..4: here",
      [⟨⟨0, 4⟩, "5..6: ", false⟩], ["  = help: delete"], [⟨"0..4", [], .unspecified⟩]⟩
    let moved : Diagnostic := ⟨.unusedAttribute, .error, "  --> 0..4: here",
      [⟨⟨0, 4⟩, "5..6: ", false⟩], [], [.removal "delete" ⟨0, 4⟩, .removal "0..4" ⟨0, 4⟩]⟩
    d.Unbroken ∧ d'.Unbroken ∧ moved.Unbroken ∧ d.ShowsSame d' ∧ d.text = d'.text ∧
      d.text ≠ moved.text := by
  intro d d' moved
  have hsame : d.ShowsSame d' := ⟨rfl, rfl, rfl, rfl, rfl, rfl⟩
  have hd : d.Unbroken :=
    ⟨by decide +kernel, by decide +kernel, by decide +kernel, by decide +kernel⟩
  have hd' : d'.Unbroken :=
    ⟨by decide +kernel, by decide +kernel, by decide +kernel, by decide +kernel⟩
  have hmoved : moved.Unbroken :=
    ⟨by decide +kernel, by decide +kernel, by decide +kernel, by decide +kernel⟩
  have htext : d.text = d'.text := (shown_by_text d d').2 hsame
  refine ⟨hd, hd', hmoved, (shown_by_text d d').1 hd hd' htext, htext, fun h => ?_⟩
  have hnotes : d.notes = moved.notes := ((shown_by_text d moved).1 hd hmoved h).notes_eq
  exact List.cons_ne_nil _ _ hnotes

end Diagnostic

end ItemAttrs
