import ItemAttrs.Diagnostic.Write

/-!
# Building diagnostics

Each step of building a diagnostic is about one of its fields: it sets the message or the severity,
or adds something at the end of a list. What a field holds in the end is therefore read off the
steps about it, in their order, and it does not matter what steps about other fields stand between
them.

* `collected` reads all fields off the steps, and `build_eq` says that they are what building
  comes to;
* `SameParts` is what two sequences of steps must have in common, and `build_congr` what follows;
* `built_by_parts` adds what the readers of a diagnostic see of the steps.
-/

namespace ItemAttrs.Diagnostic

namespace Step

/-- The message that a step sets. -/
def message? : Step → Option String
  | .message text => some text
  | _ => none

/-- The severity that a step sets. -/
def severity? : Step → Option Severity
  | .severity s => some s
  | _ => none

/-- The label that a step adds. -/
def label? : Step → Option Label
  | .label span text => some ⟨span, text, true⟩
  | .secondaryLabel span text => some ⟨span, text, false⟩
  | _ => none

/-- The note that a step adds. -/
def note? : Step → Option String
  | .note text => some text
  | _ => none

/-- The suggestion that a step adds. -/
def suggestion? : Step → Option Suggestion
  | .suggestion s => some s
  | _ => none

/-- The place to which a step adds a primary label. -/
def primary? : Step → Option Span
  | .label span _ => some span
  | _ => none

/-- **What a step is about.** -/
inductive Part where
  | message | severity | labels | notes | suggestions
  deriving DecidableEq, Repr

/-- The part of a diagnostic that a step changes. -/
def part : Step → Part
  | .message _ => .message
  | .severity _ => .severity
  | .label .. | .secondaryLabel .. => .labels
  | .note _ => .notes
  | .suggestion _ => .suggestions

end Step

/-- **What a diagnostic becomes by some steps,** field by field. The last message and the last
severity count; labels, notes and suggestions come in the order of the steps. -/
def collected (d : Diagnostic) (steps : List Step) : Diagnostic where
  code := d.code
  severity := (steps.filterMap Step.severity?).getLastD d.severity
  message := (steps.filterMap Step.message?).getLastD d.message
  labels := d.labels ++ steps.filterMap Step.label?
  notes := d.notes ++ steps.filterMap Step.note?
  suggestions := d.suggestions ++ steps.filterMap Step.suggestion?

/-- **The same steps about each field,** in the same order. -/
structure SameParts (steps steps' : List Step) : Prop where
  messages_eq : steps.filterMap Step.message? = steps'.filterMap Step.message?
  severities_eq : steps.filterMap Step.severity? = steps'.filterMap Step.severity?
  labels_eq : steps.filterMap Step.label? = steps'.filterMap Step.label?
  notes_eq : steps.filterMap Step.note? = steps'.filterMap Step.note?
  suggestions_eq : steps.filterMap Step.suggestion? = steps'.filterMap Step.suggestion?

/-- **What has been built,** read off the steps about each part alone. The last message and the
last severity count, if there are any. -/
structure BuiltFrom (d : Diagnostic) (severity : Severity) (code : Code) (steps : List Step) :
    Prop where
  code_eq : d.code = code
  severity_eq : d.severity = (steps.filterMap Step.severity?).getLastD severity
  message_eq : d.message = (steps.filterMap Step.message?).getLastD ""
  labels_eq : d.labels = steps.filterMap Step.label?
  notes_eq : d.notes = steps.filterMap Step.note?
  suggestions_eq : d.suggestions = steps.filterMap Step.suggestion?

/-- **The diagnostics to begin with,** and their severities. -/
inductive Begins (code : Code) : Diagnostic → Severity → Prop where
  | error : Begins code (.error code) .error
  | warning : Begins code (.warning code) .warning

variable {d : Diagnostic} {steps steps' : List Step}

/-! ### One step after the other -/

theorem collected_nil (d : Diagnostic) : d.collected [] = d := by
  unfold collected
  simp only [List.filterMap_nil, List.append_nil]
  rfl

/-- **A step and those after it:** what the step does to its field comes before the others. -/
theorem collected_cons (d : Diagnostic) (step : Step) (steps : List Step) :
    d.collected (step :: steps) = (d.step step).collected steps := by
  -- the step is about one field, and the steps about all others are those after it
  cases step with
  | message text =>
    show Diagnostic.mk _ _ ((text :: _).getLastD _) _ _ _ = _
    rw [List.getLastD_cons]
    rfl
  | severity s =>
    show Diagnostic.mk _ ((s :: _).getLastD _) _ _ _ _ = _
    rw [List.getLastD_cons]
    rfl
  | label span message =>
    show Diagnostic.mk _ _ _ (d.labels ++ ⟨span, message, true⟩ :: _) _ _ = _
    rw [List.append_cons]
    rfl
  | secondaryLabel span message =>
    show Diagnostic.mk _ _ _ (d.labels ++ ⟨span, message, false⟩ :: _) _ _ = _
    rw [List.append_cons]
    rfl
  | note text =>
    show Diagnostic.mk _ _ _ _ (d.notes ++ text :: _) _ = _
    rw [List.append_cons]
    rfl
  | suggestion s =>
    show Diagnostic.mk _ _ _ _ _ (d.suggestions ++ s :: _) = _
    rw [List.append_cons]
    rfl

/-- **Building** comes to what is collected field by field. -/
theorem build_eq (d : Diagnostic) (steps : List Step) : d.build steps = d.collected steps := by
  induction steps generalizing d with
  | nil => exact d.collected_nil.symm
  | cons step steps ih =>
    rw [collected_cons, ← ih]
    rfl

theorem build_congr (d : Diagnostic) (h : SameParts steps steps') :
    d.build steps = d.build steps' := by
  rw [build_eq, build_eq]
  unfold collected
  rw [h.messages_eq, h.severities_eq, h.labels_eq, h.notes_eq, h.suggestions_eq]

/-! ### Interleaving -/

/-- Of two steps about different parts, one at most is about a given part. -/
theorem none_or_none {a b : Step} (h : a.part ≠ b.part) :
    (a.message? = none ∨ b.message? = none) ∧ (a.severity? = none ∨ b.severity? = none) ∧
      (a.label? = none ∨ b.label? = none) ∧ (a.note? = none ∨ b.note? = none) ∧
      (a.suggestion? = none ∨ b.suggestion? = none) := by
  cases a <;> cases b <;>
    simp [Step.part, Step.message?, Step.severity?, Step.label?, Step.note?,
      Step.suggestion?] at h ⊢

theorem filterMap_swap {α β : Type} {f : α → Option β} {a b : α} (h : f a = none ∨ f b = none)
    (before after : List α) :
    (before ++ a :: b :: after).filterMap f = (before ++ b :: a :: after).filterMap f := by
  simp only [List.filterMap_append, List.filterMap_cons]
  rcases h with h | h <;> rw [h]

/-- **Steps about different parts** may change places. -/
theorem sameParts_swap {a b : Step} (h : a.part ≠ b.part) (before after : List Step) :
    SameParts (before ++ a :: b :: after) (before ++ b :: a :: after) := by
  obtain ⟨hmessage, hseverity, hlabel, hnote, hsuggestion⟩ := none_or_none h
  exact ⟨filterMap_swap hmessage before after, filterMap_swap hseverity before after,
    filterMap_swap hlabel before after, filterMap_swap hnote before after,
    filterMap_swap hsuggestion before after⟩

/-! ### What readers see -/

/-- **The place of the finding** is that of the first primary label, whatever other labels there
are. -/
theorem findSome?_label (steps : List Step) :
    ((steps.filterMap Step.label?).find? fun l => l.isPrimary).map (fun l => l.span) =
      steps.findSome? Step.primary? := by
  induction steps with
  | nil => rfl
  | cons step steps ih =>
    cases step with
    | label span message => rfl
    | secondaryLabel | message | note | suggestion | severity => exact ih

theorem primarySpan_build (hlabels : d.labels = []) (steps : List Step) :
    (d.build steps).primarySpan = steps.findSome? Step.primary? := by
  rw [build_eq, ← findSome?_label]
  show Option.map _ (List.find? _ (d.labels ++ _)) = _
  rw [hlabels, List.nil_append]

theorem builtFrom_build (severity : Severity) (code : Code) (steps : List Step) :
    ((new severity code).build steps).BuiltFrom severity code steps := by
  rw [build_eq]
  exact ⟨rfl, rfl, rfl, rfl, rfl, rfl⟩

theorem Begins.builtFrom {code : Code} {start : Diagnostic} {severity : Severity}
    (h : Begins code start severity) (steps : List Step) :
    (start.build steps).BuiltFrom severity code steps := by
  cases h with
  | error => exact builtFrom_build .error code steps
  | warning => exact builtFrom_build .warning code steps

theorem Begins.labels_eq {code : Code} {start : Diagnostic} {severity : Severity}
    (h : Begins code start severity) : start.labels = [] := by
  cases h <;> rfl

/-- **A diagnostic is what the steps about each part make of it.** It does not matter how steps
about different parts are interleaved, so sequences with the same steps about each part come to
the same, and so do two sequences in which neighbours have changed places. The place of the
finding is that of the first primary label, the suggestions for tools are those marked so, in
order, and whether it is an error is said by the last severity alone. A label at the place of a
node is a step like any other. -/
theorem built_by_parts {code : Code} {start : Diagnostic} {severity : Severity}
    (hstart : Begins code start severity) (steps : List Step) :
    (start.build steps).BuiltFrom severity code steps ∧
    (∀ steps', SameParts steps steps' → start.build steps = start.build steps' ∧
      (start.build steps).text = (start.build steps').text) ∧
    (∀ before a b after, steps = before ++ a :: b :: after → a.part ≠ b.part →
      start.build steps = start.build (before ++ b :: a :: after)) ∧
    (start.build steps).primarySpan = steps.findSome? Step.primary? ∧
    (start.build steps).machineApplicable =
      (steps.filterMap Step.suggestion?).filter (·.applicability = .machineApplicable) ∧
    ((start.build steps).isError = true ↔
      (steps.filterMap Step.severity?).getLastD severity = .error) ∧
    ∀ (α : Type) [Spanned α] (node : α) (message : String),
      (start.build steps).withLabelAt node message =
        start.build (steps ++ [.labelAt node message]) := by
  have hbuilt := hstart.builtFrom steps
  refine ⟨hbuilt, fun steps' h => ?_, ?_, primarySpan_build hstart.labels_eq steps, ?_, ?_, ?_⟩
  · have heq : start.build steps = start.build steps' := start.build_congr h
    exact ⟨heq, congrArg text heq⟩
  · rintro before a b after rfl hparts
    exact start.build_congr (sameParts_swap hparts before after)
  · unfold machineApplicable
    rw [hbuilt.suggestions_eq]
    rfl
  · unfold isError
    rw [hbuilt.severity_eq, beq_iff_eq]
  · intro α _ node message
    unfold build
    rw [List.foldl_append]
    rfl

/-- A secondary label before the primary one, two messages and two severities: the same with all
steps about one part together, and with the first two steps the other way round. -/
theorem built_by_parts_twice :
    let start : Diagnostic := .error .unusedAttribute
    let see : Step := .secondaryLabel ⟨7, 9⟩ "see"
    let draft : Step := .message "draft"
    let others : List Step := [.severity .note, .label ⟨0, 4⟩ "here", .note "first",
      .suggestion (.removal "delete" ⟨0, 4⟩), .severity .help, .message "unused",
      .label ⟨5, 6⟩ "and here"]
    let sorted : List Step := [.message "draft", .message "unused", .secondaryLabel ⟨7, 9⟩ "see",
      .label ⟨0, 4⟩ "here", .label ⟨5, 6⟩ "and here", .note "first",
      .suggestion (.removal "delete" ⟨0, 4⟩), .severity .note, .severity .help]
    Begins .unusedAttribute start .error ∧ SameParts (see :: draft :: others) sorted ∧
      start.build (see :: draft :: others) = start.build sorted ∧ see.part ≠ draft.part ∧
      start.build (see :: draft :: others) = start.build (draft :: see :: others) ∧
      (start.build (see :: draft :: others)).primarySpan = some ⟨0, 4⟩ ∧
      (start.build (see :: draft :: others)).isError = false := by
  intro start see draft others sorted
  have hstart : Begins .unusedAttribute start .error := .error
  have hsame : SameParts (see :: draft :: others) sorted := ⟨rfl, rfl, rfl, rfl, rfl⟩
  have hparts : see.part ≠ draft.part := nofun
  obtain ⟨-, hcongr, hswap, hprimary, -, herror, -⟩ :=
    built_by_parts hstart (see :: draft :: others)
  refine ⟨hstart, hsame, (hcongr sorted hsame).1, hparts, hswap [] see draft others rfl hparts,
    hprimary, ?_⟩
  rw [← Bool.not_eq_true, herror]
  exact nofun

end ItemAttrs.Diagnostic
