import ItemAttrs.Proofs.Attr.Strip
import ItemAttrs.Proofs.Lint.Reports

/-!
# One run of the check

Whatever the lists are, the check goes through their unused entries in order, writes each one
out, and stops at the first that cannot be written. Its answer is therefore the list of reports
about these entries, or the fault of that first one, and its log ends there, too.

* `reportOf` and `eventsOf` are answer and log, read off the unused entries alone;
* `run_foldlM_report_eq` is the loop, and `start_checkUnused_eq` the whole check;
* `start_checkUnused_congr`: two checks that see the same come to the same.
-/

namespace ItemAttrs

/-- The report about an unused entry. -/
def reportOf (t : Interner) (a : Attr Name) : Except Fault Diagnostic := do
  return unusedReport a (← a.render t)

/-- **The events about some unused entries,** up to the first that cannot be written. -/
def eventsOf (t : Interner) : List (Attr Name) → List Event
  | [] => []
  | a :: as =>
    match a.render t with
    | .ok shown => .unused a.span shown :: eventsOf t as
    | .error _ => []

/-- The unused entries of some lists, in order. -/
def unusedEntries (lists : List (AttrList Name)) : List (Attr Name) :=
  lists.flatMap AttrList.unused

theorem mem_unusedEntries {lists : List (AttrList Name)} {a : Attr Name} :
    a ∈ unusedEntries lists ↔ ∃ l ∈ lists, a ∈ l.items ∧ a.used = false := by
  simp only [unusedEntries, List.mem_flatMap, AttrList.mem_unused]

theorem LogM.run_bind_of_error {α β : Type} {x : LogM α} {cause : Fault} {log log' : List Event}
    (f : α → LogM β) (h : x.run.run log = (.error cause, log')) :
    (x >>= f).run.run log = (.error cause, log') := by
  change (ExceptT.bindCont f ((x.run.run log).1)).run (x.run.run log).2 = _
  rw [h]
  rfl

namespace UnusedCheck

variable {t : Interner}

theorem run_report_of_error {a : Attr Name} {cause : Fault} (h : a.render t = .error cause)
    (c : UnusedCheck) (log : List Event) : (report t c a).run.run log = (.error cause, log) := by
  rw [report, h]
  rfl

/-- **The loop over unused entries,** on any log and any earlier reports. -/
theorem run_foldlM_report_eq (as : List (Attr Name)) (c : UnusedCheck) (log : List Event) :
    (as.foldlM (report t) c).run.run log =
      ((as.mapM (reportOf t)).map fun ds => ⟨c.reports ++ ds⟩, log ++ eventsOf t as) := by
  induction as generalizing c log with
  | nil =>
    rw [eventsOf, List.append_nil, List.mapM_nil]
    change (Except.ok c, log) = (Except.ok ⟨c.reports ++ []⟩, log)
    rw [List.append_nil]
  | cons a as ih =>
    rw [List.foldlM_cons, List.mapM_cons, eventsOf, reportOf]
    cases ha : a.render t with
    | error cause =>
      -- nothing is logged about the entry, nor about those after it
      rw [LogM.run_bind_of_error _ (run_report_of_error ha c log), List.append_nil]
      rfl
    | ok shown =>
      have hreport := @run_report t (fun _ => shown) a ha c log
      rw [LogM.run_bind_of_ok _ hreport, ih, List.append_assoc, List.singleton_append]
      refine Prod.ext ?_ rfl
      cases as.mapM (reportOf t) with
      | error cause => rfl
      | ok ds =>
        show Except.ok (UnusedCheck.mk ((c.reports ++ [unusedReport a shown]) ++ ds)) = _
        rw [List.append_assoc]
        rfl

/-- The loop over the lists is one loop over their unused entries. -/
theorem foldlM_checkList (lists : List (AttrList Name)) (c : UnusedCheck) :
    lists.foldlM (checkList t) c = (unusedEntries lists).foldlM (report t) c := by
  induction lists generalizing c with
  | nil => rfl
  | cons l lists ih =>
    rw [List.foldlM_cons, unusedEntries, List.flatMap_cons, List.foldlM_append]
    exact bind_congr fun c' => ih c'

end UnusedCheck

/-- **What the check comes to:** the reports about the unused entries, or the first fault; and
the log, which says that the check is over only if it is. -/
theorem start_checkUnused_eq (t : Interner) (lists : List (AttrList Name)) :
    (checkUnused t lists).start =
      let reports := (unusedEntries lists).mapM (reportOf t)
      (reports, .began :: eventsOf t (unusedEntries lists) ++
        match reports with
        | .ok ds => [.finished lists.length ds.length]
        | .error _ => []) := by
  have hbegan : (emit .began).run.run [] = (.ok (), [.began]) := rfl
  -- the loop goes on from the log that says that the check began
  have hrun := UnusedCheck.run_foldlM_report_eq (t := t) (unusedEntries lists) .new [.began]
  rw [← UnusedCheck.foldlM_checkList] at hrun
  rw [LogM.start, checkUnused, LogM.run_bind_of_ok _ hbegan]
  cases hreports : (unusedEntries lists).mapM (reportOf t) with
  | error cause =>
    rw [hreports] at hrun
    rw [LogM.run_bind_of_error _ hrun]
    exact Prod.ext rfl (List.append_nil _).symm
  | ok ds =>
    rw [hreports] at hrun
    rw [LogM.run_bind_of_ok _ hrun]
    rfl

/-! ### What the check depends on -/

/-- **What a check sees of an unused entry:** where it stands, and its written form. -/
def outline (t : Interner) (a : Attr Name) : Span × Except Fault String := (a.span, a.render t)

section Congruence

variable {t₁ t₂ : Interner}

theorem reportOf_congr {a b : Attr Name} (h : outline t₁ a = outline t₂ b) :
    reportOf t₁ a = reportOf t₂ b := by
  have hspan : a.span = b.span := congrArg Prod.fst h
  have hrender : a.render t₁ = b.render t₂ := congrArg Prod.snd h
  have hreport : ∀ shown, unusedReport a shown = unusedReport b shown := by
    intro shown
    simp only [unusedReport, Diagnostic.withLabelAt, Spanned.spanOf, hspan]
  simp only [reportOf, hrender, hreport]

theorem mapM_reportOf_congr {as bs : List (Attr Name)}
    (h : as.map (outline t₁) = bs.map (outline t₂)) :
    as.mapM (reportOf t₁) = bs.mapM (reportOf t₂) := by
  induction as generalizing bs with
  | nil => rw [List.map_eq_nil_iff.mp h.symm, List.mapM_nil, List.mapM_nil]
  | cons a as ih =>
    obtain ⟨b, bs, rfl, hb, hbs⟩ := List.map_eq_cons_iff.mp h.symm
    rw [List.mapM_cons, List.mapM_cons, reportOf_congr hb.symm, ih hbs.symm]

theorem eventsOf_congr {as bs : List (Attr Name)}
    (h : as.map (outline t₁) = bs.map (outline t₂)) : eventsOf t₁ as = eventsOf t₂ bs := by
  induction as generalizing bs with
  | nil =>
    rw [List.map_eq_nil_iff.mp h.symm]
    rfl
  | cons a as ih =>
    -- the outline says whether the entry can be written, and then which event it gives
    obtain ⟨b, bs, rfl, hb, hbs⟩ := List.map_eq_cons_iff.mp h.symm
    have hspan : b.span = a.span := congrArg Prod.fst hb
    have hrender : b.render t₂ = a.render t₁ := congrArg Prod.snd hb
    rw [eventsOf, eventsOf, hspan, hrender, ih hbs.symm]

/-- **The check depends on nothing else:** not on names, nor on what is nested in an entry. -/
theorem start_checkUnused_congr {lists₁ lists₂ : List (AttrList Name)}
    (hlength : lists₁.length = lists₂.length)
    (h : (unusedEntries lists₁).map (outline t₁) = (unusedEntries lists₂).map (outline t₂)) :
    (checkUnused t₁ lists₁).start = (checkUnused t₂ lists₂).start := by
  rw [start_checkUnused_eq, start_checkUnused_eq, hlength, mapM_reportOf_congr h, eventsOf_congr h]

end Congruence

theorem AttrList.outline_face (t : Interner) (l : AttrList Name) :
    l.face.unused.map (outline t) = l.unused.map (outline t) := by
  rw [unused, face, List.filter_map, List.map_map]
  refine List.map_congr_left fun a _ => ?_
  exact Prod.ext rfl (a.render_face t)

theorem start_checkUnused_of_face (t : Interner) {l l' : AttrList Name} (h : l.face = l'.face) :
    (checkUnused t [l]).start = (checkUnused t [l']).start := by
  refine start_checkUnused_congr rfl ?_
  simp only [unusedEntries, List.flatMap_singleton]
  rw [← l.outline_face, h, l'.outline_face]

end ItemAttrs
