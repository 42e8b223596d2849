import ItemAttrs.Proofs.Attr.Marks
import ItemAttrs.Proofs.Attr.Naming
import ItemAttrs.Proofs.Lint.Run

/-!
# Reports and marks

A list that was built by pushes, edits and marks has a report for each entry that was pushed
unused and that no step has marked. This is the invariant of `ItemAttrs.Proofs.Attr.Marks`, read
by the check: `ReportsUnmarked` says it in terms of the steps, and `reports_unmarked` adds that
two runs which differ in their marks are told apart only if they mark different entries.
-/

namespace ItemAttrs

/-- **The reports are about the unmarked entries,** those with the indices `is`: they were pushed
unused and never marked. There is one report for each of them, in push order, on the list as it
is now. -/
structure ReportsUnmarked (steps : List (Step Name)) (l : AttrList Name) (is : List Nat) :
    Prop where
  ascending : is.Pairwise (· < ·)
  mem_iff : ∀ i, i ∈ is ↔
    i < (pushed steps).length ∧ ¬UsedAt (pushed steps) i ∧ ¬Marked steps i
  reports : ∀ t, ∃ entries : List (Attr Name), is.map (l.items[·]?) = entries.map some ∧
    (checkUnused t [l]).start.1 = entries.mapM (reportOf t)
  places : ∀ t ds, (checkUnused t [l]).start.1 = .ok ds →
    ds.map Diagnostic.primarySpan = is.map fun i => (pushed steps)[i]?.map Attr.span

/-! ### Indices of unused entries -/

/-- The indices of the unused entries. -/
def unusedIndices (l : AttrList Name) : List Nat :=
  (List.range l.items.length).filter fun i => (l.items[i]?.map Attr.used) == some false

theorem pairwise_unusedIndices (l : AttrList Name) : (unusedIndices l).Pairwise (· < ·) :=
  List.pairwise_lt_range.filter _

theorem mem_unusedIndices {l : AttrList Name} {i : Nat} :
    i ∈ unusedIndices l ↔ i < l.items.length ∧ ¬UsedAt l.items i := by
  simp only [unusedIndices, List.mem_filter, List.mem_range, UsedAt, beq_iff_eq]
  refine and_congr_right fun hi => ?_
  rw [List.getElem?_eq_getElem hi]
  simp

theorem map_unusedIndices (l : AttrList Name) :
    (unusedIndices l).map (l.items[·]?) = l.unused.map some := by
  have hitems : (List.range l.items.length).map (l.items[·]?) = l.items.map some := by
    refine List.ext_getElem? fun i => ?_
    by_cases hi : i < l.items.length <;> simp [hi]
  -- filtering by index is filtering the entries at these indices
  calc (unusedIndices l).map (l.items[·]?)
      = ((List.range l.items.length).map (l.items[·]?)).filter
          fun a => a.map Attr.used == some false := by
        rw [List.filter_map]
        rfl
    _ = (l.items.map some).filter fun a => a.map Attr.used == some false := by rw [hitems]
    _ = (l.items.filter fun a => some a.used == some false).map some := List.filter_map
    _ = l.unused.map some := by
      rw [AttrList.unused]
      congr 2
      funext a
      cases a.used <;> rfl

/-! ### What the reports say -/

theorem places_of_reports {t : Interner} {as : List (Attr Name)} {ds : List Diagnostic}
    (h : as.mapM (reportOf t) = .ok ds) :
    ds.map Diagnostic.primarySpan = as.map fun a => some a.span := by
  have hall := forall₂_of_mapM h
  clear h
  induction hall with
  | nil => rfl
  | cons hd _ ih =>
    obtain ⟨shown, -, hd⟩ := exists_of_bind_eq_ok hd
    cases hd
    rw [List.map_cons, List.map_cons, ih]
    rfl

theorem answer_checkUnused (t : Interner) (l : AttrList Name) :
    (checkUnused t [l]).start.1 = l.unused.mapM (reportOf t) := by
  rw [start_checkUnused_eq, unusedEntries, List.flatMap_singleton]

theorem Tracks.reportsUnmarked {steps : List (Step Name)} {l : AttrList Name}
    (h : Tracks steps l) : ReportsUnmarked steps l (unusedIndices l) where
  ascending := pairwise_unusedIndices l
  mem_iff i := by rw [mem_unusedIndices, h.length_eq, h.used_iff, not_or]
  reports t := ⟨l.unused, map_unusedIndices l, answer_checkUnused t l⟩
  places t ds hds := by
    rw [answer_checkUnused] at hds
    -- a report is placed where its entry stands now, which is where it was pushed
    have hspans : ∀ i : Nat, (pushed steps)[i]?.map Attr.span = l.items[i]?.map Attr.span := by
      intro i
      rw [← List.getElem?_map, ← List.getElem?_map, h.spans_eq]
    calc ds.map Diagnostic.primarySpan
        = l.unused.map fun a => some a.span := places_of_reports hds
      _ = (l.unused.map some).map (Option.map Attr.span) := by
        rw [List.map_map]
        rfl
      _ = ((unusedIndices l).map (l.items[·]?)).map (Option.map Attr.span) := by
        rw [map_unusedIndices]
      _ = (unusedIndices l).map fun i => (pushed steps)[i]?.map Attr.span := by
        simp only [List.map_map, Function.comp_def, hspans]

/-! ### Two runs that mark the same entries -/

theorem map_used_eq {as bs : List (Attr Name)} (hlength : as.length = bs.length)
    (h : ∀ i, UsedAt as i ↔ UsedAt bs i) : as.map Attr.used = bs.map Attr.used := by
  apply List.ext_getElem (by simpa using hlength)
  intro i hi hi'
  rw [List.length_map] at hi hi'
  have hused := h i
  simp only [UsedAt, List.getElem?_eq_getElem hi, List.getElem?_eq_getElem hi', Option.some.injEq,
    exists_eq_left'] at hused
  rw [List.getElem_map, List.getElem_map, Bool.eq_iff_iff, hused]

theorem map_face_eq {as bs : List (Attr Name)} (hspans : as.map Attr.span = bs.map Attr.span)
    (hused : as.map Attr.used = bs.map Attr.used) (hstrip : as.map Attr.strip = bs.map Attr.strip) :
    as.map Attr.face = bs.map Attr.face := by
  induction as generalizing bs with
  | nil =>
    rw [List.map_eq_nil_iff.mp hspans.symm]
  | cons a as ih =>
    cases bs with
    | nil => exact nomatch hspans
    | cons b bs =>
      simp only [List.map_cons, List.cons.injEq] at hspans hused hstrip ⊢
      exact ⟨Attr.face_eq_iff.mpr ⟨hspans.1, hused.1, hstrip.1⟩, ih hspans.2 hused.2 hstrip.2⟩

theorem pushed_filter {ν : Type} (steps : List (Step ν)) :
    pushed (steps.filter fun step => !step.isMark) = pushed steps := by
  rw [pushed, List.filterMap_filter, pushed]
  congr 1
  funext step
  cases step with
  | push a => rfl
  | edit entry path e => cases e <;> rfl

/-- The steps differ in their marks only, and these mark the same entries. -/
structure SameMarks (steps steps' : List (Step Name)) : Prop where
  others_eq : (steps.filter fun step => !step.isMark) = steps'.filter fun step => !step.isMark
  marked_iff : ∀ i, Marked steps i ↔ Marked steps' i

theorem SameMarks.face_eq {steps steps' : List (Step Name)} {l l' : AttrList Name}
    (h : SameMarks steps steps') (hl : Tracks steps l) (hl' : Tracks steps' l')
    (hstrip : l.strip = l'.strip) : l.face = l'.face := by
  have hpushed : pushed steps = pushed steps' := by
    rw [← pushed_filter, h.others_eq, pushed_filter]
  have hspans : l.items.map Attr.span = l'.items.map Attr.span := by
    rw [hl.spans_eq, hl'.spans_eq, hpushed]
  have hlength : l.items.length = l'.items.length := by rw [hl.length_eq, hl'.length_eq, hpushed]
  have hused : ∀ i, UsedAt l.items i ↔ UsedAt l'.items i := by
    intro i
    rw [hl.used_iff, hl'.used_iff, hpushed, h.marked_iff]
  have hitems := map_face_eq hspans (map_used_eq hlength hused) (congrArg AttrList.items hstrip)
  rw [AttrList.face, AttrList.face, hitems]

/-- **A check of a list that was built step by step** reports the entries pushed unused and never
marked, whatever else was done to entries and to what is nested in them. Which marks were set,
in which order and how often, matters only in so far as it matters which entries they mark. -/
theorem reports_unmarked (steps : List (Step Name)) (h : ∀ step ∈ steps, ¬step.StoresEntry) :
    Tracks steps (AttrList.empty.run steps) ∧
    (∃ is, ReportsUnmarked steps (AttrList.empty.run steps) is) ∧
    (∀ (l : AttrList Name) entry,
      (l.after entry [] .markUsed).items.map Attr.payload = l.items.map Attr.payload) ∧
    ∀ steps', (∀ step ∈ steps', ¬step.StoresEntry) → SameMarks steps steps' → ∀ t,
      (checkUnused t [AttrList.empty.run steps]).start =
        (checkUnused t [AttrList.empty.run steps']).start := by
  have htracks := tracks_run steps h
  refine ⟨htracks, ⟨_, htracks.reportsUnmarked⟩, fun l entry => ?_, fun steps' h' hsame t => ?_⟩
  · rcases after_mark_entry l entry with ⟨k, a, -, ha, hafter⟩ | ⟨-, hafter⟩
    · rw [hafter]
      exact map_set_of_eq ha rfl
    · rw [hafter]
  · -- without their marks the two runs are the same
    have hstrip : (AttrList.empty.run steps).strip = (AttrList.empty.run steps').strip := by
      rw [strip_run rfl, hsame.others_eq, ← strip_run rfl]
    exact start_checkUnused_of_face t (hsame.face_eq htracks (tracks_run steps' h') hstrip)

/-- `#[inline]` and `#[cfg(inline)]`, of which the first is marked; the second run marks it twice
and later, also marks what is nested, and tries to empty an entry that has nothing nested. -/
theorem reports_unmarked_twice :
    let inline : Attr Name := .new ⟨0, 9⟩ (.trivial ⟨2415919105⟩) .bare
    let cfg : Attr Name := .new ⟨10, 24⟩ (.trivial ⟨1073741824⟩) (.nested [inline])
    let mark : Step Name := .edit (.named ⟨2415919105⟩) [] .markUsed
    let steps : List (Step Name) := [.push inline, mark, .push cfg, .edit (.index 0) [] .clearItems]
    let steps' : List (Step Name) := [.push inline, .push cfg, .edit (.index 1) [0] .markUsed, mark,
      .edit (.index 0) [] .clearItems, .edit (.index 0) [] .markUsed]
    (∀ step ∈ steps, ¬step.StoresEntry) ∧ (∀ step ∈ steps', ¬step.StoresEntry) ∧
      SameMarks steps steps' ∧
      (checkUnused .initial [AttrList.empty.run steps]).start =
        (checkUnused .initial [AttrList.empty.run steps']).start ∧
      (checkUnused .initial [AttrList.empty.run steps]).start.2 =
        [.began, .unused ⟨10, 24⟩ "#[cfg(inline)]", .finished 1 1] := by
  intro inline cfg mark steps steps'
  have h : ∀ step ∈ steps, ¬step.StoresEntry := by simp [steps, mark, Step.StoresEntry]
  have h' : ∀ step ∈ steps', ¬step.StoresEntry := by simp [steps', mark, Step.StoresEntry]
  obtain ⟨htracks, -, -, hsame⟩ := reports_unmarked steps h
  obtain ⟨htracks', -, -, -⟩ := reports_unmarked steps' h'
  have hpushed : ∀ i, ¬UsedAt [inline, cfg] i := by
    rintro i ⟨a, ha, hused⟩
    have hunused : ∀ a ∈ [inline, cfg], a.used = false := by decide +kernel
    exact nomatch (hunused a (List.mem_of_getElem? ha)).symm.trans hused
  have hused : ∀ i, UsedAt (AttrList.empty.run steps).items i ↔
      UsedAt (AttrList.empty.run steps').items i := by
    refine usedAt_of_map_eq ?_
    decide +kernel
  have hmarks : SameMarks steps steps' := by
    refine ⟨by decide +kernel, fun i => ?_⟩
    -- nothing is pushed with its flag set, so the marked entries are the used ones
    have hi := (htracks.used_iff i).trans (or_iff_right (hpushed i))
    have hi' := (htracks'.used_iff i).trans (or_iff_right (hpushed i))
    rw [← hi, ← hi', hused]
  exact ⟨h, h', hmarks, hsame steps' h' hmarks .initial, by decide +kernel⟩

end ItemAttrs
