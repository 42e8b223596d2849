import Mathlib.Data.List.Nodup
import ItemAttrs.Lint.Unused

/-!
# What the check for unused attributes reports

The check walks through the lists in order and through the entries of each list in order.
Its result and its log are therefore two readings of one list of **findings**, which is
fixed by the lists alone: one finding for each entry whose flag is not set, sorted by place.

* `Findings` says which findings there are, and `findings_spec` lists them;
* `run_foldlM_checkList` is the loop over the lists, on any log and any earlier reports;
* `checkUnused_findings`: both forms of the check report and log exactly the findings.
-/

namespace ItemAttrs

/-! ### Places and findings -/

/-- **A place:** the index of a list, and of one of its entries. -/
structure Place where
  list : Nat
  entry : Nat
  deriving DecidableEq, Repr

namespace Place

/-- A place comes before another one: its list comes first, or its entry in the same list. -/
def Before (p q : Place) : Prop := p.list < q.list ∨ p.list = q.list ∧ p.entry < q.entry

/-- The entry at a place. What is nested in an entry has no place of its own. -/
def entry? (p : Place) (lists : List (AttrList Name)) : Option (Attr Name) :=
  lists[p.list]?.bind fun l => l.items[p.entry]?

end Place

/-- **One unused entry,** together with its written form. -/
structure Finding where
  place : Place
  attr : Attr Name
  shown : String

namespace Finding

def report (f : Finding) : Diagnostic := unusedReport f.attr f.shown

def event (f : Finding) : Event := .unused f.attr.span f.shown

end Finding

/-- **The findings in some lists.** There is one for each unused entry and none for anything
else, and they are sorted by place, so that no two are about one entry. -/
structure Findings (t : Interner) (lists : List (AttrList Name)) (fs : List Finding) : Prop where
  sorted : fs.Pairwise fun f g => f.place.Before g.place
  mem_iff : ∀ p a, (∃ f ∈ fs, f.place = p ∧ f.attr = a) ↔ p.entry? lists = some a ∧ a.used = false
  rendered : ∀ f ∈ fs, f.attr.render t = .ok f.shown

/-- **A report that offers to delete an unused attribute** at `span`, written as `shown`. -/
structure Diagnostic.OffersRemoval (d : Diagnostic) (span : Span) (shown : String) : Prop where
  code : d.code.text = "W1001"
  severity : d.severity = .warning
  message : d.message = "unused attribute `" ++ shown ++ "`"
  labels : d.labels = [⟨span, "no pass consumed this attribute", true⟩]
  notes : d.notes = []
  suggestions :
    d.suggestions = [⟨"remove the unused attribute", [⟨span, ""⟩], .machineApplicable⟩]
  primarySpan : d.primarySpan = some span
  fixes : d.machineApplicable = d.suggestions

theorem Finding.offersRemoval_report (f : Finding) :
    f.report.OffersRemoval f.attr.span f.shown where
  code := rfl
  severity := rfl
  message := rfl
  labels := rfl
  notes := rfl
  suggestions := rfl
  primarySpan := rfl
  fixes := rfl

/-! ### Listing the findings

`shown` stands for the written forms. It is a plain function here, so that the list can be
built before it is known which attributes have a written form. -/

section Listing

variable (shown : Attr Name → String)

/-- The findings in one list, which is the list with index `i`. -/
def findingsIn (l : AttrList Name) (i : Nat) : List Finding :=
  (l.items.zipIdx.filter fun e => !e.1.used).map fun e => ⟨⟨i, e.2⟩, e.1, shown e.1⟩

def findings (lists : List (AttrList Name)) : List Finding :=
  lists.zipIdx.flatMap fun e => findingsIn shown e.1 e.2

theorem pairwise_lt_zipIdx {α : Type} (l : List α) :
    l.zipIdx.Pairwise fun e e' => e.2 < e'.2 := by
  have h : (l.zipIdx.map Prod.snd).Pairwise (· < ·) := by
    rw [List.zipIdx_map_snd]
    exact List.pairwise_lt_range'
  exact List.pairwise_map.mp h

variable {shown}

theorem mem_findingsIn {l : AttrList Name} {i : Nat} {f : Finding} :
    f ∈ findingsIn shown l i ↔ f.place.list = i ∧ l.items[f.place.entry]? = some f.attr ∧
      f.attr.used = false ∧ f.shown = shown f.attr := by
  simp only [findingsIn, List.mem_map, List.mem_filter, List.mem_zipIdx_iff_getElem?]
  constructor
  · rintro ⟨e, ⟨he, hu⟩, rfl⟩
    exact ⟨rfl, he, by simpa using hu, rfl⟩
  · rintro ⟨rfl, he, hu, hs⟩
    refine ⟨(f.attr, f.place.entry), ⟨he, by simpa using hu⟩, ?_⟩
    rw [← hs]

theorem mem_findings {lists : List (AttrList Name)} {f : Finding} :
    f ∈ findings shown lists ↔ f.place.entry? lists = some f.attr ∧
      f.attr.used = false ∧ f.shown = shown f.attr := by
  simp only [findings, List.mem_flatMap, List.mem_zipIdx_iff_getElem?, mem_findingsIn,
    Place.entry?, Option.bind_eq_some_iff]
  constructor
  · rintro ⟨⟨l, i⟩, hl, rfl, he, hu, hs⟩
    exact ⟨⟨l, hl, he⟩, hu, hs⟩
  · rintro ⟨⟨l, hl, he⟩, hu, hs⟩
    exact ⟨(l, f.place.list), hl, rfl, he, hu, hs⟩

variable (shown)

theorem pairwise_findings (lists : List (AttrList Name)) :
    (findings shown lists).Pairwise fun f g => f.place.Before g.place := by
  refine List.pairwise_flatMap.mpr ⟨?_, ?_⟩
  · -- within one list, the entries are numbered upwards
    rintro ⟨l, i⟩ -
    refine List.pairwise_map.mpr (((pairwise_lt_zipIdx l.items).filter _).imp ?_)
    exact fun h => Or.inr ⟨rfl, h⟩
  · -- all findings in one list carry its index
    refine (pairwise_lt_zipIdx lists).imp fun {e e'} h f hf g hg => Or.inl ?_
    rwa [(mem_findingsIn.mp hf).1, (mem_findingsIn.mp hg).1]

theorem map_findings {β : Type} (g : Attr Name → String → β) (lists : List (AttrList Name)) :
    (findings shown lists).map (fun f => g f.attr f.shown) =
      lists.flatMap fun l => l.unused.map fun a => g a (shown a) := by
  -- within one list, the numbers may be left out
  have hin : ∀ e : AttrList Name × Nat,
      (findingsIn shown e.1 e.2).map (fun f => g f.attr f.shown) =
        e.1.unused.map fun a => g a (shown a) := by
    rintro ⟨l, i⟩
    have hunused : l.unused = (l.items.zipIdx.filter fun e => !e.1.used).map Prod.fst := by
      conv => lhs; rw [AttrList.unused, ← List.zipIdx_map_fst 0 l.items, List.filter_map]
      rfl
    simp only [findingsIn, hunused, List.map_map, Function.comp_def]
  rw [findings, List.map_flatMap]
  simp only [hin]
  conv => rhs; rw [← List.zipIdx_map_fst 0 lists, List.flatMap_map]

/-- If every unused entry has the written form that `shown` says, the list is right. -/
theorem findings_spec {t : Interner} {lists : List (AttrList Name)}
    (h : ∀ l ∈ lists, ∀ a ∈ l.unused, a.render t = .ok (shown a)) :
    Findings t lists (findings shown lists) where
  sorted := pairwise_findings shown lists
  mem_iff p a := by
    constructor
    · rintro ⟨f, hf, rfl, rfl⟩
      obtain ⟨he, hu, -⟩ := mem_findings.mp hf
      exact ⟨he, hu⟩
    · rintro ⟨he, hu⟩
      exact ⟨⟨p, a, shown a⟩, mem_findings.mpr ⟨he, hu, rfl⟩, rfl, rfl⟩
  rendered f hf := by
    obtain ⟨he, hu, hs⟩ := mem_findings.mp hf
    obtain ⟨l, hl, ha⟩ := Option.bind_eq_some_iff.mp he
    rw [hs]
    exact h l (List.mem_of_getElem? hl) f.attr
      (AttrList.mem_unused.mpr ⟨List.mem_of_getElem? ha, hu⟩)

end Listing

/-! ### Running the check -/

theorem LogM.run_bind_of_ok {α β : Type} {x : LogM α} {a : α} {log log' : List Event}
    (f : α → LogM β) (h : x.run.run log = (.ok a, log')) :
    (x >>= f).run.run log = (f a).run.run log' := by
  change (ExceptT.bindCont f ((x.run.run log).1)).run (x.run.run log).2 = _
  rw [h]
  rfl

namespace UnusedCheck

variable {t : Interner} {shown : Attr Name → String}

/-- **Reporting one attribute** adds its event to the log and its report to the reports. -/
theorem run_report {a : Attr Name} (h : a.render t = .ok (shown a)) (c : UnusedCheck)
    (log : List Event) :
    (report t c a).run.run log =
      (.ok ⟨c.reports ++ [unusedReport a (shown a)]⟩, log ++ [.unused a.span (shown a)]) := by
  rw [report, h]
  rfl

theorem run_foldlM_report (as : List (Attr Name)) (h : ∀ a ∈ as, a.render t = .ok (shown a))
    (c : UnusedCheck) (log : List Event) :
    (as.foldlM (report t) c).run.run log =
      (.ok ⟨c.reports ++ as.map fun a => unusedReport a (shown a)⟩,
        log ++ as.map fun a => .unused a.span (shown a)) := by
  induction as generalizing c log with
  | nil =>
    simp only [List.foldlM_nil, List.map_nil, List.append_nil]
    rfl
  | cons a as ih =>
    have ha := run_report (h a List.mem_cons_self) c log
    have has := fun b hb => h b (List.mem_cons_of_mem a hb)
    rw [List.foldlM_cons, LogM.run_bind_of_ok _ ha, ih has]
    simp only [List.map_cons, List.append_assoc, List.singleton_append]

/-- **Checking some lists in turn:** the reports and the events come list by list. -/
theorem run_foldlM_checkList (lists : List (AttrList Name))
    (h : ∀ l ∈ lists, ∀ a ∈ l.unused, a.render t = .ok (shown a))
    (c : UnusedCheck) (log : List Event) :
    (lists.foldlM (checkList t) c).run.run log =
      (.ok ⟨c.reports ++ lists.flatMap fun l => l.unused.map fun a => unusedReport a (shown a)⟩,
        log ++ lists.flatMap fun l => l.unused.map fun a => .unused a.span (shown a)) := by
  induction lists generalizing c log with
  | nil =>
    simp only [List.foldlM_nil, List.flatMap_nil, List.append_nil]
    rfl
  | cons l lists ih =>
    have hl := run_foldlM_report l.unused (h l List.mem_cons_self) c log
    have hls := fun l' hl' => h l' (List.mem_cons_of_mem l hl')
    rw [List.foldlM_cons, checkList, LogM.run_bind_of_ok _ hl, ih hls]
    simp only [List.flatMap_cons, List.append_assoc]

end UnusedCheck

theorem start_checkUnused {t : Interner} {lists : List (AttrList Name)} {c : UnusedCheck}
    {events : List Event}
    (h : ∀ log, (lists.foldlM (UnusedCheck.checkList t) .new).run.run log =
      (.ok c, log ++ events)) :
    (checkUnused t lists).start =
      (.ok c.reports, .began :: events ++ [.finished lists.length c.reports.length]) := by
  have hbegan : (emit .began).run.run [] = (.ok (), [.began]) := rfl
  rw [LogM.start, checkUnused, LogM.run_bind_of_ok _ hbegan, LogM.run_bind_of_ok _ (h _)]
  rfl

/-- **The check reports exactly the unused entries.** If each of them has a written form, there
is one finding for each, and none for a used entry or a nested attribute; each is reported as a
warning that offers to delete it, and announced by an event with the same span and text. The
function says besides when it begins and ends, and counts all lists, empty ones included. -/
theorem checkUnused_findings (t : Interner) (lists : List (AttrList Name))
    (h : ∀ l ∈ lists, ∀ a ∈ l.items, a.used = false → ∃ shown, a.render t = .ok shown) :
    ∃ fs, Findings t lists fs ∧
      (∀ f ∈ fs, f.report.OffersRemoval f.attr.span f.shown) ∧
      (checkUnused t lists).start =
        (.ok (fs.map Finding.report),
          .began :: fs.map Finding.event ++ [.finished lists.length fs.length]) ∧
      LogM.start (do return (← lists.foldlM (UnusedCheck.checkList t) .new).finish) =
        (.ok (fs.map Finding.report), fs.map Finding.event) := by
  classical
  -- the written forms, as a function on all attributes
  let shown : Attr Name → String := fun a => if ha : ∃ s, a.render t = .ok s then ha.choose else ""
  have hshown : ∀ l ∈ lists, ∀ a ∈ l.unused, a.render t = .ok (shown a) := by
    intro l hl a ha
    obtain ⟨hmem, hu⟩ := AttrList.mem_unused.mp ha
    have hex := h l hl a hmem hu
    simp only [shown, dif_pos hex]
    exact hex.choose_spec
  have hreports := map_findings shown unusedReport lists
  have hevents := map_findings shown (fun a s => Event.unused a.span s) lists
  have hrun := UnusedCheck.run_foldlM_checkList lists hshown .new
  rw [← hreports, ← hevents] at hrun
  refine ⟨findings shown lists, findings_spec shown hshown,
    fun f _ => f.offersRemoval_report, ?_, ?_⟩
  · rw [start_checkUnused hrun]
    simp only [UnusedCheck.new, List.nil_append, List.length_map]
    rfl
  · rw [LogM.start, LogM.run_bind_of_ok _ (hrun [])]
    rfl

/-- A used entry with an unused attribute nested in it, an unused entry, a list without
entries, and one unused entry twice. -/
theorem checkUnused_findings_nested :
    let inline : Attr Name := .new ⟨3, 9⟩ (.trivial ⟨2415919105⟩) .bare
    let cfg : Attr Name := .new ⟨0, 12⟩ (.trivial ⟨1073741824⟩) (.nested [inline])
    let lists : List (AttrList Name) := [⟨[cfg.markUsed, inline]⟩, ⟨[]⟩, ⟨[cfg, cfg]⟩]
    (∀ l ∈ lists, ∀ a ∈ l.items, a.used = false → ∃ shown, a.render .initial = .ok shown) ∧
      ∃ fs, Findings .initial lists fs ∧
        (∀ f ∈ fs, f.report.OffersRemoval f.attr.span f.shown) ∧
        (checkUnused .initial lists).start =
          (.ok (fs.map Finding.report),
            .began :: fs.map Finding.event ++ [.finished 3 fs.length]) ∧
        LogM.start (do return (← lists.foldlM (UnusedCheck.checkList .initial) .new).finish) =
          (.ok (fs.map Finding.report), fs.map Finding.event) := by
  have hinline : (Attr.new ⟨3, 9⟩ (.trivial ⟨2415919105⟩) .bare : Attr Name).render .initial =
      .ok "#[inline]" := by decide +kernel
  have hcfg : (Attr.new ⟨0, 12⟩ (.trivial ⟨1073741824⟩)
      (.nested [.new ⟨3, 9⟩ (.trivial ⟨2415919105⟩) .bare]) : Attr Name).render .initial =
      .ok "#[cfg(inline)]" := by decide +kernel
  intro inline cfg lists
  have h : ∀ l ∈ lists, ∀ a ∈ l.items, a.used = false →
      ∃ shown, a.render .initial = .ok shown := by
    simp only [lists, List.forall_mem_cons, List.not_mem_nil, false_implies, implies_true,
      and_true, true_and]
    refine ⟨⟨?marked, ?single⟩, ?first, ?second⟩
    case marked =>
      intro hused
      cases hused
    case single =>
      intro _
      exact ⟨_, hinline⟩
    case first =>
      intro _
      exact ⟨_, hcfg⟩
    case second =>
      intro _
      exact ⟨_, hcfg⟩
  exact ⟨h, checkUnused_findings .initial lists h⟩

end ItemAttrs
