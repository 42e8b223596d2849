import ItemAttrs.Proofs.Attr.Faults
import ItemAttrs.Proofs.Lint.Run

/-!
# Where the check stops

The check writes out the unused entries one after the other, so it shows their names from left
to right (`showing_reports`). It stops at the first dangling one of them, and the log ends with
the entry before (`exists_stop`); names in used entries are never looked at.

* `StopsAtDangling` and `CheckStops` are what this means for a caller;
* `dangling_faults` says it of attributes, lists and checks.
-/

namespace ItemAttrs

/-- **What is shown from left to right fails at dangling names only:** it fails if there is one
among its names, and then with the index fault of the first. -/
structure StopsAtDangling {α : Type} (t : Interner) (names : List Name) (result : Except Fault α) :
    Prop where
  fails_iff : (∃ cause, result = .error cause) ↔ ∃ n ∈ names, t.Dangling n
  first : ∀ before n after, names = before ++ n :: after → (∀ m ∈ before, ¬t.Dangling m) →
    t.Dangling n → result = .error (.pastEnd (t.shard n.shard).size n.slot)

/-- **A check fails at unused entries only:** it fails if one of them contains a dangling name.
Then the log says that the check began, and tells of the unused entries before the first such
one, but neither of this one nor of an end. -/
structure CheckStops (t : Interner) (lists : List (AttrList Name)) : Prop where
  fails_iff : (∃ cause, (checkUnused t lists).start.1 = .error cause) ↔
    ∃ l ∈ lists, ∃ a ∈ l.items, a.used = false ∧ ∃ n ∈ a.names, t.Dangling n
  stops : ∀ before a after, lists.flatMap AttrList.unused = before ++ a :: after →
    (∀ b ∈ before, ∀ n ∈ b.names, ¬t.Dangling n) → (∃ n ∈ a.names, t.Dangling n) →
    ∃ shown cause, before.mapM (Attr.render t) = .ok shown ∧ a.render t = .error cause ∧
      (checkUnused t lists).start =
        (.error cause, .began :: List.zipWith (fun b s => .unused b.span s) before shown)

variable {t : Interner}

theorem Showing.stopsAtDangling {α : Type} {names : List Name} {x : Except Fault α}
    (h : Showing t names x) : StopsAtDangling t names x where
  fails_iff := h.fails_iff
  first before n after hnames hbefore hn := by
    subst hnames
    exact h.eq_error hbefore hn

theorem showing_reports (t : Interner) (as : List (Attr Name)) :
    Showing t (as.flatMap Attr.names) (as.mapM (reportOf t)) := by
  induction as with
  | nil => exact .nothing []
  | cons a as ih =>
    rw [List.flatMap_cons, List.mapM_cons]
    exact ((Attr.showing_render t a).map _).seq ih _

/-- **The log up to the entry that cannot be written.** -/
theorem exists_stop {a : Attr Name} {cause : Fault} {before : List (Attr Name)}
    (hbefore : ∀ b ∈ before, ∃ s, b.render t = .ok s) (ha : a.render t = .error cause)
    (after : List (Attr Name)) :
    ∃ shown, before.mapM (Attr.render t) = .ok shown ∧
      (before ++ a :: after).mapM (reportOf t) = .error cause ∧
      eventsOf t (before ++ a :: after) =
        List.zipWith (fun b s => .unused b.span s) before shown := by
  induction before with
  | nil =>
    refine ⟨[], rfl, ?_, ?_⟩
    · rw [List.nil_append, List.mapM_cons, reportOf, ha]
      rfl
    · rw [List.nil_append, eventsOf, ha]
      rfl
  | cons b before ih =>
    -- an entry that can be written puts its event in front, and the rest decides about the fault
    obtain ⟨s, hs⟩ := hbefore b List.mem_cons_self
    obtain ⟨shown, hshown, hreports, hevents⟩ :=
      ih fun b' hb' => hbefore b' (List.mem_cons_of_mem b hb')
    refine ⟨s :: shown, ?_, ?_, ?_⟩
    · rw [List.mapM_cons, hs, hshown]
      rfl
    · rw [List.cons_append, List.mapM_cons, hreports, reportOf, hs]
      rfl
    · rw [List.cons_append, eventsOf, hs, List.zipWith_cons_cons, ← hevents]

theorem checkStops (t : Interner) (lists : List (AttrList Name)) : CheckStops t lists where
  fails_iff := by
    rw [start_checkUnused_eq, (showing_reports t _).fails_iff]
    constructor
    · rintro ⟨n, hn, hdangling⟩
      obtain ⟨a, ha, hna⟩ := List.mem_flatMap.mp hn
      obtain ⟨l, hl, hal, hused⟩ := mem_unusedEntries.mp ha
      exact ⟨l, hl, a, hal, hused, n, hna, hdangling⟩
    · rintro ⟨l, hl, a, hal, hused, n, hna, hdangling⟩
      have ha : a ∈ unusedEntries lists := mem_unusedEntries.mpr ⟨l, hl, hal, hused⟩
      exact ⟨n, List.mem_flatMap.mpr ⟨a, ha, hna⟩, hdangling⟩
  stops before a after hentries hbefore ha := by
    obtain ⟨cause, hcause⟩ := (Attr.showing_render t a).fails_iff.mpr ha
    have hok : ∀ b ∈ before, ∃ s, b.render t = .ok s :=
      fun b hb => (Attr.showing_render t b).exists_ok (hbefore b hb)
    obtain ⟨shown, hshown, hreports, hevents⟩ := exists_stop hok hcause after
    refine ⟨shown, cause, hshown, hcause, ?_⟩
    rw [start_checkUnused_eq, unusedEntries, hentries, hreports, hevents]
    exact Prod.ext rfl (List.append_nil _)

/-- **Names without text are the only cause of a fault.** Rendering an attribute or a list stops
at the first dangling name, which further calls to the interner cannot make of a name that has
a text; a check stops at the first unused entry that contains one. -/
theorem dangling_faults (t : Interner) :
    (∀ a : Attr Name, StopsAtDangling t a.names (a.render t) ∧
      StopsAtDangling t a.names (a.renderBody t)) ∧
    (∀ l : AttrList Name, StopsAtDangling t (Attr.namesAll l.items) (l.render t)) ∧
    (∀ lists : List (AttrList Name), CheckStops t lists) ∧
    ∀ a : Attr Name, (∀ n ∈ a.names, ¬t.Dangling n) →
      ∃ s, ∀ t', t.Later t' → a.render t' = .ok s := by
  refine ⟨fun a => ⟨?_, ?_⟩, fun l => ?_, checkStops t, fun a ha => ?_⟩
  · exact (Attr.showing_render t a).stopsAtDangling
  · exact (Attr.showing_renderBody t a).stopsAtDangling
  · exact (AttrList.showing_render t l).stopsAtDangling
  · obtain ⟨s, hs⟩ := (Attr.showing_render t a).exists_ok ha
    exact ⟨s, fun t' ht' => (Attr.render_later ha ht').trans hs⟩

/-- A used entry whose name is dangling, an entry that can be written, and one with a dangling
name deep inside. -/
theorem dangling_faults_nested :
    let gone : Name := ⟨268435455⟩
    let inline : Attr Name := .new ⟨3, 9⟩ (.trivial ⟨2415919105⟩) .bare
    let call : Expr Name :=
      .call [⟨1073741824⟩] [.literal (.bool true) .dummy, .path [gone] .dummy] .dummy
    let cfg : Attr Name := .new ⟨0, 12⟩ (.trivial ⟨1073741824⟩)
      (.nested [inline, .new ⟨5, 8⟩ (.trivial ⟨2415919105⟩) (.value call)])
    let used : Attr Name := (Attr.new ⟨0, 2⟩ (.trivial gone) .bare).markUsed
    (∀ n ∈ inline.names, ¬Interner.initial.Dangling n) ∧
      (∃ n ∈ cfg.names, Interner.initial.Dangling n) ∧
      (checkUnused .initial [⟨[used, inline]⟩, ⟨[]⟩, ⟨[cfg, inline]⟩]).start =
        (.error (.pastEnd 1 268435455), [.began, .unused ⟨3, 9⟩ "#[inline]"]) := by
  intro gone inline call cfg used
  have hinline : ∀ n ∈ inline.names, ¬Interner.initial.Dangling n := by decide +kernel
  have hcfg : ∃ n ∈ cfg.names, Interner.initial.Dangling n := by decide +kernel
  have hshown : [inline].mapM (Attr.render .initial) = .ok ["#[inline]"] := by decide +kernel
  have hcause : cfg.render .initial = .error (.pastEnd 1 268435455) := by decide +kernel
  obtain ⟨-, -, hcheck, -⟩ := dangling_faults .initial
  obtain ⟨shown, cause, hs, hc, hstart⟩ :=
    (hcheck [⟨[used, inline]⟩, ⟨[]⟩, ⟨[cfg, inline]⟩]).stops [inline] cfg [inline] rfl
      (List.forall_mem_singleton.mpr hinline) hcfg
  rw [hshown] at hs
  rw [hcause] at hc
  cases hs
  cases hc
  exact ⟨hinline, hcfg, hstart⟩

end ItemAttrs
