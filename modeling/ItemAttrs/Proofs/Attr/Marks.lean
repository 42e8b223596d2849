import Mathlib.Data.List.Induction
import ItemAttrs.Proofs.Attr.Edit

/-!
# Which entries are marked

A run of steps from the empty list pushes entries, edits them and marks some of them. The list
then still has the pushed entries in push order, and the flag of an entry says whether it came
with its flag set or some step has marked it; what happens to nested attributes has no part in
this. The only step that could do anything else stores another attribute in the place of an
entry (`Step.StoresEntry`).

* `pushed` and `Marked` are read off the steps alone;
* `Tracks` is the invariant, `Tracks.step` what one step preserves, and `tracks_run` what holds
  after a run;
* `strip_run`: what the entries say after a run does not depend on its marks.
-/

namespace ItemAttrs

variable {ν : Type}

namespace Step

/-- The attribute that a step pushes. -/
def pushed? : Step ν → Option (Attr ν)
  | .push a => some a
  | .edit _ _ _ => none

/-- The step sets a usage flag, of an entry or of something nested in it. -/
def isMark : Step ν → Bool
  | .edit _ _ .markUsed => true
  | _ => false

/-- The step stores another attribute in the place of an entry. -/
def StoresEntry (step : Step ν) : Prop := ∃ entry a, step = .edit entry [] (.assign a)

end Step

/-- **The attributes that some steps push,** in order. -/
def pushed (steps : List (Step ν)) : List (Attr ν) := steps.filterMap Step.pushed?

/-- The entry at an index has its flag set. -/
def UsedAt (items : List (Attr ν)) (i : Nat) : Prop := ∃ a, items[i]? = some a ∧ a.used = true

section Marked

variable [DecidableEq ν]

/-- **A step marks the entry with index `i`,** which has been pushed before. An entry chosen by
name is the first of those pushed before that have this name. -/
def Marked (steps : List (Step ν)) (i : Nat) : Prop :=
  ∃ before entry after, steps = before ++ .edit entry [] .markUsed :: after ∧
    (AttrList.mk (pushed before)).locate? entry = some i ∧ i < (pushed before).length

/-- **What a list tells of the steps that led to it.** -/
structure Tracks (steps : List (Step ν)) (l : AttrList ν) : Prop where
  spans_eq : l.items.map Attr.span = (pushed steps).map Attr.span
  names_eq : l.items.map Attr.name = (pushed steps).map Attr.name
  used_iff : ∀ i, UsedAt l.items i ↔ UsedAt (pushed steps) i ∨ Marked steps i

end Marked

/-! ### Flags -/

theorem usedAt_of_map_eq {as bs : List (Attr ν)} (h : as.map Attr.used = bs.map Attr.used)
    (i : Nat) : UsedAt as i ↔ UsedAt bs i := by
  have hi : as[i]?.map Attr.used = bs[i]?.map Attr.used := by
    rw [← List.getElem?_map, ← List.getElem?_map, h]
  have husedAt : ∀ items : List (Attr ν), UsedAt items i ↔ items[i]?.map Attr.used = some true := by
    intro items
    rw [UsedAt, Option.map_eq_some_iff]
  rw [husedAt, husedAt, hi]

theorem usedAt_push (items : List (Attr ν)) (a : Attr ν) (i : Nat) :
    UsedAt (items ++ [a]) i ↔ UsedAt items i ∨ (i = items.length ∧ a.used = true) := by
  simp only [UsedAt, List.getElem?_append, List.getElem?_singleton]
  by_cases hi : i < items.length
  · simp [hi, Nat.ne_of_lt hi]
  · by_cases heq : i = items.length
    · simp [heq]
    · -- past the end, there is no entry before or after
      have hpast : i - items.length ≠ 0 := by omega
      simp [hi, heq, hpast]

theorem usedAt_markUsed {items : List (Attr ν)} {k : Nat} {a : Attr ν} (ha : items[k]? = some a)
    (i : Nat) : UsedAt (items.set k a.markUsed) i ↔ UsedAt items i ∨ i = k := by
  obtain ⟨hk, -⟩ := List.getElem?_eq_some_iff.mp ha
  by_cases hi : i = k
  · subst hi
    simp [UsedAt, hk, Attr.markUsed]
  · simp [UsedAt, List.getElem?_set_ne (Ne.symm hi), hi]

/-! ### What the steps say -/

section Snoc

variable (steps : List (Step ν)) (entry : Entry ν) (path : List Nat) (e : Edit ν) (a : Attr ν)

@[simp] theorem pushed_append_push : pushed (steps ++ [.push a]) = pushed steps ++ [a] := by
  simp [pushed, Step.pushed?]

@[simp] theorem pushed_append_edit : pushed (steps ++ [.edit entry path e]) = pushed steps := by
  simp [pushed, Step.pushed?]

variable [DecidableEq ν]

/-- Only the last step may mark something that the steps before have not marked. -/
theorem marked_append_iff (step : Step ν) (i : Nat) :
    Marked (steps ++ [step]) i ↔ Marked steps i ∨ ∃ entry, step = .edit entry [] .markUsed ∧
      (AttrList.mk (pushed steps)).locate? entry = some i ∧ i < (pushed steps).length := by
  constructor
  · rintro ⟨before, entry, after, hsteps, hi, hlt⟩
    -- the mark is the last step, or the last step comes after it
    rcases List.eq_nil_or_concat after with rfl | ⟨after, last, rfl⟩
    · obtain ⟨rfl, hstep⟩ := List.append_inj' hsteps rfl
      exact .inr ⟨entry, List.singleton_inj.mp hstep, hi, hlt⟩
    · rw [List.concat_eq_append, ← List.cons_append, ← List.append_assoc] at hsteps
      obtain ⟨rfl, -⟩ := List.append_inj' hsteps rfl
      exact .inl ⟨before, entry, after, rfl, hi, hlt⟩
  · rintro (⟨before, entry, after, rfl, hi, hlt⟩ | ⟨entry, rfl, hi, hlt⟩)
    · exact ⟨before, entry, after ++ [step], by simp, hi, hlt⟩
    · exact ⟨steps, entry, [], rfl, hi, hlt⟩

theorem marked_append_mark (i : Nat) :
    Marked (steps ++ [.edit entry [] .markUsed]) i ↔ Marked steps i ∨
      ((AttrList.mk (pushed steps)).locate? entry = some i ∧ i < (pushed steps).length) := by
  rw [marked_append_iff]
  refine or_congr_right ⟨?_, fun hi => ⟨entry, rfl, hi⟩⟩
  rintro ⟨entry', hstep, hi⟩
  cases hstep
  exact hi

theorem marked_append_of_ne {step : Step ν} (h : ∀ entry, step ≠ .edit entry [] .markUsed)
    (i : Nat) : Marked (steps ++ [step]) i ↔ Marked steps i := by
  rw [marked_append_iff, or_iff_left]
  rintro ⟨entry, hstep, -⟩
  exact h entry hstep

end Snoc

/-! ### One step -/

section Steps

variable [DecidableEq ν] {steps : List (Step ν)} {l : AttrList ν} {entry : Entry ν}
  {path : List Nat} {e : Edit ν}

/-- **A mark on an entry** sets its flag, if there is such an entry. -/
theorem after_mark_entry (l : AttrList ν) (entry : Entry ν) :
    (∃ k a, l.locate? entry = some k ∧ l.items[k]? = some a ∧
      l.after entry [] .markUsed = ⟨l.items.set k a.markUsed⟩) ∨
    ((∀ k, l.locate? entry = some k → l.items.length ≤ k) ∧ l.after entry [] .markUsed = l) := by
  rw [AttrList.after_eq]
  cases hk : l.locate? entry with
  | none => exact .inr ⟨fun _ h => (nomatch h), rfl⟩
  | some k =>
    rw [Option.bind_some]
    cases ha : l.items[k]? with
    | none =>
      refine .inr ⟨fun k' hk' => ?_, rfl⟩
      cases hk'
      exact List.getElem?_eq_none_iff.mp ha
    | some a => exact .inl ⟨k, a, rfl, ha, rfl⟩

theorem usedAt_after_mark (l : AttrList ν) (entry : Entry ν) (i : Nat) :
    UsedAt (l.after entry [] .markUsed).items i ↔
      UsedAt l.items i ∨ (l.locate? entry = some i ∧ i < l.items.length) := by
  rcases after_mark_entry l entry with ⟨k, a, hk, ha, hafter⟩ | ⟨hnone, hafter⟩
  · obtain ⟨hlt, -⟩ := List.getElem?_eq_some_iff.mp ha
    have hi : (l.locate? entry = some i ∧ i < l.items.length) ↔ i = k := by
      rw [hk]
      constructor
      · rintro ⟨hik, -⟩
        exact (Option.some.inj hik).symm
      · rintro rfl
        exact ⟨rfl, hlt⟩
    rw [hafter, usedAt_markUsed ha, hi]
  · have hi : ¬(l.locate? entry = some i ∧ i < l.items.length) :=
      fun ⟨hi, hlt⟩ => absurd (hnone i hi) (Nat.not_le_of_lt hlt)
    rw [hafter, or_iff_left hi]

/-- **No edit changes where entries stand or what they are called,** unless it stores another
attribute in the place of one. -/
theorem after_keeps (hentry : ¬(Step.edit entry path e).StoresEntry) :
    (l.after entry path e).items.map Attr.span = l.items.map Attr.span ∧
    (l.after entry path e).items.map Attr.name = l.items.map Attr.name := by
  rcases l.after_cases entry path e with h | ⟨k, a, b, -, ha, hb, h⟩
  · rw [h]
    exact ⟨rfl, rfl⟩
  · rw [h]
    rcases Attr.edited?_eq hb with ⟨-, -, rfl⟩ | ⟨rfl, rfl⟩ | ⟨-, p, rfl⟩
    · exact ⟨map_set_of_eq ha rfl, map_set_of_eq ha rfl⟩
    · exact absurd ⟨entry, b, rfl⟩ hentry
    · exact ⟨map_set_of_eq ha rfl, map_set_of_eq ha rfl⟩

/-- **Nor does it set or reset a flag,** unless it marks an entry. -/
theorem usedAt_after (hentry : ¬(Step.edit entry path e).StoresEntry)
    (hmark : ¬(path = [] ∧ e = .markUsed)) (i : Nat) :
    UsedAt (l.after entry path e).items i ↔ UsedAt l.items i := by
  rcases l.after_cases entry path e with h | ⟨k, a, b, -, ha, hb, h⟩
  · rw [h]
  · rw [h]
    -- of the three things that an edit can do, only a new payload is left
    rcases Attr.edited?_eq hb with ⟨hpath, he, -⟩ | ⟨rfl, rfl⟩ | ⟨-, p, rfl⟩
    · exact absurd ⟨hpath, he⟩ hmark
    · exact absurd ⟨entry, b, rfl⟩ hentry
    · have hused : (a.withPayload p).used = a.used := rfl
      exact usedAt_of_map_eq (map_set_of_eq ha hused) i

namespace Tracks

theorem length_eq (h : Tracks steps l) : l.items.length = (pushed steps).length := by
  simpa using congrArg List.length h.spans_eq

/-- A choice is the same in the list and among the attributes that have been pushed. -/
theorem locate?_eq (h : Tracks steps l) (entry : Entry ν) :
    (AttrList.mk (pushed steps)).locate? entry = l.locate? entry :=
  AttrList.locate?_congr h.names_eq.symm entry

theorem push (h : Tracks steps l) (a : Attr ν) : Tracks (steps ++ [.push a]) (l.push a) where
  spans_eq := by simp [h.spans_eq]
  names_eq := by simp [h.names_eq]
  used_iff i := by
    -- the new entry is the last one on both sides, and no step can have marked it yet
    have hpush : ∀ entry, Step.push a ≠ .edit entry [] .markUsed := by
      rintro entry ⟨⟩
    rw [AttrList.items_push, pushed_append_push, usedAt_push, usedAt_push, h.used_iff, h.length_eq,
      marked_append_of_ne steps hpush]
    exact or_right_comm

theorem edit (h : Tracks steps l) (hentry : ¬(Step.edit entry path e).StoresEntry) :
    Tracks (steps ++ [.edit entry path e]) (l.after entry path e) where
  spans_eq := by rw [pushed_append_edit, (after_keeps hentry).1, h.spans_eq]
  names_eq := by rw [pushed_append_edit, (after_keeps hentry).2, h.names_eq]
  used_iff i := by
    rw [pushed_append_edit]
    by_cases hmark : path = [] ∧ e = .markUsed
    · -- the entry marked is the one that the step chooses among the pushed attributes
      obtain ⟨rfl, rfl⟩ := hmark
      rw [usedAt_after_mark, h.used_iff, marked_append_mark, h.locate?_eq, h.length_eq, or_assoc]
    · rw [usedAt_after hentry hmark, h.used_iff, marked_append_of_ne]
      intro entry' hstep
      cases hstep
      exact hmark ⟨rfl, rfl⟩

/-- **What one step preserves.** -/
theorem step (h : Tracks steps l) {step : Step ν} (hentry : ¬step.StoresEntry) :
    Tracks (steps ++ [step]) (l.step step) := by
  cases step with
  | push a => exact h.push a
  | edit entry path e => exact h.edit hentry

end Tracks

/-- **What a whole run preserves.** -/
theorem tracks_run (steps : List (Step ν)) (h : ∀ step ∈ steps, ¬step.StoresEntry) :
    Tracks steps (AttrList.empty.run steps) := by
  -- from the end, since what a step does depends on the attributes pushed before it
  induction steps using List.reverseRecOn with
  | nil =>
    refine ⟨rfl, rfl, fun i => ⟨Or.inl, ?_⟩⟩
    rintro (hused | ⟨before, entry, after, hsteps, -⟩)
    · exact hused
    · exact absurd hsteps.symm (List.append_ne_nil_of_right_ne_nil before (List.cons_ne_nil _ _))
  | append_singleton steps step ih =>
    have hsteps := ih fun step hstep => h step (List.mem_append_left _ hstep)
    rw [AttrList.run, List.foldl_append]
    exact hsteps.step (h step (List.mem_append_right _ List.mem_cons_self))

/-! ### Marks and what the entries say -/

/-- What entries say after a run depends on what they said before, and the marks of the run have
no part in it. -/
theorem strip_run {l l' : AttrList ν} (h : l.strip = l'.strip) (steps : List (Step ν)) :
    (l.run steps).strip = (l'.run (steps.filter fun step => !step.isMark)).strip := by
  -- the two lists are different as soon as a mark is left out, but what they say stays the same
  induction steps generalizing l l' with
  | nil => exact h
  | cons step steps ih =>
    cases step with
    | push a =>
      have hpush : (l.push a).strip = (l'.push a).strip := by
        have hitems := congrArg AttrList.items h
        simp only [AttrList.strip, AttrList.items_push, List.map_append] at hitems ⊢
        rw [hitems]
      exact ih hpush
    | edit entry path e =>
      by_cases he : e = .markUsed
      · -- the mark is left out on the right, and changes nothing on the left
        subst he
        exact ih ((l.strip_after_mark entry path).trans h)
      · have hkept : (Step.edit entry path e).isMark = false := by
          cases e with
          | markUsed => exact absurd rfl he
          | _ => rfl
        have hafter : (l.after entry path e).strip = (l'.after entry path e).strip := by
          rw [← l.strip_after, h, l'.strip_after]
        rw [List.filter_cons_of_pos (by rw [hkept]; rfl)]
        exact ih hafter

end Steps

end ItemAttrs
