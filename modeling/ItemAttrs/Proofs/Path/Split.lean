import Mathlib.Data.List.Basic
import ItemAttrs.Path

/-!
# Splitting and joining

Splitting a written path loses nothing: joining the segments gives the text back
(`joinChars_splitChars`). The other way round there are segments that cannot be told from the text,
because a separator stands in one of them, or because the last colon of one runs into the separator
behind it. Splitting never gives such segments (`separable_splitChars`), and all others come back
(`splitChars_joinChars`), so `splitChars_joinChars_iff` says exactly when joining can be undone.
-/

namespace ItemAttrs.Path

variable {c : Char} {cs seg : List Char} {segs : List (List Char)}

/-- **Segments that can be told from the joined text:** no segment contains a separator, and none
but the last one ends with a colon. -/
structure Separable (segs : List (List Char)) : Prop where
  whole : ∀ seg ∈ segs, ¬separator <:+: seg
  closed : ∀ seg ∈ segs.dropLast, ¬[':'] <:+ seg

/-- Segments without colons are separable. -/
theorem separable_of_not_mem (h : ∀ seg ∈ segs, ':' ∉ seg) : Separable segs where
  whole seg hseg hinside := h seg hseg (hinside.subset List.mem_cons_self)
  closed seg hseg hend :=
    h seg (List.dropLast_subset segs hseg) (hend.subset List.mem_cons_self)

/-! ### Joining what has been split -/

@[simp] theorem joinChars_singleton (seg : List Char) : joinChars [seg] = seg := by
  simp [joinChars]

theorem joinChars_cons_cons (seg seg' : List Char) (segs : List (List Char)) :
    joinChars (seg :: seg' :: segs) = seg ++ ':' :: ':' :: joinChars (seg' :: segs) := by
  rw [joinChars, List.intercalate_cons_cons, ← joinChars, List.append_assoc]
  rfl

/-- There is a first segment, and the text begins with it. -/
theorem exists_splitChars (cs : List Char) :
    ∃ seg segs, splitChars cs = seg :: segs ∧ joinChars (seg :: segs) = cs := by
  fun_induction splitChars cs with
  | case1 rest ih =>
    obtain ⟨seg, segs, hsplit, hjoin⟩ := ih
    refine ⟨[], splitChars rest, rfl, ?_⟩
    rw [hsplit, joinChars_cons_cons, hjoin]
    rfl
  | case2 c rest hc ih =>
    -- the character goes in front of the first segment, and so of the joined text
    obtain ⟨seg, segs, hsplit, hjoin⟩ := ih
    refine ⟨c :: seg, segs, by rw [hsplit, consHead], ?_⟩
    cases segs with
    | nil =>
      rw [joinChars_singleton] at hjoin ⊢
      rw [hjoin]
    | cons seg' segs =>
      rw [joinChars_cons_cons] at hjoin ⊢
      rw [List.cons_append, hjoin]
  | case3 => exact ⟨[], [], rfl, joinChars_singleton []⟩

/-- **Joining undoes splitting.** -/
theorem joinChars_splitChars (cs : List Char) : joinChars (splitChars cs) = cs := by
  obtain ⟨seg, segs, hsplit, hjoin⟩ := exists_splitChars cs
  rw [hsplit, hjoin]

theorem splitChars_ne_nil (cs : List Char) : splitChars cs ≠ [] := by
  obtain ⟨seg, segs, hsplit, -⟩ := exists_splitChars cs
  rw [hsplit]
  exact List.cons_ne_nil seg segs

theorem separator_prefix_cons_iff :
    separator <+: c :: cs ↔ c = ':' ∧ ∃ rest, cs = ':' :: rest := by
  constructor
  · rintro ⟨rest, hrest⟩
    obtain ⟨rfl, hcs⟩ := List.cons.inj hrest
    exact ⟨rfl, rest, hcs.symm⟩
  · rintro ⟨rfl, rest, rfl⟩
    exact ⟨rest, rfl⟩

/-- **Splitting gives separable segments,** since each separator is taken as far left as it can
be. -/
theorem separable_splitChars (cs : List Char) : Separable (splitChars cs) := by
  fun_induction splitChars cs with
  | case1 rest ih =>
    -- the new first segment is empty
    obtain ⟨seg, segs, hsplit, -⟩ := exists_splitChars rest
    constructor
    · exact List.forall_mem_cons.mpr ⟨by decide, ih.whole⟩
    · have hclosed := ih.closed
      rw [hsplit] at hclosed ⊢
      exact List.forall_mem_cons.mpr ⟨by decide, hclosed⟩
  | case2 c rest hc ih =>
    obtain ⟨seg, segs, hsplit, hjoin⟩ := exists_splitChars rest
    rw [hsplit] at ih ⊢
    -- a colon in front of a segment that begins with one would be a separator further left
    have hfront : ¬separator <+: c :: seg := by
      rw [separator_prefix_cons_iff]
      rintro ⟨rfl, seg', rfl⟩
      cases segs with
      | nil => exact hc seg' rfl (hjoin.symm.trans (joinChars_singleton _))
      | cons seg'' segs => exact hc _ rfl (hjoin.symm.trans (joinChars_cons_cons _ _ _))
    rw [consHead]
    constructor
    · refine List.forall_mem_cons.mpr ⟨?_, (List.forall_mem_cons.mp ih.whole).2⟩
      rw [List.infix_cons_iff]
      exact not_or.mpr ⟨hfront, (List.forall_mem_cons.mp ih.whole).1⟩
    · cases segs with
      | nil => exact fun _ h => nomatch h
      | cons seg' segs =>
        refine List.forall_mem_cons.mpr ⟨?_, (List.forall_mem_cons.mp ih.closed).2⟩
        rw [List.suffix_cons_iff]
        rintro (heq | hend)
        · -- the colon would stand right before the separator behind an empty segment
          obtain ⟨rfl, rfl⟩ := List.cons.inj heq
          exact hc _ rfl (hjoin.symm.trans (joinChars_cons_cons _ _ _))
        · exact (List.forall_mem_cons.mp ih.closed).1 hend
  | case3 => exact ⟨by decide, fun _ h => nomatch h⟩

/-! ### Splitting what has been joined -/

/-- A segment ends at the first separator. -/
theorem splitChars_append_separator (hwhole : ¬separator <:+: seg) (hclosed : ¬[':'] <:+ seg)
    (rest : List Char) : splitChars (seg ++ ':' :: ':' :: rest) = seg :: splitChars rest := by
  induction seg with
  | nil => rw [List.nil_append, splitChars]
  | cons c seg ih =>
    rw [List.infix_cons_iff, not_or] at hwhole
    rw [List.suffix_cons_iff, not_or] at hclosed
    -- a colon with another one behind it is excluded inside of the segment and at its end
    have hc : ∀ rest', c = ':' → seg ++ ':' :: ':' :: rest = ':' :: rest' → False := by
      rintro rest' rfl heq
      cases seg with
      | nil => exact hclosed.1 rfl
      | cons d seg =>
        obtain ⟨rfl, -⟩ := List.cons.inj heq
        exact hwhole.1 (separator_prefix_cons_iff.mpr ⟨rfl, seg, rfl⟩)
    rw [List.cons_append, splitChars.eq_2 _ _ hc, ih hwhole.2 hclosed.2, consHead]

theorem splitChars_of_whole (hwhole : ¬separator <:+: seg) : splitChars seg = [seg] := by
  induction seg with
  | nil => rfl
  | cons c seg ih =>
    rw [List.infix_cons_iff, not_or] at hwhole
    have hc : ∀ rest, c = ':' → seg = ':' :: rest → False := fun rest hcolon heq =>
      hwhole.1 (separator_prefix_cons_iff.mpr ⟨hcolon, rest, heq⟩)
    rw [splitChars.eq_2 _ _ hc, ih hwhole.2, consHead]

/-- **Separable segments** come back from the written path. -/
theorem splitChars_joinChars (hne : segs ≠ []) (h : Separable segs) :
    splitChars (joinChars segs) = segs := by
  induction segs with
  | nil => exact absurd rfl hne
  | cons seg segs ih =>
    obtain ⟨hwhole, hwholes⟩ := List.forall_mem_cons.mp h.whole
    cases segs with
    | nil => rw [joinChars_singleton, splitChars_of_whole hwhole]
    | cons seg' segs =>
      obtain ⟨hclosed, hcloseds⟩ := List.forall_mem_cons.mp h.closed
      rw [joinChars_cons_cons, splitChars_append_separator hwhole hclosed,
        ih (List.cons_ne_nil _ _) ⟨hwholes, hcloseds⟩]

/-- **Splitting undoes joining** exactly for separable segments. -/
theorem splitChars_joinChars_iff (hne : segs ≠ []) :
    splitChars (joinChars segs) = segs ↔ Separable segs :=
  ⟨fun h => h ▸ separable_splitChars _, splitChars_joinChars hne⟩

end ItemAttrs.Path
