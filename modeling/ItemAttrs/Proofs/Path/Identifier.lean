import ItemAttrs.Proofs.Path.Split
import ItemAttrs.Proofs.Text.Boundary

/-!
# Paths of identifiers

The segments of most paths are identifiers: a letter or an underscore, and then letters, digits
and underscores, all of them ASCII. No identifier contains a colon, so such a path can be split
again (`Plain.splitChars_pathText`), and it ends where a character stands that no such path contains
(`eq_of_pathText`).
-/

namespace ItemAttrs.Path

/-- A character that an identifier may go on with. -/
def isWordChar (c : Char) : Bool := c.isAlphanum || c = '_'

/-- **An identifier:** a letter or an underscore, and then letters, digits and underscores. -/
def isIdentifier : List Char → Bool
  | [] => false
  | c :: cs => (c.isAlpha || c = '_') && cs.all isWordChar

/-- A character of a written path of identifiers. -/
def isPathChar (c : Char) : Bool := isWordChar c || c = ':'

theorem isWordChar_colon : isWordChar ':' = false := by decide

theorem isWordChar_of_mem {cs : List Char} (h : isIdentifier cs = true) :
    ∀ c ∈ cs, isWordChar c = true := by
  cases cs with
  | nil => exact fun _ h => nomatch h
  | cons c cs =>
    simp only [isIdentifier, Bool.and_eq_true, List.all_eq_true] at h
    refine List.forall_mem_cons.mpr ⟨?_, h.2⟩
    have hc : c.isAlpha = true → isWordChar c = true := by
      intro hc
      simp [isWordChar, Char.isAlphanum, hc]
    rcases Bool.or_eq_true_iff.mp h.1 with hc' | hc'
    · exact hc hc'
    · simp [isWordChar, hc']

/-! ### Written paths -/

theorem isPathChar_of_mem_joinChars {segs : List (List Char)}
    (h : ∀ seg ∈ segs, isIdentifier seg = true) : ∀ c ∈ joinChars segs, isPathChar c = true := by
  have hword : ∀ seg ∈ segs, ∀ c ∈ seg, isPathChar c = true := by
    intro seg hseg c hc
    rw [isPathChar, isWordChar_of_mem (h seg hseg) c hc, Bool.true_or]
  cases segs with
  | nil => exact fun _ hc => nomatch hc
  | cons seg segs =>
    -- a character is from a segment or from a separator before one
    intro c hc
    rw [joinChars, intercalate_cons_eq_flatMap, List.mem_append, List.mem_flatMap] at hc
    rcases hc with hc | ⟨seg', hseg', hc⟩
    · exact hword seg List.mem_cons_self c hc
    · rcases List.mem_append.mp hc with hc | hc
      · have hcolon : c = ':' := by simpa [separator] using hc
        rw [hcolon]
        rfl
      · exact hword seg' (List.mem_cons_of_mem seg hseg') c hc

/-- **The segments of the path are identifiers,** and there is one at least. -/
structure Plain (segments : List String) : Prop where
  ne_nil : segments ≠ []
  identifiers : ∀ s ∈ segments, isIdentifier s.toList = true

namespace Plain

variable {p : List String}

theorem splitChars_pathText (h : Plain p) : splitChars (pathText p) = p.map String.toList := by
  apply splitChars_joinChars (by simpa using h.ne_nil)
  apply separable_of_not_mem
  intro seg hseg hcolon
  obtain ⟨s, hs, rfl⟩ := List.mem_map.mp hseg
  exact Bool.false_ne_true
    (isWordChar_colon.symm.trans (isWordChar_of_mem (h.identifiers s hs) ':' hcolon))

theorem isPathChar_of_mem (h : Plain p) : ∀ c ∈ pathText p, isPathChar c = true := by
  refine isPathChar_of_mem_joinChars fun seg hseg => ?_
  obtain ⟨s, hs, rfl⟩ := List.mem_map.mp hseg
  exact h.identifiers s hs

/-- A written path begins like an identifier. -/
theorem exists_cons (h : Plain p) :
    ∃ c rest, pathText p = c :: rest ∧ (c.isAlpha || c = '_') = true := by
  cases p with
  | nil => exact absurd rfl h.ne_nil
  | cons s p =>
    have hs := h.identifiers s List.mem_cons_self
    cases hcs : s.toList with
    | nil =>
      rw [hcs] at hs
      exact nomatch hs
    | cons c cs =>
      rw [hcs, isIdentifier, Bool.and_eq_true] at hs
      refine ⟨c, cs ++ (p.map String.toList).flatMap fun seg => separator ++ seg, ?_, hs.1⟩
      rw [pathText, joinChars, List.map_cons, intercalate_cons_eq_flatMap, hcs, List.cons_append]

end Plain

/-- **A written path shows its segments and where it ends,** if the text does not go on with a
character of a path. -/
theorem eq_of_pathText {p p' : List String} {r r' : List Char} (hp : Plain p) (hp' : Plain p')
    (hr : Stops (isPathChar · = true) r) (hr' : Stops (isPathChar · = true) r')
    (h : pathText p ++ r = pathText p' ++ r') : p = p' ∧ r = r' := by
  -- both texts are the longest stretch of path characters, and a text can be split again
  obtain ⟨htext, hrest⟩ := eq_of_stretch hp.isPathChar_of_mem hp'.isPathChar_of_mem hr hr' h
  refine ⟨?_, hrest⟩
  have hsegs := congrArg splitChars htext
  rw [hp.splitChars_pathText, hp'.splitChars_pathText] at hsegs
  exact List.map_injective_iff.mpr (fun _ _ => String.toList_inj.mp) hsegs

end ItemAttrs.Path
