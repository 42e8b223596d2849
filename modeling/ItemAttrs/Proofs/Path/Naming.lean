import ItemAttrs.Proofs.Attr.Faults
import ItemAttrs.Proofs.Attr.Naming
import ItemAttrs.Proofs.Path.Split

/-!
# Written paths and the names of their segments

Naming the segments of a written path and writing the names again gives the path back, for every
text: the segments can be looked up under their names, then and later, and joining undoes splitting.
The only thing that can go wrong is that an interner has no slot left for a segment
(`Interner.Overflows`). Writing a path of names and naming its segments again gives the names back
exactly if the segments are separable, since then, and only then, splitting undoes joining
(`path_round_trip`).
-/

namespace ItemAttrs

namespace Path

variable {path : String} {segments : List String}

theorem join_split (path : String) : join (split path) = path := by
  have hmap : (split path).map String.toList = splitChars path.toList := by
    simp [split, Function.comp_def]
  rw [join, hmap, joinChars_splitChars, String.ofList_toList]

theorem split_ne_nil (path : String) : split path ≠ [] := by
  simpa [split] using splitChars_ne_nil path.toList

theorem split_join_iff (hne : segments ≠ []) :
    split (join segments) = segments ↔ Separable (segments.map String.toList) := by
  rw [← splitChars_joinChars_iff (by simpa using hne), split, join, String.toList_ofList]
  constructor
  · intro h
    simpa [Function.comp_def] using congrArg (List.map String.toList) h
  · intro h
    simpa [Function.comp_def] using congrArg (List.map String.ofList) h

/-- The conditions of separable segments, as conditions on texts. -/
theorem separable_map_iff : Separable (segments.map String.toList) ↔
    (∀ s ∈ segments, ¬separator <:+: s.toList) ∧
      ∀ s ∈ segments.dropLast, ¬[':'] <:+ s.toList := by
  constructor
  · rintro ⟨hwhole, hclosed⟩
    rw [← List.map_dropLast] at hclosed
    exact ⟨fun s hs => hwhole _ (List.mem_map_of_mem hs),
      fun s hs => hclosed _ (List.mem_map_of_mem hs)⟩
  · rintro ⟨hwhole, hclosed⟩
    rw [← List.forall_mem_map (P := fun seg => ¬separator <:+: seg)] at hwhole
    rw [← List.forall_mem_map (P := fun seg => ¬[':'] <:+ seg), List.map_dropLast] at hclosed
    exact ⟨hwhole, hclosed⟩

end Path

/-! ### Names that do not fit -/

namespace Interner

variable {t t' : Interner} {texts : List String} {cause : Fault}

/-- **No slot for a segment.** A segment of the path is new when its turn comes, and its shard holds
as many texts as names can tell apart. With the segments, the interner would hold more texts than
that. -/
def Overflows (t : Interner) (path : String) : Prop :=
  ∃ s ∈ Path.split path, ∃ t',
    internPath path t = (.error (.shardFull (shardOf s) Name.slotCount), t') ∧ s ∉ t'.texts ∧
      (t'.home s).size = Name.slotCount ∧ Name.slotCount < t.size + (Path.split path).length

/-- **Naming a path fails** only because there is no slot for a segment. -/
theorem overflows_of_error {path : String} (h : t.Reachable)
    (hp : internPath path t = (.error cause, t')) : t.Overflows path := by
  obtain ⟨calls, hcalls⟩ := h
  have hrec := hcalls.records
  obtain ⟨before, s, after, names, t₁, hsplit, hbefore, hs⟩ := InternM.exists_of_mapM_eq_error hp
  obtain ⟨-, hrec₁⟩ := hrec.mapM_intern hbefore
  cases intern_naming hrec₁.wellFormed hs with
  | full hnone hfull =>
    have hmem : s ∈ Path.split path := hsplit ▸ List.mem_append_right _ List.mem_cons_self
    refine ⟨s, hmem, t', hp, hrec₁.wellFormed.find?_eq_none_iff.mp hnone, hfull, ?_⟩
    -- the texts of a full shard are texts of `t` or segments before this one
    have hle : t'.size ≤ t.size + before.length := by
      rw [hrec₁.size_eq, hrec.size_eq, List.toFinset_append]
      exact (Finset.card_union_le _ _).trans (Nat.add_le_add_left (List.toFinset_card_le _) _)
    have hhome := size_home_le t' s
    rw [hfull, ← hrec₁.count_eq] at hhome
    have hlength := congrArg List.length hsplit
    rw [List.length_append, List.length_cons] at hlength
    change t'.count ≤ _ at hle
    omega

/-- **The names of texts** stand for them, then and later. -/
theorem mapM_lookup_of_mapM_intern {names : List Name} {t'' : Interner} (hwf : t.WellFormed)
    (h : (texts.mapM intern) t = (.ok names, t')) (hlater : t'.Later t'') :
    names.mapM t''.lookup = .ok texts := by
  have hread := ReadsBack.mapM fun s (_ : s ∈ texts) => ReadsBack.intern s
  obtain ⟨-, -, hread⟩ := hread t names t' hwf h
  exact hread t'' hlater

theorem internPath_eq_ok_iff {path : String} {names : List Name} {texts : List String}
    (hwf : t.WellFormed) (hn : names.mapM t.lookup = .ok texts) :
    (internPath path t).1 = .ok names ↔ Path.split path = texts := by
  constructor
  · intro h
    -- the texts of the names are the same afterwards, and then they are the segments
    generalize hp : internPath path t = res at h
    obtain ⟨answer, t'⟩ := res
    obtain rfl : answer = .ok names := h
    have hlater : t.Later (internPath path t).2 := Later.refl.internPath path
    rw [hp] at hlater
    have hsegments := mapM_lookup_of_mapM_intern hwf hp .refl
    have htexts := mapM_lookup_of_mapM_intern hwf (mapM_intern_of_lookup hwf hn) hlater
    exact Except.ok.inj (hsegments.symm.trans htexts)
  · rintro rfl
    rw [internPath, mapM_intern_of_lookup hwf hn]

/-- **The path comes back from the names of its segments:** they are the segments of an attribute
name, which is written as the path, then and later. -/
def Restores (t : Interner) (path : String) : Prop :=
  ∃ names name t', internPath path t = (.ok names, t') ∧ AttrName.ofSegments names = .ok name ∧
    name.segments = names ∧ ∀ t'', t'.Later t'' → name.render t'' = .ok path

end Interner

/-! ### Attribute names -/

variable {t : Interner} {names : List Name} {texts : List String} {path : String}

theorem AttrName.ofSegments_of_ne_nil {ν : Type} {segments : List ν} (h : segments ≠ []) :
    ofSegments segments = .ok ⟨segments⟩ := by
  cases segments with
  | nil => exact absurd rfl h
  | cons n segments => rfl

theorem AttrName.render_of_lookup (h : names.mapM t.lookup = .ok texts) :
    AttrName.render t ⟨names⟩ = .ok (Path.join texts) := by
  rw [render, traverse, h]
  rfl

theorem Interner.Restores.of_ok {t' : Interner} (hwf : t.WellFormed)
    (hp : internPath path t = (.ok names, t')) : t.Restores path := by
  have hlookup : ∀ t'', t'.Later t'' → names.mapM t''.lookup = .ok (Path.split path) :=
    fun _ => mapM_lookup_of_mapM_intern hwf hp
  -- a path has a segment, and each segment has a name
  have hne : names ≠ [] := by
    rintro rfl
    exact Path.split_ne_nil path (Except.ok.inj (hlookup t' .refl)).symm
  refine ⟨names, ⟨names⟩, t', hp, AttrName.ofSegments_of_ne_nil hne, rfl, ?_⟩
  intro t'' hlater
  rw [AttrName.render_of_lookup (hlookup t'' hlater), Path.join_split]

/-- **Written paths and names.** Every path comes back from the names of its segments, unless there
is no slot for one of them. Names come back from the path that they are written as exactly if no
text contains a separator and none but the last one ends with a colon. -/
theorem path_round_trip (h : t.Reachable) :
    (∀ path, t.Restores path ∨ t.Overflows path) ∧
      ∀ names, names ≠ [] → (∀ n ∈ names, ¬t.Dangling n) →
        ∃ name texts path, AttrName.ofSegments names = .ok name ∧
          names.mapM t.lookup = .ok texts ∧ name.render t = .ok path ∧
          ((Interner.internPath path t).1 = .ok names ↔
            (∀ s ∈ texts, ¬Path.separator <:+: s.toList) ∧
              ∀ s ∈ texts.dropLast, ¬[':'] <:+ s.toList) := by
  have hwf := h.wellFormed
  constructor
  · intro path
    generalize hp : Interner.internPath path t = res
    obtain ⟨answer, t'⟩ := res
    cases answer with
    | ok names => exact .inl (.of_ok hwf hp)
    | error cause => exact .inr (Interner.overflows_of_error h hp)
  · intro names hne hnames
    obtain ⟨texts, htexts⟩ := (Showing.mapM_lookup t names).exists_ok hnames
    have htexts_ne : texts ≠ [] := by
      rintro rfl
      cases forall₂_of_mapM htexts
      exact hne rfl
    refine ⟨⟨names⟩, texts, Path.join texts, AttrName.ofSegments_of_ne_nil hne, htexts,
      AttrName.render_of_lookup htexts, ?_⟩
    -- names of segments are the given ones if the segments are their texts
    rw [Interner.internPath_eq_ok_iff hwf htexts, Path.split_join_iff htexts_ne,
      Path.separable_map_iff]

/-- `skip:::` has the segments `skip` and `:`, and they come back in this order only: the other way
round the path begins with an empty segment. -/
theorem path_round_trip_colons :
    let t := (Interner.internPath "skip:::" .initial).2
    let skip : Name := ⟨4026531840⟩
    let colon : Name := ⟨2684354561⟩
    t.Reachable ∧ t.Restores "skip:::" ∧ (Interner.internPath "skip:::" t).1 = .ok [skip, colon] ∧
      AttrName.render t ⟨[colon, skip]⟩ = .ok ":::skip" ∧
      (Interner.internPath ":::skip" t).1 ≠ .ok [colon, skip] := by
  intro t skip colon
  have hpath : Interner.internPath "skip:::" .initial = (.ok [skip, colon], t) :=
    InternM.eq_of_answer (by decide +kernel)
  have ht : t.Reachable := ⟨_, Interner.History.initial.internPath hpath⟩
  obtain ⟨hrestores, hnames⟩ := path_round_trip ht
  -- the same two names in one order, and then in the other
  obtain ⟨name, texts, path, hname, htexts, hrender, hiff⟩ :=
    hnames [skip, colon] (by decide) (by decide +kernel)
  obtain ⟨name', texts', path', hname', htexts', hrender', hiff'⟩ :=
    hnames [colon, skip] (by decide) (by decide +kernel)
  cases hname
  cases hname'
  have hskip : [skip, colon].mapM t.lookup = .ok ["skip", ":"] := by decide +kernel
  have hcolon : [colon, skip].mapM t.lookup = .ok [":", "skip"] := by decide +kernel
  obtain rfl : texts = ["skip", ":"] := Except.ok.inj (htexts.symm.trans hskip)
  obtain rfl : texts' = [":", "skip"] := Except.ok.inj (htexts'.symm.trans hcolon)
  obtain rfl : path = "skip:::" :=
    Except.ok.inj (hrender.symm.trans (AttrName.render_of_lookup hskip))
  obtain rfl : path' = ":::skip" :=
    Except.ok.inj (hrender'.symm.trans (AttrName.render_of_lookup hcolon))
  have hagain : (Interner.internPath "skip:::" t).1 = .ok [skip, colon] := hiff.mpr (by decide)
  refine ⟨ht, (hrestores "skip:::").resolve_right ?_, hagain, hrender', hiff'.not.mpr (by decide)⟩
  rintro ⟨s, -, t', hfull, -⟩
  rw [hfull] at hagain
  exact nomatch hagain

end ItemAttrs
