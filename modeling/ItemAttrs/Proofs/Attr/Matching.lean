import ItemAttrs.Proofs.Attr.Faults
import ItemAttrs.Proofs.Path.Naming

/-!
# Matching an attribute name by text and by name

An attribute name can be matched against a text, for which nothing needs to be stored, and against
the name of a text, for which the text has been stored at the latest when the question is asked.
Behind both is the same question about the texts of the segments: are they just this one text?
(`AttrName.matchesText_eq`, `AttrName.is_traverse`). Names keep their texts, so it does not matter
when the question is asked, and texts that cannot be stored are the text of no name.
-/

namespace ItemAttrs

variable {t t' : Interner} {name : AttrName Name} {name' : AttrName String} {n : Name}
  {text : String}

namespace AttrName

/-! ### The texts of a name -/

theorem exists_traverse (h : ∀ n ∈ name.segments, ¬t.Dangling n) :
    ∃ name', name.traverse t.lookup = .ok name' :=
  ((Showing.mapM_lookup t name.segments).map mk).exists_ok h

theorem traverse_eq_ok_iff :
    name.traverse t.lookup = .ok name' ↔ name.segments.mapM t.lookup = .ok name'.segments := by
  constructor
  · intro h
    obtain ⟨segments, hsegments, h⟩ := exists_of_bind_eq_ok h
    cases h
    exact hsegments
  · intro h
    rw [traverse, h]
    rfl

/-- **The texts of a name stay the same** in later states. -/
theorem traverse_later (hwf : t.WellFormed) (h : name.traverse t.lookup = .ok name')
    (hlater : t.Later t') : name.traverse t'.lookup = .ok name' := by
  obtain ⟨-, -, hread⟩ := name'.lookup_traverse t name t hwf (intern_traverse hwf h)
  exact hread t' hlater

/-- **Two names are equal** exactly if their segments have the same texts. -/
theorem eq_iff_of_traverse {name₁ name₂ : AttrName Name} {name₁' name₂' : AttrName String}
    (hwf : t.WellFormed) (h₁ : name₁.traverse t.lookup = .ok name₁')
    (h₂ : name₂.traverse t.lookup = .ok name₂') : name₁ = name₂ ↔ name₁' = name₂' := by
  constructor
  · rintro rfl
    exact Except.ok.inj (h₁.symm.trans h₂)
  · rintro rfl
    exact eq_of_traverse hwf h₁ h₂

/-! ### Matching -/

/-- **Matching by text** asks whether the texts of the segments are just this text. -/
theorem matchesText_eq (h : name.traverse t.lookup = .ok name') (text : String) :
    name.matchesText text t = .ok (name'.is text) := by
  have hsegments := forall₂_of_mapM (traverse_eq_ok_iff.mp h)
  rcases name with ⟨segments⟩
  rcases name' with ⟨segments'⟩
  cases hsegments with
  | nil => rfl
  | cons hfirst hrest =>
    cases hrest with
    | nil =>
      simp only [matchesText, hfirst]
      rfl
    | cons _ _ => rfl

theorem matchesText_of_two_le (h : 1 < name.segments.length) (text : String) (t : Interner) :
    name.matchesText text t = .ok false := by
  rcases name with ⟨_ | ⟨a, _ | ⟨b, rest⟩⟩⟩
  · exact absurd h (by decide)
  · exact absurd h (by simp)
  · rfl

theorem is_iff_soleSegment {ν : Type} [DecidableEq ν] (name : AttrName ν) (n : ν) :
    name.is n = true ↔ name.isTrivial = true ∧ name.soleSegment = .ok n := by
  rcases name with ⟨_ | ⟨a, _ | ⟨b, rest⟩⟩⟩ <;> simp [is, isTrivial, soleSegment]

/-- A text that is not stored is not the text of a name. -/
theorem is_eq_false_of_not_mem (h : name.traverse t.lookup = .ok name') (htext : text ∉ t.texts) :
    name'.is text = false := by
  rw [Bool.eq_false_iff, ne_eq, is_iff]
  rintro rfl
  obtain ⟨n, -, hn⟩ := exists_of_mem_mapM (traverse_eq_ok_iff.mp h) List.mem_cons_self
  exact htext (Interner.mem_texts_of_lookup hn)

/-- **Text and name agree** about an attribute name, in the state `t`. -/
structure MatchesAlike (t : Interner) (name : AttrName Name) (text : String) : Prop where
  /-- When the text is given a name, the attribute name matches the text exactly if it is the
  trivial name of this name. -/
  named : ∀ n t', Interner.intern text t = (.ok n, t') →
    name.matchesText text t = .ok (name.is n) ∧ (name.is n = true ↔ name = .trivial n) ∧
      (name.is n = true ↔ name.isTrivial = true ∧ name.soleSegment = .ok n)
  /-- A text for which there is no slot is not matched. -/
  unnamed : ∀ cause t', Interner.intern text t = (.error cause, t') →
    name.matchesText text t = .ok false
  /-- The answer stays the same, whether or not the text is stored in the meantime. -/
  later : ∀ t', t.Later t' → name.matchesText text t' = name.matchesText text t

theorem matchesAlike (hwf : t.WellFormed) (h : name.traverse t.lookup = .ok name')
    (text : String) : MatchesAlike t name text where
  named n t' hn := by
    have hnaming := Interner.intern_naming hwf hn
    have hlater : t.Later (Interner.intern text t).2 := Interner.Later.refl.intern text
    rw [hn] at hlater
    -- the name stands for the text in `t'`, where the segments have their texts, too
    have his : name.is n = name'.is text :=
      is_traverse (hnaming.wellFormed hwf) (traverse_later hwf h hlater) hnaming.lookup_self
    rw [matchesText_eq h, his]
    exact ⟨rfl, his ▸ is_iff name n, his ▸ is_iff_soleSegment name n⟩
  unnamed cause t' hcause := by
    cases Interner.intern_naming hwf hcause with
    | full hnone _ =>
      have htext := hwf.find?_eq_none_iff.mp hnone
      rw [matchesText_eq h, is_eq_false_of_not_mem h htext]
  later t' hlater := by
    rw [matchesText_eq (traverse_later hwf h hlater), matchesText_eq h]

end AttrName

/-- **Texts match as their names do.** Here all segments have a text, as all names that were given
out do. An attribute name matches a text exactly if it is the trivial name of the text, and the
answer is the same at all times. A path of several segments matches no text, not even the one that
it is written as. Two attribute names are equal exactly if the texts of their segments are. -/
theorem texts_match_as_names (h : t.Reachable) :
    (∀ name : AttrName Name, (∀ n ∈ name.segments, ¬t.Dangling n) → ∀ text,
      AttrName.MatchesAlike t name text) ∧
    (∀ name : AttrName Name, 1 < name.segments.length →
      (∀ text u, name.matchesText text u = .ok false) ∧
      ((∀ n ∈ name.segments, ¬t.Dangling n) →
        ∃ path, name.render t = .ok path ∧ name.matchesText path t = .ok false)) ∧
    ∀ name₁ name₂ : AttrName Name, (∀ n ∈ name₁.segments, ¬t.Dangling n) →
      (∀ n ∈ name₂.segments, ¬t.Dangling n) → ∃ texts₁ texts₂,
        name₁.segments.mapM t.lookup = .ok texts₁ ∧ name₂.segments.mapM t.lookup = .ok texts₂ ∧
        (name₁ = name₂ ↔ texts₁ = texts₂) := by
  have hwf := h.wellFormed
  refine ⟨fun name hname text => ?_, fun name hlength => ⟨?_, fun hname => ?_⟩,
    fun name₁ name₂ hname₁ hname₂ => ?_⟩
  · obtain ⟨name', hname'⟩ := AttrName.exists_traverse hname
    exact AttrName.matchesAlike hwf hname' text
  · exact AttrName.matchesText_of_two_le hlength
  · obtain ⟨name', hname'⟩ := AttrName.exists_traverse hname
    have hpath := AttrName.render_of_lookup (AttrName.traverse_eq_ok_iff.mp hname')
    exact ⟨_, hpath, AttrName.matchesText_of_two_le hlength _ t⟩
  · obtain ⟨⟨texts₁⟩, htexts₁⟩ := AttrName.exists_traverse hname₁
    obtain ⟨⟨texts₂⟩, htexts₂⟩ := AttrName.exists_traverse hname₂
    refine ⟨texts₁, texts₂, AttrName.traverse_eq_ok_iff.mp htexts₁,
      AttrName.traverse_eq_ok_iff.mp htexts₂, ?_⟩
    rw [AttrName.eq_iff_of_traverse hwf htexts₁ htexts₂, AttrName.mk.injEq]

/-- The path of `rustfmt` and `skip` is written like the text `rustfmt::skip` but does not match it,
before and after this text has got a name of its own. The trivial name of the text does. -/
theorem texts_match_as_names_colons :
    let rustfmt : Name := ⟨2415919106⟩
    let skip : Name := ⟨4026531840⟩
    let whole : Name := ⟨268435459⟩
    let path : AttrName Name := ⟨[rustfmt, skip]⟩
    let t := (Interner.intern "rustfmt::skip" .initial).2
    Interner.Reachable .initial ∧ (∀ n ∈ path.segments, ¬Interner.Dangling .initial n) ∧
      path.render .initial = .ok "rustfmt::skip" ∧
      path.matchesText "rustfmt::skip" .initial = .ok false ∧
      path.matchesText "rustfmt::skip" t = .ok false ∧
      AttrName.matchesText (.trivial whole) "rustfmt::skip" t = .ok true ∧
      path ≠ .trivial whole := by
  intro rustfmt skip whole path t
  have hinitial : Interner.Reachable .initial := ⟨_, .initial⟩
  have hintern : Interner.intern "rustfmt::skip" .initial = (.ok whole, t) :=
    InternM.eq_of_answer (by decide +kernel)
  have ht : t.Reachable := ⟨_, Interner.History.initial.intern hintern⟩
  have hsegments : ∀ n ∈ path.segments, ¬Interner.Dangling .initial n := by decide +kernel
  -- before the text is stored
  obtain ⟨hmatch, hpaths, -⟩ := texts_match_as_names hinitial
  obtain ⟨text, htext, hbefore⟩ := (hpaths path (by decide)).2 hsegments
  have hwritten : path.render .initial = .ok "rustfmt::skip" := by decide +kernel
  obtain rfl : text = "rustfmt::skip" := Except.ok.inj (htext.symm.trans hwritten)
  have hlater := (hmatch path hsegments "rustfmt::skip").later t (Interner.Later.refl.intern _)
  -- and after it is
  obtain ⟨hmatch', -, hequal⟩ := texts_match_as_names ht
  have hlookup : t.lookup whole = .ok "rustfmt::skip" := by decide +kernel
  have hagain := ht.wellFormed.intern_of_lookup hlookup
  have hwhole := hmatch' (.trivial whole) (by decide +kernel) "rustfmt::skip"
  obtain ⟨hafter, -, -⟩ := hwhole.named whole t hagain
  obtain ⟨texts₁, texts₂, htexts₁, htexts₂, hiff⟩ :=
    hequal path (.trivial whole) (by decide +kernel) (by decide +kernel)
  have htwo : path.segments.mapM t.lookup = .ok ["rustfmt", "skip"] := by decide +kernel
  have hone : [whole].mapM t.lookup = .ok ["rustfmt::skip"] := by decide +kernel
  obtain rfl : texts₁ = ["rustfmt", "skip"] := Except.ok.inj (htexts₁.symm.trans htwo)
  obtain rfl : texts₂ = ["rustfmt::skip"] := Except.ok.inj (htexts₂.symm.trans hone)
  exact ⟨hinitial, hsegments, htext, hbefore, hlater.trans hbefore, hafter,
    hiff.not.mpr (by decide)⟩

end ItemAttrs
