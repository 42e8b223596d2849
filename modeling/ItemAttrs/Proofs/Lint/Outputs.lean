import ItemAttrs.Proofs.Attr.Edit
import ItemAttrs.Proofs.Attr.Naming
import ItemAttrs.Proofs.Lint.Run

/-!
# What the outputs do not tell

Which names an interner hands out depends on everything that it was asked before. None of this
shows in the outputs, and neither do spans and usage flags inside the entries of a list. Two lists
over two interners **coincide** if they have the same texts and look the same once these things
are ignored; then they are written in the same way, the check says the same of them, and a look-up
finds the same entry.

* `Coincide` and `SameOutputs` are the hypothesis and the conclusion;
* `Coincide.sameOutputs` combines the equality of what is written, checked and found;
* `outputs_of_coincide` adds two cases in which lists coincide: naming the same texts in two
  interners, and marking nested attributes.
-/

namespace ItemAttrs

/-- **Two lists that look the same:** all their names have texts, and the lists over these texts
are equal as far as their entries are seen. -/
def Coincide (t₁ : Interner) (l₁ : AttrList Name) (t₂ : Interner) (l₂ : AttrList Name) : Prop :=
  ∃ s₁ s₂, l₁.traverse t₁.lookup = .ok s₁ ∧ l₂.traverse t₂.lookup = .ok s₂ ∧ s₁.face = s₂.face

/-- The interner has a name for the text, or room for it. -/
def Interner.Admits (t : Interner) (s : String) : Prop :=
  s ∈ t.texts ∨ (t.home s).size ≤ Name.maxSlot

/-- **Two lists that cannot be told apart** by their written forms, by a check, nor by looking
for a text, which is named first. -/
structure SameOutputs (t₁ : Interner) (l₁ : AttrList Name) (t₂ : Interner) (l₂ : AttrList Name) :
    Prop where
  render_eq : l₁.render t₁ = l₂.render t₂
  check_eq : (checkUnused t₁ [l₁]).start = (checkUnused t₂ [l₂]).start
  find_eq : ∀ s, t₁.Admits s → t₂.Admits s → ∃ n₁ n₂ i, (Interner.intern s t₁).1 = .ok n₁ ∧
    (Interner.intern s t₂).1 = .ok n₂ ∧ l₁.findIdx? n₁ = i ∧ l₂.findIdx? n₂ = i ∧
    l₁.find? n₁ = i.bind (l₁.items[·]?) ∧ l₂.find? n₂ = i.bind (l₂.items[·]?)

variable {t t₁ t₂ : Interner} {l l₁ l₂ : AttrList Name} {s : String}

/-! ### Lists over names and over texts -/

theorem AttrList.forall₂_of_traverse {l' : AttrList String} (h : l.traverse t.lookup = .ok l') :
    List.Forall₂ (fun a a' => a.traverse t.lookup = .ok a') l.items l'.items := by
  obtain ⟨items, hitems, h⟩ := exists_of_bind_eq_ok h
  cases h
  rw [Attr.traverseAll_eq_mapM] at hitems
  exact forall₂_of_mapM hitems

theorem Attr.of_traverse {a : Attr Name} {a' : Attr String} (h : a.traverse t.lookup = .ok a') :
    a'.span = a.span ∧ a'.used = a.used ∧ a.name.traverse t.lookup = .ok a'.name := by
  cases a
  obtain ⟨name, hname, h⟩ := exists_of_bind_eq_ok h
  obtain ⟨payload, -, h⟩ := exists_of_bind_eq_ok h
  cases h
  exact ⟨rfl, rfl, hname⟩

/-- A check sees of the entries what can be read off their texts. -/
theorem AttrList.outline_unused {l' : AttrList String} (h : l.traverse t.lookup = .ok l') :
    l.unused.map (outline t) =
      l'.unused.map fun a => (a.span, .ok (String.ofList (a.write Text.isInvisible))) := by
  have hitems := forall₂_of_traverse h
  rw [unused, unused]
  generalize l.items = items at hitems ⊢
  generalize l'.items = items' at hitems ⊢
  induction hitems with
  | nil => rfl
  | @cons a a' items items' ha _ ih =>
    obtain ⟨hspan, hused, -⟩ := Attr.of_traverse ha
    have houtline : outline t a = (a'.span, .ok (String.ofList (a'.write Text.isInvisible))) := by
      rw [outline, Attr.render, ha, hspan]
      rfl
    -- the entry and its texts are kept or left out together
    rw [List.filter_cons, List.filter_cons, hused]
    split
    · rw [List.map_cons, List.map_cons, houtline, ih]
    · exact ih

/-- Looking a name up is the same as looking its text up among the texts. -/
theorem AttrList.findIdx?_traverse {l' : AttrList String} {n : Name} (hwf : t.WellFormed)
    (h : l.traverse t.lookup = .ok l') (hn : t.lookup n = .ok s) :
    l.findIdx? n = l'.findIdx? s := by
  have hitems := forall₂_of_traverse h
  rw [findIdx?, findIdx?]
  generalize l.items = items at hitems ⊢
  generalize l'.items = items' at hitems ⊢
  induction hitems with
  | nil => rfl
  | cons ha _ ih =>
    obtain ⟨-, -, hname⟩ := Attr.of_traverse ha
    rw [List.findIdx?_cons, List.findIdx?_cons, AttrName.is_traverse hwf hname hn, ih]

/-! ### Faces -/

theorem AttrList.findIdx?_face {ν : Type} [DecidableEq ν] (l : AttrList ν) (n : ν) :
    l.face.findIdx? n = l.findIdx? n := by
  rw [findIdx?, face, List.findIdx?_map]
  rfl

/-- **Lists that coincide have the same texts in their faces.** -/
theorem Coincide.exists_face (h : Coincide t₁ l₁ t₂ l₂) :
    ∃ s, l₁.face.traverse t₁.lookup = .ok s ∧ l₂.face.traverse t₂.lookup = .ok s := by
  obtain ⟨s₁, s₂, h₁, h₂, hface⟩ := h
  refine ⟨s₁.face, ?_, ?_⟩
  · rw [AttrList.face_traverse, h₁]
    rfl
  · rw [AttrList.face_traverse, h₂, hface]
    rfl

/-! ### The outputs -/

theorem Coincide.exists_render (h : Coincide t₁ l₁ t₂ l₂) :
    ∃ text, l₁.render t₁ = .ok text ∧ l₂.render t₂ = .ok text := by
  obtain ⟨s, h₁, h₂⟩ := h.exists_face
  refine ⟨String.ofList (s.write Text.isInvisible), ?_, ?_⟩
  · rw [← AttrList.render_face, AttrList.render, h₁]
    rfl
  · rw [← AttrList.render_face, AttrList.render, h₂]
    rfl

theorem Coincide.outline_eq (h : Coincide t₁ l₁ t₂ l₂) :
    l₁.unused.map (outline t₁) = l₂.unused.map (outline t₂) := by
  obtain ⟨s, h₁, h₂⟩ := h.exists_face
  rw [← AttrList.outline_face, AttrList.outline_unused h₁, ← AttrList.outline_unused h₂,
    AttrList.outline_face]

theorem start_checkUnused_of_coincide {ls₁ ls₂ : List (AttrList Name)}
    (h : List.Forall₂ (fun l₁ l₂ => Coincide t₁ l₁ t₂ l₂) ls₁ ls₂) :
    (checkUnused t₁ ls₁).start = (checkUnused t₂ ls₂).start := by
  refine start_checkUnused_congr h.length_eq ?_
  induction h with
  | nil => rfl
  | cons h _ ih =>
    simp only [unusedEntries, List.flatMap_cons, List.map_append] at ih ⊢
    rw [h.outline_eq, ih]

theorem Interner.Admits.exists_intern (h : t.Admits s) (hwf : t.WellFormed) :
    ∃ n t', Interner.intern s t = (.ok n, t') ∧ t'.WellFormed ∧ t.Later t' ∧
      t'.lookup n = .ok s := by
  have hnamed : ∃ n t', Interner.intern s t = (.ok n, t') := by
    rcases h with hs | hroom
    · obtain ⟨n, hn⟩ := hwf.intern_of_mem hs
      exact ⟨n, t, hn⟩
    · exact hwf.exists_intern hroom
  obtain ⟨n, t', hn⟩ := hnamed
  have hnaming := intern_naming hwf hn
  have hlater : t.Later (intern s t).2 := Later.refl.intern s
  rw [hn] at hlater
  exact ⟨n, t', hn, hnaming.wellFormed hwf, hlater, hnaming.lookup_self⟩

theorem AttrList.find?_eq_bind {ν : Type} [DecidableEq ν] {l : AttrList ν} {n : ν} {i : Option Nat}
    (h : l.findIdx? n = i) : l.find? n = i.bind (l.items[·]?) := by
  subst h
  exact List.find?_eq_bind_findIdx?_getElem?

theorem Coincide.sameOutputs (h₁ : t₁.WellFormed) (h₂ : t₂.WellFormed)
    (h : Coincide t₁ l₁ t₂ l₂) : SameOutputs t₁ l₁ t₂ l₂ where
  render_eq := by
    obtain ⟨text, ht₁, ht₂⟩ := h.exists_render
    rw [ht₁, ht₂]
  check_eq := start_checkUnused_of_coincide (.cons h .nil)
  find_eq s hs₁ hs₂ := by
    obtain ⟨l', hl₁, hl₂⟩ := h.exists_face
    obtain ⟨n₁, t₁', hn₁, hwf₁, hlater₁, hs₁⟩ := hs₁.exists_intern h₁
    obtain ⟨n₂, t₂', hn₂, hwf₂, hlater₂, hs₂⟩ := hs₂.exists_intern h₂
    -- both lists have the entry where the common texts have it
    have hi₁ : l₁.findIdx? n₁ = l'.findIdx? s := by
      rw [← AttrList.findIdx?_face]
      exact AttrList.findIdx?_traverse hwf₁ (AttrList.traverse_later h₁ hl₁ hlater₁) hs₁
    have hi₂ : l₂.findIdx? n₂ = l'.findIdx? s := by
      rw [← AttrList.findIdx?_face]
      exact AttrList.findIdx?_traverse hwf₂ (AttrList.traverse_later h₂ hl₂ hlater₂) hs₂
    exact ⟨n₁, n₂, l'.findIdx? s, congrArg Prod.fst hn₁, congrArg Prod.fst hn₂, hi₁, hi₂,
      AttrList.find?_eq_bind hi₁, AttrList.find?_eq_bind hi₂⟩

/-- **Lists with the same face** in one interner, whether or not their names have texts. -/
theorem sameOutputs_of_face (hwf : t.WellFormed) (h : l₁.face = l₂.face) :
    SameOutputs t l₁ t l₂ where
  render_eq := by rw [← l₁.render_face, h, l₂.render_face]
  check_eq := start_checkUnused_of_face t h
  find_eq s hs _ := by
    -- there is one interner, so the text has one name
    obtain ⟨n, t', hn, -, -, -⟩ := hs.exists_intern hwf
    have hi : l₂.findIdx? n = l₁.findIdx? n := by
      rw [← l₂.findIdx?_face, ← h, l₁.findIdx?_face]
    exact ⟨n, n, l₁.findIdx? n, congrArg Prod.fst hn, congrArg Prod.fst hn, rfl, hi,
      AttrList.find?_eq_bind rfl, AttrList.find?_eq_bind hi⟩

/-! ### Where lists coincide -/

/-- **Naming the same texts** in two interners gives lists that coincide. -/
theorem coincide_of_named {v : AttrList String} {t₁' t₂' : Interner} (h₁ : t₁.WellFormed)
    (h₂ : t₂.WellFormed) (hl₁ : (v.traverse Interner.intern) t₁ = (.ok l₁, t₁'))
    (hl₂ : (v.traverse Interner.intern) t₂ = (.ok l₂, t₂')) : Coincide t₁' l₁ t₂' l₂ := by
  obtain ⟨-, -, hread₁⟩ := v.lookup_traverse t₁ l₁ t₁' h₁ hl₁
  obtain ⟨-, -, hread₂⟩ := v.lookup_traverse t₂ l₂ t₂' h₂ hl₂
  exact ⟨v, v, hread₁ t₁' .refl, hread₂ t₂' .refl, rfl⟩

/-- The step marks an attribute nested in an entry. -/
def Step.MarksNested {ν : Type} (step : Step ν) : Prop :=
  ∃ entry j path, step = .edit entry (j :: path) .markUsed

theorem AttrList.face_run {ν : Type} [DecidableEq ν] {steps : List (Step ν)}
    (h : ∀ step ∈ steps, step.MarksNested) (l : AttrList ν) : (l.run steps).face = l.face := by
  induction steps generalizing l with
  | nil => rfl
  | cons step steps ih =>
    obtain ⟨entry, j, path, rfl⟩ := h step List.mem_cons_self
    calc ((l.after entry (j :: path) .markUsed).run steps).face
        = (l.after entry (j :: path) .markUsed).face :=
          ih (fun step hstep => h step (List.mem_cons_of_mem _ hstep)) _
      _ = l.face := l.face_after_mark entry j path

/-- **The outputs tell nothing of names, nor of spans and flags inside entries:** they are equal
for lists that coincide, so it makes no difference what the interner was asked before the names
of a list, nor which nested attributes are marked. -/
theorem outputs_of_coincide (h₁ : t₁.Reachable) (h₂ : t₂.Reachable) :
    (∀ l₁ l₂, Coincide t₁ l₁ t₂ l₂ →
      SameOutputs t₁ l₁ t₂ l₂ ∧ ∃ text, l₁.render t₁ = .ok text) ∧
    (∀ ls₁ ls₂, List.Forall₂ (fun l₁ l₂ => Coincide t₁ l₁ t₂ l₂) ls₁ ls₂ →
      (checkUnused t₁ ls₁).start = (checkUnused t₂ ls₂).start) ∧
    (∀ (v : AttrList String) l₁ l₂ t₁' t₂', (v.traverse Interner.intern) t₁ = (.ok l₁, t₁') →
      (v.traverse Interner.intern) t₂ = (.ok l₂, t₂') → SameOutputs t₁' l₁ t₂' l₂) ∧
    ∀ (l : AttrList Name) (steps : List (Step Name)), (∀ step ∈ steps, step.MarksNested) →
      SameOutputs t₁ l t₁ (l.run steps) := by
  have hwf₁ := h₁.wellFormed
  have hwf₂ := h₂.wellFormed
  refine ⟨fun l₁ l₂ h => ?_, fun ls₁ ls₂ => start_checkUnused_of_coincide,
    fun v l₁ l₂ t₁' t₂' hl₁ hl₂ => ?_, fun l steps h => ?_⟩
  · obtain ⟨text, htext, -⟩ := h.exists_render
    exact ⟨h.sameOutputs hwf₁ hwf₂, text, htext⟩
  · obtain ⟨hwf₁', -, -⟩ := v.lookup_traverse t₁ l₁ t₁' hwf₁ hl₁
    obtain ⟨hwf₂', -, -⟩ := v.lookup_traverse t₂ l₂ t₂' hwf₂ hl₂
    exact (coincide_of_named hwf₁ hwf₂ hl₁ hl₂).sameOutputs hwf₁' hwf₂'
  · exact sameOutputs_of_face hwf₁ (l.face_run h).symm

/-- `#[tool(inline)]`, where another text in the shard of `tool` shifts its name, and the nested
attribute has another span and another flag. -/
theorem outputs_of_coincide_shifted :
    let t₁ := (Interner.intern "tool" .initial).2
    let t₂ := (Interner.intern "tool" (Interner.intern "x" .initial).2).2
    let inline : Attr Name := .new ⟨7, 13⟩ (.trivial ⟨2415919105⟩) .bare
    let moved : Attr Name := (Attr.new ⟨8, 14⟩ (.trivial ⟨2415919105⟩) .bare).markUsed
    let l₁ : AttrList Name := ⟨[.new ⟨0, 15⟩ (.trivial ⟨2147483649⟩) (.nested [inline])]⟩
    let l₂ : AttrList Name := ⟨[.new ⟨0, 15⟩ (.trivial ⟨2147483650⟩) (.nested [moved])]⟩
    t₁.Reachable ∧ t₂.Reachable ∧ Coincide t₁ l₁ t₂ l₂ ∧ SameOutputs t₁ l₁ t₂ l₂ ∧
      l₁.render t₁ = .ok "#[tool(inline)]" := by
  intro t₁ t₂ inline moved l₁ l₂
  have htool₁ : Interner.intern "tool" .initial = (.ok ⟨2147483649⟩, t₁) :=
    InternM.eq_of_answer (by decide +kernel)
  have hx : Interner.intern "x" .initial = (.ok ⟨2147483649⟩, (Interner.intern "x" .initial).2) :=
    InternM.eq_of_answer (by decide +kernel)
  have htool₂ : Interner.intern "tool" (Interner.intern "x" .initial).2 = (.ok ⟨2147483650⟩, t₂) :=
    InternM.eq_of_answer (by decide +kernel)
  have h₁ : t₁.Reachable := ⟨_, Interner.History.initial.intern htool₁⟩
  have h₂ : t₂.Reachable := ⟨_, (Interner.History.initial.intern hx).intern htool₂⟩
  let s₁ : AttrList String :=
    ⟨[.new ⟨0, 15⟩ (.trivial "tool") (.nested [.new ⟨7, 13⟩ (.trivial "inline") .bare])]⟩
  let s₂ : AttrList String :=
    ⟨[.new ⟨0, 15⟩ (.trivial "tool")
      (.nested [(Attr.new ⟨8, 14⟩ (.trivial "inline") .bare).markUsed])]⟩
  have hs₁ : l₁.traverse t₁.lookup = .ok s₁ := by decide +kernel
  have hs₂ : l₂.traverse t₂.lookup = .ok s₂ := by decide +kernel
  have hcoincide : Coincide t₁ l₁ t₂ l₂ := ⟨s₁, s₂, hs₁, hs₂, by decide +kernel⟩
  obtain ⟨hsame, -⟩ := outputs_of_coincide h₁ h₂
  exact ⟨h₁, h₂, hcoincide, (hsame l₁ l₂ hcoincide).1, by decide +kernel⟩

end ItemAttrs
