import ItemAttrs.Proofs.Attr.Edit
import ItemAttrs.Proofs.Cache.RoundTrip

/-!
# Names without segments

A name of an attribute is meant to have a segment, and `AttrName.ofSegments` refuses to make one
without. Whatever is then made of such names, by pushes and edits of any kind, has them at every
depth (`Named`, which is about all attributes that a path leads to).

A cache document is not held to this. Its reader takes the segments as they are, so it makes a name
without segments of an empty array, at any depth, and there is no list that it could not make.

* `Attr.named_iff_read`: what `Named` says of paths;
* `Attr.Named.edited?` is one edit, and `AttrList.Named.run` a run of steps;
* `NameOf` and `NameIn` find the names in a document, as the reader does;
* `Attr.named_iff_nameOf`, by induction on the room of the reader, and `AttrList.named_iff_nameIn`:
  what is read has segments in its names just if the document has;
* `segments_unless_read` puts these together, and `nameless_read` is a document of the other kind.
-/

namespace ItemAttrs

variable {ν : Type} {l : AttrList ν} {a b : Attr ν} {e : Edit ν} {path : List Nat}

/-- **Each name has a segment,** that of the attribute and those of the attributes nested in it. -/
inductive Attr.Named : Attr ν → Prop where
  | intro {a : Attr ν} (segments_ne : a.name.segments ≠ [])
    (items : ∀ items, a.payload.asItems? = some items → ∀ b ∈ items, Named b) : Named a

/-- Each name in a payload has a segment. -/
def Payload.Named (p : Payload ν) : Prop := ∀ items, p.asItems? = some items → ∀ b ∈ items, b.Named

/-- **Each name in a list has a segment,** at whatever depth. -/
def AttrList.Named (l : AttrList ν) : Prop := ∀ a ∈ l.items, a.Named

/-- The names that an edit brings in have segments. -/
def Edit.Named : Edit ν → Prop
  | .replacePayload p => p.Named
  | .assign a => a.Named
  | .pushItem item => item.Named
  | .markUsed | .clearItems => True

/-- The names that a step brings in have segments. -/
def Step.Named : Step ν → Prop
  | .push a => a.Named
  | .edit _ _ e => e.Named

/-! ### At every depth -/

namespace Attr

theorem named_iff : a.Named ↔ a.name.segments ≠ [] ∧ a.payload.Named := by
  constructor
  · rintro ⟨hsegments, hitems⟩
    exact ⟨hsegments, hitems⟩
  · rintro ⟨hsegments, hitems⟩
    exact ⟨hsegments, hitems⟩

/-- **All attributes that a path leads to** have names with segments. -/
theorem named_iff_read (a : Attr ν) :
    a.Named ↔ ∀ path b, a.read path = .ok b → b.name.segments ≠ [] := by
  constructor
  · intro h path
    induction path generalizing a with
    | nil =>
      rintro b ⟨⟩
      exact (named_iff.mp h).1
    | cons j path ih =>
      intro b hb
      obtain ⟨c, hc, hb⟩ := read_cons_eq_ok_iff.mp hb
      obtain ⟨items, hitems, hj⟩ := item_eq_ok_iff.mp hc
      exact ih c ((named_iff.mp h).2 items hitems c (List.mem_of_getElem? hj)) b hb
  · intro h
    induction a with
    | bare span name used => exact named_iff.mpr ⟨h [] _ rfl, by rintro items ⟨⟩⟩
    | value span name expr used => exact named_iff.mpr ⟨h [] _ rfl, by rintro items ⟨⟩⟩
    | text span name content used => exact named_iff.mpr ⟨h [] _ rfl, by rintro items ⟨⟩⟩
    | nested span name items used ih =>
      refine named_iff.mpr ⟨h [] _ rfl, ?_⟩
      rintro _ ⟨⟩ c hc
      -- a path from a nested attribute is one from here with an index before it
      refine ih c hc fun path b hb => ?_
      obtain ⟨j, hj⟩ := List.mem_iff_getElem?.mp hc
      exact h (j :: path) b (read_cons_eq_ok_iff.mpr ⟨c, item_eq_ok_iff.mpr ⟨items, rfl, hj⟩, hb⟩)

/-! ### Edits -/

theorem Named.withPayload {p : Payload ν} (h : a.Named) (hp : p.Named) : (a.withPayload p).Named :=
  named_iff.mpr ⟨(named_iff.mp h).1, hp⟩

/-- **What one edit preserves,** wherever it is made. -/
theorem Named.edited? (h : a.Named) (he : e.Named) (hb : a.edited? e path = some b) : b.Named := by
  obtain ⟨hsegments, hpayload⟩ := named_iff.mp h
  induction path generalizing a b with
  | nil =>
    cases e with
    | markUsed =>
      cases hb
      exact named_iff.mpr ⟨hsegments, hpayload⟩
    | replacePayload p =>
      cases hb
      exact h.withPayload he
    | assign c =>
      cases hb
      exact he
    | pushItem item =>
      rw [edited?_pushItem, Option.map_eq_some_iff] at hb
      obtain ⟨items, hitems, rfl⟩ := hb
      refine h.withPayload ?_
      rintro _ ⟨⟩ c hc
      rcases List.mem_append.mp hc with hc | hc
      · exact hpayload items hitems c hc
      · exact List.mem_singleton.mp hc ▸ he
    | clearItems =>
      rw [edited?_clearItems, Option.map_eq_some_iff] at hb
      obtain ⟨items, -, rfl⟩ := hb
      refine h.withPayload ?_
      rintro _ ⟨⟩ c hc
      exact nomatch hc
  | cons j path ih =>
    rw [edited?_cons] at hb
    simp only [Option.bind_eq_some_iff, Option.map_eq_some_iff] at hb
    obtain ⟨items, hitems, c, hc, d, hd, rfl⟩ := hb
    have hcnamed := hpayload items hitems c (List.mem_of_getElem? hc)
    have hdnamed := ih hcnamed hd (named_iff.mp hcnamed).1 (named_iff.mp hcnamed).2
    refine h.withPayload ?_
    rintro _ ⟨⟩ b hb
    rcases List.mem_or_eq_of_mem_set hb with hb | rfl
    · exact hpayload items hitems b hb
    · exact hdnamed

end Attr

namespace AttrList

theorem named_iff_read (l : AttrList ν) :
    l.Named ↔ ∀ i path b, l.read i path = .ok b → b.name.segments ≠ [] := by
  constructor
  · intro h i path b hb
    rw [read] at hb
    cases hi : l.items[i]? with
    | none =>
      rw [hi] at hb
      exact nomatch hb
    | some a =>
      rw [hi] at hb
      exact (a.named_iff_read.mp (h a (List.mem_of_getElem? hi))) path b hb
  · intro h a ha
    obtain ⟨i, hi⟩ := List.mem_iff_getElem?.mp ha
    refine a.named_iff_read.mpr fun path b hb => h i path b ?_
    rw [read, hi]
    exact hb

variable [DecidableEq ν]

/-- **What one step preserves.** -/
theorem Named.step (h : l.Named) {step : Step ν} (hstep : step.Named) : (l.step step).Named := by
  cases step with
  | push a =>
    intro b hb
    rcases List.mem_append.mp hb with hb | hb
    · exact h b hb
    · exact List.mem_singleton.mp hb ▸ hstep
  | edit entry path e =>
    rcases l.after_cases entry path e with hsame | ⟨i, a, b, -, ha, hb, hafter⟩
    · rw [AttrList.step, hsame]
      exact h
    · intro c hc
      rw [AttrList.step, hafter] at hc
      rcases List.mem_or_eq_of_mem_set hc with hc | rfl
      · exact h c hc
      · exact (h a (List.mem_of_getElem? ha)).edited? hstep hb

/-- **What a whole run preserves.** -/
theorem Named.run (h : l.Named) {steps : List (Step ν)} (hsteps : ∀ step ∈ steps, step.Named) :
    (l.run steps).Named := by
  induction steps generalizing l with
  | nil => exact h
  | cons step steps ih =>
    exact ih (h.step (hsteps step List.mem_cons_self))
      fun s hs => hsteps s (List.mem_cons_of_mem step hs)

end AttrList

/-! ### Documents -/

namespace Json

/-- **A name in the document of an attribute:** that of the attribute itself, or one in the
document of an attribute nested in it. -/
inductive NameOf : Json → Json → Prop where
  | own {j span name data used : Json}
    (h : j.record? ["span", "name", "data", "is_used"] = some [span, name, data, used]) :
    NameOf name j
  | nested {s j span name data used content k : Json} {items : List Json}
    (h : j.record? ["span", "name", "data", "is_used"] = some [span, name, data, used])
    (hdata : data.variant? = some ("List", some content))
    (hitems : content.asArray? = some items) (hk : k ∈ items) (hs : NameOf s k) : NameOf s j

/-- **A name in the document of a list.** -/
def NameIn (s j : Json) : Prop :=
  ∃ content items k, j.record? ["items"] = some [content] ∧ content.asArray? = some items ∧
    k ∈ items ∧ NameOf s k

/-- The document of a name gives it no segments. -/
def Nameless (s : Json) : Prop := s.record? ["segments"] = some [.array []]

end Json

theorem Name.allOfJson?_eq_nil_iff {room : Nat} {j : Json} {names : List Name}
    (h : allOfJson? room j = some names) : names = [] ↔ j = .array [] := by
  cases room with
  | zero => exact nomatch h
  | succ room =>
    obtain ⟨items, hitems, h⟩ := Option.bind_eq_some_iff.mp h
    have hlength := (forall₂_of_mapM_eq_some h).length_eq
    cases j <;> cases hitems
    rw [← List.length_eq_zero_iff, ← hlength, List.length_eq_zero_iff, Json.array.injEq]

section Reading

variable {room : Nat} {j : Json}

/-- **A name that is read** has no segments just if its document gives it none. -/
theorem AttrName.segments_eq_nil_iff {name : AttrName Name} (h : ofJson? room j = some name) :
    name.segments = [] ↔ j.Nameless := by
  cases room with
  | zero => exact nomatch h
  | succ room =>
    obtain ⟨values, hvalues, h⟩ := Option.bind_eq_some_iff.mp h
    split at h
    · next segments =>
      obtain ⟨names, hnames, h⟩ := Option.bind_eq_some_iff.mp h
      cases h
      rw [Name.allOfJson?_eq_nil_iff hnames, Json.Nameless, hvalues]
      simp
    · exact nomatch h

/-- **An attribute that is read** is the record of a name and a payload that are read. -/
theorem Attr.of_ofJson? {a : Attr Name} (h : ofJson? (room + 1) j = some a) :
    ∃ span name data used,
      j.record? ["span", "name", "data", "is_used"] = some [span, name, data, used] ∧
        AttrName.ofJson? room name = some a.name ∧ Payload.ofJson? room data = some a.payload := by
  rw [ofJson?] at h
  obtain ⟨values, hvalues, h⟩ := Option.bind_eq_some_iff.mp h
  split at h
  · next span name data used =>
    simp only [Option.bind_eq_bind, Option.bind_eq_some_iff, Option.pure_def,
      Option.some.injEq] at h
    obtain ⟨span', -, name', hname, payload, hpayload, used', -, rfl⟩ := h
    exact ⟨span, name, data, used, hvalues, hname, hpayload⟩
  · cases h

/-- **A payload that is read** has what is read from the content behind the tag of a list, if it
has this tag, and nothing nested in it otherwise. -/
theorem Payload.of_ofJson? {p : Payload Name} (h : ofJson? room j = some p) :
    (p.asItems? = none ∧ ∀ content, j.variant? ≠ some ("List", some content)) ∨
      ∃ room' content items, room = room' + 1 ∧ j.variant? = some ("List", some content) ∧
        Attr.allOfJson? room' content = some items ∧ p.asItems? = some items := by
  cases room with
  | zero =>
    rw [ofJson?] at h
    obtain ⟨variant, hvariant, h⟩ := Option.bind_eq_some_iff.mp h
    split at h <;> cases h
    exact .inl ⟨rfl, fun content => by simp [hvariant]⟩
  | succ room =>
    rw [ofJson?] at h
    obtain ⟨variant, hvariant, h⟩ := Option.bind_eq_some_iff.mp h
    split at h
    case h_1 | h_2 =>
      cases h
      exact .inl ⟨rfl, fun content => by simp [hvariant]⟩
    case h_3 | h_4 =>
      obtain ⟨_, -, h⟩ := Option.bind_eq_some_iff.mp h
      cases h
      exact .inl ⟨rfl, fun content => by simp [hvariant]⟩
    case h_5 content =>
      obtain ⟨items, hitems, h⟩ := Option.bind_eq_some_iff.mp h
      cases h
      exact .inr ⟨room, content, items, rfl, hvariant, hitems, rfl⟩
    case h_6 => cases h

theorem Attr.of_allOfJson? {as : List (Attr Name)} (h : allOfJson? (room + 1) j = some as) :
    ∃ items, j.asArray? = some items ∧
      List.Forall₂ (fun k a => ofJson? room k = some a) items as := by
  rw [allOfJson?] at h
  obtain ⟨items, hitems, h⟩ := Option.bind_eq_some_iff.mp h
  exact ⟨items, hitems, forall₂_of_mapM_eq_some h⟩

end Reading

/-! ### What a document has to give -/

section Documents

variable {room : Nat} {j s : Json}

theorem Json.nameOf_iff {span name data used : Json}
    (h : j.record? ["span", "name", "data", "is_used"] = some [span, name, data, used]) :
    s.NameOf j ↔ s = name ∨ ∃ content items k, data.variant? = some ("List", some content) ∧
      content.asArray? = some items ∧ k ∈ items ∧ s.NameOf k := by
  constructor
  · intro hs
    cases hs with
    | own h' =>
      cases h.symm.trans h'
      exact .inl rfl
    | nested h' hdata hitems hk hs =>
      cases h.symm.trans h'
      exact .inr ⟨_, _, _, hdata, hitems, hk, hs⟩
  · rintro (rfl | ⟨content, items, k, hdata, hitems, hk, hs⟩)
    · exact .own h
    · exact .nested h hdata hitems hk hs

theorem Attr.forall_named_iff {items : List Json} {as : List (Attr Name)}
    (h : List.Forall₂ (fun k a => a.Named ↔ ∀ s : Json, s.NameOf k → ¬s.Nameless) items as) :
    (∀ a ∈ as, a.Named) ↔ ∀ k ∈ items, ∀ s : Json, s.NameOf k → ¬s.Nameless := by
  induction h with
  | nil => simp
  | cons hk _ ih => rw [List.forall_mem_cons, List.forall_mem_cons, hk, ih]

/-- **An attribute that is read** has names with segments just if its document gives each of them
some. -/
theorem Attr.named_iff_nameOf {a : Attr Name} (h : ofJson? room j = some a) :
    a.Named ↔ ∀ s : Json, s.NameOf j → ¬s.Nameless := by
  -- what is nested in an attribute is read with less room
  induction room using Nat.strongRecOn generalizing j a with
  | ind room ih =>
    cases room with
    | zero => exact nomatch h
    | succ room =>
      obtain ⟨span, name, data, used, hfields, hname, hdata⟩ := of_ofJson? h
      rw [named_iff, ne_eq, AttrName.segments_eq_nil_iff hname]
      simp only [Json.nameOf_iff hfields, forall_eq_or_imp]
      refine and_congr_right fun _ => ?_
      rcases Payload.of_ofJson? hdata with
        ⟨hnone, htag⟩ | ⟨room', content, as, rfl, htag, has, hpayload⟩
      · refine iff_of_true (fun items hitems => nomatch hnone.symm.trans hitems) ?_
        rintro s ⟨content, -, -, hcontent, -⟩
        exact absurd hcontent (htag content)
      · cases room' with
        | zero => exact nomatch has
        | succ room' =>
          obtain ⟨items, hitems, hread⟩ := of_allOfJson? has
          have hnamed := forall_named_iff (hread.imp fun k b hb => ih room' (by omega) hb)
          simp only [Payload.Named, hpayload, htag, Option.some.injEq, forall_eq', hnamed,
            Prod.mk.injEq, true_and]
          constructor
          · rintro hall s ⟨_, _, k, rfl, hitems', hk, hs⟩
            cases hitems.symm.trans hitems'
            exact hall k hk s hs
          · intro hall k hk s hs
            exact hall s ⟨content, items, k, rfl, hitems, hk, hs⟩

/-- **A list that is read** has names with segments, at every depth, just if its document gives
each of them some. -/
theorem AttrList.named_iff_nameIn {l : AttrList Name} (h : ofJson? room j = some l) :
    l.Named ↔ ∀ s : Json, s.NameIn j → ¬s.Nameless := by
  cases room with
  | zero => exact nomatch h
  | succ room =>
    obtain ⟨values, hvalues, h⟩ := Option.bind_eq_some_iff.mp h
    split at h
    · next content =>
      obtain ⟨as, has, h⟩ := Option.bind_eq_some_iff.mp h
      cases h
      cases room with
      | zero => exact nomatch has
      | succ room =>
        obtain ⟨items, hitems, hread⟩ := Attr.of_allOfJson? has
        have hnamed := Attr.forall_named_iff (hread.imp fun k b hb => Attr.named_iff_nameOf hb)
        rw [Named, hnamed]
        constructor
        · rintro hall s ⟨_, _, k, hcontent, hitems', hk, hs⟩
          cases hvalues.symm.trans hcontent
          cases hitems.symm.trans hitems'
          exact hall k hk s hs
        · intro hall k hk s hs
          exact hall s ⟨content, items, k, hvalues, hitems, hk, hs⟩
    · exact nomatch h

end Documents

/-! ### The two ways to come by a name -/

/-- **Names have segments unless they are read without.** Those that are made have some, and so has
each name in a list that is pushed and edited together from attributes that have them, at whatever
depth. A name that is read has none just if its document gives it none, and a list has such a name,
at whatever depth, just if its document does. Reading refuses no name for it, since there is no
list that could not be read. -/
theorem segments_unless_read (room : Nat) (j : Json) :
    (∀ name, AttrName.ofJson? room j = some name → (name.segments ≠ [] ↔ ¬j.Nameless)) ∧
      (∀ l, AttrList.ofJson? room j = some l →
        ((∀ i path a, l.read i path = .ok a → a.name.segments ≠ []) ↔
          ∀ s : Json, s.NameIn j → ¬s.Nameless)) ∧
      (∀ l : AttrList Name, ∃ text k room',
        Json.read? text = some k ∧ AttrList.ofJson? room' k = some l) ∧
      (∀ n : Name, (AttrName.trivial n).segments ≠ []) ∧
      (∀ segments : List Name, AttrName.ofSegments segments =
        if segments = [] then .error .noSegments else .ok ⟨segments⟩) ∧
      ∀ (l : AttrList Name) steps, l.Named → (∀ step ∈ steps, step.Named) →
        ∀ i path a, (l.run steps).read i path = .ok a → a.name.segments ≠ [] := by
  refine ⟨fun name h => not_congr (AttrName.segments_eq_nil_iff h), fun l h => ?_, fun l => ?_,
    fun n => List.cons_ne_nil n [], fun segments => ?_, fun l steps hl hsteps => ?_⟩
  · rw [← l.named_iff_read]
    exact AttrList.named_iff_nameIn h
  · exact ⟨l.toJson.toText, l.toJson, l.toJson.depth, Json.read?_toText l.spelled_toJson,
      l.reads_toJson.enough _ (Nat.le_refl _)⟩
  · cases segments <;> rfl
  · exact (AttrList.named_iff_read _).mp (hl.run hsteps)

/-- **A document that is accepted,** and whose only attribute has a name without segments. -/
theorem nameless_read :
    let text := "\x7b\"items\":[\x7b\"span\":\x7b\"start\":0,\"end\":1\x7d,"
      ++ "\"name\":\x7b\"segments\":[]\x7d,\"data\":\"None\",\"is_used\":false\x7d]\x7d"
    ∃ j l a, Json.read? text = some j ∧ AttrList.ofJson? nestingLimit j = some l ∧
      l.read 0 [] = .ok a ∧ a.name.segments = [] := by
  intro text
  let a : Attr Name := .new ⟨0, 1⟩ ⟨[]⟩ .bare
  let l : AttrList Name := ⟨[a]⟩
  -- the document is the one that the list itself is written to
  have htext : l.toJson.toText = text := by decide +kernel
  have hdepth : l.toJson.depth ≤ nestingLimit := by decide +kernel
  have hread := Json.read?_toText l.spelled_toJson
  rw [htext] at hread
  exact ⟨l.toJson, l, a, hread, l.reads_toJson.enough nestingLimit hdepth, rfl, rfl⟩

end ItemAttrs
