import ItemAttrs.Attr.Edit
import ItemAttrs.Proofs.Attr.Strip

/-!
# What an edit leaves alone

An edit changes one attribute and rebuilds those around it, so all else stays as it is. What the
rest relies on are two equations, one for each level of nesting (`edited?_cons`) and one for the
list (`after_eq`). A fault and a missing entry count as no change.

* `edited?_eq`: an attribute may get another payload, and only a mark on this very attribute sets
  its flag;
* `strip_edited?` and `strip_after`: what attributes say afterwards depends on what they said
  before, not on spans or flags;
* `strip_of_marked` and `face_after_mark`: marks do not change what attributes say, and a mark on
  a nested attribute is not seen at all.
-/

namespace ItemAttrs

variable {ν : Type}

theorem toOption_bind {α β : Type} (x : Except Fault α) (f : α → Except Fault β) :
    (x >>= f).toOption = x.toOption.bind fun a => (f a).toOption := by
  cases x <;> rfl

@[simp] theorem Payload.asItems?_strip (p : Payload ν) :
    p.strip.asItems? = p.asItems?.map (List.map Attr.strip) := by
  cases p <;> simp [strip, asItems?]

theorem map_set_of_eq {α β : Type} {f : α → β} {as : List α} {i : Nat} {a b : α}
    (ha : as[i]? = some a) (h : f b = f a) : (as.set i b).map f = as.map f := by
  have hmap : (as.map f)[i]? = some (f a) := by rw [List.getElem?_map, ha, Option.map_some]
  obtain ⟨hi, hget⟩ := List.getElem?_eq_some_iff.mp hmap
  rw [List.map_set, h, ← hget, List.set_getElem_self]

namespace Attr

variable {e : Edit ν} {a b : Attr ν} {path : List Nat} {j : Nat}

/-! ### One attribute -/

theorem toOption_items (a : Attr ν) : a.items.toOption = a.payload.asItems? := by
  obtain ⟨span, name, payload, used⟩ := a
  cases payload <;> rfl

theorem toOption_item (a : Attr ν) (j : Nat) :
    (a.item j).toOption = a.payload.asItems?.bind fun items => items[j]? := by
  rw [item, toOption_bind, toOption_items]
  congr 1
  funext items
  cases items[j]? <;> rfl

theorem item_eq_ok_iff : a.item j = .ok b ↔
    ∃ items, a.payload.asItems? = some items ∧ items[j]? = some b := by
  rw [← Option.bind_eq_some_iff, ← toOption_item]
  cases a.item j <;> simp [Except.toOption]

theorem read_cons_eq_ok_iff : a.read (j :: path) = .ok b ↔
    ∃ c, a.item j = .ok c ∧ c.read path = .ok b := by
  rw [read]
  cases a.item j with
  | error cause => simp [bind, Except.bind]
  | ok c => simp [bind, Except.bind]

theorem setItem_eq {items : List (Attr ν)} (h : a.payload.asItems? = some items) (j : Nat)
    (b : Attr ν) : a.setItem j b = a.withPayload (.nested (items.set j b)) := by
  obtain ⟨span, name, payload, used⟩ := a
  cases payload <;> cases h
  rfl

/-- The attribute after an edit along a path, if there is no fault. -/
def edited? (e : Edit ν) (a : Attr ν) (path : List Nat) : Option (Attr ν) :=
  (a.edit e path).toOption.map Prod.fst

theorem edited?_nil (e : Edit ν) (a : Attr ν) :
    a.edited? e [] = (e.apply a).toOption.map Prod.fst := rfl

theorem edited?_pushItem (a item : Attr ν) : a.edited? (.pushItem item) [] =
    a.payload.asItems?.map fun items => a.withPayload (.nested (items ++ [item])) := by
  rw [edited?_nil, Edit.apply, toOption_bind, toOption_items]
  cases a.payload.asItems? <;> rfl

theorem edited?_clearItems (a : Attr ν) : a.edited? .clearItems [] =
    a.payload.asItems?.map fun _ => a.withPayload (.nested []) := by
  rw [edited?_nil, Edit.apply, toOption_bind, toOption_items]
  cases a.payload.asItems? <;> rfl

/-- **An edit of a nested attribute** puts the edited one in the place of the former one. -/
theorem edited?_cons (e : Edit ν) (a : Attr ν) (j : Nat) (path : List Nat) :
    a.edited? e (j :: path) = a.payload.asItems?.bind fun items => items[j]?.bind fun c =>
      (c.edited? e path).map fun d => a.withPayload (.nested (items.set j d)) := by
  rw [edited?, edit, toOption_bind, toOption_item]
  cases hitems : a.payload.asItems? with
  | none => rfl
  | some items =>
    cases hc : items[j]? with
    | none => simp [hc]
    | some c =>
      simp only [Option.bind_some, hc, edited?, toOption_bind]
      cases c.edit e path with
      | error cause => rfl
      | ok r => exact congrArg some (setItem_eq hitems j r.1)

/-- **Only a mark on the attribute itself sets its flag.** Any other edit comes to another
payload, unless it stores another attribute. -/
theorem edited?_eq (h : a.edited? e path = some b) :
    (path = [] ∧ e = .markUsed ∧ b = a.markUsed) ∨ (path = [] ∧ e = .assign b) ∨
      (¬(path = [] ∧ e = .markUsed) ∧ ∃ p, b = a.withPayload p) := by
  -- what is nested in an attribute is part of its payload, so an edit further down is one of that
  cases path with
  | nil =>
    cases e with
    | markUsed =>
      cases h
      exact .inl ⟨rfl, rfl, rfl⟩
    | assign c =>
      cases h
      exact .inr (.inl ⟨rfl, rfl⟩)
    | replacePayload p =>
      cases h
      exact .inr (.inr ⟨by simp, p, rfl⟩)
    | pushItem item =>
      rw [edited?_pushItem, Option.map_eq_some_iff] at h
      obtain ⟨items, -, rfl⟩ := h
      exact .inr (.inr ⟨by simp, _, rfl⟩)
    | clearItems =>
      rw [edited?_clearItems, Option.map_eq_some_iff] at h
      obtain ⟨items, -, rfl⟩ := h
      exact .inr (.inr ⟨by simp, _, rfl⟩)
  | cons j path =>
    rw [edited?_cons] at h
    simp only [Option.bind_eq_some_iff, Option.map_eq_some_iff] at h
    obtain ⟨items, -, c, -, d, -, rfl⟩ := h
    exact .inr (.inr ⟨by simp, _, rfl⟩)

/-! ### What the attribute says -/

theorem strip_withPayload (a : Attr ν) (p : Payload ν) :
    (a.withPayload p).strip = a.strip.withPayload p.strip := by
  cases a
  rfl

theorem strip_markUsed (a : Attr ν) : a.markUsed.strip = a.strip := by
  cases a
  rfl

theorem strip_nested (items : List (Attr ν)) :
    (Payload.nested items).strip = .nested (items.map strip) := by
  rw [Payload.strip, stripAll_eq_map]

/-- **What an attribute says after an edit** depends on what it said before. -/
theorem strip_edited? (e : Edit ν) (a : Attr ν) (path : List Nat) :
    (a.strip.edited? e path).map strip = (a.edited? e path).map strip := by
  induction path generalizing a with
  | nil =>
    cases e with
    | markUsed =>
      change some a.strip.markUsed.strip = some a.markUsed.strip
      rw [strip_markUsed, strip_markUsed, strip_strip]
    | replacePayload p =>
      change some (a.strip.withPayload p).strip = some (a.withPayload p).strip
      rw [strip_withPayload, strip_withPayload, strip_strip]
    | assign c => rfl
    | pushItem item =>
      simp only [edited?_pushItem, strip_payload, Payload.asItems?_strip, Option.map_map,
        Function.comp_def, strip_withPayload, strip_strip, strip_nested, List.map_append,
        List.map_map]
    | clearItems =>
      simp only [edited?_clearItems, strip_payload, Payload.asItems?_strip, Option.map_map,
        Function.comp_def, strip_withPayload, strip_strip]
  | cons j path ih =>
    rw [edited?_cons, edited?_cons]
    simp only [strip_payload, Payload.asItems?_strip, Option.map_bind, Option.bind_map,
      Option.map_map, Function.comp_def, List.getElem?_map, strip_withPayload, strip_strip,
      strip_nested, List.map_set, List.map_map]
    refine Option.bind_congr fun items _ => Option.bind_congr fun c _ => ?_
    -- on both sides it is only what the edited attribute says that goes into the list
    have hc := congrArg (Option.map fun d =>
      a.strip.withPayload (.nested ((items.map strip).set j d))) (ih c)
    rwa [Option.map_map, Option.map_map] at hc

/-- **A mark does not change what an attribute says,** at whatever depth it is set. -/
theorem strip_of_marked (h : a.edited? .markUsed path = some b) : b.strip = a.strip := by
  induction path generalizing a b with
  | nil =>
    cases h
    exact a.strip_markUsed
  | cons j path ih =>
    rw [edited?_cons] at h
    simp only [Option.bind_eq_some_iff, Option.map_eq_some_iff] at h
    obtain ⟨items, hitems, c, hc, d, hd, rfl⟩ := h
    -- the marked attribute says what the one in its place said, so the whole list does
    obtain ⟨span, name, payload, used⟩ := a
    cases payload <;> cases hitems
    rw [strip_withPayload, strip_nested, map_set_of_eq hc (ih hd), ← strip_nested]
    rfl

end Attr

namespace AttrList

/-! ### A list -/

section LookUp

variable [DecidableEq ν]

/-- **A list after an edit:** the edited entry is in the place of the former one, if there is
such an entry and no fault. -/
theorem after_eq (l : AttrList ν) (entry : Entry ν) (path : List Nat) (e : Edit ν) :
    l.after entry path e =
      ⟨((l.locate? entry).bind fun i => l.items[i]?.bind fun a =>
        (a.edited? e path).map (l.items.set i)).getD l.items⟩ := by
  rw [after, edit]
  cases l.locate? entry with
  | none => rfl
  | some i =>
    simp only [editAt, Option.bind_some]
    cases l.items[i]? with
    | none => rfl
    | some a =>
      simp only [Option.bind_some, Attr.edited?]
      cases a.edit e path <;> rfl

/-- An edit changes one entry or none. -/
theorem after_cases (l : AttrList ν) (entry : Entry ν) (path : List Nat) (e : Edit ν) :
    l.after entry path e = l ∨ ∃ i a b, l.locate? entry = some i ∧ l.items[i]? = some a ∧
      a.edited? e path = some b ∧ l.after entry path e = ⟨l.items.set i b⟩ := by
  rw [after_eq]
  cases hi : l.locate? entry with
  | none => exact .inl rfl
  | some i =>
    cases ha : l.items[i]? with
    | none => exact .inl (by rw [Option.bind_some, ha]; rfl)
    | some a =>
      cases hb : a.edited? e path with
      | none => exact .inl (by rw [Option.bind_some, ha, Option.bind_some, hb]; rfl)
      | some b =>
        refine .inr ⟨i, a, b, rfl, ha, hb, ?_⟩
        rw [Option.bind_some, ha, Option.bind_some, hb]
        rfl

/-- Which entry is chosen depends on the names of the entries. -/
theorem locate?_congr {l l' : AttrList ν} (h : l.items.map Attr.name = l'.items.map Attr.name)
    (entry : Entry ν) : l.locate? entry = l'.locate? entry := by
  cases entry with
  | index i => rfl
  | named n =>
    have hfind : ∀ l : AttrList ν,
        l.findIdx? n = (l.items.map Attr.name).findIdx? fun name => name.is n := by
      intro l
      rw [findIdx?, List.findIdx?_map]
      rfl
    rw [locate?, locate?, hfind, hfind, h]

theorem locate?_strip (l : AttrList ν) (entry : Entry ν) :
    l.strip.locate? entry = l.locate? entry := by
  apply locate?_congr
  simp only [strip, List.map_map, Function.comp_def, Attr.strip_name]

/-- **What the entries say after an edit** depends on what they said before. -/
theorem strip_after (l : AttrList ν) (entry : Entry ν) (path : List Nat) (e : Edit ν) :
    (l.strip.after entry path e).strip = (l.after entry path e).strip := by
  rw [after_eq, after_eq, locate?_strip]
  cases l.locate? entry with
  | none => exact l.strip_strip
  | some i =>
    have ha : l.strip.items[i]? = l.items[i]?.map Attr.strip := List.getElem?_map
    simp only [Option.bind_some, ha]
    cases l.items[i]? with
    | none => exact l.strip_strip
    | some a =>
      have hb := a.strip_edited? e path
      simp only [Option.map_some, Option.bind_some]
      -- the edit fails in both places or in neither
      cases hstripped : a.strip.edited? e path with
      | none =>
        rw [hstripped, eq_comm, Option.map_none, Option.map_eq_none_iff] at hb
        rw [hb]
        exact l.strip_strip
      | some c =>
        rw [hstripped, eq_comm, Option.map_some, Option.map_eq_some_iff] at hb
        obtain ⟨b, hb, hbc⟩ := hb
        rw [hb]
        simp only [strip, Option.map_some, Option.getD_some, List.map_set, List.map_map,
          Function.comp_def, Attr.strip_strip, hbc]

theorem strip_after_mark (l : AttrList ν) (entry : Entry ν) (path : List Nat) :
    (l.after entry path .markUsed).strip = l.strip := by
  rcases l.after_cases entry path .markUsed with h | ⟨i, a, b, -, ha, hb, h⟩
  · rw [h]
  · rw [h, strip, map_set_of_eq ha (Attr.strip_of_marked hb), ← strip]

/-- **A mark on a nested attribute** is not seen. -/
theorem face_after_mark (l : AttrList ν) (entry : Entry ν) (j : Nat) (path : List Nat) :
    (l.after entry (j :: path) .markUsed).face = l.face := by
  rcases l.after_cases entry (j :: path) .markUsed with h | ⟨i, a, b, -, ha, hb, h⟩
  · rw [h]
  · have hface : b.face = a.face := by
      rcases Attr.edited?_eq hb with ⟨hpath, -⟩ | ⟨hpath, -⟩ | ⟨-, p, rfl⟩
      · exact nomatch hpath
      · exact nomatch hpath
      · exact Attr.face_eq_iff.mpr ⟨rfl, rfl, Attr.strip_of_marked hb⟩
    rw [h, face, map_set_of_eq ha hface, ← face]

end LookUp

end AttrList

end ItemAttrs
