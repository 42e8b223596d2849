import ItemAttrs.Proofs.Attr.Edit

/-!
# Going down into an attribute

An edit goes down a path, from an attribute to one nested in it, changes the attribute at the end
and leaves a changed attribute at each level above. All of it is one change of a nested attribute
on top of the other (`Attr.after_cons`), and a change of a nested attribute is seen only by those
who go down to the same one (`Attr.item_modifyItem`). The laws for whole paths follow by induction
on the path:

* `Attr.read_after_append`: at the end of the path stands the edited attribute, and above it the
  attributes are what they were, but for what is nested in them;
* `Attr.read_after_apart` and `Attr.after_comm`: paths that part do not meet again;
* `Attr.editInPlace_eq`: writing back what has become of a nested attribute at every level, fault
  or not, is the same as keeping the attribute in case of a fault, since a fault comes before the
  only change.
-/

namespace ItemAttrs

variable {ν : Type}

/-- **Two paths part:** they have some steps in common, and then go to different attributes. -/
def Apart (p q : List Nat) : Prop := ¬p <+: q ∧ ¬q <+: p

instance (p q : List Nat) : Decidable (Apart p q) := inferInstanceAs (Decidable (_ ∧ _))

/-- **What a path leads to.** Each index is that of an attribute nested in the one before. -/
inductive Attr.Leads : Attr ν → List Nat → Attr ν → Prop where
  | here (a : Attr ν) : Leads a [] a
  | down {a b c : Attr ν} {items : List (Attr ν)} {j : Nat} {path : List Nat}
      (nested : a.payload = .nested items) (item : items[j]? = some b) (rest : Leads b path c) :
      Leads a (j :: path) c

/-- **What an edit makes of an attribute.** Nothing can be pushed to the nested attributes, and
they cannot be removed, if there are none. -/
inductive Edit.Makes : Edit ν → Attr ν → Attr ν → Prop where
  | markUsed (a : Attr ν) : Makes .markUsed a { a with used := true }
  | replacePayload (p : Payload ν) (a : Attr ν) :
      Makes (.replacePayload p) a { a with payload := p }
  | assign (b a : Attr ν) : Makes (.assign b) a b
  | pushItem (item : Attr ν) {a : Attr ν} {items : List (Attr ν)}
      (nested : a.payload = .nested items) :
      Makes (.pushItem item) a { a with payload := .nested (items ++ [item]) }
  | clearItems {a : Attr ν} {items : List (Attr ν)} (nested : a.payload = .nested items) :
      Makes .clearItems a { a with payload := .nested [] }

/-- The edit is one of the nested attributes. -/
def Edit.OfItems : Edit ν → Prop
  | .pushItem _ | .clearItems => True
  | .markUsed | .replacePayload _ | .assign _ => False

/-- **Two attributes agree but for what is nested in them,** and there is equally much of that. -/
structure Attr.SameFrame (a b : Attr ν) : Prop where
  span_eq : b.span = a.span
  name_eq : b.name = a.name
  used_eq : b.used = a.used
  nested : ∃ items items', a.payload = .nested items ∧ b.payload = .nested items' ∧
    items'.length = items.length

/-- **Edits an attribute in place.** Whatever has become of a nested attribute is written back,
also if there has been a fault. -/
def Attr.editInPlace (e : Edit ν) (a : Attr ν) : List Nat → Except Fault (Outcome ν) × Attr ν
  | [] =>
    match e.apply a with
    | .ok (b, outcome) => (.ok outcome, b)
    | .error cause => (.error cause, a)
  | j :: path =>
    match a.item j with
    | .ok b => ((editInPlace e b path).1, a.setItem j (editInPlace e b path).2)
    | .error cause => (.error cause, a)

variable {e f : Edit ν} {a b c : Attr ν} {i j k : Nat} {path p q : List Nat}

/-! ### Paths that part -/

theorem apart_cons_iff : Apart (i :: p) (k :: q) ↔ (i = k → Apart p q) := by
  unfold Apart
  rw [List.cons_prefix_cons, List.cons_prefix_cons]
  by_cases hik : i = k
  · simp [hik]
  · simp [hik, Ne.symm hik]

theorem not_apart_nil_left : ¬Apart [] q := fun h => h.1 List.nil_prefix

theorem not_apart_nil_right : ¬Apart p [] := fun h => h.2 List.nil_prefix

/-! ### What a path leads to -/

theorem Payload.asItems?_eq_some_iff {p : Payload ν} {items : List (Attr ν)} :
    p.asItems? = some items ↔ p = .nested items := by
  cases p <;> simp [asItems?]

namespace Attr

theorem item_eq_ok_iff_nested :
    a.item j = .ok b ↔ ∃ items, a.payload = .nested items ∧ items[j]? = some b := by
  simp only [item_eq_ok_iff, Payload.asItems?_eq_some_iff]

theorem leads_nil_iff : a.Leads [] b ↔ b = a := by
  constructor
  · rintro ⟨⟩
    rfl
  · rintro rfl
    exact .here b

theorem leads_cons_iff : a.Leads (j :: path) c ↔ ∃ b, a.item j = .ok b ∧ b.Leads path c := by
  simp only [item_eq_ok_iff_nested]
  constructor
  · rintro (_ | ⟨nested, item, rest⟩)
    exact ⟨_, ⟨_, nested, item⟩, rest⟩
  · rintro ⟨b, ⟨items, nested, item⟩, rest⟩
    exact .down nested item rest

/-- **Reading** a path gives what it leads to. -/
theorem read_eq_ok_iff : a.read path = .ok b ↔ a.Leads path b := by
  induction path generalizing a with
  | nil =>
    rw [leads_nil_iff, read, Except.ok.injEq]
    exact eq_comm
  | cons j path ih => simp only [read_cons_eq_ok_iff, leads_cons_iff, ih]

/-! ### One edit at the end of a path -/

theorem edited?_nil_eq_some_iff : a.edited? e [] = some b ↔ e.Makes a b := by
  constructor
  · intro h
    cases e with
    | markUsed =>
      cases h
      exact .markUsed a
    | replacePayload p =>
      cases h
      exact .replacePayload p a
    | assign c =>
      cases h
      exact .assign c a
    | pushItem item =>
      rw [edited?_pushItem, Option.map_eq_some_iff] at h
      obtain ⟨items, nested, rfl⟩ := h
      exact .pushItem item (Payload.asItems?_eq_some_iff.mp nested)
    | clearItems =>
      rw [edited?_clearItems, Option.map_eq_some_iff] at h
      obtain ⟨items, nested, rfl⟩ := h
      exact .clearItems (Payload.asItems?_eq_some_iff.mp nested)
  · intro h
    cases h with
    | markUsed | replacePayload | assign => rfl
    | pushItem item nested =>
      rw [edited?_pushItem, nested]
      rfl
    | clearItems nested =>
      rw [edited?_clearItems, nested]
      rfl

theorem exists_makes_iff :
    (∃ b, e.Makes a b) ↔ (e.OfItems → ∃ items, a.payload = .nested items) := by
  constructor
  · rintro ⟨b, h⟩ hitems
    cases h with
    | markUsed | replacePayload | assign => exact nomatch hitems
    | pushItem item nested => exact ⟨_, nested⟩
    | clearItems nested => exact ⟨_, nested⟩
  · intro h
    cases e with
    | markUsed => exact ⟨_, .markUsed a⟩
    | replacePayload p => exact ⟨_, .replacePayload p a⟩
    | assign b => exact ⟨b, .assign b a⟩
    | pushItem item =>
      obtain ⟨items, nested⟩ := h trivial
      exact ⟨_, .pushItem item nested⟩
    | clearItems =>
      obtain ⟨items, nested⟩ := h trivial
      exact ⟨_, .clearItems nested⟩

/-- **An edit along a path succeeds** if the path leads to an attribute that can be edited so. -/
theorem exists_edited?_iff :
    (∃ b, a.edited? e path = some b) ↔ ∃ c, a.Leads path c ∧ ∃ d, e.Makes c d := by
  induction path generalizing a with
  | nil => simp only [edited?_nil_eq_some_iff, leads_nil_iff, exists_eq_left]
  | cons j path ih =>
    simp only [edited?_cons, Option.bind_eq_some_iff, Option.map_eq_some_iff, leads_cons_iff,
      item_eq_ok_iff]
    constructor
    · rintro ⟨b, items, hitems, c, hc, d, hd, -⟩
      obtain ⟨target, hleads, hmakes⟩ := ih.mp ⟨d, hd⟩
      exact ⟨target, ⟨c, ⟨items, hitems, hc⟩, hleads⟩, hmakes⟩
    · rintro ⟨target, ⟨c, ⟨items, hitems, hc⟩, hleads⟩, hmakes⟩
      obtain ⟨d, hd⟩ := ih.mpr ⟨target, hleads, hmakes⟩
      exact ⟨_, items, hitems, c, hc, d, hd, rfl⟩

/-! ### Changes of nested attributes -/

/-- The attribute with a change made to one of those nested in it, if there is one. -/
def modifyItem (a : Attr ν) (j : Nat) (g : Attr ν → Attr ν) : Attr ν :=
  match a.payload with
  | .nested items => a.withPayload (.nested (items.modify j g))
  | _ => a

/-- The attribute after an edit along a path. It is the same if there is a fault. -/
def after (e : Edit ν) (a : Attr ν) (path : List Nat) : Attr ν := (a.edited? e path).getD a

/-- **An edit along a path** changes one nested attribute by an edit along the rest of it. -/
theorem after_cons (e : Edit ν) (a : Attr ν) (j : Nat) (path : List Nat) :
    a.after e (j :: path) = a.modifyItem j fun b => b.after e path := by
  obtain ⟨span, name, payload, used⟩ := a
  unfold after
  rw [edited?_cons]
  cases payload with
  | bare | value | text => rfl
  | nested items =>
    simp only [modifyItem, List.modify_eq_set_getElem?, Payload.asItems?, Option.bind_some]
    cases hb : items[j]? with
    | none => rfl
    | some b =>
      obtain ⟨hj, rfl⟩ := List.getElem?_eq_some_iff.mp hb
      simp only [Option.bind_some, Option.map_eq_map, Option.map_some, Option.getD_some]
      cases items[j].edited? e path with
      | none =>
        rw [Option.map_none, Option.getD_none, Option.getD_none, List.set_getElem_self]
        rfl
      | some c => rfl

/-- **A change is seen by those who go down to the same attribute.** All others find what they
would have found, or the same fault. -/
theorem item_modifyItem (a : Attr ν) (j k : Nat) (g : Attr ν → Attr ν) :
    (a.modifyItem j g).item k = (a.item k).map fun b => if j = k then g b else b := by
  obtain ⟨span, name, payload, used⟩ := a
  cases payload with
  | bare | value | text => rfl
  | nested items =>
    simp only [item, modifyItem, withPayload, Attr.items, bind, Except.bind,
      List.getElem?_modify, List.length_modify]
    cases items[k]? <;> rfl

theorem modifyItem_modifyItem (a : Attr ν) (j : Nat) (g g' : Attr ν → Attr ν) :
    (a.modifyItem j g).modifyItem j g' = a.modifyItem j fun b => g' (g b) := by
  obtain ⟨span, name, payload, used⟩ := a
  cases payload with
  | bare | value | text => rfl
  | nested items =>
    show Attr.mk span name (.nested ((items.modify j g).modify j g')) used = _
    rw [List.modify_modify_eq]
    rfl

theorem modifyItem_comm (a : Attr ν) (hjk : j ≠ k) (g g' : Attr ν → Attr ν) :
    (a.modifyItem j g).modifyItem k g' = (a.modifyItem k g').modifyItem j g := by
  obtain ⟨span, name, payload, used⟩ := a
  cases payload with
  | bare | value | text => rfl
  | nested items =>
    show Attr.mk span name (.nested ((items.modify j g).modify k g')) used = _
    rw [List.modify_modify_ne _ _ _ hjk]
    rfl

theorem sameFrame_modifyItem (h : a.item j = .ok b) (g : Attr ν → Attr ν) :
    a.SameFrame (a.modifyItem j g) := by
  obtain ⟨items, nested, -⟩ := item_eq_ok_iff_nested.mp h
  obtain ⟨span, name, payload, used⟩ := a
  cases nested
  exact ⟨rfl, rfl, rfl, items, items.modify j g, rfl, rfl, items.length_modify g j⟩

/-! ### Laws of paths -/

/-- **At and above the end of the path.** What stands at the end of `q` has been edited along the
rest of the path. -/
theorem read_after_append (e : Edit ν) (a : Attr ν) (q path : List Nat) :
    (a.after e (q ++ path)).read q = (a.read q).map fun b => b.after e path := by
  induction q generalizing a with
  | nil => rfl
  | cons j q ih =>
    rw [List.cons_append, after_cons, read, read, item_modifyItem]
    cases a.item j with
    | error cause => rfl
    | ok b =>
      show Attr.read (if j = j then _ else b) q = (b.read q).map _
      rw [if_pos rfl]
      exact ih b

/-- **Beside the path** nothing changes. -/
theorem read_after_apart (e : Edit ν) (a : Attr ν) (h : Apart p q) :
    (a.after e p).read q = a.read q := by
  induction p generalizing a q with
  | nil => exact absurd h not_apart_nil_left
  | cons j p ih =>
    cases q with
    | nil => exact absurd h not_apart_nil_right
    | cons k q =>
      rw [after_cons, read, read, item_modifyItem]
      cases a.item k with
      | error cause => rfl
      | ok b =>
        show Attr.read (if j = k then _ else b) q = b.read q
        by_cases hjk : j = k
        · rw [if_pos hjk]
          exact ih b (apart_cons_iff.mp h hjk)
        · rw [if_neg hjk]

/-- **Edits along paths that part commute.** -/
theorem after_comm (e f : Edit ν) (a : Attr ν) (h : Apart p q) :
    (a.after e p).after f q = (a.after f q).after e p := by
  induction p generalizing a q with
  | nil => exact absurd h not_apart_nil_left
  | cons j p ih =>
    cases q with
    | nil => exact absurd h not_apart_nil_right
    | cons k q =>
      simp only [after_cons]
      by_cases hjk : j = k
      · -- the paths part further down, in the same nested attribute
        subst hjk
        rw [modifyItem_modifyItem, modifyItem_modifyItem]
        congr 1
        funext b
        exact ih b (apart_cons_iff.mp h rfl)
      · exact a.modifyItem_comm hjk _ _

theorem edit_cons_of_ok (h : a.item j = .ok b) :
    a.edit e (j :: path) = (b.edit e path).map fun r => (a.setItem j r.1, r.2) := by
  rw [edit, h]
  show Except.bind (b.edit e path) _ = _
  cases b.edit e path <;> rfl

theorem edit_cons_of_error {cause : Fault} (h : a.item j = .error cause) :
    a.edit e (j :: path) = .error cause := by
  rw [edit, h]
  rfl

/-- **What an edit gives back** depends on the attribute at the end of the path alone. -/
theorem map_snd_edit (e : Edit ν) (a : Attr ν) (path : List Nat) :
    (a.edit e path).map Prod.snd = (a.read path).bind fun b => (e.apply b).map Prod.snd := by
  induction path generalizing a with
  | nil => rfl
  | cons j path ih =>
    rw [read]
    cases hitem : a.item j with
    | error cause =>
      rw [edit_cons_of_error hitem]
      rfl
    | ok b =>
      rw [edit_cons_of_ok hitem]
      show _ = (b.read path).bind _
      rw [← ih b]
      cases b.edit e path <;> rfl

theorem read_append (a : Attr ν) (p q : List Nat) :
    a.read (p ++ q) = (a.read p).bind fun b => b.read q := by
  induction p generalizing a with
  | nil => rfl
  | cons j p ih =>
    rw [List.cons_append, read, read]
    cases a.item j with
    | error cause => rfl
    | ok b => exact ih b

/-- **The attributes above** the one that is edited change in what is nested in them only. -/
theorem exists_sameFrame (h : a.Leads (q ++ j :: path) c) (e : Edit ν) :
    ∃ b b', a.read q = .ok b ∧ (a.after e (q ++ j :: path)).read q = .ok b' ∧ b.SameFrame b' := by
  rw [← read_eq_ok_iff, read_append] at h
  cases hb : a.read q with
  | error cause =>
    rw [hb] at h
    exact nomatch h
  | ok b =>
    rw [hb] at h
    obtain ⟨d, hitem, -⟩ := read_cons_eq_ok_iff.mp h
    refine ⟨b, b.after e (j :: path), rfl, ?_, ?_⟩
    · rw [read_after_append, hb]
      rfl
    · rw [after_cons]
      exact sameFrame_modifyItem hitem _

/-! ### Edits in place -/

theorem after_of_edit_eq_ok {r : Attr ν × Outcome ν} (h : a.edit e path = .ok r) :
    a.after e path = r.1 := by
  rw [after, edited?, h]
  rfl

theorem after_of_edit_eq_error {cause : Fault} (h : a.edit e path = .error cause) :
    a.after e path = a := by
  rw [after, edited?, h]
  rfl

/-- Writing back what has been read changes nothing. -/
theorem setItem_self (h : a.item j = .ok b) : a.setItem j b = a := by
  obtain ⟨items, nested, hb⟩ := item_eq_ok_iff_nested.mp h
  obtain ⟨hj, rfl⟩ := List.getElem?_eq_some_iff.mp hb
  obtain ⟨span, name, payload, used⟩ := a
  cases nested
  show Attr.mk span name (.nested (items.set j items[j])) used = _
  rw [List.set_getElem_self]

/-- **A fault leaves nothing behind.** There is one change, at the end of the path, and a fault
comes before it. -/
theorem editInPlace_eq (e : Edit ν) (a : Attr ν) (path : List Nat) :
    a.editInPlace e path = ((a.edit e path).map Prod.snd, a.after e path) := by
  induction path generalizing a with
  | nil =>
    unfold editInPlace after
    rw [edited?_nil, edit]
    cases e.apply a <;> rfl
  | cons j path ih =>
    rw [editInPlace]
    cases hitem : a.item j with
    | error cause =>
      have hedit : a.edit e (j :: path) = .error cause := edit_cons_of_error hitem
      rw [hedit, after_of_edit_eq_error hedit]
      rfl
    | ok b =>
      have hedit : a.edit e (j :: path) = (b.edit e path).map fun r => (a.setItem j r.1, r.2) :=
        edit_cons_of_ok hitem
      simp only [ih b]
      cases hb : b.edit e path with
      | error cause =>
        -- the nested attribute is as it was, and so it is written back
        rw [hb] at hedit
        rw [hedit, after_of_edit_eq_error hedit, after_of_edit_eq_error hb, setItem_self hitem]
        rfl
      | ok r =>
        rw [hb] at hedit
        rw [hedit, after_of_edit_eq_ok hedit, after_of_edit_eq_ok hb]
        rfl

end Attr

end ItemAttrs
