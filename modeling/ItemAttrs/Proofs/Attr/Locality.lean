import ItemAttrs.Proofs.Attr.Descent

/-!
# Edits are local

A list is read and edited like an attribute in which its entries are nested (`AttrList.root`), so
that the laws of paths that go down into an attribute are laws of paths that begin at an entry.

* `EditedAt` says that one list comes from another by an edit, and by nothing else;
* `AttrList.Admits.editedAt`: it does, if the path leads to an attribute that can be edited so;
* `AttrList.edit_of_not_admits`: if it leads nowhere, there is no entry or a fault;
* `AttrList.editInPlace_eq`: a list edited in place is the one that `AttrList.after` gives;
* `edits_local` puts these together, and says that edits along paths that part commute.
-/

namespace ItemAttrs

variable {ν : Type}

/-- What a path leads to from the entry with index `i`. -/
def AttrList.Leads (l : AttrList ν) (i : Nat) (path : List Nat) (b : Attr ν) : Prop :=
  ∃ a, l.items[i]? = some a ∧ a.Leads path b

/-- **The path leads to an attribute that can be edited so.** -/
def AttrList.Admits (l : AttrList ν) (i : Nat) (path : List Nat) (e : Edit ν) : Prop :=
  ∃ a, l.Leads i path a ∧ (e.OfItems → ∃ items, a.payload = .nested items)

/-- **One list comes from another by an edit,** and by nothing else. -/
structure EditedAt (l l' : AttrList ν) (i : Nat) (path : List Nat) (e : Edit ν) : Prop where
  target : ∃ a b, l.Leads i path a ∧ e.Makes a b ∧ l'.read i path = .ok b
  apart : ∀ k q, Apart (i :: path) (k :: q) → l'.read k q = l.read k q
  ancestors : ∀ q, q <+: path → q ≠ path →
    ∃ a b, l.read i q = .ok a ∧ l'.read i q = .ok b ∧ a.SameFrame b
  length_eq : l'.length = l.length

/-- **Edits a list in place.** If there is no entry with the index, nothing is done. -/
def AttrList.editInPlace (l : AttrList ν) (i : Nat) (path : List Nat) (e : Edit ν) :
    Except Fault (Option (Outcome ν)) × AttrList ν :=
  match l.items[i]? with
  | some a => ((a.editInPlace e path).1.map some, ⟨l.items.set i (a.editInPlace e path).2⟩)
  | none => (.ok none, l)

/-- What an edit gives back. There is nothing if there is no entry with the index. -/
def AttrList.outcome [DecidableEq ν] (l : AttrList ν) (i : Nat) (path : List Nat) (e : Edit ν) :
    Except Fault (Option (Outcome ν)) :=
  (l.edit (.index i) path e).map (Option.map Prod.snd)

variable {e : Edit ν} {a b : Attr ν} {i k : Nat} {path q : List Nat}

/-! ### The entries as nested attributes -/

namespace AttrList

variable {l : AttrList ν}

/-- **The entries of a list as attributes nested in one.** -/
def root (l : AttrList ν) : Attr ν := .new .dummy ⟨[]⟩ (.nested l.items)

theorem root_injective {l l' : AttrList ν} (h : l.root = l'.root) : l = l' := by
  obtain ⟨items⟩ := l
  obtain ⟨items'⟩ := l'
  simpa [root, Attr.new] using h

theorem root_item_eq_ok_iff : l.root.item i = .ok a ↔ l.items[i]? = some a := by
  rw [Attr.item_eq_ok_iff]
  constructor
  · rintro ⟨items, ⟨⟩, ha⟩
    exact ha
  · intro ha
    exact ⟨l.items, rfl, ha⟩

theorem read_eq_root (l : AttrList ν) (i : Nat) (path : List Nat) :
    l.read i path = l.root.read (i :: path) := by
  show (match l.items[i]? with
    | some a => a.read path
    | none => Except.error (Fault.pastEnd l.length i)) =
    Except.bind (match l.items[i]? with
      | some a => Except.ok a
      | none => Except.error (Fault.pastEnd l.items.length i)) _
  cases l.items[i]? <;> rfl

theorem leads_iff_root : l.Leads i path b ↔ l.root.Leads (i :: path) b := by
  simp only [Leads, Attr.leads_cons_iff, root_item_eq_ok_iff]

theorem read_eq_ok_iff : l.read i path = .ok b ↔ l.Leads i path b := by
  rw [read_eq_root, Attr.read_eq_ok_iff, leads_iff_root]

variable [DecidableEq ν]

/-- **An edit of a list** is one of the attribute in which its entries are nested. -/
theorem root_after (l : AttrList ν) (i : Nat) (path : List Nat) (e : Edit ν) :
    (l.after (.index i) path e).root = l.root.after e (i :: path) := by
  rw [after_eq, Attr.after, Attr.edited?_cons]
  show root ⟨(l.items[i]?.bind _).getD _⟩ = (l.items[i]?.bind _).getD _
  cases l.items[i]? with
  | none => rfl
  | some a =>
    simp only [Option.bind_some]
    cases a.edited? e path <;> rfl

theorem after_index (l : AttrList ν) (i : Nat) (path : List Nat) (e : Edit ν) :
    l.after (.index i) path e = ⟨l.items.modify i fun a => a.after e path⟩ := by
  apply root_injective
  rw [root_after, Attr.after_cons]
  rfl

theorem length_after (l : AttrList ν) (i : Nat) (path : List Nat) (e : Edit ν) :
    (l.after (.index i) path e).length = l.length := by
  rw [after_index]
  exact l.items.length_modify _ i

theorem read_after_apart (l : AttrList ν) (e : Edit ν) (h : Apart (i :: path) (k :: q)) :
    (l.after (.index i) path e).read k q = l.read k q := by
  rw [read_eq_root, read_eq_root, root_after, Attr.read_after_apart e _ h]

theorem edit_index_of_some (h : l.items[i]? = some a) (path : List Nat) (e : Edit ν) :
    l.edit (.index i) path e = (a.edit e path).map fun r => some (⟨l.items.set i r.1⟩, r.2) := by
  show l.editAt i path e = _
  simp only [editAt, h]
  cases a.edit e path <;> rfl

theorem edit_index_of_none (h : l.items[i]? = none) (path : List Nat) (e : Edit ν) :
    l.edit (.index i) path e = .ok none := by
  show l.editAt i path e = _
  simp only [editAt, h]

theorem outcome_of_some (h : l.items[i]? = some a) (path : List Nat) (e : Edit ν) :
    l.outcome i path e = ((a.edit e path).map Prod.snd).map some := by
  rw [outcome, edit_index_of_some h]
  cases a.edit e path <;> rfl

theorem outcome_of_none (h : l.items[i]? = none) (path : List Nat) (e : Edit ν) :
    l.outcome i path e = .ok none := by
  rw [outcome, edit_index_of_none h]
  rfl

/-- **What an edit gives back** depends on what is read at the end of the path, once there is an
entry where the path begins. -/
theorem outcome_congr {l' : AttrList ν} (hlength : l'.length = l.length)
    (hread : l'.read i path = l.read i path) (e : Edit ν) :
    l'.outcome i path e = l.outcome i path e := by
  cases ha : l.items[i]? with
  | none =>
    have ha' : l'.items[i]? = none := by
      rw [List.getElem?_eq_none_iff] at ha ⊢
      exact Nat.le_trans (Nat.le_of_eq hlength) ha
    rw [outcome_of_none ha, outcome_of_none ha']
  | some a =>
    obtain ⟨hi, -⟩ := List.getElem?_eq_some_iff.mp ha
    have hi' : i < l'.items.length := Nat.lt_of_lt_of_eq hi hlength.symm
    have ha' : l'.items[i]? = some l'.items[i] := List.getElem?_eq_getElem hi'
    simp only [read, ha, ha'] at hread
    rw [outcome_of_some ha, outcome_of_some ha', Attr.map_snd_edit, Attr.map_snd_edit, hread]

theorem editInPlace_eq (l : AttrList ν) (i : Nat) (path : List Nat) (e : Edit ν) :
    l.editInPlace i path e = (l.outcome i path e, l.after (.index i) path e) := by
  rw [editInPlace, after_index, List.modify_eq_set_getElem?]
  cases ha : l.items[i]? with
  | none =>
    rw [outcome_of_none ha]
    rfl
  | some a =>
    rw [outcome_of_some ha]
    simp only [a.editInPlace_eq]
    rfl

/-! ### Paths that can be edited, and others -/

omit [DecidableEq ν] in
theorem admits_iff :
    l.Admits i path e ↔ ∃ a, l.items[i]? = some a ∧ ∃ b, a.edited? e path = some b := by
  simp only [Admits, Leads, Attr.exists_edited?_iff, Attr.exists_makes_iff]
  constructor
  · rintro ⟨b, ⟨a, ha, hb⟩, hitems⟩
    exact ⟨a, ha, b, hb, hitems⟩
  · rintro ⟨a, ha, b, hb, hitems⟩
    exact ⟨b, ⟨a, ha, hb⟩, hitems⟩

theorem Admits.exists_edit (h : l.Admits i path e) :
    ∃ outcome, l.edit (.index i) path e = .ok (some (l.after (.index i) path e, outcome)) := by
  obtain ⟨a, ha, b, hb⟩ := admits_iff.mp h
  cases hedit : a.edit e path with
  | error cause =>
    rw [Attr.edited?, hedit] at hb
    cases hb
  | ok r =>
    have hl : l.edit (.index i) path e = .ok (some (⟨l.items.set i r.1⟩, r.2)) := by
      rw [edit_index_of_some ha, hedit]
      rfl
    refine ⟨r.2, ?_⟩
    rw [after, hl]

/-- **There is no entry, or there is a fault,** if the path does not lead to an attribute that can
be edited so. -/
theorem edit_of_not_admits (h : ¬l.Admits i path e) :
    (l.length ≤ i ∧ l.edit (.index i) path e = .ok none) ∨
      (i < l.length ∧ ∃ cause, l.edit (.index i) path e = .error cause) := by
  cases ha : l.items[i]? with
  | none => exact .inl ⟨List.getElem?_eq_none_iff.mp ha, edit_index_of_none ha path e⟩
  | some a =>
    obtain ⟨hi, -⟩ := List.getElem?_eq_some_iff.mp ha
    cases hedit : a.edit e path with
    | error cause =>
      refine .inr ⟨hi, cause, ?_⟩
      rw [edit_index_of_some ha, hedit]
      rfl
    | ok r =>
      have hb : a.edited? e path = some r.1 := by
        rw [Attr.edited?, hedit]
        rfl
      exact absurd (admits_iff.mpr ⟨a, ha, r.1, hb⟩) h

theorem after_of_not_admits (h : ¬l.Admits i path e) : l.after (.index i) path e = l := by
  rcases edit_of_not_admits h with ⟨-, hedit⟩ | ⟨-, cause, hedit⟩
  · rw [after, hedit]
  · rw [after, hedit]

theorem Admits.editedAt (h : l.Admits i path e) :
    EditedAt l (l.after (.index i) path e) i path e where
  target := by
    obtain ⟨a, ha, hitems⟩ := h
    obtain ⟨b, hb⟩ := Attr.exists_makes_iff.mpr hitems
    have hb' : a.after e [] = b := by
      rw [Attr.after, Attr.edited?_nil_eq_some_iff.mpr hb]
      rfl
    refine ⟨a, b, ha, hb, ?_⟩
    rw [← read_eq_ok_iff, read_eq_root] at ha
    calc (l.after (.index i) path e).read i path
        = (l.root.after e (i :: path ++ [])).read (i :: path) := by
          rw [read_eq_root, root_after, List.append_nil]
      _ = .ok (a.after e []) := by
          rw [Attr.read_after_append, ha]
          rfl
      _ = .ok b := by rw [hb']
  apart k q hapart := l.read_after_apart e hapart
  ancestors q hq hne := by
    obtain ⟨a, ha, -⟩ := h
    obtain ⟨rest, rfl⟩ := hq
    cases rest with
    | nil => exact absurd (List.append_nil q).symm hne
    | cons j rest =>
      rw [leads_iff_root, ← List.cons_append] at ha
      rw [read_eq_root, read_eq_root, root_after, ← List.cons_append]
      exact Attr.exists_sameFrame ha e
  length_eq := l.length_after i path e

end AttrList

/-- **Edits in place are local.** An edit in place gives back what `AttrList.edit` does and leaves
the list that `AttrList.after` is, whatever happens. If the path leads to an attribute that can be
edited so, it is edited, and nothing else but what is nested in the attributes above it; else
there is no entry to begin with, or a fault, and the list is what it was. Edits along paths that
part commute, and what each of them gives back does not depend on the other one. -/
theorem edits_local [DecidableEq ν] (l : AttrList ν) (i : Nat) (path : List Nat) (e : Edit ν) :
    l.editInPlace i path e = (l.outcome i path e, l.after (.index i) path e) ∧
    (l.Admits i path e →
      (∃ outcome, l.edit (.index i) path e = .ok (some (l.after (.index i) path e, outcome))) ∧
        EditedAt l (l.after (.index i) path e) i path e) ∧
    (¬l.Admits i path e → l.after (.index i) path e = l ∧
      ((l.length ≤ i ∧ l.edit (.index i) path e = .ok none) ∨
        (i < l.length ∧ ∃ cause, l.edit (.index i) path e = .error cause))) ∧
    ∀ k q f, Apart (i :: path) (k :: q) →
      (l.after (.index i) path e).after (.index k) q f =
          (l.after (.index k) q f).after (.index i) path e ∧
        (l.after (.index i) path e).outcome k q f = l.outcome k q f := by
  refine ⟨l.editInPlace_eq i path e, fun h => ⟨h.exists_edit, h.editedAt⟩,
    fun h => ⟨AttrList.after_of_not_admits h, AttrList.edit_of_not_admits h⟩, ?_⟩
  intro k q f hapart
  constructor
  · apply AttrList.root_injective
    simp only [AttrList.root_after]
    exact l.root.after_comm e f hapart
  · exact AttrList.outcome_congr (l.length_after i path e) (l.read_after_apart e hapart) f

/-- In `#[cfg(all(test), skip)]`, another attribute is pushed behind `test`. Then `skip` gets
another payload, and the order does not matter; but nothing can be removed from `skip`, and in
`test` there is nothing to edit. -/
theorem edits_local_nested :
    let test : Attr String := .new ⟨10, 14⟩ (.trivial "test") .bare
    let skip : Attr String := .new ⟨17, 21⟩ (.trivial "skip") .bare
    let all : Attr String := .new ⟨6, 15⟩ (.trivial "all") (.nested [test])
    let cfg : Attr String := .new ⟨0, 23⟩ (.trivial "cfg") (.nested [all, skip])
    let l : AttrList String := ⟨[cfg]⟩
    let l' : AttrList String := l.after (.index 0) [0] (.pushItem test)
    l.Admits 0 [0] (.pushItem test) ∧ EditedAt l l' 0 [0] (.pushItem test) ∧
      l'.read 0 [0, 1] = .ok test ∧
      ¬l.Admits 0 [1] .clearItems ∧ l.after (.index 0) [1] .clearItems = l ∧
      ¬l.Admits 0 [0, 0, 0] .markUsed ∧ l.after (.index 0) [0, 0, 0] .markUsed = l ∧
      Apart [0, 0] [0, 1] ∧ l'.after (.index 0) [1] (.replacePayload (.nested [])) =
        (l.after (.index 0) [1] (.replacePayload (.nested []))).after (.index 0) [0]
          (.pushItem test) := by
  intro test skip all cfg l l'
  have hpush : l.Admits 0 [0] (.pushItem test) :=
    AttrList.admits_iff.mpr ⟨_, rfl, _, rfl⟩
  have hnone : ∀ {path e}, cfg.edited? e path = none →
      ¬l.Admits 0 path e := by
    intro path e hnone hadmits
    obtain ⟨a, ha, b, hb⟩ := AttrList.admits_iff.mp hadmits
    obtain rfl : cfg = a := Option.some.inj ha
    exact nomatch hnone.symm.trans hb
  have hclear : ¬l.Admits 0 [1] .clearItems := hnone rfl
  have hmark : ¬l.Admits 0 [0, 0, 0] .markUsed := hnone rfl
  have hapart : Apart [0, 0] [0, 1] := by decide
  obtain ⟨-, hadmits, -, hcomm⟩ := edits_local l 0 [0] (.pushItem test)
  exact ⟨hpush, (hadmits hpush).2, rfl, hclear, ((edits_local l 0 [1] .clearItems).2.2.1 hclear).1,
    hmark, ((edits_local l 0 [0, 0, 0] .markUsed).2.2.1 hmark).1, hapart,
    (hcomm 0 [1] _ hapart).1⟩

end ItemAttrs
