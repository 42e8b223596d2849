import ItemAttrs.Proofs.Attr.Marks

/-!
# Looking entries up and editing them

A look-up goes through the entries in order and stops at the first whose name is just the segment
looked for (`FirstNamed`). It is there twice, to read an entry (`AttrList.find?`) and to edit one
(`AttrList.findIdx?`), and both stop at the same entry.

What is edited in this way is the payload of the entry (`Rewrites`), and a look-up does not see
payloads. So every name finds the same place afterwards, however often and under whatever names
the entries have been edited.

* `findIdx?_eq_some_iff` and `find?_eq_some_iff`: what a look-up finds;
* `FirstNamed.editsPayload`: what one edit does to the entry that it finds;
* `SameEntries`: what an edit leaves alone, which `SameEntries.run` carries through a run;
* `look_ups_stable` puts these together.
-/

namespace ItemAttrs

variable {ν : Type}

/-- **What a name finds:** the entry `a` with index `i` is the first one whose name is the single
segment `n`. -/
structure FirstNamed (l : AttrList ν) (n : ν) (i : Nat) (a : Attr ν) : Prop where
  entry : l.items[i]? = some a
  segments_eq : a.name.segments = [n]
  first : ∀ j b, j < i → l.items[j]? = some b → b.name.segments ≠ [n]

/-- **An edit through the name `n`** of what the entry found contains: its payload is swapped, or
the attributes nested in it are edited in place. -/
inductive Rewrites (n : ν) : Step ν → Prop where
  | replace (p : Payload ν) : Rewrites n (.edit (.named n) [] (.replacePayload p))
  | push (item : Attr ν) : Rewrites n (.edit (.named n) [] (.pushItem item))
  | clear : Rewrites n (.edit (.named n) [] .clearItems)
  | nested (j : Nat) (path : List Nat) (e : Edit ν) : Rewrites n (.edit (.named n) (j :: path) e)

/-- The list with another payload for an entry, and nothing else of it changed. -/
def AttrList.setPayload (l : AttrList ν) (i : Nat) (a : Attr ν) (p : Payload ν) : AttrList ν :=
  ⟨l.items.set i { a with payload := p }⟩

/-- **The entries of two lists are the same but for their payloads:** they are as many, in the
same order, with the same spans, names and flags. -/
structure SameEntries (l l' : AttrList ν) : Prop where
  spans_eq : l'.items.map Attr.span = l.items.map Attr.span
  names_eq : l'.items.map Attr.name = l.items.map Attr.name
  used_eq : l'.items.map Attr.used = l.items.map Attr.used

/-- **What an edit through a name does** if the name finds the entry `a` with index `i`. Swapping
the payload gives the former one back; a push and an assignment need nested attributes. Whatever
else is edited below the entry, only its payload changes, or there is a fault and nothing does. -/
structure EditsPayload [DecidableEq ν] (l : AttrList ν) (n : ν) (i : Nat) (a : Attr ν) : Prop where
  replace : ∀ p, l.edit (.named n) [] (.replacePayload p) =
    .ok (some (l.setPayload i a p, .payload a.payload))
  push : ∀ items item, a.payload = .nested items → l.edit (.named n) [] (.pushItem item) =
    .ok (some (l.setPayload i a (.nested (items ++ [item])), .count (items.length + 1)))
  assign : ∀ items j b c, a.payload = .nested items → items[j]? = some c →
    l.edit (.named n) [j] (.assign b) =
      .ok (some (l.setPayload i a (.nested (items.set j b)), .attr c))
  other : ∀ path e, Rewrites n (.edit (.named n) path e) →
    (∃ p outcome, l.edit (.named n) path e = .ok (some (l.setPayload i a p, outcome))) ∨
      ((∃ cause, l.edit (.named n) path e = .error cause) ∧ l.after (.named n) path e = l)

variable {l l' l'' : AttrList ν} {n : ν} {i : Nat} {a : Attr ν} {path : List Nat} {e : Edit ν}

namespace SameEntries

theorem refl (l : AttrList ν) : SameEntries l l := ⟨rfl, rfl, rfl⟩

theorem trans (h : SameEntries l l') (h' : SameEntries l' l'') : SameEntries l l'' where
  spans_eq := h'.spans_eq.trans h.spans_eq
  names_eq := h'.names_eq.trans h.names_eq
  used_eq := h'.used_eq.trans h.used_eq

theorem setPayload (ha : l.items[i]? = some a) (p : Payload ν) :
    SameEntries l (l.setPayload i a p) where
  spans_eq := map_set_of_eq ha rfl
  names_eq := map_set_of_eq ha rfl
  used_eq := map_set_of_eq ha rfl

theorem length_eq (h : SameEntries l l') : l'.length = l.length := by
  simpa [AttrList.length] using congrArg List.length h.names_eq

end SameEntries

/-- Only the payload changes, or there is a fault. -/
theorem edit_payload (a : Attr ν) (hrewrites : Rewrites n (.edit (.named n) path e)) :
    (∃ p outcome, a.edit e path = .ok ({ a with payload := p }, outcome)) ∨
      ∃ cause, a.edit e path = .error cause := by
  cases h : a.edit e path with
  | error cause => exact .inr ⟨cause, rfl⟩
  | ok r =>
    obtain ⟨b, outcome⟩ := r
    have hb : a.edited? e path = some b := by
      rw [Attr.edited?, h]
      rfl
    -- neither a mark on the entry itself nor another entry in its place
    rcases Attr.edited?_eq hb with ⟨rfl, rfl, -⟩ | ⟨rfl, rfl⟩ | ⟨-, p, rfl⟩
    · cases hrewrites
    · cases hrewrites
    · exact .inl ⟨p, outcome, rfl⟩

variable [DecidableEq ν]

/-! ### What a look-up finds -/

theorem AttrName.is_iff_segments (name : AttrName ν) (n : ν) :
    name.is n = true ↔ name.segments = [n] := by
  rw [is_iff, trivial, AttrName.mk.injEq]

theorem AttrList.findIdx?_eq_some_iff : l.findIdx? n = some i ↔ ∃ a, FirstNamed l n i a := by
  rw [findIdx?, List.findIdx?_eq_some_iff_getElem]
  constructor
  · rintro ⟨hi, his, hfirst⟩
    refine ⟨l.items[i], List.getElem?_eq_getElem hi, (AttrName.is_iff_segments _ n).mp his, ?_⟩
    intro j b hj hb hsegments
    obtain ⟨hlt, rfl⟩ := List.getElem?_eq_some_iff.mp hb
    exact hfirst j hj ((AttrName.is_iff_segments _ n).mpr hsegments)
  · rintro ⟨a, hentry, hsegments, hfirst⟩
    obtain ⟨hi, rfl⟩ := List.getElem?_eq_some_iff.mp hentry
    refine ⟨hi, (AttrName.is_iff_segments _ n).mpr hsegments, fun j hj hjs => ?_⟩
    have hb := List.getElem?_eq_getElem (Nat.lt_trans hj hi)
    exact hfirst j _ hj hb ((AttrName.is_iff_segments _ n).mp hjs)

theorem FirstNamed.findIdx?_eq (h : FirstNamed l n i a) : l.findIdx? n = some i :=
  AttrList.findIdx?_eq_some_iff.mpr ⟨a, h⟩

/-- **Reading and editing go to the same entry.** -/
theorem AttrList.find?_eq_some_iff : l.find? n = some a ↔ ∃ i, FirstNamed l n i a := by
  have hbind : l.find? n = (l.findIdx? n).bind (l.items[·]?) :=
    List.find?_eq_bind_findIdx?_getElem?
  rw [hbind, Option.bind_eq_some_iff]
  constructor
  · rintro ⟨i, hi, ha⟩
    obtain ⟨b, hb⟩ := findIdx?_eq_some_iff.mp hi
    obtain rfl : b = a := Option.some.inj (hb.entry.symm.trans ha)
    exact ⟨i, hb⟩
  · rintro ⟨i, h⟩
    exact ⟨i, h.findIdx?_eq, h.entry⟩

theorem AttrList.find?_eq_none_iff :
    l.find? n = none ↔ ∀ a ∈ l.items, a.name.segments ≠ [n] := by
  rw [find?, List.find?_eq_none]
  simp only [AttrName.is_iff_segments, ne_eq]

theorem AttrList.findIdx?_eq_none_iff : l.findIdx? n = none ↔ l.find? n = none := by
  rw [find?_eq_none_iff, findIdx?, List.findIdx?_eq_none_iff]
  simp only [← Bool.not_eq_true, AttrName.is_iff_segments, ne_eq]

theorem AttrList.has_iff : l.has n = true ↔ ∃ a, l.find? n = some a := Option.isSome_iff_exists

/-! ### One edit -/

/-- **An edit through a name** is one of the entry found. -/
theorem FirstNamed.edit_eq (h : FirstNamed l n i a) (path : List Nat) (e : Edit ν) :
    l.edit (.named n) path e =
      (a.edit e path).map fun r => some (⟨l.items.set i r.1⟩, r.2) := by
  rw [AttrList.edit, AttrList.locate?, h.findIdx?_eq]
  simp only [AttrList.editAt, h.entry]
  cases a.edit e path <;> rfl

theorem edit_of_find?_eq_none (h : l.find? n = none) (path : List Nat) (e : Edit ν) :
    l.edit (.named n) path e = .ok none := by
  rw [AttrList.edit, AttrList.locate?, AttrList.findIdx?_eq_none_iff.mpr h]

/-- **An edit changes the payload of the entry found,** or there is a fault, and nothing changes. -/
theorem FirstNamed.editsPayload (h : FirstNamed l n i a) : EditsPayload l n i a where
  replace p := by
    rw [h.edit_eq]
    rfl
  push items item hitems := by
    have hedit : a.edit (.pushItem item) [] =
        .ok ({ a with payload := .nested (items ++ [item]) }, .count (items.length + 1)) := by
      rw [Attr.edit, Edit.apply, Attr.items, hitems]
      rfl
    rw [h.edit_eq, hedit]
    rfl
  assign items j b c hitems hj := by
    have hasItems : a.payload.asItems? = some items := by
      rw [hitems]
      rfl
    have hitem : a.item j = .ok c := Attr.item_eq_ok_iff.mpr ⟨items, hasItems, hj⟩
    have hset : a.setItem j b = { a with payload := .nested (items.set j b) } :=
      Attr.setItem_eq hasItems j b
    have hedit : a.edit (.assign b) [j] = .ok (a.setItem j b, .attr c) := by
      rw [Attr.edit, hitem]
      rfl
    rw [h.edit_eq, hedit, hset]
    rfl
  other path e hrewrites := by
    rcases edit_payload a hrewrites with ⟨p, outcome, hedit⟩ | ⟨cause, hedit⟩
    · refine .inl ⟨p, outcome, ?_⟩
      rw [h.edit_eq, hedit]
      rfl
    · have hfault : l.edit (.named n) path e = .error cause := by
        rw [h.edit_eq, hedit]
        rfl
      refine .inr ⟨⟨cause, hfault⟩, ?_⟩
      rw [AttrList.after, hfault]

/-! ### What stays the same -/

namespace SameEntries

/-- A look-up sees names only. -/
theorem findIdx?_eq (h : SameEntries l l') (n : ν) : l'.findIdx? n = l.findIdx? n :=
  AttrList.locate?_congr h.names_eq (.named n)

/-- **What one edit preserves.** -/
theorem step (l : AttrList ν) {step : Step ν} (hrewrites : Rewrites n step) :
    SameEntries l (l.step step) := by
  have hafter : ∀ path e, Rewrites n (.edit (.named n) path e) →
      SameEntries l (l.after (.named n) path e) := by
    intro path e hrewrites
    cases hfind : l.find? n with
    | none =>
      rw [AttrList.after, edit_of_find?_eq_none hfind]
      exact refl l
    | some a =>
      obtain ⟨i, hi⟩ := AttrList.find?_eq_some_iff.mp hfind
      rcases hi.editsPayload.other path e hrewrites with ⟨p, outcome, hedit⟩ | ⟨-, hsame⟩
      · rw [AttrList.after, hedit]
        exact setPayload hi.entry p
      · rw [hsame]
        exact refl l
  cases hrewrites with
  | replace p => exact hafter _ _ (.replace p)
  | push item => exact hafter _ _ (.push item)
  | clear => exact hafter _ _ .clear
  | nested j path e => exact hafter _ _ (.nested j path e)

/-- **What a whole run preserves.** -/
theorem run {steps : List (Step ν)} (h : ∀ step ∈ steps, ∃ n, Rewrites n step)
    (l : AttrList ν) : SameEntries l (l.run steps) := by
  induction steps generalizing l with
  | nil => exact refl l
  | cons s steps ih =>
    obtain ⟨n, hs⟩ := h s List.mem_cons_self
    exact (step l hs).trans (ih (fun s' hs' => h s' (List.mem_cons_of_mem s hs')) _)

end SameEntries

/-- **Look-ups are stable.** A name finds the first entry whose name is this single segment, both
for reading and for editing, so a path of several segments is never found. An edit through a name
changes no more than the payload of the entry found, and swapping it gives the former one back.
After any number of such edits, with any names, all entries are where they were, with their spans,
names and flags, and every name finds the entry at the same index as before. -/
theorem look_ups_stable (l : AttrList ν) :
    ((∀ n i, l.findIdx? n = some i ↔ ∃ a, FirstNamed l n i a) ∧
      (∀ n a, l.find? n = some a ↔ ∃ i, FirstNamed l n i a) ∧
      (∀ n, l.find? n = none ↔ ∀ a ∈ l.items, a.name.segments ≠ [n]) ∧
      ∀ n, l.has n = true ↔ ∃ a, l.find? n = some a) ∧
    ((∀ n i a, FirstNamed l n i a → EditsPayload l n i a) ∧
      ∀ n path e, l.find? n = none →
        l.edit (.named n) path e = .ok none ∧ l.after (.named n) path e = l) ∧
    ∀ steps, (∀ step ∈ steps, ∃ n, Rewrites n step) →
      SameEntries l (l.run steps) ∧ (l.run steps).length = l.length ∧
        ∀ n, (l.run steps).findIdx? n = l.findIdx? n ∧
          ∀ i, (∃ a, FirstNamed (l.run steps) n i a ∧ (l.run steps).find? n = some a) ↔
            ∃ a, FirstNamed l n i a ∧ l.find? n = some a := by
  refine ⟨⟨fun n i => AttrList.findIdx?_eq_some_iff, fun n a => AttrList.find?_eq_some_iff,
    fun n => AttrList.find?_eq_none_iff, fun n => AttrList.has_iff⟩,
    ⟨fun n i a h => h.editsPayload, fun n path e hfind => ?_⟩, fun steps h => ?_⟩
  · have hedit := edit_of_find?_eq_none hfind path e
    refine ⟨hedit, ?_⟩
    rw [AttrList.after, hedit]
  · have hsame := SameEntries.run h l
    have hfound : ∀ (l : AttrList ν) n i, (∃ a, FirstNamed l n i a ∧ l.find? n = some a) ↔
        l.findIdx? n = some i := by
      intro l n i
      rw [AttrList.findIdx?_eq_some_iff]
      constructor
      · rintro ⟨a, ha, -⟩
        exact ⟨a, ha⟩
      · rintro ⟨a, ha⟩
        exact ⟨a, ha, AttrList.find?_eq_some_iff.mpr ⟨i, ha⟩⟩
    refine ⟨hsame, hsame.length_eq, fun n => ⟨hsame.findIdx?_eq n, fun i => ?_⟩⟩
    rw [hfound, hfound, hsame.findIdx?_eq]

/-- `#[inline::inline]` and `#[inline]` twice: the second entry is found, gets nested attributes,
and is found again. -/
theorem look_ups_stable_duplicates :
    let inline : Name := ⟨2415919105⟩
    let once : Attr Name := .new ⟨18, 27⟩ (.trivial inline) .bare
    let again : Attr Name := .new ⟨28, 37⟩ (.trivial inline) .bare
    let l : AttrList Name := ⟨[.new ⟨0, 17⟩ ⟨[inline, inline]⟩ .bare, once, again]⟩
    let steps : List (Step Name) := [.edit (.named inline) [] (.replacePayload (.nested [])),
      .edit (.named inline) [] (.pushItem again), .edit (.named inline) [0] (.assign once),
      .edit (.named inline) [1] .markUsed]
    (∀ step ∈ steps, ∃ n, Rewrites n step) ∧ FirstNamed l inline 1 once ∧
      SameEntries l (l.run steps) ∧ (l.run steps).findIdx? inline = some 1 ∧
      (l.run steps).find? inline = some { once with payload := .nested [once] } := by
  intro inline once again l steps
  have hsteps : ∀ step ∈ steps, ∃ n, Rewrites n step := by
    simp only [steps, List.forall_mem_cons]
    exact ⟨⟨_, .replace _⟩, ⟨_, .push _⟩, ⟨_, .nested 0 [] _⟩, ⟨_, .nested 1 [] _⟩,
      fun _ h => nomatch h⟩
  obtain ⟨⟨hfindIdx, -, -, -⟩, -, hrun⟩ := look_ups_stable l
  obtain ⟨a, ha⟩ := (hfindIdx inline 1).mp (by decide +kernel)
  obtain rfl : once = a := Option.some.inj ha.entry
  obtain ⟨hsame, -, hstable⟩ := hrun steps hsteps
  refine ⟨hsteps, ha, hsame, (hstable inline).1.trans ha.findIdx?_eq, by decide +kernel⟩

end ItemAttrs
