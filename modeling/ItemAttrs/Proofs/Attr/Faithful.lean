import ItemAttrs.Attr.Dump
import ItemAttrs.Decimal.Shortest
import ItemAttrs.Proofs.Attr.Tree
import ItemAttrs.Proofs.Expr.Faithful

/-!
# What the dump of a list tells

The dump of a list of attributes tells the list, whatever is in it: `AttrList.dump_faithful`. No
names have to be known for that and no span has to make sense, since names and spans are dumped as
the numbers that they are. The induction over attributes is `Attr.tell_dump`; payloads of different
shapes are told apart by their heads (`Payload.headed_dump`).
-/

namespace ItemAttrs

open Dump (IsWord Headed)

/-! ### Names and payloads -/

theorem AttrName.tell_dump (name name' : AttrName Name) :
    name.dump.Tell name'.dump (name = name') := by
  have hsegments := Dump.tell_field "segments" (Name.tell_dumpAll name.segments name'.segments)
  refine (Dump.tell_group .braces "AttributeName" (.cons hsegments .nil)).mono ?_
  rintro ⟨h, -⟩
  exact congrArg mk h

theorem Payload.headed_dump (p : Payload Name) : Headed p.shape.label p.dump := by
  have hword : ∀ shape : Shape, IsWord shape.label := by
    intro shape
    cases shape <;> decide +kernel
  cases p with
  | bare => exact Dump.headed_word (hword .bare)
  | value e => exact Dump.headed_tuple (hword .value) _
  | text n => exact Dump.headed_tuple (hword .text) _
  | nested items => exact Dump.headed_tuple (hword .nested) _

theorem Shape.label_injective {shape shape' : Shape} (h : shape.label = shape'.label) :
    shape = shape' := by
  revert h
  cases shape <;> cases shape' <;> decide

/-- Only payloads of the same shape have to be compared. -/
theorem Payload.tell_of_shape {p q : Payload Name} {P : Prop}
    (h : p.shape = q.shape → p.dump.Tell q.dump P) : p.dump.Tell q.dump P :=
  Dump.tell_of_heads p.headed_dump q.headed_dump fun hlabel => h (Shape.label_injective hlabel)

/-! ### Attributes -/

namespace Attr

@[simp] theorem dumpAll_eq_map (as : List (Attr Name)) : dumpAll as = as.map dump := by
  induction as with
  | nil => rfl
  | cons a as ih => rw [dumpAll, ih, List.map_cons]

theorem headed_dump (a : Attr Name) : Headed "Attribute" a.dump := by
  cases a
  exact Dump.headed_record (by decide +kernel) _

/-- **An attribute is told** if its payload is. -/
theorem tell_of_payload {span : Span} {name : AttrName Name} {p : Payload Name} {used : Bool}
    (hp : ∀ q : Payload Name, p.dump.Tell q.dump (p = q)) (b : Attr Name) :
    (dump ⟨span, name, p, used⟩).Tell b.dump (⟨span, name, p, used⟩ = b) := by
  rcases b with ⟨span', name', q, used'⟩
  -- the four fields of the dump, in their order
  have hfields := Dump.TellAll.cons (Dump.tell_field "span" (span.tell_dump span'))
    (.cons (Dump.tell_field "name" (name.tell_dump name'))
      (.cons (Dump.tell_field "data" (hp q))
        (.cons (Dump.tell_field "is_used" (tell_bool used used')) .nil)))
  unfold dump
  refine (Dump.tell_group .braces "Attribute" hfields).mono ?_
  rintro ⟨rfl, rfl, rfl, rfl, -⟩
  rfl

/-- **The dump of an attribute tells the attribute,** with all its spans and usage flags. -/
theorem tell_dump (a b : Attr Name) : a.dump.Tell b.dump (a = b) := by
  -- the induction is needed for nested attributes only: theirs is the list in the payload
  induction a generalizing b with
  | bare span name used =>
    refine tell_of_payload (fun q => Payload.tell_of_shape fun h => ?_) b
    cases q with
    | bare => exact Tells.same _ rfl
    | _ => exact nomatch h
  | value span name e used =>
    refine tell_of_payload (fun q => Payload.tell_of_shape fun h => ?_) b
    cases q with
    | value e' =>
      refine (Dump.tell_group .parentheses _ (.cons (e.tell_dump e') .nil)).mono ?_
      rintro ⟨rfl, -⟩
      rfl
    | _ => exact nomatch h
  | text span name n used =>
    refine tell_of_payload (fun q => Payload.tell_of_shape fun h => ?_) b
    cases q with
    | text n' =>
      refine (Dump.tell_group .parentheses _ (.cons (n.tell_dump n') .nil)).mono ?_
      rintro ⟨rfl, -⟩
      rfl
    | _ => exact nomatch h
  | nested span name items used ih =>
    refine tell_of_payload (fun q => Payload.tell_of_shape fun h => ?_) b
    cases q with
    | nested items' =>
      have hitems : (Dump.list (dumpAll items)).Tell (.list (dumpAll items')) (items = items') := by
        rw [dumpAll_eq_map, dumpAll_eq_map]
        exact Dump.tell_list headed_dump fun a ha b _ => ih a ha b
      refine (Dump.tell_group .parentheses _ (.cons hitems .nil)).mono ?_
      rintro ⟨rfl, -⟩
      rfl
    | _ => exact nomatch h

end Attr

/-! ### Lists -/

namespace AttrList

theorem tell_dump (l l' : AttrList Name) : l.dump.Tell l'.dump (l = l') := by
  have hitems : (Dump.list (Attr.dumpAll l.items)).Tell (.list (Attr.dumpAll l'.items))
      (l.items = l'.items) := by
    rw [Attr.dumpAll_eq_map, Attr.dumpAll_eq_map]
    exact Dump.tell_list Attr.headed_dump fun a _ b _ => a.tell_dump b
  refine Dump.Tell.mono hitems ?_
  intro h
  exact congrArg mk h

theorem eq_of_text {l l' : AttrList Name} (h : l.dump.text = l'.dump.text) : l = l' := by
  have hwrite : l.dump.write = l'.dump.write := String.ofList_inj.mp h
  -- what two dumps tell, they tell in front of a comma
  have hend : Follows Dump.ends [','] := follows_cons (by decide) []
  exact (l.tell_dump l' _ _ hend hend (congrArg (· ++ [',']) hwrite)).1

/-- **Dumps are faithful.** Two lists of attributes have the same dump exactly if they compare
equal, which they do exactly if they agree in all spans, names, payloads, expressions and usage
flags. In particular every list equals itself, also with floats that are no numbers, since floats
are compared bit by bit; and numbers of different sign differ, also if both are zero. -/
theorem dump_faithful (l l' : AttrList Name) :
    (l.dump.text = l'.dump.text ↔ (l == l') = true) ∧ ((l == l') = true ↔ l = l') ∧
      (∀ bits s, Decimal.Binary64.ofBits bits = .notANumber →
        ((.literal (.float bits) s : Expr Name) == .literal (.float bits) s) = true) ∧
      ∀ x y s s' m m', Decimal.Binary64.ofBits x = .finite false m →
        Decimal.Binary64.ofBits y = .finite true m' →
        ((.literal (.float x) s : Expr Name) == .literal (.float y) s') = false := by
  refine ⟨?_, beq_iff_eq, ?_, ?_⟩
  · rw [beq_iff_eq]
    constructor
    · exact eq_of_text
    · rintro rfl
      rfl
  · intro bits s _
    exact beq_self_eq_true _
  · intro x y s s' m m' hx hy
    rw [beq_eq_false_iff_ne]
    intro h
    -- equal expressions have equal bits, and so the same sign
    obtain ⟨rfl, -⟩ : x = y ∧ s = s' := by simpa using h
    exact nomatch hx.symm.trans hy

/-- A list with one float in it, at an inverted span: if the float is no number the list equals
itself, and with the two zeros it has two dumps. -/
theorem dump_faithful_floats :
    let l (bits : UInt64) : AttrList Name :=
      ⟨[.new ⟨7, 3⟩ ⟨[]⟩ (.value (.literal (.float bits) ⟨4, 4⟩))]⟩
    let float (bits : UInt64) : Expr Name := .literal (.float bits) ⟨4, 4⟩
    Decimal.Binary64.ofBits 0x7ff8000000000000 = .notANumber ∧
      (float 0x7ff8000000000000 == float 0x7ff8000000000000) = true ∧
      Decimal.Binary64.ofBits 0 = .finite false ⟨0, 0⟩ ∧
      Decimal.Binary64.ofBits 0x8000000000000000 = .finite true ⟨0, 0⟩ ∧
      (float 0 == float 0x8000000000000000) = false ∧
      (l 0).dump.text ≠ (l 0x8000000000000000).dump.text := by
  intro l float
  have hnan : Decimal.Binary64.ofBits 0x7ff8000000000000 = .notANumber := by decide +kernel
  have hplus : Decimal.Binary64.ofBits 0 = .finite false ⟨0, 0⟩ := by decide +kernel
  have hminus : Decimal.Binary64.ofBits 0x8000000000000000 = .finite true ⟨0, 0⟩ := by
    decide +kernel
  obtain ⟨htext, -, hself, hsign⟩ := dump_faithful (l 0) (l 0x8000000000000000)
  exact ⟨hnan, hself _ _ hnan, hplus, hminus, hsign _ _ _ _ _ _ hplus hminus,
    htext.not.mpr (by decide +kernel)⟩

end AttrList

end ItemAttrs
