import ItemAttrs.Proofs.Attr.Naming
import ItemAttrs.Proofs.Attr.Strip
import ItemAttrs.Proofs.Path.Identifier
import ItemAttrs.Proofs.Text.Reading

/-!
# What a written attribute says

An attribute without expressions can be read back from its written form, up to spans and usage
flags. A name ends where no character of a path stands; the character that stands there tells
the shapes of payloads apart; a text is quoted, and nested attributes are read one by one up to
the closing parenthesis. So the written form is a prefix code (`eq_of_writeBody`) among all that
may follow an attribute, and equal texts mean equal trees (`render_unambiguous`).
-/

namespace ItemAttrs.Attr

/-- **Attributes with plain names and payloads:** every name is a path of identifiers, and every
payload is nothing, a text or a list of such attributes. Texts are any texts. -/
inductive Plain : Attr String → Prop where
  | bare {span : Span} {name : AttrName String} {used : Bool} (hname : Path.Plain name.segments) :
      Plain ⟨span, name, .bare, used⟩
  | text {span : Span} {name : AttrName String} {s : String} {used : Bool}
      (hname : Path.Plain name.segments) : Plain ⟨span, name, .text s, used⟩
  | nested {span : Span} {name : AttrName String} {items : List (Attr String)} {used : Bool}
      (hname : Path.Plain name.segments) (hitems : ∀ a ∈ items, Plain a) :
      Plain ⟨span, name, .nested items, used⟩

/-- What may follow an attribute: a comma, or the end of what it is nested in. -/
def Closes (r : List Char) : Prop := ∃ c rest, r = c :: rest ∧ (c = ',' ∨ c = ')' ∨ c = ']')

variable {hidden : Char → Bool} {a b : Attr String} {r r' : List Char}

theorem closes_of_ends (h : Ends ')' r) : Closes r := by
  obtain ⟨c, rest, hr, hc⟩ := h
  exact ⟨c, rest, hr, hc.imp_right .inl⟩

theorem Closes.follows (h : Closes r) : Follows [',', ')', ']'] r := by
  obtain ⟨c, rest, hr, hc⟩ := h
  exact ⟨c, rest, hr, by simpa using hc⟩

theorem Closes.ne_cons {c : Char} (h : Closes r) (hc : c ∉ [',', ')', ']']) (rest : List Char) :
    r ≠ c :: rest := h.follows.ne_cons hc rest

theorem writeBody_eq (hidden : Char → Bool) (a : Attr String) :
    a.writeBody hidden = pathText a.name.segments ++ a.payload.write hidden := by
  cases a
  rfl

namespace Plain

theorem plain_name (h : a.Plain) : Path.Plain a.name.segments := by
  cases h with
  | bare hname => exact hname
  | text hname => exact hname
  | nested hname _ => exact hname

/-- A name ends where the payload begins. -/
theorem stops_payload (h : a.Plain) (hr : Closes r) :
    Stops (Path.isPathChar · = true) (a.payload.write hidden ++ r) := by
  cases h with
  | bare _ => exact hr.follows.stops (by decide)
  | text _ => exact stops_cons (by decide) _
  | nested _ _ => exact stops_cons (by decide) _

theorem writeBody_ne (h : a.Plain) (r r' : List Char) : a.writeBody hidden ++ r ≠ ')' :: r' := by
  obtain ⟨c, rest, hname, hc⟩ := h.plain_name.exists_cons
  rw [writeBody_eq, hname]
  -- an identifier begins with a letter or an underscore, which a parenthesis is not
  intro heq
  rw [(List.cons.inj heq).1] at hc
  exact absurd hc (by decide)

/-- Names are read first; what is left are the payloads and what follows. -/
theorem eq_of_name (ha : a.Plain) (hb : b.Plain) (hr : Closes r) (hr' : Closes r')
    (h : a.writeBody hidden ++ r = b.writeBody hidden ++ r') :
    a.name = b.name ∧ a.payload.write hidden ++ r = b.payload.write hidden ++ r' := by
  rw [writeBody_eq, writeBody_eq, List.append_assoc, List.append_assoc] at h
  obtain ⟨hsegments, hrest⟩ := Path.eq_of_pathText ha.plain_name hb.plain_name
    (ha.stops_payload hr) (hb.stops_payload hr') h
  exact ⟨congrArg AttrName.mk hsegments, hrest⟩

/-- Payloads are told apart by their first character. Inside of parentheses the names come first
again, and then the payloads of nested attributes. -/
theorem eq_of_payload (ha : a.Plain) (hb : b.Plain) (hr : Closes r) (hr' : Closes r')
    (h : a.payload.write hidden ++ r = b.payload.write hidden ++ r') :
    a.payload.strip = b.payload.strip ∧ r = r' := by
  -- a space, a parenthesis or what may follow the attribute: different shapes begin differently
  induction ha generalizing b r r' with
  | bare _ =>
    cases hb with
    | bare _ => exact ⟨rfl, h⟩
    | text _ => exact absurd h (hr.ne_cons (by decide) _)
    | nested _ _ => exact absurd h (hr.ne_cons (by decide) _)
  | @text _ _ s _ _ =>
    cases hb with
    | bare _ => exact absurd h.symm (hr'.ne_cons (by decide) _)
    | @text _ _ s' _ _ =>
      simp only [Payload.write, List.append_assoc] at h
      obtain ⟨htext, hrest⟩ := Text.Quoting.eq_of_quote (Text.Quoting.marks hidden).1
        (List.append_cancel_left h)
      rw [String.toList_inj.mp htext]
      exact ⟨rfl, hrest⟩
    | nested _ _ => exact absurd (List.cons.inj h).1 (by decide)
  | @nested _ _ items _ _ hitems ih =>
    cases hb with
    | bare _ => exact absurd h.symm (hr'.ne_cons (by decide) _)
    | text _ => exact absurd (List.cons.inj h).1 (by decide)
    | @nested _ _ items' _ _ hitems' =>
      simp only [Payload.write, writeBodies_eq_map, List.append_assoc, List.singleton_append] at h
      -- an item ends where a comma or the closing parenthesis stands
      have hitem : ∀ a ∈ items, ∀ b ∈ items', ∀ r r', Ends ')' r → Ends ')' r' →
          a.writeBody hidden ++ r = b.writeBody hidden ++ r' → a.strip = b.strip ∧ r = r' := by
        intro a ha b hb r r' hr hr' h
        obtain ⟨hname, hpayload⟩ := eq_of_name (hitems a ha) (hitems' b hb) (closes_of_ends hr)
          (closes_of_ends hr') h
        obtain ⟨hstrip, hrest⟩ := ih a ha (hitems' b hb) (closes_of_ends hr) (closes_of_ends hr')
          hpayload
        exact ⟨strip_eq_iff.mpr ⟨hname, hstrip⟩, hrest⟩
      obtain ⟨hstrips, hrest⟩ := eq_of_separated (by decide) hitem
        (fun a ha => (hitems a ha).writeBody_ne) (fun b hb => (hitems' b hb).writeBody_ne)
        (List.cons.inj h).2
      rw [Payload.strip, Payload.strip, stripAll_eq_map, stripAll_eq_map, hstrips]
      exact ⟨rfl, hrest⟩

/-- **The written form of an attribute is a prefix code.** -/
theorem eq_of_writeBody (ha : a.Plain) (hb : b.Plain) (hr : Closes r) (hr' : Closes r')
    (h : a.writeBody hidden ++ r = b.writeBody hidden ++ r') : a.strip = b.strip ∧ r = r' := by
  obtain ⟨hname, hpayload⟩ := eq_of_name ha hb hr hr' h
  obtain ⟨hstrip, hrest⟩ := eq_of_payload ha hb hr hr' hpayload
  exact ⟨strip_eq_iff.mpr ⟨hname, hstrip⟩, hrest⟩

theorem strip_eq_of_write (ha : a.Plain) (hb : b.Plain) (h : a.write hidden = b.write hidden) :
    a.strip = b.strip := by
  have hclose : Closes [']'] := ⟨']', [], rfl, .inr (.inr rfl)⟩
  simp only [write, List.append_assoc] at h
  exact (eq_of_writeBody ha hb hclose hclose (List.append_cancel_left h)).1

end Plain

/-! ### Over names -/

section Names

variable {t : Interner} {a b : Attr Name} {a' b' : Attr String}

/-- Attributes over names say the same if their texts do. -/
theorem strip_eq_of_traverse (hwf : t.WellFormed) (ha : a.traverse t.lookup = .ok a')
    (hb : b.traverse t.lookup = .ok b') (h : a'.strip = b'.strip) : a.strip = b.strip := by
  have ha' : a.strip.traverse t.lookup = .ok a'.strip := by
    rw [strip_traverse, ha]
    rfl
  have hb' : b.strip.traverse t.lookup = .ok b'.strip := by
    rw [strip_traverse, hb]
    rfl
  exact eq_of_traverse hwf ha' (h ▸ hb')

theorem write_eq_of_strip (hidden : Char → Bool) (ha : a.traverse t.lookup = .ok a')
    (hb : b.traverse t.lookup = .ok b') (h : a.strip = b.strip) :
    a'.write hidden = b'.write hidden := by
  -- both are written piece by piece, and the pieces do not depend on what is stripped
  have hpieces : a.entryPieces hidden = b.entryPieces hidden := by
    rw [entryPieces, ← a.pieces_strip, h, pieces_strip, ← entryPieces]
  have hwrite := a.write_traverse hidden t.lookup
  rw [hpieces, write_traverse, ha, hb] at hwrite
  exact (Except.ok.inj hwrite).symm

/-- **Rendering is unambiguous.** Two attributes over the names of one interner, with identifiers
in their names and without expressions, have the same written form exactly if they say the same,
that is, if they differ in spans and usage flags at most. This does not depend on which
characters of a text are hidden. -/
theorem render_unambiguous (ht : t.Reachable) (ha : a.traverse t.lookup = .ok a')
    (hb : b.traverse t.lookup = .ok b') (hpa : a'.Plain) (hpb : b'.Plain) :
    (∀ hidden, a'.write hidden = b'.write hidden ↔ a.strip = b.strip) ∧
      (a.render t = b.render t ↔ a.strip = b.strip) := by
  have hwrite : ∀ hidden, a'.write hidden = b'.write hidden ↔ a.strip = b.strip := by
    intro hidden
    constructor
    · intro h
      exact strip_eq_of_traverse ht.wellFormed ha hb (hpa.strip_eq_of_write hpb h)
    · exact write_eq_of_strip hidden ha hb
  have hrender : ∀ {c : Attr Name} {c' : Attr String}, c.traverse t.lookup = .ok c' →
      c.render t = .ok (String.ofList (c'.write Text.isInvisible)) := by
    intro c c' hc
    rw [render, hc]
    rfl
  refine ⟨hwrite, ?_⟩
  rw [hrender ha, hrender hb, ← hwrite Text.isInvisible, Except.ok.injEq, String.ofList_inj]

/-- `#[cfg(skip = …)]` with a text full of delimiters, twice with different spans and flags, and
`#[cfg(skip, skip)]`, which says something else. -/
theorem render_unambiguous_delimiters :
    let t := (Interner.intern "\"), skip(" .initial).2
    let skip : AttrName Name := .trivial ⟨4026531840⟩
    let a : Attr Name := .new ⟨0, 9⟩ (.trivial ⟨1073741824⟩)
      (.nested [.new ⟨3, 8⟩ skip (.text ⟨2684354561⟩)])
    let b : Attr Name := (Attr.new ⟨5, 5⟩ (.trivial ⟨1073741824⟩)
      (.nested [(Attr.new ⟨9, 2⟩ skip (.text ⟨2684354561⟩)).markUsed])).markUsed
    let c : Attr Name := .new ⟨0, 9⟩ (.trivial ⟨1073741824⟩)
      (.nested [.new ⟨3, 8⟩ skip .bare, .new ⟨3, 8⟩ skip .bare])
    t.Reachable ∧ a.render t = .ok "#[cfg(skip = \"\\\"), skip(\")]" ∧ a.render t = b.render t ∧
      a.render t ≠ c.render t := by
  intro t skip a b c
  have hname : Interner.intern "\"), skip(" .initial = (.ok ⟨2684354561⟩, t) :=
    InternM.eq_of_answer (by decide +kernel)
  have ht : t.Reachable := ⟨_, Interner.History.initial.intern hname⟩
  have hcfg : Path.Plain ["cfg"] := ⟨by decide, by decide +kernel⟩
  have hskip : Path.Plain ["skip"] := ⟨by decide, by decide +kernel⟩
  let a' : Attr String :=
    .new ⟨0, 9⟩ (.trivial "cfg") (.nested [.new ⟨3, 8⟩ (.trivial "skip") (.text "\"), skip(")])
  let b' : Attr String := (Attr.new ⟨5, 5⟩ (.trivial "cfg")
    (.nested [(Attr.new ⟨9, 2⟩ (.trivial "skip") (.text "\"), skip(")).markUsed])).markUsed
  let c' : Attr String := .new ⟨0, 9⟩ (.trivial "cfg")
    (.nested [.new ⟨3, 8⟩ (.trivial "skip") .bare, .new ⟨3, 8⟩ (.trivial "skip") .bare])
  have ha : a.traverse t.lookup = .ok a' := by decide +kernel
  have hb : b.traverse t.lookup = .ok b' := by decide +kernel
  have hc : c.traverse t.lookup = .ok c' := by decide +kernel
  have hpa : a'.Plain := .nested hcfg (List.forall_mem_singleton.mpr (.text hskip))
  have hpb : b'.Plain := .nested hcfg (List.forall_mem_singleton.mpr (.text hskip))
  have hpc : c'.Plain := .nested hcfg
    (List.forall_mem_cons.mpr ⟨.bare hskip, List.forall_mem_singleton.mpr (.bare hskip)⟩)
  obtain ⟨-, hab⟩ := render_unambiguous ht ha hb hpa hpb
  obtain ⟨-, hac⟩ := render_unambiguous ht ha hc hpa hpc
  exact ⟨ht, by decide +kernel, hab.mpr (by decide +kernel), hac.not.mpr (by decide +kernel)⟩

end Names

end ItemAttrs.Attr
