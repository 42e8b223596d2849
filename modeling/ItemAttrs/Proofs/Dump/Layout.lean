import ItemAttrs.Expr.Dump
import ItemAttrs.Proofs.Text.Reading

/-!
# Reading dumps

What two dumps on one line tell about the values that they show (`Dump.Tell`) is put together from
what their parts tell:

* `tell_of_heads`: different heads tell everything, so that only values of one form have to be
  compared;
* `tell_group`: behind the same head, parts are told one by one (`TellAll`), and the bracket that
  closes them tells where the last one ends;
* `tell_list`: so are the elements of a list, and that there are equally many of them.
-/

namespace ItemAttrs.Dump

/-- What may stand behind a part of a dump. -/
def ends : List Char := [',', ')', ']', ' ']

/-- **What two dumps tell,** wherever they stand. -/
def Tell (d d' : Dump) (P : Prop) : Prop := Tells (Follows ends) d.write d'.write P

/-- What the parts of two dumps tell, if there are equally many of them. -/
inductive TellAll : List Dump → List Dump → Prop → Prop where
  | nil : TellAll [] [] True
  | cons {d d' : Dump} {ds ds' : List Dump} {P Q : Prop} (hd : d.Tell d' P)
      (hds : TellAll ds ds' Q) : TellAll (d :: ds) (d' :: ds') (P ∧ Q)

variable {d d' : Dump} {ds ds' : List Dump} {P Q : Prop}

theorem Tell.mono (h : d.Tell d' P) (hPQ : P → Q) : d.Tell d' Q := Tells.mono h hPQ

@[simp] theorem writeAll_eq_map (ds : List Dump) : writeAll ds = ds.map write := by
  induction ds with
  | nil => rfl
  | cons d ds ih => rw [writeAll, ih, List.map_cons]

/-! ### Heads -/

/-- **A word:** one letter at least, and nothing but letters. -/
def IsWord (s : String) : Prop := s.toList ≠ [] ∧ ∀ c ∈ s.toList, c.isAlpha = true

-- one character after the other is looked at, rather than every character there is
instance (s : String) : Decidable (IsWord s) :=
  decidable_of_iff ((!s.toList.isEmpty && s.toList.all Char.isAlpha) = true) (by simp [IsWord])

/-- **The dump begins with a word,** and goes on with something else than a letter. -/
structure Headed (head : String) (d : Dump) : Prop where
  word : IsWord head
  form : ∃ rest, d.write = head.toList ++ rest ∧ (rest = [] ∨ Follows ['(', ' '] rest)

section Heads

variable {head head' : String}

theorem headed_word (h : IsWord head) : Headed head (.word head) :=
  ⟨h, [], (List.append_nil _).symm, .inl rfl⟩

theorem headed_group {b : Brackets} (h : IsWord head) (hb : b ≠ .square) (parts : List Dump) :
    Headed head (group b head parts) := by
  have hopen : ∀ r, Follows ['(', ' '] (b.inline.1 ++ r) := by
    intro r
    cases b with
    | braces => exact follows_cons (c := ' ') (by decide) _
    | parentheses => exact follows_cons (c := '(') (by decide) _
    | square => exact absurd rfl hb
  refine ⟨h, b.inline.1 ++ (listSeparator.intercalate (writeAll parts) ++ b.inline.2), ?_,
    .inr (hopen _)⟩
  rw [write, List.append_assoc, List.append_assoc]
  rfl

theorem headed_tuple (h : IsWord head) (parts : List Dump) : Headed head (tuple head parts) :=
  headed_group h (by decide) parts

theorem headed_record (h : IsWord head) (parts : List (String × Dump)) :
    Headed head (record head parts) := headed_group h (by decide) _

/-- A word ends in front of what may stand behind a dump, too. -/
theorem Headed.stops {rest r : List Char} (hrest : rest = [] ∨ Follows ['(', ' '] rest)
    (hr : Follows ends r) : Stops (·.isAlpha = true) (rest ++ r) := by
  rcases hrest with rfl | ⟨c, rest', rfl, hc⟩
  · exact hr.stops (by decide)
  · have hnext : Follows ['(', ' '] (c :: (rest' ++ r)) := follows_cons hc _
    exact hnext.stops (by decide)

/-- **Different heads tell everything:** only dumps with the same head have to be compared. -/
theorem tell_of_heads (hd : Headed head d) (hd' : Headed head' d')
    (hsame : head = head' → d.Tell d' P) : d.Tell d' P := by
  intro r r' hr hr' heq
  obtain ⟨rest, hw, hrest⟩ := hd.form
  obtain ⟨rest', hw', hrest'⟩ := hd'.form
  -- both words are the longest stretch of letters
  have hhead : head = head' := by
    rw [hw, hw', List.append_assoc, List.append_assoc] at heq
    obtain ⟨hletters, -⟩ := eq_of_stretch hd.word.2 hd'.word.2 (Headed.stops hrest hr)
      (Headed.stops hrest' hr') heq
    exact String.toList_inj.mp hletters
  exact hsame hhead r r' hr hr' heq

theorem tell_word (h : IsWord head) (h' : IsWord head') :
    (word head).Tell (word head') (head = head') := by
  refine tell_of_heads (headed_word h) (headed_word h') ?_
  rintro rfl
  exact Tells.same _ rfl

/-- No dump with a head begins like the end of a list. -/
theorem Headed.write_ne (hd : Headed head d) (r r' : List Char) : d.write ++ r ≠ ']' :: r' := by
  obtain ⟨rest, hw, -⟩ := hd.form
  obtain ⟨c, cs, hcs⟩ := List.exists_cons_of_ne_nil hd.word.1
  have hc : c.isAlpha = true := hd.word.2 c (hcs ▸ List.mem_cons_self)
  rw [hw, hcs]
  intro heq
  rw [(List.cons.inj heq).1] at hc
  exact absurd hc (by decide)

end Heads

/-! ### Parts -/

theorem tell_field (label : String) (h : d.Tell d' P) :
    (field label d).Tell (field label d') P := by
  unfold Tell
  rw [write, write]
  exact Tells.prepend _ h

/-- Behind a part stands the comma before the next one, or what stands behind all of them. -/
theorem follows_flatMap (ds : List Dump) {r : List Char} (hr : Follows ends r) :
    Follows ends ((ds.flatMap fun d => listSeparator ++ d.write) ++ r) := by
  cases ds with
  | nil => exact hr
  | cons d ds => exact follows_cons (c := ',') (by decide) _

theorem TellAll.tells_flatMap (h : TellAll ds ds' P) :
    Tells (Follows ends) (ds.flatMap fun d => listSeparator ++ d.write)
      (ds'.flatMap fun d => listSeparator ++ d.write) P := by
  induction h with
  | nil => exact .same [] trivial
  | @cons d d' ds ds' P Q hd _ ih =>
    rw [List.flatMap_cons, List.flatMap_cons, List.append_assoc, List.append_assoc]
    refine .prepend _ (.append hd (fun _ => ih) ?_ ?_)
    · intro r hr
      exact follows_flatMap ds hr
    · intro r hr
      exact follows_flatMap ds' hr

theorem TellAll.tells_intercalate (h : TellAll ds ds' P) :
    Tells (Follows ends) (listSeparator.intercalate (ds.map write))
      (listSeparator.intercalate (ds'.map write)) P := by
  cases h with
  | nil => exact .same _ trivial
  | @cons d d' ds ds' P Q hd hds =>
    -- the first part has no comma before it, and all others have one
    rw [List.map_cons, List.map_cons, intercalate_cons_eq_flatMap, intercalate_cons_eq_flatMap,
      List.flatMap_map, List.flatMap_map]
    refine .append hd (fun _ => hds.tells_flatMap) ?_ ?_
    · intro r hr
      exact follows_flatMap ds hr
    · intro r hr
      exact follows_flatMap ds' hr

/-- **Behind the same head,** parts tell what each of them tells. -/
theorem tell_group (b : Brackets) (head : String) (h : TellAll ds ds' P) :
    (group b head ds).Tell (group b head ds') P := by
  unfold Tell
  rw [write, write, writeAll_eq_map, writeAll_eq_map]
  refine .close _ (.prepend _ h.tells_intercalate) ?_
  -- every closing bracket may stand behind a part
  intro r
  cases b with
  | braces => exact follows_cons (c := ' ') (by decide) _
  | parentheses => exact follows_cons (c := ')') (by decide) _
  | square => exact follows_cons (c := ']') (by decide) _

/-- **Lists tell their elements,** if every two elements are told apart and each has a head. -/
theorem tell_list {α : Type} {dump : α → Dump} {head : α → String} {as bs : List α}
    (hhead : ∀ a, Headed (head a) (dump a))
    (hpart : ∀ a ∈ as, ∀ b ∈ bs, (dump a).Tell (dump b) (a = b)) :
    (list (as.map dump)).Tell (list (bs.map dump)) (as = bs) := by
  have hends : ∀ r, Ends ']' r → Follows ends r := fun r hr => follows_of_ends hr (by decide)
  have hparts : Tells (Follows ends)
      (listSeparator.intercalate (as.map fun a => (dump a).write) ++ [']'])
      (listSeparator.intercalate (bs.map fun b => (dump b).write) ++ [']'])
      (as.map id = bs.map id) := by
    refine tells_separated (by decide) ?_ ?_ ?_
    · intro a ha b hb
      exact Tells.restrict (hpart a ha b hb) hends
    · intro a _ r r'
      exact (hhead a).write_ne r r'
    · intro b _ r r'
      exact (hhead b).write_ne r r'
  rw [List.map_id, List.map_id] at hparts
  have hlist : ∀ cs : List α, (list (cs.map dump)).write =
      ['['] ++ (listSeparator.intercalate (cs.map fun c => (dump c).write) ++ [']']) := by
    intro cs
    show write (group _ _ _) = _
    rw [write, writeAll_eq_map, List.map_map]
    rfl
  unfold Tell
  rw [hlist, hlist]
  exact .prepend _ hparts

end ItemAttrs.Dump
