import ItemAttrs.Json.Read
import ItemAttrs.Proofs.Text.Quoted

/-!
# Written documents are read back

The reader works on tokens, one after the other, and never looks ahead. So what it makes of a
written document does not depend on what it has read before or is still to read: from any state
in which a value may come next, it gets past the whole document and puts it into the innermost
open container (`Reader.Passes`). Only a number needs to know what comes next, since nothing else
shows where it ends.

* `Spelled`: the texts and numbers of a document are spelled the way the writer spells them;
* `next?_text` and `next?_number`: the two tokens of more than a fixed length;
* `Reader.feed_of_next?`: one token, and then what follows it;
* `Reader.feed_items` and `Reader.feed_members`: what a container has behind its first part;
* `read?_toText`: a document that is spelled so is read back from its written form.
-/

namespace ItemAttrs.Json

/-- **Texts and numbers are spelled by the writer,** at every depth. -/
inductive Spelled : Json → Prop where
  | null : Spelled .null
  | bool (b : Bool) : Spelled (.bool b)
  | number (n : Nat) : Spelled (.number (Nat.toDigits 10 n))
  | text (cs : List Char) : Spelled (.text (encodeText cs))
  | array {items : List Json} (h : ∀ j ∈ items, Spelled j) : Spelled (.array items)
  | object {members : List (List Char × Json)} (hname : ∀ m ∈ members, ∃ cs, m.1 = encodeText cs)
      (hvalue : ∀ m ∈ members, Spelled m.2) : Spelled (.object members)

/-- The written form of one member. -/
def writeMember (m : List Char × Json) : List Char := '"' :: m.1 ++ ['"', ':'] ++ m.2.write

theorem writeItems_eq_map (items : List Json) : writeItems items = items.map write := by
  induction items with
  | nil => rfl
  | cons j items ih => rw [writeItems, ih, List.map_cons]

theorem writeMembers_eq_map (members : List (List Char × Json)) :
    writeMembers members = members.map writeMember := by
  induction members with
  | nil => rfl
  | cons m members ih =>
    rw [writeMembers, ih, List.map_cons]
    rfl

/-! ### Texts -/

theorem areHex_control {n : Nat} (hn : n < 32) :
    areHex ['0', '0', Nat.digitChar (n / 16), Nat.digitChar (n % 16)] = true := by
  have hall : ∀ n < 32,
      areHex ['0', '0', Nat.digitChar (n / 16), Nat.digitChar (n % 16)] = true := by decide
  exact hall n hn

/-- What the writer puts for a character, the reader takes for a part of the text. -/
theorem scanText_escapeChar (c : Char) (rest : List Char) :
    scanText (escapeChar c ++ rest) = extend (escapeChar c) (scanText rest) := by
  rcases escapeChar_cases c with ⟨e, hform, he⟩ | ⟨hform, hcontrol⟩ |
    ⟨hform, hbackslash, hquote, hcontrol⟩
  · have hu := ne_u_of_escaped? he
    simp [hform, scanText, he, hu]
  · simp [hform, controlEscape, scanText, areHex_control hcontrol]
  · simp [hform, scanText, hbackslash, hcontrol]

theorem scanText_encodeText (cs rest : List Char) :
    scanText (encodeText cs ++ '"' :: rest) = some (encodeText cs, rest) := by
  induction cs with
  | nil => rfl
  | cons c cs ih =>
    have hcons : encodeText (c :: cs) = escapeChar c ++ encodeText cs := List.flatMap_cons
    rw [hcons, List.append_assoc, scanText_escapeChar, ih]
    rfl

theorem next?_text (cs rest : List Char) :
    Token.next? ('"' :: encodeText cs ++ '"' :: rest) = some (.text (encodeText cs), rest) := by
  change (scanText (encodeText cs ++ '"' :: rest)).map _ = _
  rw [scanText_encodeText]
  rfl

/-! ### Numbers -/

/-- The character may stand in a number, behind its first digit. -/
def InNumber (c : Char) : Prop := c.isDigit = true ∨ c = '.' ∨ c = 'e' ∨ c = 'E'

instance : DecidablePred InNumber := fun _ => inferInstanceAs (Decidable (_ ∨ _))

theorem isDigit_of_mem_toDigits {n : Nat} {c : Char} (hc : c ∈ Nat.toDigits 10 n) :
    c.isDigit = true := Nat.isDigit_of_mem_toDigits (by decide) (by decide) hc

theorem exists_digit (n : Nat) : ∃ d ds, Nat.toDigits 10 n = d :: ds ∧ d.isDigit = true := by
  obtain ⟨d, ds, hds⟩ := List.exists_cons_of_ne_nil (Nat.toDigits_ne_nil (b := 10) (n := n))
  exact ⟨d, ds, hds, isDigit_of_mem_toDigits (hds ▸ List.mem_cons_self)⟩

/-- Only zero is written with a zero in front. -/
theorem eq_nil_of_toDigits {n : Nat} {ds : List Char} (h : Nat.toDigits 10 n = '0' :: ds) :
    ds = [] := by
  induction n using Nat.strongRecOn generalizing ds with
  | ind n ih =>
    by_cases hn : n < 10
    · rw [Nat.toDigits_of_lt_base hn] at h
      exact (List.cons.inj h).2.symm
    · -- the digits in front of the last one are those of a smaller number, which is not zero
      rw [Nat.toDigits_of_base_le (by decide) (Nat.le_of_not_lt hn)] at h
      obtain ⟨front, hfront⟩ : ∃ front, Nat.toDigits 10 (n / 10) = '0' :: front := by
        cases hdigits : Nat.toDigits 10 (n / 10) with
        | nil => exact absurd hdigits Nat.toDigits_ne_nil
        | cons d front =>
          rw [hdigits] at h
          exact ⟨front, by rw [(List.cons.inj h).1]⟩
      have hnil := ih (n / 10) (by omega) hfront
      subst hnil
      have hzero : n / 10 = 0 := Text.eq_of_toDigits (by decide) (by decide) (hfront.trans rfl)
      omega

variable {rest : List Char}

theorem span_of_stops (h : Stops InNumber rest) :
    rest.takeWhile Char.isDigit = [] ∧ rest.dropWhile Char.isDigit = rest := by
  cases rest with
  | nil => exact ⟨rfl, rfl⟩
  | cons c rest =>
    have hc : ¬c.isDigit = true := fun hc => h c rest rfl (.inl hc)
    exact ⟨List.takeWhile_cons_of_neg hc, List.dropWhile_cons_of_neg hc⟩

theorem scanInteger_toDigits (n : Nat) (h : Stops InNumber rest) :
    scanInteger (Nat.toDigits 10 n ++ rest) = some (Nat.toDigits 10 n, rest) := by
  unfold scanInteger
  split
  · next cs hcs =>
    -- the zero is the whole number, and what follows it is no digit
    obtain ⟨d, ds, hds, -⟩ := exists_digit n
    rw [hds, List.cons_append] at hcs
    obtain ⟨rfl, rfl⟩ := List.cons.inj hcs
    obtain rfl := eq_nil_of_toDigits hds
    rw [List.nil_append, (span_of_stops h).1, hds]
    rfl
  · have hdigits : ∀ d ∈ Nat.toDigits 10 n, d.isDigit = true := fun _ => isDigit_of_mem_toDigits
    rw [scanDigits, List.takeWhile_append_of_pos hdigits, List.dropWhile_append_of_pos hdigits,
      (span_of_stops h).1, (span_of_stops h).2, List.append_nil, if_neg (by simp)]

theorem scanFraction_of_stops (h : Stops InNumber rest) : scanFraction rest = some ([], rest) := by
  unfold scanFraction
  split
  · exact absurd (.inr (.inl rfl)) (h '.' _ rfl)
  · rfl

theorem scanExponent_of_stops (h : Stops InNumber rest) : scanExponent rest = some ([], rest) := by
  have hhead : ∀ c cs, rest = c :: cs → (decide (c = 'e') || decide (c = 'E')) = false := by
    intro c cs hc
    have hnot := h c cs hc
    simp only [InNumber, not_or] at hnot
    simp [hnot.2.2]
  unfold scanExponent
  split
  · rw [hhead _ _ rfl]
    rfl
  · rw [hhead _ _ rfl]
    rfl
  · rfl

theorem scanNumber_toDigits (n : Nat) (h : Stops InNumber rest) :
    scanNumber (Nat.toDigits 10 n ++ rest) = some (Nat.toDigits 10 n, rest) := by
  have hsign : scanSign (Nat.toDigits 10 n ++ rest) = ([], Nat.toDigits 10 n ++ rest) := by
    obtain ⟨d, ds, hds, hd⟩ := exists_digit n
    unfold scanSign
    split
    · next cs hcs =>
      rw [hds, List.cons_append] at hcs
      obtain ⟨rfl, -⟩ := List.cons.inj hcs
      exact absurd hd (by decide)
    · rfl
  simp [scanNumber, hsign, scanInteger_toDigits n h, scanFraction_of_stops h,
    scanExponent_of_stops h]

theorem next?_of_isDigit {d : Char} (hd : d.isDigit = true) (cs : List Char) :
    Token.next? (d :: cs) = (scanNumber (d :: cs)).map fun p => (.leaf (.number p.1), p.2) := by
  have hdigit : ∀ {e : Char} {es : List Char}, d :: cs = e :: es → e.isDigit = true := by
    intro e es heq
    obtain ⟨rfl, -⟩ := List.cons.inj heq
    exact hd
  unfold Token.next?
  -- every other token begins with a character that is no digit
  split <;> first
    | rfl
    | next heq => exact absurd (hdigit heq) (by decide)

/-- **A number** ends where something comes that cannot stand in one. -/
theorem next?_number (n : Nat) (h : Stops InNumber rest) :
    Token.next? (Nat.toDigits 10 n ++ rest) = some (.leaf (.number (Nat.toDigits 10 n)), rest) := by
  have hnumber := scanNumber_toDigits n h
  obtain ⟨d, ds, hds, hd⟩ := exists_digit n
  rw [hds, List.cons_append] at hnumber ⊢
  rw [next?_of_isDigit hd, hnumber]
  rfl

/-! ### The reader -/

namespace Reader

/-- **The reader goes on** with a text. -/
def feed (r : Reader) (cs : List Char) : Option Reader := do (← Token.all? cs).foldlM step r

/-- A value may come next. -/
def TakesValue (r : Reader) : Prop := r.expected = .value ∨ r.expected = .firstItem

theorem feed_nil (r : Reader) : r.feed [] = some r := by
  rw [feed, Token.all?]
  rfl

theorem not_blank_of_next? {c : Char} {cs : List Char} {p : Token × List Char}
    (h : Token.next? (c :: cs) = some p) : isBlank c = false := by
  rw [Bool.eq_false_iff]
  intro hblank
  simp only [isBlank, Bool.or_eq_true, beq_iff_eq] at hblank
  rcases hblank with ((rfl | rfl) | rfl) | rfl <;> exact nomatch h

/-- **One token,** and then what follows it. -/
theorem feed_of_next? (token : Token) {cs rest : List Char}
    (h : Token.next? cs = some (token, rest)) (r : Reader) :
    r.feed cs = (r.step token).bind (·.feed rest) := by
  have hall : Token.all? cs = (Token.all? rest).map (token :: ·) := by
    cases cs with
    | nil => cases h
    | cons c cs =>
      have hdrop : (c :: cs).dropWhile isBlank = c :: cs :=
        List.dropWhile_cons_of_neg (by rw [not_blank_of_next? h]; decide)
      rw [Token.all?]
      split
      · next hnil => cases hdrop.symm.trans hnil
      · next hcons =>
        cases hdrop.symm.trans hcons
        split
        · next hnone => cases h.symm.trans hnone
        · next hsome =>
          cases h.symm.trans hsome
          rfl
  -- the text is read as a whole, so it does not matter which of the two fails first
  rw [feed, hall]
  cases hstep : r.step token with
  | none => cases Token.all? rest <;> simp [hstep]
  | some r' => cases hrest : Token.all? rest <;> simp [feed, hstep, hrest]

/-- Where a value may come next, any token begins one, unless it closes an array. -/
theorem step_eq_beginValue {r : Reader} (hr : r.TakesValue) {token : Token}
    (htoken : token ≠ .closeArray) : r.step token = beginValue r.containers token := by
  obtain ⟨containers, expected⟩ := r
  rcases hr with hr | hr <;> cases hr
  · rfl
  · cases token with
    | closeArray => exact absurd rfl htoken
    | _ => rfl

/-- **The reader gets past a document** whenever a value may come next. -/
def Passes (j : Json) : Prop :=
  ∀ (r : Reader) (rest : List Char), r.TakesValue → Stops InNumber rest →
    r.feed (j.write ++ rest) = (put j r.containers).bind (·.feed rest)

/-- Behind an item or a member comes the comma before the next one, or the end. -/
theorem stops_more {α : Type} (write : α → List Char) (as : List α) (close : Char)
    (hclose : ¬InNumber close) (rest : List Char) :
    Stops InNumber ((as.flatMap fun a => [','] ++ write a) ++ close :: rest) := by
  cases as with
  | nil => exact stops_cons hclose rest
  | cons a as => exact stops_cons (by decide) _

section Containers

variable (containers : List Open) (rest : List Char)

/-- The items after the first one, each with a comma before it. -/
theorem feed_items {items : List Json} (h : ∀ j ∈ items, Passes j) (done : List Json) :
    feed ⟨.array done :: containers, .separator⟩
        ((items.flatMap fun j => [','] ++ j.write) ++ ']' :: rest) =
      (put (.array (done.reverse ++ items)) containers).bind (·.feed rest) := by
  induction items generalizing done with
  | nil =>
    rw [List.append_nil]
    exact feed_of_next? .closeArray rfl _
  | cons j items ih =>
    have hj := h j List.mem_cons_self ⟨.array done :: containers, .value⟩ _ (.inl rfl)
      (stops_more write items ']' (by decide) rest)
    have hitems := ih (fun j' hj' => h j' (List.mem_cons_of_mem j hj')) (j :: done)
    rw [List.reverse_cons, List.append_assoc] at hitems
    rw [List.flatMap_cons, List.append_assoc, List.append_assoc]
    calc feed ⟨.array done :: containers, .separator⟩ _
        = feed ⟨.array done :: containers, .value⟩ _ := feed_of_next? .comma rfl _
      _ = feed ⟨.array (j :: done) :: containers, .separator⟩ _ := hj
      _ = _ := hitems

/-- **One member:** its name, a colon and its value. -/
theorem feed_member {expected : Expected} (hexpected : expected = .name ∨ expected = .firstMember)
    (cs : List Char) {value : Json} (h : Passes value) (done : List (List Char × Json))
    (hrest : Stops InNumber rest) :
    feed ⟨.object done :: containers, expected⟩
        (writeMember (encodeText cs, value) ++ rest) =
      feed ⟨.object ((encodeText cs, value) :: done) :: containers, .separator⟩ rest := by
  have hname : step ⟨.object done :: containers, expected⟩ (.text (encodeText cs)) =
      some ⟨.member (encodeText cs) done :: containers, .colon⟩ := by
    rcases hexpected with rfl | rfl <;> rfl
  calc feed ⟨.object done :: containers, expected⟩ _
      = feed ⟨.object done :: containers, expected⟩
          ('"' :: encodeText cs ++ '"' :: ':' :: (value.write ++ rest)) := by simp [writeMember]
    _ = feed ⟨.member (encodeText cs) done :: containers, .colon⟩
          (':' :: (value.write ++ rest)) := by
      rw [feed_of_next? _ (next?_text cs _), hname, Option.bind_some]
    _ = feed ⟨.member (encodeText cs) done :: containers, .value⟩ (value.write ++ rest) :=
      feed_of_next? .colon rfl _
    _ = _ := h _ _ (.inl rfl) hrest

theorem feed_members {members : List (List Char × Json)}
    (hname : ∀ m ∈ members, ∃ cs, m.1 = encodeText cs) (h : ∀ m ∈ members, Passes m.2)
    (done : List (List Char × Json)) :
    feed ⟨.object done :: containers, .separator⟩
        ((members.flatMap fun m => [','] ++ writeMember m) ++ '\x7d' :: rest) =
      (put (.object (done.reverse ++ members)) containers).bind (·.feed rest) := by
  induction members generalizing done with
  | nil =>
    rw [List.append_nil]
    exact feed_of_next? .closeObject rfl _
  | cons m members ih =>
    obtain ⟨name, value⟩ := m
    obtain ⟨cs, rfl⟩ := hname _ List.mem_cons_self
    have hm := feed_member containers _ (.inl rfl) cs (h _ List.mem_cons_self) done
      (stops_more writeMember members '\x7d' (by decide) rest)
    have hmembers := ih (fun m hm => hname m (List.mem_cons_of_mem _ hm))
      (fun m hm => h m (List.mem_cons_of_mem _ hm)) ((encodeText cs, value) :: done)
    rw [List.reverse_cons, List.append_assoc] at hmembers
    rw [List.flatMap_cons, List.append_assoc, List.append_assoc]
    calc feed ⟨.object done :: containers, .separator⟩ _
        = feed ⟨.object done :: containers, .name⟩ _ := feed_of_next? .comma rfl _
      _ = feed ⟨.object ((encodeText cs, value) :: done) :: containers, .separator⟩ _ := hm
      _ = _ := hmembers

end Containers

/-- A value that is one token. -/
theorem passes_of_next? {j : Json} (token : Token) (htoken : token ≠ .closeArray)
    (hput : ∀ containers, beginValue containers token = put j containers)
    (hnext : ∀ rest, Stops InNumber rest → Token.next? (j.write ++ rest) = some (token, rest)) :
    Passes j := by
  intro r rest hr hrest
  rw [feed_of_next? token (hnext rest hrest), step_eq_beginValue hr htoken, hput]

theorem passes_array {items : List Json} (h : ∀ j ∈ items, Passes j) : Passes (.array items) := by
  intro r rest hr hrest
  have hopen : r.feed ((Json.array items).write ++ rest) =
      feed ⟨.array [] :: r.containers, .firstItem⟩
        ([','].intercalate (items.map write) ++ ']' :: rest) := by
    have hwrite : (Json.array items).write ++ rest =
        '[' :: ([','].intercalate (items.map write) ++ ']' :: rest) := by
      simp [write, writeItems_eq_map]
    rw [hwrite, feed_of_next? .openArray rfl, step_eq_beginValue hr (by simp)]
    rfl
  rw [hopen]
  cases items with
  | nil => exact feed_of_next? .closeArray rfl _
  | cons j items =>
    have hj := h j List.mem_cons_self ⟨.array [] :: r.containers, .firstItem⟩ _ (.inr rfl)
      (stops_more write items ']' (by decide) rest)
    rw [List.map_cons, intercalate_cons_eq_flatMap, List.flatMap_map, List.append_assoc, hj]
    exact feed_items r.containers rest (fun j' hj' => h j' (List.mem_cons_of_mem j hj')) [j]

theorem passes_object {members : List (List Char × Json)}
    (hname : ∀ m ∈ members, ∃ cs, m.1 = encodeText cs) (h : ∀ m ∈ members, Passes m.2) :
    Passes (.object members) := by
  intro r rest hr hrest
  have hopen : r.feed ((Json.object members).write ++ rest) =
      feed ⟨.object [] :: r.containers, .firstMember⟩
        ([','].intercalate (members.map writeMember) ++ '\x7d' :: rest) := by
    have hwrite : (Json.object members).write ++ rest =
        '\x7b' :: ([','].intercalate (members.map writeMember) ++ '\x7d' :: rest) := by
      simp [write, writeMembers_eq_map]
    rw [hwrite, feed_of_next? .openObject rfl, step_eq_beginValue hr (by simp)]
    rfl
  rw [hopen]
  cases members with
  | nil => exact feed_of_next? .closeObject rfl _
  | cons m members =>
    obtain ⟨name, value⟩ := m
    obtain ⟨cs, rfl⟩ := hname _ List.mem_cons_self
    rw [List.map_cons, intercalate_cons_eq_flatMap, List.flatMap_map, List.append_assoc,
      feed_member r.containers _ (.inr rfl) cs (h _ List.mem_cons_self) []
        (stops_more writeMember members '\x7d' (by decide) rest)]
    exact feed_members r.containers rest (fun m hm => hname m (List.mem_cons_of_mem _ hm))
      (fun m hm => h m (List.mem_cons_of_mem _ hm)) _

end Reader

/-- **A document is read** from any state in which a value may come next. -/
theorem Spelled.passes {j : Json} (h : j.Spelled) : Reader.Passes j := by
  induction h with
  | null =>
    exact Reader.passes_of_next? (.leaf .null) (by simp) (fun _ => rfl) fun _ _ => rfl
  | bool b =>
    refine Reader.passes_of_next? (.leaf (.bool b)) (by simp) (fun _ => rfl) fun _ _ => ?_
    cases b <;> rfl
  | number n =>
    exact Reader.passes_of_next? _ (by simp) (fun _ => rfl) fun _ => next?_number n
  | text cs =>
    refine Reader.passes_of_next? (.text (encodeText cs)) (by simp) (fun _ => rfl)
      fun rest _ => ?_
    exact (congrArg Token.next? (by simp [write])).trans (next?_text cs rest)
  | array h ih => exact Reader.passes_array ih
  | object hname hvalue ih => exact Reader.passes_object hname ih

/-- **A written document is read back.** -/
theorem read?_toText {j : Json} (h : j.Spelled) : read? j.toText = some j := by
  have hfeed : Reader.start.feed j.write = some ⟨[], .nothing j⟩ := by
    have hpasses := h.passes .start [] (.inl rfl) (by rintro c rest ⟨⟩)
    rw [List.append_nil] at hpasses
    exact hpasses.trans (Reader.feed_nil _)
  rw [Reader.feed, Option.bind_eq_bind, Option.bind_eq_some_iff] at hfeed
  obtain ⟨tokens, htokens, hrun⟩ := hfeed
  rw [read?, toText, String.toList_ofList, htokens]
  change (tokens.foldlM Reader.step .start).bind _ = _
  rw [hrun]
  rfl

end ItemAttrs.Json
