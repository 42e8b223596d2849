/-!
# JSON documents

A document is a tree of objects, arrays and leaves. Its numbers and texts are kept as they
are spelled: a **lexeme** is what stands between the quotes of a text, escapes included, or
the characters of a number. A reader interprets the lexemes it is interested in
(`Json.asNat?`, `Json.asText?`) and is not disturbed by those it passes over, such as a text
with half of a surrogate pair.

* `Json.ofNat` and `Json.ofText` make leaves, `Json.asNat?` and `Json.asText?` read them;
* `Json.ofRecord` and `Json.record?` do so for objects with fixed members;
* `Json.write` is the written form without blanks (`ItemAttrs.Json.Read` reads it).
-/

namespace ItemAttrs

/-- **A JSON document,** with its numbers and texts as they are spelled. -/
inductive Json where
  | null
  | bool (value : Bool)
  | number (lexeme : List Char)
  | text (lexeme : List Char)
  | array (items : List Json)
  | object (members : List (List Char × Json))

namespace Json

/-! ### Texts -/

/-- The escape of a control character by its number, which has two digits at most. -/
def controlEscape (c : Char) : List Char :=
  ['\\', 'u', '0', '0', Nat.digitChar (c.toNat / 16), Nat.digitChar (c.toNat % 16)]

/-- How one character of a text is spelled. -/
def escapeChar (c : Char) : List Char :=
  if c = '"' || c = '\\' then ['\\', c]
  else if c = '\x08' then ['\\', 'b']
  else if c = '\x0c' then ['\\', 'f']
  else if c = '\n' then ['\\', 'n']
  else if c = '\r' then ['\\', 'r']
  else if c = '\t' then ['\\', 't']
  else if c.toNat < 0x20 then controlEscape c
  else [c]

/-- **The spelling of a text.** -/
def encodeText (cs : List Char) : List Char := cs.flatMap escapeChar

/-- The character that a two-character escape stands for. -/
def escaped? : Char → Option Char
  | '"' => some '"'
  | '\\' => some '\\'
  | '/' => some '/'
  | 'b' => some '\x08'
  | 'f' => some '\x0c'
  | 'n' => some '\n'
  | 'r' => some '\r'
  | 't' => some '\t'
  | _ => none

/-- The value of a hexadecimal digit. -/
def hexValue? (c : Char) : Option Nat :=
  if '0' ≤ c ∧ c ≤ '9' then some (c.toNat - '0'.toNat)
  else if 'a' ≤ c ∧ c ≤ 'f' then some (c.toNat - 'a'.toNat + 10)
  else if 'A' ≤ c ∧ c ≤ 'F' then some (c.toNat - 'A'.toNat + 10)
  else none

/-- The value of four hexadecimal digits. -/
def hexValue4? (a b c d : Char) : Option Nat := do
  return (((← hexValue? a) * 16 + (← hexValue? b)) * 16 + (← hexValue? c)) * 16 + (← hexValue? d)

/-- The numbers that a lexeme spells: of characters, or of halves of surrogate pairs. -/
def codes? : List Char → Option (List Nat)
  | [] => some []
  | '\\' :: 'u' :: a :: b :: c :: d :: rest => do
    let n ← hexValue4? a b c d
    return n :: (← codes? rest)
  | '\\' :: e :: rest => do
    let c ← escaped? e
    return c.toNat :: (← codes? rest)
  | c :: rest =>
    if c = '\\' then none else do return c.toNat :: (← codes? rest)

/-- The number is that of the first half of a surrogate pair. -/
def isHighHalf (n : Nat) : Bool := 0xD800 ≤ n && n ≤ 0xDBFF

/-- The number is that of the second half of a surrogate pair. -/
def isLowHalf (n : Nat) : Bool := 0xDC00 ≤ n && n ≤ 0xDFFF

/-- The characters with the given numbers. The two halves of a surrogate pair make one
character, and neither may stand alone. -/
def assemble? : List Nat → Option (List Char)
  | [] => some []
  | n :: rest =>
    if isLowHalf n then none
    else if isHighHalf n then
      match rest with
      | low :: rest =>
        if isLowHalf low then do
          let c := Char.ofNat (0x10000 + (n - 0xD800) * 0x400 + (low - 0xDC00))
          return c :: (← assemble? rest)
        else none
      | [] => none
    else do return Char.ofNat n :: (← assemble? rest)

/-- **The text that a lexeme spells,** if it spells one. -/
def decodeText? (lexeme : List Char) : Option (List Char) := do assemble? (← codes? lexeme)

theorem hexValue4?_control (n : Nat) (h : n < 32) :
    hexValue4? '0' '0' (Nat.digitChar (n / 16)) (Nat.digitChar (n % 16)) = some n := by
  have hall : ∀ n < 32,
      hexValue4? '0' '0' (Nat.digitChar (n / 16)) (Nat.digitChar (n % 16)) = some n := by decide
  exact hall n h

/-- **The forms of a character:** an escape of two characters, its number, or the character. -/
theorem escapeChar_cases (c : Char) :
    (∃ e, escapeChar c = ['\\', e] ∧ escaped? e = some c) ∨
      (escapeChar c = controlEscape c ∧ c.toNat < 0x20) ∨
      (escapeChar c = [c] ∧ c ≠ '\\' ∧ c ≠ '"' ∧ ¬c.toNat < 0x20) := by
  unfold escapeChar
  split
  · next hself =>
    have hmark : c = '"' ∨ c = '\\' := by simpa using hself
    rcases hmark with rfl | rfl
    · exact .inl ⟨'"', rfl, rfl⟩
    · exact .inl ⟨'\\', rfl, rfl⟩
  · next hself =>
    split
    · next hbackspace => exact .inl ⟨'b', rfl, hbackspace ▸ rfl⟩
    split
    · next hfeed => exact .inl ⟨'f', rfl, hfeed ▸ rfl⟩
    split
    · next hline => exact .inl ⟨'n', rfl, hline ▸ rfl⟩
    split
    · next hreturn => exact .inl ⟨'r', rfl, hreturn ▸ rfl⟩
    split
    · next htab => exact .inl ⟨'t', rfl, htab ▸ rfl⟩
    split
    · next hcontrol => exact .inr (.inl ⟨rfl, hcontrol⟩)
    · next hcontrol =>
      obtain ⟨hquote, hbackslash⟩ : c ≠ '"' ∧ c ≠ '\\' := by simpa using hself
      exact .inr (.inr ⟨rfl, hbackslash, hquote, hcontrol⟩)

/-- No character is escaped by a `u`, which a number follows. -/
theorem ne_u_of_escaped? {e c : Char} (h : escaped? e = some c) : e ≠ 'u' := by
  rintro rfl
  cases h

theorem codes?_escaped {e c : Char} (h : escaped? e = some c) (rest : List Char) :
    codes? ('\\' :: e :: rest) = (codes? rest).map (c.toNat :: ·) := by
  have hu := ne_u_of_escaped? h
  cases hrest : codes? rest with
  | none => simp [codes?, hu, h, hrest]
  | some ns => simp [codes?, hu, h, hrest]

theorem codes?_control {c : Char} (h : c.toNat < 0x20) (rest : List Char) :
    codes? (controlEscape c ++ rest) = (codes? rest).map (c.toNat :: ·) := by
  have hvalue := hexValue4?_control c.toNat h
  cases hrest : codes? rest with
  | none => simp [controlEscape, codes?, hvalue, hrest]
  | some ns => simp [controlEscape, codes?, hvalue, hrest]

theorem codes?_itself {c : Char} (h : c ≠ '\\') (rest : List Char) :
    codes? (c :: rest) = (codes? rest).map (c.toNat :: ·) := by
  cases hrest : codes? rest with
  | none => simp [codes?, h, hrest]
  | some ns => simp [codes?, h, hrest]

theorem codes?_escapeChar_append (c : Char) (rest : List Char) :
    codes? (escapeChar c ++ rest) = (codes? rest).map (c.toNat :: ·) := by
  rcases escapeChar_cases c with ⟨e, hform, he⟩ | ⟨hform, hcontrol⟩ | ⟨hform, hbackslash, -⟩
  · rw [hform]
    exact codes?_escaped he rest
  · rw [hform]
    exact codes?_control hcontrol rest
  · rw [hform]
    exact codes?_itself hbackslash rest

theorem codes?_encodeText (cs : List Char) : codes? (encodeText cs) = some (cs.map Char.toNat) := by
  induction cs with
  | nil => rfl
  | cons c cs ih =>
    rw [encodeText, List.flatMap_cons, codes?_escapeChar_append]
    rw [encodeText] at ih
    simp [ih]

theorem isHighHalf_toNat (c : Char) : isHighHalf c.toNat = false := by
  have := c.valid
  simp only [isHighHalf, Bool.and_eq_false_iff, decide_eq_false_iff_not]
  simp only [UInt32.isValidChar, Nat.isValidChar] at this
  change ¬ 0xD800 ≤ c.val.toNat ∨ ¬ c.val.toNat ≤ 0xDBFF
  omega

theorem isLowHalf_toNat (c : Char) : isLowHalf c.toNat = false := by
  have := c.valid
  simp only [isLowHalf, Bool.and_eq_false_iff, decide_eq_false_iff_not]
  simp only [UInt32.isValidChar, Nat.isValidChar] at this
  change ¬ 0xDC00 ≤ c.val.toNat ∨ ¬ c.val.toNat ≤ 0xDFFF
  omega

theorem assemble?_map_toNat (cs : List Char) : assemble? (cs.map Char.toNat) = some cs := by
  induction cs with
  | nil => rfl
  | cons c cs ih =>
    rw [List.map_cons]
    unfold assemble?
    simp [isHighHalf_toNat, isLowHalf_toNat, ih]

/-- **Spelling loses nothing.** -/
@[simp] theorem decodeText?_encodeText (cs : List Char) :
    decodeText? (encodeText cs) = some cs := by
  simp [decodeText?, codes?_encodeText, assemble?_map_toNat]

/-! ### Leaves -/

/-- A number. -/
def ofNat (n : Nat) : Json := .number (Nat.toDigits 10 n)

/-- A text. -/
def ofText (s : String) : Json := .text (encodeText s.toList)

/-- The value of a number spelled with nothing but digits. -/
def decodeNat? (lexeme : List Char) : Option Nat :=
  if lexeme.all Char.isDigit then some (Nat.ofDigitChars 10 lexeme 0) else none

@[simp] theorem decodeNat?_toDigits (n : Nat) : decodeNat? (Nat.toDigits 10 n) = some n := by
  have h : (Nat.toDigits 10 n).all Char.isDigit = true :=
    List.all_eq_true.2 fun c hc => Nat.isDigit_of_mem_toDigits (by decide) (by decide) hc
  simp [decodeNat?, h, Nat.ofDigitChars_toDigits]

/-- **The natural number of a document,** if it is one and is spelled with digits alone. -/
def asNat? : Json → Option Nat
  | .number lexeme => decodeNat? lexeme
  | _ => none

/-- **The text of a document,** if it is one. -/
def asText? : Json → Option String
  | .text lexeme => (decodeText? lexeme).map String.ofList
  | _ => none

/-- The truth value of a document, if it is one. -/
def asBool? : Json → Option Bool
  | .bool b => some b
  | _ => none

@[simp] theorem asNat?_ofNat (n : Nat) : (ofNat n).asNat? = some n := decodeNat?_toDigits n

@[simp] theorem asText?_ofText (s : String) : (ofText s).asText? = some s := by
  simp [ofText, asText?]

@[simp] theorem asBool?_bool (b : Bool) : (Json.bool b).asBool? = some b := rfl

/-! ### Arrays and objects -/

/-- The items of a document, if it is an array. -/
def asArray? : Json → Option (List Json)
  | .array items => some items
  | _ => none

/-- An object with the given members, in this order. -/
def ofRecord (members : List (String × Json)) : Json :=
  .object (members.map fun m => (encodeText m.1.toList, m.2))

/-- The value of the only member with a name. -/
def sole? (members : List (String × Json)) (name : String) : Option Json :=
  match members.filter fun m => m.1 == name with
  | [(_, value)] => some value
  | _ => none

/-- Reads the names of members. -/
def namedMembers? (members : List (List Char × Json)) : Option (List (String × Json)) :=
  members.mapM fun m => (decodeText? m.1).map fun name => (String.ofList name, m.2)

/-- **The values of a record with the given fields.** An object has each field once, in any
order, and may have other members, which are passed over; an array has the values of the
fields in their order, and nothing else. -/
def record? (fields : List String) : Json → Option (List Json)
  | .array items => if items.length = fields.length then some items else none
  | .object members => do fields.mapM (sole? (← namedMembers? members))
  | _ => none

/-- **The tag of a variant, and its content.** A tag alone is a text; a tag with content is
the only member of an object. -/
def variant? : Json → Option (String × Option Json)
  | .text lexeme => (decodeText? lexeme).map fun tag => (String.ofList tag, none)
  | .object [(name, content)] =>
    (decodeText? name).map fun tag => (String.ofList tag, some content)
  | _ => none

/-! ### The written form -/

mutual

/-- **The written form of a document,** without blanks. -/
def write : Json → List Char
  | .null => "null".toList
  | .bool b => (if b then "true" else "false").toList
  | .number lexeme => lexeme
  | .text lexeme => '"' :: lexeme ++ ['"']
  | .array items => '[' :: [','].intercalate (writeItems items) ++ [']']
  | .object members => '\x7b' :: [','].intercalate (writeMembers members) ++ ['\x7d']

/-- The written forms of some documents. -/
def writeItems : List Json → List (List Char)
  | [] => []
  | j :: js => j.write :: writeItems js

/-- The written forms of some members. -/
def writeMembers : List (List Char × Json) → List (List Char)
  | [] => []
  | (name, value) :: members =>
    ('"' :: name ++ ['"', ':'] ++ value.write) :: writeMembers members

end

/-- The written form as a string. -/
def toText (j : Json) : String := String.ofList j.write

end Json

end ItemAttrs
