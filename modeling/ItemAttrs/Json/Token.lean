import ItemAttrs.Json.Basic

/-!
# Tokens of JSON

A written document is a sequence of tokens with blanks between them. `Token.next?` takes the
first token off a list of characters; what it leaves is shorter (`Token.length_of_next?`),
and so `Token.all?` can take off all of them.
-/

namespace ItemAttrs.Json

/-- **The tokens of a written document.** -/
inductive Token where
  | openArray | closeArray
  | openObject | closeObject
  | comma | colon
  | text (lexeme : List Char)
  /-- A leaf that is no text. -/
  | leaf (value : Json)

/-- The blanks that may stand between two tokens. -/
def isBlank (c : Char) : Bool := c == ' ' || c == '\t' || c == '\n' || c == '\r'

/-- The characters are hexadecimal digits. -/
def areHex (cs : List Char) : Bool := cs.all fun c => (hexValue? c).isSome

/-- Puts characters in front of a lexeme. -/
def extend (cs : List Char) (r : Option (List Char × List Char)) :
    Option (List Char × List Char) :=
  r.map fun p => (cs ++ p.1, p.2)

/-- **The lexeme of a text up to its closing quote,** and what follows the quote. A control
character has to be escaped, and every escape has to be a known one. -/
def scanText : List Char → Option (List Char × List Char)
  | [] => none
  | '"' :: rest => some ([], rest)
  | '\\' :: 'u' :: a :: b :: c :: d :: rest =>
    if areHex [a, b, c, d] then extend ['\\', 'u', a, b, c, d] (scanText rest) else none
  | '\\' :: e :: rest =>
    if (escaped? e).isSome then extend ['\\', e] (scanText rest) else none
  | c :: rest => if c = '\\' || c.toNat < 0x20 then none else extend [c] (scanText rest)

/-- The digits that a list of characters starts with, of which there must be one at least. -/
def scanDigits (cs : List Char) : Option (List Char × List Char) :=
  if (cs.takeWhile Char.isDigit).isEmpty then none
  else some (cs.takeWhile Char.isDigit, cs.dropWhile Char.isDigit)

/-- The digits in front of the point. A zero stands alone. -/
def scanInteger : List Char → Option (List Char × List Char)
  | '0' :: rest =>
    if (rest.takeWhile Char.isDigit).isEmpty then some (['0'], rest) else none
  | cs => scanDigits cs

/-- The point and the digits behind it, if there is a point. -/
def scanFraction : List Char → Option (List Char × List Char)
  | '.' :: rest => extend ['.'] (scanDigits rest)
  | cs => some ([], cs)

/-- The exponent, if there is one. -/
def scanExponent : List Char → Option (List Char × List Char)
  | c :: sign :: rest =>
    if c = 'e' || c = 'E' then
      if sign = '+' || sign = '-' then extend [c, sign] (scanDigits rest)
      else extend [c] (scanDigits (sign :: rest))
    else some ([], c :: sign :: rest)
  | [c] => if c = 'e' || c = 'E' then none else some ([], [c])
  | [] => some ([], [])

/-- The sign, if there is one. -/
def scanSign : List Char → List Char × List Char
  | '-' :: rest => (['-'], rest)
  | cs => ([], cs)

/-- **The lexeme of a number,** and what follows it. -/
def scanNumber (cs : List Char) : Option (List Char × List Char) := do
  let (sign, cs) := scanSign cs
  let (integer, cs) ← scanInteger cs
  let (fraction, cs) ← scanFraction cs
  let (exponent, cs) ← scanExponent cs
  return (sign ++ integer ++ fraction ++ exponent, cs)

/-! ### What follows is shorter -/

theorem extend_eq_some {cs : List Char} {r : Option (List Char × List Char)}
    {p : List Char × List Char} (h : extend cs r = some p) : ∃ q, r = some q ∧ q.2 = p.2 := by
  obtain ⟨q, hq, rfl⟩ := Option.map_eq_some_iff.1 h
  exact ⟨q, hq, rfl⟩

/-- Characters in front of a lexeme do not matter to what follows it. -/
theorem length_of_extend {cs : List Char} {r : Option (List Char × List Char)}
    {p : List Char × List Char} {n : Nat} (h : extend cs r = some p)
    (hr : ∀ q, r = some q → q.2.length < n) : p.2.length < n := by
  obtain ⟨q, hq, hrest⟩ := extend_eq_some h
  rw [← hrest]
  exact hr q hq

theorem length_of_scanText {cs : List Char} {p : List Char × List Char}
    (h : scanText cs = some p) : p.2.length < cs.length := by
  fun_induction scanText cs generalizing p with
  | case1 | case4 | case6 | case7 => cases h
  | case2 rest =>
    obtain rfl := Option.some.inj h
    exact Nat.lt_succ_self rest.length
  | case3 a b c d rest _ ih =>
    -- the escape of a character by its number
    have hrest : p.2.length < rest.length := length_of_extend h fun _ => ih
    simp only [List.length_cons]
    omega
  | case5 e rest _ _ ih =>
    -- an escape of two characters
    have hrest : p.2.length < rest.length := length_of_extend h fun _ => ih
    simp only [List.length_cons]
    omega
  | case8 c rest _ _ _ _ ih =>
    have hrest : p.2.length < rest.length := length_of_extend h fun _ => ih
    exact Nat.lt_succ_of_lt hrest

theorem length_of_scanDigits {cs : List Char} {p : List Char × List Char}
    (h : scanDigits cs = some p) : p.2.length < cs.length := by
  unfold scanDigits at h
  split at h
  · cases h
  · next hdigits =>
    obtain rfl := Option.some.inj h
    have hlength : (cs.takeWhile Char.isDigit).length + (cs.dropWhile Char.isDigit).length =
        cs.length := by
      rw [← List.length_append, List.takeWhile_append_dropWhile]
    have hpos : 0 < (cs.takeWhile Char.isDigit).length :=
      List.length_pos_iff.mpr fun hnil => hdigits (List.isEmpty_iff.mpr hnil)
    show (cs.dropWhile Char.isDigit).length < cs.length
    omega

theorem length_of_scanInteger {cs : List Char} {p : List Char × List Char}
    (h : scanInteger cs = some p) : p.2.length < cs.length := by
  unfold scanInteger at h
  split at h
  · next rest =>
    split at h
    · next hdigits =>
      obtain rfl := Option.some.inj h
      exact Nat.lt_succ_self rest.length
    · next hdigits => cases h
  · exact length_of_scanDigits h

theorem length_of_scanFraction {cs : List Char} {p : List Char × List Char}
    (h : scanFraction cs = some p) : p.2.length ≤ cs.length := by
  unfold scanFraction at h
  split at h
  · next rest =>
    have hrest : p.2.length < rest.length := length_of_extend h fun _ => length_of_scanDigits
    exact Nat.le_succ_of_le (Nat.le_of_lt hrest)
  · obtain rfl := Option.some.inj h
    exact Nat.le_refl cs.length

theorem length_of_scanExponent {cs : List Char} {p : List Char × List Char}
    (h : scanExponent cs = some p) : p.2.length ≤ cs.length := by
  unfold scanExponent at h
  split at h
  · next c sign rest =>
    split at h
    · next hmark =>
      split at h
      · next hsign =>
        have hrest : p.2.length < rest.length := length_of_extend h fun _ => length_of_scanDigits
        simp only [List.length_cons]
        omega
      · next hsign =>
        -- what should be the sign is the first digit
        have hrest : p.2.length < (sign :: rest).length :=
          length_of_extend h fun _ => length_of_scanDigits
        exact Nat.le_succ_of_le (Nat.le_of_lt hrest)
    · next hmark =>
      obtain rfl := Option.some.inj h
      exact Nat.le_refl (c :: sign :: rest).length
  · next c =>
    split at h
    · next hmark => cases h
    · next hmark =>
      obtain rfl := Option.some.inj h
      exact Nat.le_refl [c].length
  · obtain rfl := Option.some.inj h
    exact Nat.le_refl 0

theorem length_scanSign (cs : List Char) : (scanSign cs).2.length ≤ cs.length := by
  unfold scanSign
  split <;> simp

theorem length_of_scanNumber {cs : List Char} {p : List Char × List Char}
    (h : scanNumber cs = some p) : p.2.length < cs.length := by
  simp only [scanNumber, Option.bind_eq_bind, Option.bind_eq_some_iff, Option.pure_def] at h
  obtain ⟨i, hi, f, hf, e, he, hp⟩ := h
  have h₀ := length_scanSign cs
  have h₁ := length_of_scanInteger hi
  have h₂ := length_of_scanFraction hf
  have h₃ := length_of_scanExponent he
  obtain rfl := Option.some.inj hp
  exact Nat.lt_of_le_of_lt (Nat.le_trans h₃ h₂) (Nat.lt_of_lt_of_le h₁ h₀)

namespace Token

/-- **The first token,** and what follows it. -/
def next? : List Char → Option (Token × List Char)
  | '[' :: rest => some (.openArray, rest)
  | ']' :: rest => some (.closeArray, rest)
  | '\x7b' :: rest => some (.openObject, rest)
  | '\x7d' :: rest => some (.closeObject, rest)
  | ',' :: rest => some (.comma, rest)
  | ':' :: rest => some (.colon, rest)
  | '"' :: rest => (scanText rest).map fun p => (.text p.1, p.2)
  | 'n' :: 'u' :: 'l' :: 'l' :: rest => some (.leaf .null, rest)
  | 't' :: 'r' :: 'u' :: 'e' :: rest => some (.leaf (.bool true), rest)
  | 'f' :: 'a' :: 'l' :: 's' :: 'e' :: rest => some (.leaf (.bool false), rest)
  | cs => (scanNumber cs).map fun p => (.leaf (.number p.1), p.2)

/-- What follows a token that is always written alike is shorter. -/
theorem length_of_fixed {token : Token} {rest : List Char} {p : Token × List Char}
    (mark : List Char) (hmark : 0 < mark.length) (h : some (token, rest) = some p) :
    p.2.length < (mark ++ rest).length := by
  obtain rfl := Option.some.inj h
  rw [List.length_append]
  exact Nat.lt_add_of_pos_left hmark

theorem length_of_next? {cs : List Char} {p : Token × List Char} (h : next? cs = some p) :
    p.2.length < cs.length := by
  unfold next? at h
  split at h
  · exact length_of_fixed ['['] (by decide) h
  · exact length_of_fixed [']'] (by decide) h
  · exact length_of_fixed ['\x7b'] (by decide) h
  · exact length_of_fixed ['\x7d'] (by decide) h
  · exact length_of_fixed [','] (by decide) h
  · exact length_of_fixed [':'] (by decide) h
  · next rest =>
    obtain ⟨q, hq, rfl⟩ := Option.map_eq_some_iff.mp h
    have hrest : q.2.length < rest.length := length_of_scanText hq
    exact Nat.lt_succ_of_lt hrest
  · exact length_of_fixed ['n', 'u', 'l', 'l'] (by decide) h
  · exact length_of_fixed ['t', 'r', 'u', 'e'] (by decide) h
  · exact length_of_fixed ['f', 'a', 'l', 's', 'e'] (by decide) h
  · obtain ⟨q, hq, rfl⟩ := Option.map_eq_some_iff.mp h
    exact length_of_scanNumber hq

theorem length_of_next?_dropWhile {cs cs' rest : List Char} {token : Token}
    (h : cs.dropWhile isBlank = cs') (h' : next? cs' = some (token, rest)) :
    rest.length < cs.length :=
  Nat.lt_of_lt_of_le (length_of_next? h') (h ▸ (List.dropWhile_suffix isBlank).length_le)

/-- **All tokens of a written document.** -/
def all? (cs : List Char) : Option (List Token) :=
  match h : cs.dropWhile isBlank with
  | [] => some []
  | c :: cs' =>
    match h' : next? (c :: cs') with
    | none => none
    | some (token, rest) =>
      have : rest.length < cs.length := length_of_next?_dropWhile h h'
      (all? rest).map (token :: ·)
termination_by cs.length

end Token

end ItemAttrs.Json
