import ItemAttrs.Proofs.Expr.Tree
import ItemAttrs.Proofs.Path.Identifier
import ItemAttrs.Proofs.Text.Reading

/-!
# Operands and what they begin with

Nothing in a written expression says how tightly an operator binds, so an expression can only be
read back if its grouping is written out (`Expr.Grouped`). Then an operand ends where a space, a
comma or a closing parenthesis stands that is not inside of it. It begins with an `Opening`, and
`Opening.eq_of_write` says that the opening can be read off a text, mostly from the kind of its
first character. A `!` behind a path belongs to the opening, and so a macro call is told from a path
before anything else of it is read. `Grouped.exists_opens` takes every operand apart in this way.
-/

namespace ItemAttrs

namespace Text

/-- **Kinds of characters,** as far as the beginning of an operand is concerned. -/
inductive Kind where
  | digit
  | letter
  | sign
  | mark (c : Char)
  deriving DecidableEq

/-- The kind of a character. -/
def kindOf (c : Char) : Kind :=
  if c.isAlpha || c = '_' then .letter
  else if c.isDigit then .digit
  else if c = '-' || c = '!' then .sign
  else .mark c

theorem kindOf_eq_letter {c : Char} (hc : (c.isAlpha || c = '_') = true) : kindOf c = .letter :=
  if_pos hc

theorem kindOf_eq_digit {c : Char} (hc : c.isDigit = true) : kindOf c = .digit := by
  -- there are ten digits, and none of them is a letter
  have hall : ∀ n < 58, 48 ≤ n → kindOf (Char.ofNat n) = .digit := by decide
  obtain ⟨hlow, hhigh⟩ := Char.isDigit_iff_toNat.mp hc
  rw [← Char.ofNat_toNat c]
  exact hall c.toNat (Nat.lt_succ_of_le hhigh) hlow

end Text

namespace Expr

open Text (Kind kindOf)

/-- The expression is an operator between two operands. -/
def isBinary {ν : Type} : Expr ν → Bool
  | .binary .. => true
  | _ => false

/-- **Expressions whose grouping is written out:** an operator between two operands is no operand
itself, unless in parentheses. There are no floats, all paths are paths of identifiers, and none
looks like a truth value. Texts and characters are any texts and characters. -/
inductive Grouped : Expr String → Prop where
  | literal {l : Literal String} {span : Span} (hfloat : ∀ bits, l ≠ .float bits) :
      Grouped (.literal l span)
  | path {p : List String} {span : Span} (hp : Path.Plain p) (htrue : p ≠ ["true"])
      (hfalse : p ≠ ["false"]) : Grouped (.path p span)
  | call {p : List String} {args : List (Expr String)} {span : Span} (hp : Path.Plain p)
      (hargs : ∀ e ∈ args, Grouped e) : Grouped (.call p args span)
  | unary {op : UnaryOp} {e : Expr String} {span : Span} (he : Grouped e)
      (hop : e.isBinary = false) : Grouped (.unary op e span)
  | binary {op : BinaryOp} {l r : Expr String} {span : Span} (hl : Grouped l) (hr : Grouped r)
      (hlop : l.isBinary = false) (hrop : r.isBinary = false) : Grouped (.binary op l r span)
  | paren {e : Expr String} {span : Span} (he : Grouped e) : Grouped (.paren e span)

/-! ### The beginning of an operand -/

/-- **What an operand begins with.** A path takes the opening of its arguments with it, if it is
the path of a macro. -/
inductive Opening where
  | number (n : UInt64)
  | char (c : Char)
  | text (s : String)
  | word (segments : List String) (bang : Bool)
  | sign (op : UnaryOp)
  | paren

namespace Opening

variable {hidden : Char → Bool} {o o' : Opening} {r r' : List Char}

/-- The opening as source text. -/
def write (hidden : Char → Bool) : Opening → List Char
  | .number n => Nat.toDigits 10 n.toNat
  | .char c => (Text.Quoting.char hidden).quote [c]
  | .text s => (Text.Quoting.text hidden).quote s.toList
  | .word p bang => pathText p ++ if bang then ['!', '('] else []
  | .sign op => op.symbol.toList
  | .paren => ['(']

/-- The kind of the first character. -/
def kind : Opening → Kind
  | .number _ => .digit
  | .char _ => .mark '\''
  | .text _ => .mark '"'
  | .word _ _ => .letter
  | .sign _ => .sign
  | .paren => .mark '('

/-- The path of the opening is a path of identifiers. -/
def Plain : Opening → Prop
  | .word p _ => Path.Plain p
  | _ => True

/-- The opening is all of the operand. -/
def isWhole : Opening → Bool
  | .word _ bang => !bang
  | .sign _ | .paren => false
  | _ => true

/-- What may stand behind an operand. -/
def ends : List Char := [' ', ',', ')']

theorem exists_cons (hidden : Char → Bool) (ho : o.Plain) :
    ∃ c rest, o.write hidden = c :: rest ∧ kindOf c = o.kind := by
  -- only numbers and words have more than one possible first character
  cases o with
  | number n =>
    have hne : Nat.toDigits 10 n.toNat ≠ [] := Nat.toDigits_ne_nil
    obtain ⟨c, rest, hdigits⟩ := List.exists_cons_of_ne_nil hne
    have hc : c.isDigit = true :=
      Nat.isDigit_of_mem_toDigits (by decide) (by decide) (hdigits ▸ List.mem_cons_self)
    exact ⟨c, rest, hdigits, Text.kindOf_eq_digit hc⟩
  | char c => exact ⟨'\'', _, rfl, rfl⟩
  | text s => exact ⟨'"', _, rfl, rfl⟩
  | word p bang =>
    obtain ⟨c, rest, hp, hc⟩ := Path.Plain.exists_cons ho
    refine ⟨c, rest ++ if bang then ['!', '('] else [], ?_, Text.kindOf_eq_letter hc⟩
    rw [write, hp, List.cons_append]
  | sign op => cases op <;> exact ⟨_, [], rfl, rfl⟩
  | paren => exact ⟨'(', [], rfl, rfl⟩

theorem kind_eq_of_write (ho : o.Plain) (ho' : o'.Plain)
    (h : o.write hidden ++ r = o'.write hidden ++ r') : o.kind = o'.kind := by
  obtain ⟨c, rest, hw, hc⟩ := exists_cons hidden ho
  obtain ⟨c', rest', hw', hc'⟩ := exists_cons hidden ho'
  rw [hw, hw'] at h
  rw [← hc, ← hc', (List.cons.inj h).1]

/-- A path ends behind its last segment, since neither what opens arguments nor what may stand
behind an operand goes on with a character of a path. -/
theorem stops_word {p : List String} {bang : Bool}
    (hr : (word p bang).isWhole = true → Follows ends r) :
    Stops (Path.isPathChar · = true) ((if bang then ['!', '('] else []) ++ r) := by
  cases bang with
  | false => exact (hr rfl).stops (by decide)
  | true => exact stops_cons (by decide) _

/-- **The opening of an operand can be read off a text.** -/
theorem eq_of_write (ho : o.Plain) (ho' : o'.Plain) (hr : o.isWhole = true → Follows ends r)
    (hr' : o'.isWhole = true → Follows ends r')
    (h : o.write hidden ++ r = o'.write hidden ++ r') : o = o' ∧ r = r' := by
  -- openings of different kinds differ in the first character
  have hkind : o.kind = o'.kind := kind_eq_of_write ho ho' h
  cases o with
  | number n =>
    cases o' with
    | number n' =>
      obtain ⟨hn, hrest⟩ := tells_toDigits n.toNat n'.toNat r r' ((hr rfl).stops (by decide))
        ((hr' rfl).stops (by decide)) h
      exact ⟨congrArg number (UInt64.toNat_inj.mp hn), hrest⟩
    | _ => exact absurd hkind (by simp [kind])
  | char c =>
    cases o' with
    | char c' =>
      obtain ⟨hc, hrest⟩ := Text.Quoting.eq_of_quote (Text.Quoting.marks hidden).2 h
      exact ⟨congrArg char (List.singleton_inj.mp hc), hrest⟩
    | _ => exact absurd hkind (by simp [kind])
  | text s =>
    cases o' with
    | text s' =>
      obtain ⟨hs, hrest⟩ := Text.Quoting.eq_of_quote (Text.Quoting.marks hidden).1 h
      exact ⟨congrArg text (String.toList_inj.mp hs), hrest⟩
    | _ => exact absurd hkind (by simp [kind])
  | word p bang =>
    cases o' with
    | word p' bang' =>
      rw [write, write, List.append_assoc, List.append_assoc] at h
      obtain ⟨rfl, hrest⟩ := Path.eq_of_pathText ho ho' (stops_word hr) (stops_word hr') h
      -- the paths are equal, and a `!` comes only behind the path of a macro
      match bang, bang' with
      | false, false => exact ⟨rfl, hrest⟩
      | false, true => exact absurd hrest ((hr rfl).ne_cons (by decide) _)
      | true, false => exact absurd hrest.symm ((hr' rfl).ne_cons (by decide) _)
      | true, true => exact ⟨rfl, List.append_cancel_left hrest⟩
    | _ => exact absurd hkind (by simp [kind])
  | sign op =>
    cases o' with
    | sign op' =>
      -- both signs are one character long
      match op, op' with
      | .neg, .neg | .not, .not => exact ⟨rfl, (List.cons.inj h).2⟩
      | .neg, .not | .not, .neg => exact absurd (List.cons.inj h).1 (by decide)
    | _ => exact absurd hkind (by simp [kind])
  | paren =>
    cases o' with
    | paren => exact ⟨rfl, (List.cons.inj h).2⟩
    | _ => exact absurd hkind (by simp [kind])

end Opening

/-! ### Operands -/

/-- A truth value as a word. -/
def boolWord (b : Bool) : String := if b then "true" else "false"

theorem boolWord_injective {b b' : Bool} (h : boolWord b = boolWord b') : b = b' := by
  revert b b'
  decide

section Operands

open Opening (ends)

variable {hidden : Char → Bool} {a b : Expr String} {o : Opening} {tail tail' r : List Char}

/-- **An operand, its opening and the rest of its written form.** -/
inductive Opens (hidden : Char → Bool) : Expr String → Opening → List Char → Prop where
  | int {n : UInt64} {span : Span} : Opens hidden (.literal (.int n) span) (.number n) []
  | bool {b : Bool} {span : Span} {p : List String} (hp : p = [boolWord b]) :
      Opens hidden (.literal (.bool b) span) (.word p false) []
  | char {c : Char} {span : Span} : Opens hidden (.literal (.char c) span) (.char c) []
  | str {s : String} {span : Span} : Opens hidden (.literal (.str s) span) (.text s) []
  | path {p : List String} {span : Span} : Opens hidden (.path p span) (.word p false) []
  | call {p : List String} {args : List (Expr String)} {span : Span} :
      Opens hidden (.call p args span) (.word p true)
        (listSeparator.intercalate (args.map (write hidden)) ++ [')'])
  | unary {op : UnaryOp} {e : Expr String} {span : Span} :
      Opens hidden (.unary op e span) (.sign op) (e.write hidden)
  | paren {e : Expr String} {span : Span} :
      Opens hidden (.paren e span) .paren (e.write hidden ++ [')'])

namespace Opens

theorem write_eq (h : Opens hidden a o tail) : a.write hidden = o.write hidden ++ tail := by
  cases h with
  | @bool b _ p hp =>
    -- a truth value is written like a path of one segment
    subst hp
    cases b <;> rfl
  | call => simp [write, Opening.write]
  | path => simp [write, Opening.write]
  | int | char | str => exact (List.append_nil _).symm
  | unary | paren => rfl

/-- Behind an opening that is all of the operand stands what follows the operand. -/
theorem follows (h : Opens hidden a o tail) (hr : Follows ends r) :
    o.isWhole = true → Follows ends (tail ++ r) := by
  intro hwhole
  cases h with
  | call | unary | paren => exact nomatch hwhole
  | _ => exact hr

end Opens

theorem Grouped.exists_opens (ha : a.Grouped) (hop : a.isBinary = false) (hidden : Char → Bool) :
    ∃ o tail, Opens hidden a o tail ∧ o.Plain := by
  cases ha with
  | @literal l span hfloat =>
    cases l with
    | int n => exact ⟨_, _, .int, trivial⟩
    -- a float may be written like a path, and then its bits are not told
    | float bits => exact absurd rfl (hfloat bits)
    | bool b =>
      refine ⟨_, _, .bool rfl, ?_⟩
      cases b <;> exact ⟨by decide, by decide +kernel⟩
    | char c => exact ⟨_, _, .char, trivial⟩
    | str s => exact ⟨_, _, .str, trivial⟩
  | path hp _ _ => exact ⟨_, _, .path, hp⟩
  | call hp _ => exact ⟨_, _, .call, hp⟩
  | unary _ _ => exact ⟨_, _, .unary, trivial⟩
  | binary _ _ _ _ => exact nomatch hop
  | paren _ => exact ⟨_, _, .paren, trivial⟩

/-- A path does not look like a truth value. -/
theorem Grouped.path_ne {p : List String} {span : Span} (h : Grouped (.path p span)) (b : Bool) :
    p ≠ [boolWord b] := by
  cases h with
  | path _ htrue hfalse =>
    cases b with
    | true => exact htrue
    | false => exact hfalse

theorem Grouped.isBinary_or (ha : a.Grouped) : a.isBinary = false ∨
    ∃ op l r span, a = .binary op l r span ∧ l.Grouped ∧ r.Grouped ∧ l.isBinary = false ∧
      r.isBinary = false := by
  cases ha with
  | binary hl hr hlop hrop => exact .inr ⟨_, _, _, _, rfl, hl, hr, hlop, hrop⟩
  | _ => exact .inl rfl

/-- No expression begins like a closing parenthesis. -/
theorem Grouped.write_ne (ha : a.Grouped) (r r' : List Char) : a.write hidden ++ r ≠ ')' :: r' := by
  have hoperand : ∀ {e : Expr String} {r}, e.Grouped → e.isBinary = false →
      e.write hidden ++ r ≠ ')' :: r' := by
    intro e r he hop heq
    obtain ⟨o, tail, hopens, ho⟩ := he.exists_opens hop hidden
    obtain ⟨c, rest, hw, hc⟩ := Opening.exists_cons hidden ho
    rw [hopens.write_eq, hw] at heq
    obtain ⟨rfl, -⟩ := List.cons.inj heq
    -- the kind of a closing parenthesis is the kind of no opening
    cases o <;> exact absurd hc (by simp [Opening.kind, kindOf])
  rcases ha.isBinary_or with hop | ⟨op, l, e, span, rfl, hl, -, hlop, -⟩
  · exact hoperand ha hop
  · simp only [write, List.append_assoc]
    exact hoperand hl hlop

end Operands

end Expr

end ItemAttrs
