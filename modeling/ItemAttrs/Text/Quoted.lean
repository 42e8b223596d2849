import ItemAttrs.Text.Invisible

/-!
# Quoted text

Texts and characters are shown between two equal delimiters. Inside, five characters have
an escape of their own, the delimiter and the backslash are preceded by a backslash, and a
hidden character is shown by its number, as in `\u{301}`. All else stands for itself, so the
quoted form says exactly which text is meant, whichever characters are hidden.

`quoteText` and `quoteChar` hide the invisible characters (`ItemAttrs.Text.Invisible`).
-/

namespace ItemAttrs.Text

/-- **How text is quoted:** its delimiter, and the characters shown by number. -/
structure Quoting where
  delimiter : Char
  hidden : Char → Bool

namespace Quoting

/-- A character by its number, in lower-case hexadecimal. -/
def byNumber (c : Char) : List Char :=
  ['\\', 'u', '\x7b'] ++ Nat.toDigits 16 c.toNat ++ ['\x7d']

/-- What stands for one character. -/
def escapeChar (q : Quoting) (c : Char) : List Char :=
  if c = '\x00' then ['\\', '0']
  else if c = '\t' then ['\\', 't']
  else if c = '\r' then ['\\', 'r']
  else if c = '\n' then ['\\', 'n']
  else if c = '\\' || c = q.delimiter then ['\\', c]
  else if q.hidden c then byNumber c
  else [c]

/-- What stands for a list of characters. -/
def escape (q : Quoting) (cs : List Char) : List Char := cs.flatMap q.escapeChar

/-- **The quoted form.** -/
def quote (q : Quoting) (cs : List Char) : List Char :=
  q.delimiter :: q.escape cs ++ [q.delimiter]

/-- Texts stand between double quotes. -/
def text (hidden : Char → Bool) : Quoting := ⟨'"', hidden⟩

/-- Characters stand between single quotes. -/
def char (hidden : Char → Bool) : Quoting := ⟨'\'', hidden⟩

@[simp] theorem escape_nil (q : Quoting) : q.escape [] = [] := rfl

@[simp] theorem escape_cons (q : Quoting) (c : Char) (cs : List Char) :
    q.escape (c :: cs) = q.escapeChar c ++ q.escape cs := rfl

end Quoting

/-- A text, quoted with the invisible characters hidden. -/
def quoteText (s : String) : String :=
  String.ofList ((Quoting.text isInvisible).quote s.toList)

/-- A character, quoted with the invisible characters hidden. -/
def quoteChar (c : Char) : String :=
  String.ofList ((Quoting.char isInvisible).quote [c])

end ItemAttrs.Text
