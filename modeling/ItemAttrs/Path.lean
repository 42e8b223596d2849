/-!
# Paths as text

A path such as `rustfmt::skip` is written as its segments with `::` between them.
`Path.split` reads the segments off the written form, from the left, and `Path.join` writes
them. No text is refused: `""` has the one segment `""`, and of three colons in a row the
first two separate. Splitting never loses a character, so joining undoes it.
-/

namespace ItemAttrs.Path

/-- What stands between two segments. -/
def separator : List Char := [':', ':']

/-- Puts a character in front of the first segment. -/
def consHead (c : Char) : List (List Char) → List (List Char)
  | [] => [[c]]
  | seg :: rest => (c :: seg) :: rest

/-- The segments of a list of characters. Each separator is taken as far left as it can be. -/
def splitChars : List Char → List (List Char)
  | ':' :: ':' :: rest => [] :: splitChars rest
  | c :: rest => consHead c (splitChars rest)
  | [] => [[]]

/-- The segments with the separator between them. -/
def joinChars (segments : List (List Char)) : List Char := separator.intercalate segments

/-- **The segments of a written path.** -/
def split (path : String) : List String := (splitChars path.toList).map String.ofList

/-- **The written form of a path.** -/
def join (segments : List String) : String :=
  String.ofList (joinChars (segments.map String.toList))

end ItemAttrs.Path
