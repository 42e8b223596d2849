import ItemAttrs.Json.Token

/-!
# Reading JSON documents

A written document is read token by token. The reader keeps the containers that are open,
innermost first, each with what it has got so far, and knows what may come next. Whenever a
value is complete it goes into the innermost open container; the document is read when there
is none.

The depth of a document is not limited here: that is up to whoever gives it a meaning.
-/

namespace ItemAttrs.Json

/-- **A container that is not closed yet,** with the last thing it got in front. -/
inductive Open where
  | array (items : List Json)
  | object (members : List (List Char × Json))
  /-- An object that waits for the value of a member. -/
  | member (name : List Char) (members : List (List Char × Json))

/-- **What may come next.** -/
inductive Expected where
  /-- A value. -/
  | value
  /-- The first item of an array, or its end. -/
  | firstItem
  /-- The name of a member. -/
  | name
  /-- The first member of an object, or its end. -/
  | firstMember
  /-- The colon behind a name. -/
  | colon
  /-- A comma, or the end of the container. -/
  | separator
  /-- Nothing: the document is complete. -/
  | nothing (document : Json)

/-- **The state of the reader.** -/
structure Reader where
  containers : List Open
  expected : Expected

namespace Reader

/-- Before the first token. -/
def start : Reader := ⟨[], .value⟩

/-- A value is complete and goes into the innermost container. -/
def put (value : Json) : List Open → Option Reader
  | [] => some ⟨[], .nothing value⟩
  | .array items :: outer => some ⟨.array (value :: items) :: outer, .separator⟩
  | .member name members :: outer => some ⟨.object ((name, value) :: members) :: outer, .separator⟩
  | .object _ :: _ => none

/-- A value begins. -/
def beginValue (containers : List Open) : Token → Option Reader
  | .leaf value => put value containers
  | .text lexeme => put (.text lexeme) containers
  | .openArray => some ⟨.array [] :: containers, .firstItem⟩
  | .openObject => some ⟨.object [] :: containers, .firstMember⟩
  | .closeArray | .closeObject | .comma | .colon => none

/-- The innermost container ends. -/
def close : Token → List Open → Option Reader
  | .closeArray, .array items :: outer => put (.array items.reverse) outer
  | .closeObject, .object members :: outer => put (.object members.reverse) outer
  | _, _ => none

/-- A comma stands in the innermost container. -/
def separate : List Open → Option Reader
  | .array items :: outer => some ⟨.array items :: outer, .value⟩
  | .object members :: outer => some ⟨.object members :: outer, .name⟩
  | _ => none

/-- The name of a member stands in the innermost container. -/
def beginMember (lexeme : List Char) : List Open → Option Reader
  | .object members :: outer => some ⟨.member lexeme members :: outer, .colon⟩
  | _ => none

/-- **The state after a token,** if the token may come next. -/
def step (r : Reader) (token : Token) : Option Reader :=
  match r.expected, token with
  | .value, token => beginValue r.containers token
  | .firstItem, .closeArray => close .closeArray r.containers
  | .firstItem, token => beginValue r.containers token
  | .name, .text lexeme => beginMember lexeme r.containers
  | .firstMember, .text lexeme => beginMember lexeme r.containers
  | .firstMember, .closeObject => close .closeObject r.containers
  | .colon, .colon => some { r with expected := .value }
  | .separator, .comma => separate r.containers
  | .separator, token => close token r.containers
  | _, _ => none

end Reader

/-- The document of a sequence of tokens. -/
def ofTokens? (tokens : List Token) : Option Json := do
  match (← tokens.foldlM Reader.step .start).expected with
  | .nothing document => some document
  | _ => none

/-- **Reads a written document.** -/
def read? (text : String) : Option Json := do ofTokens? (← Token.all? text.toList)

end ItemAttrs.Json
