import Mathlib.Data.List.Basic
import ItemAttrs.Proofs.Attr.Tree

/-!
# Written text as a sequence of pieces

The writers work on trees over texts, in which all names have been replaced beforehand. This
module shows that they may as well work on trees over names and ask for the text of a name
only when they get to it: a tree is written as a sequence of pieces, from left to right, and
each piece is either a stretch of fixed characters or shows one name.

* `Expr.pieces`, `Attr.pieces` and `AttrList.pieces` are these sequences, which spans and usage
  flags do not enter;
* `names_pieces`: the names in the pieces are the names of the tree, in the same order;
* `write_traverse`: replacing all names and writing the result is the same as one pass over
  the pieces, in every monad.
-/

namespace ItemAttrs

/-- **A piece of written text.** -/
inductive Piece (ν : Type) where
  /-- Characters that depend on no name. -/
  | fixed (cs : List Char)
  /-- The text of a name. -/
  | shown (n : ν)
  /-- The text of a name, quoted. -/
  | quoted (n : ν)

namespace Piece

variable {ν : Type}

def name? : Piece ν → Option ν
  | .fixed _ => none
  | .shown n | .quoted n => some n

/-- The names in some pieces, from left to right. -/
def names (ps : List (Piece ν)) : List ν := ps.filterMap name?

/-- Sequences of pieces with a separator between them. -/
def separated (separator : List Char) (pss : List (List (Piece ν))) : List (Piece ν) :=
  [Piece.fixed separator].intercalate pss

@[simp] theorem names_nil : names ([] : List (Piece ν)) = [] := rfl

@[simp] theorem names_fixed (cs : List Char) (ps : List (Piece ν)) :
    names (.fixed cs :: ps) = names ps := rfl

@[simp] theorem names_shown (n : ν) (ps : List (Piece ν)) :
    names (.shown n :: ps) = n :: names ps := rfl

@[simp] theorem names_quoted (n : ν) (ps : List (Piece ν)) :
    names (.quoted n :: ps) = n :: names ps := rfl

@[simp] theorem names_append (ps qs : List (Piece ν)) : names (ps ++ qs) = names ps ++ names qs :=
  List.filterMap_append

@[simp] theorem names_separated (separator : List Char) (pss : List (List (Piece ν))) :
    names (separated separator pss) = pss.flatMap names := by
  induction pss with
  | nil => rfl
  | cons ps pss ih =>
    cases pss with
    | nil => simp [separated]
    | cons qs pss =>
      -- a separator is a piece, but has no name in it
      rw [separated, List.intercalate_cons_cons, ← separated, List.flatMap_cons, ← ih]
      simp

variable (hidden : Char → Bool) {m : Type → Type} [Monad m] (f : ν → m String)

/-- Writes a piece, asking for the text of its name. -/
def write : Piece ν → m (List Char)
  | .fixed cs => pure cs
  | .shown n => do return (← f n).toList
  | .quoted n => do return (Text.Quoting.text hidden).quote (← f n).toList

/-- **Writes some pieces,** from left to right. -/
def writeAll : List (Piece ν) → m (List Char)
  | [] => pure []
  | p :: ps => do
    let front ← p.write hidden f
    let back ← writeAll ps
    return front ++ back

variable [LawfulMonad m]

theorem writeAll_append (ps qs : List (Piece ν)) :
    writeAll hidden f (ps ++ qs) = do
      let front ← writeAll hidden f ps
      let back ← writeAll hidden f qs
      return front ++ back := by
  induction ps with
  | nil => simp [writeAll]
  | cons p ps ih =>
    simp only [List.cons_append, writeAll, ih, bind_assoc, pure_bind, List.append_assoc]

theorem writeAll_fixed (cs : List Char) (ps : List (Piece ν)) :
    writeAll hidden f (.fixed cs :: ps) = do return cs ++ (← writeAll hidden f ps) := by
  simp [writeAll, write]

theorem writeAll_singleton (cs : List Char) : writeAll hidden f [.fixed cs] = pure cs := by
  simp [writeAll, write]

theorem writeAll_separated (separator : List Char) (pss : List (List (Piece ν))) :
    writeAll hidden f (separated separator pss) = do
      return separator.intercalate (← pss.mapM (writeAll hidden f)) := by
  induction pss with
  | nil => simp [separated, writeAll]
  | cons ps pss ih =>
    cases pss with
    | nil => simp [separated]
    | cons qs pss =>
      -- the separator goes between the first sequence and the others
      rw [separated, List.intercalate_cons_cons, ← separated, List.append_assoc, writeAll_append,
        List.singleton_append, writeAll_fixed, ih]
      simp [List.mapM_cons, List.intercalate_cons_cons, List.append_assoc]

end Piece

/-! ### The pieces of a tree -/

section Pieces

variable {ν : Type} (hidden : Char → Bool)

/-- The pieces of a path. -/
def pathPieces (segments : List ν) : List (Piece ν) :=
  Piece.separated Path.separator (segments.map fun n => [.shown n])

def Literal.pieces : Literal ν → List (Piece ν)
  | .int n => [.fixed (Nat.toDigits 10 n.toNat)]
  | .float bits => [.fixed (floatNotation.binary64 (.ofBits bits))]
  | .bool b => [.fixed (boolText b)]
  | .char c => [.fixed ((Text.Quoting.char hidden).quote [c])]
  | .str n => [.quoted n]

mutual

/-- **The pieces of an expression.** -/
def Expr.pieces : Expr ν → List (Piece ν)
  | .literal l _ => l.pieces hidden
  | .path p _ => pathPieces p
  | .call p args _ =>
    pathPieces p ++ .fixed ['!', '('] :: Piece.separated listSeparator (Expr.piecesAll args)
      ++ [.fixed [')']]
  | .unary op e _ => .fixed op.symbol.toList :: e.pieces
  | .binary op l r _ => l.pieces ++ .fixed ([' '] ++ op.symbol.toList ++ [' ']) :: r.pieces
  | .paren e _ => .fixed ['('] :: e.pieces ++ [.fixed [')']]

def Expr.piecesAll : List (Expr ν) → List (List (Piece ν))
  | [] => []
  | e :: es => e.pieces :: Expr.piecesAll es

end

mutual

/-- **The pieces of an attribute,** without the brackets around it. -/
def Attr.pieces : Attr ν → List (Piece ν)
  | ⟨_, name, payload, _⟩ => pathPieces name.segments ++ payload.pieces

def Payload.pieces : Payload ν → List (Piece ν)
  | .bare => []
  | .value e => .fixed [' ', '=', ' '] :: e.pieces hidden
  | .text n => [.fixed [' ', '=', ' '], .quoted n]
  | .nested items =>
    .fixed ['('] :: Piece.separated listSeparator (Attr.piecesAll items) ++ [.fixed [')']]

def Attr.piecesAll : List (Attr ν) → List (List (Piece ν))
  | [] => []
  | a :: as => a.pieces :: Attr.piecesAll as

end

/-- The pieces of an attribute as an entry of a list, with the brackets around it. -/
def Attr.entryPieces (a : Attr ν) : List (Piece ν) :=
  .fixed ['#', '['] :: a.pieces hidden ++ [.fixed [']']]

/-- **The pieces of a list.** -/
def AttrList.pieces (l : AttrList ν) : List (Piece ν) :=
  Piece.separated ['\n'] (l.items.map (Attr.entryPieces hidden))

@[simp] theorem Expr.piecesAll_eq_map (es : List (Expr ν)) :
    Expr.piecesAll hidden es = es.map (Expr.pieces hidden) := by
  induction es with
  | nil => rfl
  | cons e es ih => rw [piecesAll, ih, List.map_cons]

@[simp] theorem Attr.piecesAll_eq_map (as : List (Attr ν)) :
    Attr.piecesAll hidden as = as.map (Attr.pieces hidden) := by
  induction as with
  | nil => rfl
  | cons a as ih => rw [piecesAll, ih, List.map_cons]

end Pieces

/-! ### Their names -/

section Names

variable {ν : Type} (hidden : Char → Bool)

@[simp] theorem names_pathPieces (segments : List ν) :
    Piece.names (pathPieces segments) = segments := by
  simp [pathPieces, List.flatMap_map]

theorem Literal.names_pieces (l : Literal ν) : Piece.names (l.pieces hidden) = l.names := by
  cases l <;> rfl

theorem Expr.names_pieces (e : Expr ν) : Piece.names (e.pieces hidden) = e.names := by
  induction e with
  | literal l _ => exact l.names_pieces hidden
  | path p _ => exact names_pathPieces p
  | call p args _ ih => simp [pieces, names, List.flatMap_map, List.flatMap_congr ih]
  | unary op e _ ih => simp [pieces, names, ih]
  | binary op l r _ ihl ihr => simp [pieces, names, ihl, ihr]
  | paren e _ ih => simp [pieces, names, ih]

/-- **The names of an attribute** come in the order in which it is written. -/
theorem Attr.names_pieces (a : Attr ν) : Piece.names (a.pieces hidden) = a.names := by
  induction a with
  | bare _ name _ => simp [pieces, Payload.pieces, names, Payload.names]
  | value _ name e _ => simp [pieces, Payload.pieces, names, Payload.names, e.names_pieces hidden]
  | text _ name n _ => simp [pieces, Payload.pieces, names, Payload.names]
  | nested _ name items _ ih =>
    simp [pieces, Payload.pieces, names, Payload.names, List.flatMap_map, List.flatMap_congr ih]

theorem Attr.names_entryPieces (a : Attr ν) : Piece.names (a.entryPieces hidden) = a.names := by
  simp [entryPieces, names_pieces]

theorem AttrList.names_pieces (l : AttrList ν) :
    Piece.names (l.pieces hidden) = Attr.namesAll l.items := by
  simp [pieces, List.flatMap_map, Attr.names_entryPieces]

end Names

/-! ### Writing them -/

section Write

variable {ν : Type} (hidden : Char → Bool) {m : Type → Type} [Monad m] [LawfulMonad m]
  (f : ν → m String)

theorem mapM_congr {α β : Type} {g h : α → m β} {l : List α} (hgh : ∀ a ∈ l, g a = h a) :
    l.mapM g = l.mapM h := by
  induction l with
  | nil => rfl
  | cons a l ih =>
    rw [List.mapM_cons, List.mapM_cons, hgh a List.mem_cons_self,
      ih fun b hb => hgh b (List.mem_cons_of_mem a hb)]

theorem mapM_map_result {α β γ : Type} (g : α → m β) (h : β → γ) (l : List α) :
    (l.mapM fun a => do return h (← g a)) = do return (← l.mapM g).map h := by
  induction l with
  | nil => simp only [List.mapM_nil, pure_bind, List.map_nil]
  | cons a l ih => simp only [List.mapM_cons, ih, bind_assoc, pure_bind, List.map_cons]

theorem writeAll_pathPieces (segments : List ν) :
    Piece.writeAll hidden f (pathPieces segments) = do return pathText (← segments.mapM f) := by
  have hsegment : ∀ n, Piece.writeAll hidden f [.shown n] = do return (← f n).toList := by
    intro n
    simp only [Piece.writeAll, Piece.write, bind_assoc, pure_bind, List.append_nil]
  rw [pathPieces, Piece.writeAll_separated, List.mapM_map]
  simp only [Function.comp_def, hsegment, mapM_map_result, bind_assoc, pure_bind, pathText,
    Path.joinChars]

theorem Literal.write_traverse (l : Literal ν) :
    Piece.writeAll hidden f (l.pieces hidden) = do return (← l.traverse f).write hidden := by
  cases l <;>
    simp only [pieces, Piece.writeAll, Piece.write, traverse, write, bind_assoc, pure_bind,
      List.append_nil]

theorem Expr.write_traverse (e : Expr ν) :
    Piece.writeAll hidden f (e.pieces hidden) = do return (← e.traverse f).write hidden := by
  induction e with
  | literal l _ =>
    rw [pieces, Literal.write_traverse]
    simp only [traverse, write, bind_assoc, pure_bind]
  | path p _ =>
    rw [pieces, writeAll_pathPieces]
    simp only [traverse, write, bind_assoc, pure_bind]
  | call p args _ ih =>
    -- writing each argument when its names have been replaced, or all of them at the end
    have hargs := (mapM_congr ih).trans (mapM_map_result (traverse f) (write hidden) args)
    rw [pieces, piecesAll_eq_map, Piece.writeAll_append, Piece.writeAll_append, writeAll_pathPieces,
      Piece.writeAll_fixed, Piece.writeAll_separated, List.mapM_map, Piece.writeAll_singleton]
    simp only [Function.comp_def, hargs, traverse, traverseAll_eq_mapM, write, writeAll_eq_map,
      bind_assoc, pure_bind, List.append_assoc]
  | unary op e _ ih =>
    rw [pieces, Piece.writeAll_fixed, ih]
    simp only [traverse, write, bind_assoc, pure_bind]
  | binary op l r _ ihl ihr =>
    rw [pieces, Piece.writeAll_append, Piece.writeAll_fixed, ihl, ihr]
    simp only [traverse, write, bind_assoc, pure_bind, List.append_assoc]
  | paren e _ ih =>
    rw [pieces, List.cons_append, Piece.writeAll_fixed, Piece.writeAll_append, ih,
      Piece.writeAll_singleton]
    simp only [traverse, write, bind_assoc, pure_bind, List.append_assoc]

/-- **An attribute is written in one pass,** in which the text of each name is asked for when
its place in the text is reached. -/
theorem Attr.writeBody_traverse (a : Attr ν) :
    Piece.writeAll hidden f (a.pieces hidden) = do return (← a.traverse f).writeBody hidden := by
  induction a with
  | bare _ name _ =>
    rw [pieces, Payload.pieces, List.append_nil, writeAll_pathPieces]
    simp only [traverse, AttrName.traverse, Payload.traverse, writeBody, Payload.write,
      AttrName.write, bind_assoc, pure_bind, List.append_nil]
  | value _ name e _ =>
    rw [pieces, Payload.pieces, Piece.writeAll_append, writeAll_pathPieces, Piece.writeAll_fixed,
      Expr.write_traverse]
    simp only [traverse, AttrName.traverse, Payload.traverse, writeBody, Payload.write,
      AttrName.write, bind_assoc, pure_bind]
  | text _ name n _ =>
    rw [pieces, Payload.pieces, Piece.writeAll_append, writeAll_pathPieces, Piece.writeAll_fixed]
    simp only [Piece.writeAll, Piece.write, traverse, AttrName.traverse, Payload.traverse,
      writeBody, Payload.write, AttrName.write, bind_assoc, pure_bind, List.append_nil]
  | nested _ name items _ ih =>
    have hitems := (mapM_congr ih).trans (mapM_map_result (traverse f) (writeBody hidden) items)
    rw [pieces, Payload.pieces, piecesAll_eq_map, Piece.writeAll_append, writeAll_pathPieces,
      List.cons_append, Piece.writeAll_fixed, Piece.writeAll_append, Piece.writeAll_separated,
      List.mapM_map, Piece.writeAll_singleton]
    simp only [Function.comp_def, hitems, traverse, AttrName.traverse, Payload.traverse,
      traverseAll_eq_mapM, writeBody, Payload.write, AttrName.write, writeBodies_eq_map, bind_assoc,
      pure_bind, List.append_assoc]

theorem Attr.write_traverse (a : Attr ν) :
    Piece.writeAll hidden f (a.entryPieces hidden) = do return (← a.traverse f).write hidden := by
  rw [entryPieces, List.cons_append, Piece.writeAll_fixed, Piece.writeAll_append,
    writeBody_traverse, Piece.writeAll_singleton]
  simp only [write, bind_assoc, pure_bind, List.append_assoc]

theorem AttrList.write_traverse (l : AttrList ν) :
    Piece.writeAll hidden f (l.pieces hidden) = do return (← l.traverse f).write hidden := by
  have hentries := (mapM_congr fun a (_ : a ∈ l.items) => a.write_traverse hidden f).trans
    (mapM_map_result (Attr.traverse f) (Attr.write hidden) l.items)
  rw [pieces, Piece.writeAll_separated, List.mapM_map]
  simp only [Function.comp_def, hentries, traverse, Attr.traverseAll_eq_mapM, write, bind_assoc,
    pure_bind]

end Write

/-! ### Rendering -/

theorem Attr.renderBody_eq_pieces (t : Interner) (a : Attr Name) :
    a.renderBody t = do
      return String.ofList
        (← Piece.writeAll Text.isInvisible t.lookup (a.pieces Text.isInvisible)) := by
  rw [writeBody_traverse, renderBody]
  simp only [bind_assoc, pure_bind]

theorem Attr.render_eq_pieces (t : Interner) (a : Attr Name) :
    a.render t = do
      return String.ofList
        (← Piece.writeAll Text.isInvisible t.lookup (a.entryPieces Text.isInvisible)) := by
  rw [write_traverse, render]
  simp only [bind_assoc, pure_bind]

theorem AttrList.render_eq_pieces (t : Interner) (l : AttrList Name) :
    l.render t = do
      return String.ofList
        (← Piece.writeAll Text.isInvisible t.lookup (l.pieces Text.isInvisible)) := by
  rw [write_traverse, render]
  simp only [bind_assoc, pure_bind]

end ItemAttrs
