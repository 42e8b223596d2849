import ItemAttrs.Proofs.Attr.Naming
import ItemAttrs.Proofs.Attr.Pieces
import ItemAttrs.Proofs.Text.Line

/-!
# Attributes on one line

Of all names in an attribute, only the segments of names and paths are shown as they are. Texts and
characters are quoted, and a quoted newline is none. So an attribute stands on one line if its
segments do, whatever else is in it (`Attr.oneLine_of_render`), and the lines of a written list are
its written entries (`AttrList.splitOn_of_render`).

* `Attr.segments` and `Expr.segments` are these names, and `NamesUnbroken` says that there is no
  newline in them;
* `Attr.unbroken_pieces` is the induction over the tree: no piece of it breaks a line;
* `Piece.oneLine_of_writeAll`: then what is written of the pieces does not, either.
-/

namespace ItemAttrs

variable {ν : Type}

mutual

/-- **The segments in an expression:** those of paths and of macros. -/
def Expr.segments : Expr ν → List ν
  | .literal _ _ => []
  | .path p _ => p
  | .call p args _ => p ++ Expr.segmentsAll args
  | .unary _ e _ => e.segments
  | .binary _ l r _ => l.segments ++ r.segments
  | .paren e _ => e.segments

def Expr.segmentsAll : List (Expr ν) → List ν
  | [] => []
  | e :: es => e.segments ++ Expr.segmentsAll es

end

mutual

/-- **The segments in an attribute:** those of names at every depth, and those in expressions. -/
def Attr.segments : Attr ν → List ν
  | ⟨_, name, payload, _⟩ => name.segments ++ payload.segments

def Payload.segments : Payload ν → List ν
  | .bare | .text _ => []
  | .value e => e.segments
  | .nested items => Attr.segmentsAll items

def Attr.segmentsAll : List (Attr ν) → List ν
  | [] => []
  | a :: as => a.segments ++ Attr.segmentsAll as

end

/-- **No name breaks a line,** as far as the names have texts. -/
def NamesUnbroken (f : ν → Except Fault String) (names : List ν) : Prop :=
  ∀ n ∈ names, ∀ s, f n = .ok s → OneLine s.toList

/-- **No segment of the list breaks a line.** Nothing is said of literals and other texts. -/
def AttrList.Unbroken (t : Interner) (l : AttrList Name) : Prop :=
  NamesUnbroken t.lookup (Attr.segmentsAll l.items)

@[simp] theorem Expr.segmentsAll_eq_flatMap (es : List (Expr ν)) :
    segmentsAll es = es.flatMap segments := by
  induction es with
  | nil => rfl
  | cons e es ih => rw [segmentsAll, ih, List.flatMap_cons]

@[simp] theorem Attr.segmentsAll_eq_flatMap (as : List (Attr ν)) :
    segmentsAll as = as.flatMap segments := by
  induction as with
  | nil => rfl
  | cons a as ih => rw [segmentsAll, ih, List.flatMap_cons]

section Unbroken

variable {f : ν → Except Fault String} {hidden : Char → Bool}

theorem namesUnbroken_append {names more : List ν} :
    NamesUnbroken f (names ++ more) ↔ NamesUnbroken f names ∧ NamesUnbroken f more :=
  List.forall_mem_append

theorem namesUnbroken_flatMap {α : Type} {as : List α} {names : α → List ν} :
    NamesUnbroken f (as.flatMap names) ↔ ∀ a ∈ as, NamesUnbroken f (names a) := by
  constructor
  · intro h a ha n hn
    exact h n (List.mem_flatMap.mpr ⟨a, ha, hn⟩)
  · intro h n hn
    obtain ⟨a, ha, hna⟩ := List.mem_flatMap.mp hn
    exact h a ha n hna

/-! ### Pieces -/

namespace Piece

/-- **The piece breaks no line.** Quoted texts never do. -/
def Unbroken (f : ν → Except Fault String) : Piece ν → Prop
  | .fixed cs => OneLine cs
  | .shown n => ∀ s, f n = .ok s → OneLine s.toList
  | .quoted _ => True

@[simp] theorem unbroken_fixed {cs : List Char} : Unbroken f (.fixed cs) ↔ OneLine cs := Iff.rfl

@[simp] theorem unbroken_quoted (n : ν) : Unbroken f (.quoted n) := trivial

theorem oneLine_of_write {p : Piece ν} {cs : List Char} (hp : p.Unbroken f)
    (h : p.write hidden f = .ok cs) : OneLine cs := by
  cases p with
  | fixed cs =>
    cases h
    exact hp
  | shown n =>
    obtain ⟨s, hs, hcs⟩ := exists_of_bind_eq_ok h
    cases hcs
    exact hp s hs
  | quoted n =>
    obtain ⟨s, -, hcs⟩ := exists_of_bind_eq_ok h
    cases hcs
    exact Text.Quoting.oneLine_quote (Text.Quoting.marks hidden).1 s.toList

theorem oneLine_of_writeAll {ps : List (Piece ν)} {cs : List Char} (hps : ∀ p ∈ ps, p.Unbroken f)
    (h : writeAll hidden f ps = .ok cs) : OneLine cs := by
  induction ps generalizing cs with
  | nil =>
    cases h
    exact oneLine_nil
  | cons p ps ih =>
    obtain ⟨hp, hps⟩ := List.forall_mem_cons.mp hps
    obtain ⟨front, hfront, h⟩ := exists_of_bind_eq_ok h
    obtain ⟨back, hback, h⟩ := exists_of_bind_eq_ok h
    cases h
    exact oneLine_append.mpr ⟨oneLine_of_write hp hfront, ih hps hback⟩

theorem unbroken_separated {α : Type} {separator : List Char} {as : List α}
    {pieces : α → List (Piece ν)} (hseparator : OneLine separator)
    (has : ∀ a ∈ as, ∀ p ∈ pieces a, p.Unbroken f) :
    ∀ p ∈ separated separator (as.map pieces), p.Unbroken f := by
  induction as with
  | nil => exact nofun
  | cons a as ih =>
    obtain ⟨ha, has⟩ := List.forall_mem_cons.mp has
    cases as with
    | nil => simpa [separated] using ha
    | cons b as =>
      rw [separated, List.map_cons, List.map_cons, List.intercalate_cons_cons, ← List.map_cons,
        ← separated, List.forall_mem_append, List.forall_mem_append, List.forall_mem_singleton]
      exact ⟨⟨ha, hseparator⟩, ih has⟩

end Piece

theorem unbroken_pathPieces {segments : List ν} (h : NamesUnbroken f segments) :
    ∀ p ∈ pathPieces segments, p.Unbroken f := by
  apply Piece.unbroken_separated (by decide)
  intro n hn
  exact List.forall_mem_singleton.mpr (h n hn)

/-! ### Trees -/

theorem UnaryOp.oneLine_symbol (op : UnaryOp) : OneLine op.symbol.toList := by
  cases op <;> decide

theorem BinaryOp.oneLine_symbol (op : BinaryOp) : OneLine op.symbol.toList := by
  cases op <;> decide

/-- A literal breaks no line, whatever characters are in it. -/
theorem Literal.unbroken_pieces (l : Literal ν) : ∀ p ∈ l.pieces hidden, p.Unbroken f := by
  have hbool : ∀ b, OneLine (boolText b) := by decide
  cases l with
  | int n =>
    exact List.forall_mem_singleton.mpr (oneLine_toDigits (by decide) (by decide) n.toNat)
  | float bits =>
    exact List.forall_mem_singleton.mpr
      (Decimal.Notation.oneLine_binary64 (by decide) (by decide) (.ofBits bits))
  | bool b => exact List.forall_mem_singleton.mpr (hbool b)
  | char c =>
    -- the character may be a newline, but it is shown as an escape
    exact List.forall_mem_singleton.mpr
      (Text.Quoting.oneLine_quote (Text.Quoting.marks hidden).2 [c])
  | str n => exact List.forall_mem_singleton.mpr (Piece.unbroken_quoted n)

theorem Expr.unbroken_pieces {e : Expr ν} (h : NamesUnbroken f e.segments) :
    ∀ p ∈ e.pieces hidden, p.Unbroken f := by
  induction e with
  | literal l _ => exact l.unbroken_pieces
  | path p _ => exact unbroken_pathPieces h
  | call p args _ ih =>
    -- the arguments have segments of their own, for which the induction answers
    rw [segments, segmentsAll_eq_flatMap, namesUnbroken_append, namesUnbroken_flatMap] at h
    obtain ⟨hp, hargs⟩ := h
    have hseparated : ∀ p ∈ Piece.separated listSeparator (args.map (pieces hidden)),
        p.Unbroken f :=
      Piece.unbroken_separated (by decide) fun e he => ih e he (hargs e he)
    simp only [pieces, piecesAll_eq_map, List.forall_mem_append, List.forall_mem_cons,
      Piece.unbroken_fixed]
    exact ⟨⟨unbroken_pathPieces hp, by decide, hseparated⟩, by decide, List.forall_mem_nil _⟩
  | unary op e _ ih => exact List.forall_mem_cons.mpr ⟨op.oneLine_symbol, ih h⟩
  | binary op l r _ ihl ihr =>
    rw [segments, namesUnbroken_append] at h
    simp only [pieces, List.forall_mem_append, List.forall_mem_cons, Piece.unbroken_fixed,
      oneLine_append]
    exact ⟨ihl h.1, ⟨⟨by decide, op.oneLine_symbol⟩, by decide⟩, ihr h.2⟩
  | paren e _ ih =>
    simp only [pieces, List.forall_mem_append, List.forall_mem_cons, Piece.unbroken_fixed]
    exact ⟨⟨by decide, ih h⟩, by decide, List.forall_mem_nil _⟩

/-- **No piece of an attribute breaks a line,** if its segments do not. -/
theorem Attr.unbroken_pieces {a : Attr ν} (h : NamesUnbroken f a.segments) :
    ∀ p ∈ a.pieces hidden, p.Unbroken f := by
  have hsign : OneLine [' ', '=', ' '] := by decide
  induction a with
  | bare _ name _ =>
    rw [segments, namesUnbroken_append] at h
    rw [pieces, Payload.pieces, List.append_nil]
    exact unbroken_pathPieces h.1
  | value _ name e _ =>
    rw [segments, namesUnbroken_append] at h
    simp only [pieces, Payload.pieces, List.forall_mem_append, List.forall_mem_cons,
      Piece.unbroken_fixed]
    exact ⟨unbroken_pathPieces h.1, hsign, e.unbroken_pieces h.2⟩
  | text _ name n _ =>
    -- the text is no segment, and nothing is known of it
    rw [segments, namesUnbroken_append] at h
    simp only [pieces, Payload.pieces, List.forall_mem_append, List.forall_mem_cons,
      Piece.unbroken_fixed]
    exact ⟨unbroken_pathPieces h.1, hsign, Piece.unbroken_quoted n, List.forall_mem_nil _⟩
  | nested _ name items _ ih =>
    rw [segments, Payload.segments, segmentsAll_eq_flatMap, namesUnbroken_append,
      namesUnbroken_flatMap] at h
    obtain ⟨hname, hitems⟩ := h
    have hseparated : ∀ p ∈ Piece.separated listSeparator (items.map (pieces hidden)),
        p.Unbroken f :=
      Piece.unbroken_separated (by decide) fun b hb => ih b hb (hitems b hb)
    simp only [pieces, Payload.pieces, piecesAll_eq_map, List.forall_mem_append,
      List.forall_mem_cons, Piece.unbroken_fixed]
    exact ⟨unbroken_pathPieces hname, ⟨by decide, hseparated⟩, by decide, List.forall_mem_nil _⟩

end Unbroken

/-! ### Rendering -/

variable {t : Interner}

/-- **An attribute stands on one line,** if its segments do. -/
theorem Attr.oneLine_of_render {a : Attr Name} {s : String} (h : NamesUnbroken t.lookup a.segments)
    (hrender : a.render t = .ok s) : OneLine s.toList := by
  rw [render_eq_pieces] at hrender
  obtain ⟨cs, hcs, hs⟩ := exists_of_bind_eq_ok hrender
  cases hs
  have hentry : ∀ p ∈ a.entryPieces Text.isInvisible, p.Unbroken t.lookup := by
    simp only [entryPieces, List.forall_mem_append, List.forall_mem_cons, Piece.unbroken_fixed]
    exact ⟨⟨by decide, unbroken_pieces h⟩, by decide, List.forall_mem_nil _⟩
  rw [String.toList_ofList]
  exact Piece.oneLine_of_writeAll hentry hcs

theorem AttrList.Unbroken.namesUnbroken {l : AttrList Name} {a : Attr Name} (h : l.Unbroken t)
    (ha : a ∈ l.items) : NamesUnbroken t.lookup a.segments := by
  rw [Unbroken, Attr.segmentsAll_eq_flatMap, namesUnbroken_flatMap] at h
  exact h a ha

/-- A list is rendered entry by entry. -/
theorem AttrList.render_eq_mapM (t : Interner) (l : AttrList Name) :
    l.render t = do
      let shown ← l.items.mapM (Attr.render t)
      return String.ofList (['\n'].intercalate (shown.map String.toList)) := by
  have hentries : l.items.mapM (Attr.render t) = do
      return (← l.items.mapM fun a => Piece.writeAll Text.isInvisible t.lookup
        (a.entryPieces Text.isInvisible)).map String.ofList := by
    rw [← mapM_map_result]
    exact mapM_congr fun a _ => a.render_eq_pieces t
  rw [render_eq_pieces, pieces, Piece.writeAll_separated, List.mapM_map, hentries]
  simp only [Function.comp_def, bind_assoc, pure_bind, List.map_map, String.toList_ofList,
    List.map_id']

/-- **The lines of a list** are its entries. A list without entries is written as the empty text,
which is a line, too. -/
theorem AttrList.splitOn_of_render {l : AttrList Name} {text : String} (hne : l.items ≠ [])
    (h : l.Unbroken t) (hrender : l.render t = .ok text) :
    ∃ shown, l.items.mapM (Attr.render t) = .ok shown ∧
      text.toList.splitOn '\n' = shown.map String.toList := by
  rw [render_eq_mapM] at hrender
  obtain ⟨shown, hshown, htext⟩ := exists_of_bind_eq_ok hrender
  cases htext
  -- joining no lines and joining one empty line give the same text, so there has to be an entry
  have hne' : shown.map String.toList ≠ [] := by
    intro hnil
    have hentries := forall₂_of_mapM hshown
    rw [List.map_eq_nil_iff.mp hnil, List.forall₂_nil_right_iff] at hentries
    exact hne hentries
  have hlines : ∀ line ∈ shown.map String.toList, OneLine line := by
    intro line hline
    obtain ⟨s, hs, rfl⟩ := List.mem_map.mp hline
    obtain ⟨a, ha, hs⟩ := exists_of_mem_mapM hshown hs
    exact Attr.oneLine_of_render (h.namesUnbroken ha) hs
  refine ⟨shown, hshown, ?_⟩
  rw [String.toList_ofList]
  exact splitOn_newline hne' hlines

end ItemAttrs
