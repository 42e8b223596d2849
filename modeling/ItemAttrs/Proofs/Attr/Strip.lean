import ItemAttrs.Proofs.Attr.Pieces

/-!
# What is seen of an attribute

Spans and usage flags say where an attribute stands and what has become of it, not what it
says. `Attr.strip` takes them out at every depth. Of an entry of a list one sees a little more,
namely its own span and its own flag: this is its face, `Attr.face`.

* `pieces_strip`, `pieces_face`: the written form does not show more than that;
* `strip_traverse`, `face_traverse`: names are replaced before or after, it makes no difference;
* `strip_strip`: nothing is left to take out.
-/

namespace ItemAttrs

variable {ν μ : Type}

mutual

/-- The expression without its spans. -/
def Expr.strip : Expr ν → Expr ν
  | .literal l _ => .literal l .dummy
  | .path p _ => .path p .dummy
  | .call p args _ => .call p (Expr.stripAll args) .dummy
  | .unary op e _ => .unary op e.strip .dummy
  | .binary op l r _ => .binary op l.strip r.strip .dummy
  | .paren e _ => .paren e.strip .dummy

def Expr.stripAll : List (Expr ν) → List (Expr ν)
  | [] => []
  | e :: es => e.strip :: Expr.stripAll es

end

mutual

/-- **The attribute without its spans and usage flags.** -/
def Attr.strip : Attr ν → Attr ν
  | ⟨_, name, payload, _⟩ => ⟨.dummy, name, payload.strip, false⟩

def Payload.strip : Payload ν → Payload ν
  | .bare => .bare
  | .value e => .value e.strip
  | .text n => .text n
  | .nested items => .nested (Attr.stripAll items)

def Attr.stripAll : List (Attr ν) → List (Attr ν)
  | [] => []
  | a :: as => a.strip :: Attr.stripAll as

end

/-- **What is seen of an entry:** its span and its flag, and what it says. -/
def Attr.face (a : Attr ν) : Attr ν := { a with payload := a.payload.strip }

/-- The list without spans and usage flags. -/
def AttrList.strip (l : AttrList ν) : AttrList ν := ⟨l.items.map Attr.strip⟩

/-- What is seen of a list. -/
def AttrList.face (l : AttrList ν) : AttrList ν := ⟨l.items.map Attr.face⟩

@[simp] theorem Expr.stripAll_eq_map (es : List (Expr ν)) : stripAll es = es.map strip := by
  induction es with
  | nil => rfl
  | cons e es ih => rw [stripAll, ih, List.map_cons]

@[simp] theorem Attr.stripAll_eq_map (as : List (Attr ν)) : stripAll as = as.map strip := by
  induction as with
  | nil => rfl
  | cons a as ih => rw [stripAll, ih, List.map_cons]

@[simp] theorem Attr.strip_name (a : Attr ν) : a.strip.name = a.name := by
  cases a
  rfl

@[simp] theorem Attr.strip_payload (a : Attr ν) : a.strip.payload = a.payload.strip := by
  cases a
  rfl

theorem Attr.strip_eq_iff {a b : Attr ν} :
    a.strip = b.strip ↔ a.name = b.name ∧ a.payload.strip = b.payload.strip := by
  cases a
  cases b
  simp [strip]

theorem Attr.face_eq_iff {a b : Attr ν} :
    a.face = b.face ↔ a.span = b.span ∧ a.used = b.used ∧ a.strip = b.strip := by
  rw [strip_eq_iff]
  cases a
  cases b
  simp only [face, Attr.mk.injEq]
  tauto

/-! ### Stripping twice -/

theorem Expr.strip_strip (e : Expr ν) : e.strip.strip = e.strip := by
  induction e with
  | literal l _ => rfl
  | path p _ => rfl
  | call p args _ ih => simpa [strip] using ih
  | unary op e _ ih => rw [strip, strip, ih]
  | binary op l r _ ihl ihr => rw [strip, strip, ihl, ihr]
  | paren e _ ih => rw [strip, strip, ih]

theorem Attr.strip_strip (a : Attr ν) : a.strip.strip = a.strip := by
  induction a with
  | bare _ name _ => rfl
  | value _ name e _ => simp only [strip, Payload.strip, e.strip_strip]
  | text _ name n _ => rfl
  | nested _ name items _ ih => simpa [strip, Payload.strip] using ih

theorem AttrList.strip_strip (l : AttrList ν) : l.strip.strip = l.strip := by
  simp only [strip, List.map_map, Function.comp_def, Attr.strip_strip]

/-! ### The written form -/

theorem Expr.pieces_strip (hidden : Char → Bool) (e : Expr ν) :
    e.strip.pieces hidden = e.pieces hidden := by
  induction e with
  | literal l _ => rfl
  | path p _ => rfl
  | call p args _ ih =>
    simp only [strip, pieces, stripAll_eq_map, piecesAll_eq_map, List.map_map, Function.comp_def]
    rw [List.map_congr_left ih]
  | unary op e _ ih => rw [strip, pieces, pieces, ih]
  | binary op l r _ ihl ihr => rw [strip, pieces, pieces, ihl, ihr]
  | paren e _ ih => rw [strip, pieces, pieces, ih]

theorem Attr.pieces_strip (hidden : Char → Bool) (a : Attr ν) :
    a.strip.pieces hidden = a.pieces hidden := by
  induction a with
  | bare _ name _ => rfl
  | value _ name e _ =>
    simp only [strip, Payload.strip, pieces, Payload.pieces, e.pieces_strip hidden]
  | text _ name n _ => rfl
  | nested _ name items _ ih =>
    simp only [strip, Payload.strip, pieces, Payload.pieces, stripAll_eq_map, piecesAll_eq_map,
      List.map_map, Function.comp_def]
    rw [List.map_congr_left ih]

@[simp] theorem Attr.strip_face (a : Attr ν) : a.face.strip = a.strip := by
  -- the payload of a face is stripped already, and stripping it once more makes no difference
  have h := a.strip_strip
  rw [strip_eq_iff, strip_payload] at h
  rw [strip_eq_iff]
  exact ⟨rfl, h.2⟩

theorem Attr.pieces_face (hidden : Char → Bool) (a : Attr ν) :
    a.face.pieces hidden = a.pieces hidden := by
  -- face and attribute have the same stripped form, and so the same pieces
  rw [← a.face.pieces_strip, strip_face, pieces_strip]

theorem Attr.entryPieces_face (hidden : Char → Bool) (a : Attr ν) :
    a.face.entryPieces hidden = a.entryPieces hidden := by
  rw [entryPieces, pieces_face, ← entryPieces]

theorem AttrList.pieces_face (hidden : Char → Bool) (l : AttrList ν) :
    l.face.pieces hidden = l.pieces hidden := by
  simp only [face, pieces, List.map_map, Function.comp_def, Attr.entryPieces_face]

theorem Attr.render_face (t : Interner) (a : Attr Name) : a.face.render t = a.render t := by
  rw [render_eq_pieces, render_eq_pieces, entryPieces_face]

theorem AttrList.render_face (t : Interner) (l : AttrList Name) : l.face.render t = l.render t := by
  rw [render_eq_pieces, render_eq_pieces, pieces_face]

/-! ### Replacing names -/

section Traverse

variable {m : Type → Type} [Monad m] [LawfulMonad m] (f : ν → m μ)

theorem Expr.strip_traverse (e : Expr ν) :
    e.strip.traverse f = do return (← e.traverse f).strip := by
  induction e with
  | literal l _ => simp only [strip, traverse, bind_assoc, pure_bind]
  | path p _ => simp only [strip, traverse, bind_assoc, pure_bind]
  | call p args _ ih =>
    have hargs := (mapM_congr ih).trans (mapM_map_result (traverse f) strip args)
    simp only [strip, traverse, stripAll_eq_map, traverseAll_eq_mapM, List.mapM_map,
      Function.comp_def, hargs, bind_assoc, pure_bind]
  | unary op e _ ih => simp only [strip, traverse, ih, bind_assoc, pure_bind]
  | binary op l r _ ihl ihr => simp only [strip, traverse, ihl, ihr, bind_assoc, pure_bind]
  | paren e _ ih => simp only [strip, traverse, ih, bind_assoc, pure_bind]

theorem Attr.strip_traverse (a : Attr ν) :
    a.strip.traverse f = do return (← a.traverse f).strip := by
  induction a with
  | bare _ name _ =>
    simp only [strip, Payload.strip, traverse, Payload.traverse, bind_assoc, pure_bind]
  | value _ name e _ =>
    simp only [strip, Payload.strip, traverse, Payload.traverse, Expr.strip_traverse, bind_assoc,
      pure_bind]
  | text _ name n _ =>
    simp only [strip, Payload.strip, traverse, Payload.traverse, bind_assoc, pure_bind]
  | nested _ name items _ ih =>
    have hitems := (mapM_congr ih).trans (mapM_map_result (traverse f) strip items)
    simp only [strip, Payload.strip, traverse, Payload.traverse, stripAll_eq_map,
      traverseAll_eq_mapM, List.mapM_map, Function.comp_def, hitems, bind_assoc, pure_bind]

theorem Payload.strip_traverse (p : Payload ν) :
    p.strip.traverse f = do return (← p.traverse f).strip := by
  -- the payload of an attribute whose name has no segment to replace
  have h := congrArg (fun x => do return (← x).payload)
    (Attr.strip_traverse f ⟨.dummy, ⟨[]⟩, p, false⟩)
  simpa only [Attr.strip, Attr.traverse, AttrName.traverse, List.mapM_nil, bind_assoc, pure_bind,
    bind_pure] using h

theorem Attr.face_traverse (a : Attr ν) :
    a.face.traverse f = do return (← a.traverse f).face := by
  cases a
  simp only [face, traverse, Payload.strip_traverse, bind_assoc, pure_bind]

/-- **What is seen of a list over texts** is what is seen of the list over names, with the names
replaced. -/
theorem AttrList.face_traverse (l : AttrList ν) :
    l.face.traverse f = do return (← l.traverse f).face := by
  have hitems := (mapM_congr fun a (_ : a ∈ l.items) => a.face_traverse f).trans
    (mapM_map_result (Attr.traverse f) Attr.face l.items)
  simp only [face, traverse, Attr.traverseAll_eq_mapM, List.mapM_map, Function.comp_def, hitems,
    bind_assoc, pure_bind]

end Traverse

end ItemAttrs
