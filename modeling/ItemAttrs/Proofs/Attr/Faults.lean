import ItemAttrs.Proofs.Attr.Pieces
import ItemAttrs.Proofs.Interner.Later

/-!
# Where rendering stops

Rendering shows the names of an attribute from left to right, and nothing but a name without
text can stop it. `Showing` says so of any computation that shows some names: it holds of one
piece, it is kept when two computations follow each other, and so it holds of every written
tree (`Attr.showing_render`, `AttrList.showing_render`).
-/

namespace ItemAttrs

/-- **The outcome of showing some names,** from left to right: none of them is dangling and
there is a result, or the first dangling one is the cause of the fault. -/
inductive Showing {α : Type} (t : Interner) : List Name → Except Fault α → Prop where
  | done {names : List Name} {a : α} (h : ∀ n ∈ names, ¬t.Dangling n) : Showing t names (.ok a)
  | stopped {before after : List Name} {n : Name} (hbefore : ∀ m ∈ before, ¬t.Dangling m)
      (hn : t.Dangling n) : Showing t (before ++ n :: after) (.error (t.noText n))

namespace Showing

variable {α β γ : Type} {t : Interner} {names more : List Name} {x : Except Fault α}
  {y : Except Fault β} {n : Name}

theorem nothing (a : α) : Showing t [] (.ok a) := .done fun _ h => nomatch h

theorem lookup (t : Interner) (n : Name) : Showing t [n] (t.lookup n) := by
  by_cases hn : t.Dangling n
  · rw [Interner.lookup_of_dangling hn]
    have hbefore : ∀ m ∈ ([] : List Name), ¬t.Dangling m := fun _ h => nomatch h
    exact stopped hbefore hn
  · obtain ⟨s, hs⟩ := Interner.exists_lookup_iff.mpr hn
    rw [hs]
    exact .done fun m hm => List.mem_singleton.mp hm ▸ hn

/-- **One after the other.** If the first computation stops, the second one does not begin. -/
theorem seq (hx : Showing t names x) (hy : Showing t more y) (g : α → β → γ) :
    Showing t (names ++ more) (do let a ← x; let b ← y; return g a b) := by
  cases hx with
  | stopped hbefore hn =>
    rw [List.append_assoc, List.cons_append]
    exact .stopped hbefore hn
  | done h =>
    cases hy with
    | done h' => exact .done fun n hn => (List.mem_append.mp hn).elim (h n) (h' n)
    | stopped hbefore hn =>
      rw [← List.append_assoc]
      exact .stopped (fun m hm => (List.mem_append.mp hm).elim (h m) (hbefore m)) hn

theorem map (hx : Showing t names x) (g : α → β) : Showing t names (do return g (← x)) := by
  cases hx with
  | done h => exact .done h
  | stopped hbefore hn => exact .stopped hbefore hn

theorem mapM_lookup (t : Interner) (names : List Name) :
    Showing t names (names.mapM t.lookup) := by
  induction names with
  | nil => exact nothing []
  | cons n names ih =>
    rw [List.mapM_cons]
    exact (lookup t n).seq ih List.cons

/-! ### What the outcome says -/

theorem fails_iff (hx : Showing t names x) :
    (∃ cause, x = .error cause) ↔ ∃ n ∈ names, t.Dangling n := by
  cases hx with
  | done h =>
    constructor
    · rintro ⟨cause, hcause⟩
      exact nomatch hcause
    · rintro ⟨n, hn, hdangling⟩
      exact absurd hdangling (h n hn)
  | stopped hbefore hn =>
    exact ⟨fun _ => ⟨_, List.mem_append_right _ List.mem_cons_self, hn⟩, fun _ => ⟨_, rfl⟩⟩

theorem exists_ok (hx : Showing t names x) (h : ∀ n ∈ names, ¬t.Dangling n) : ∃ a, x = .ok a := by
  cases hx with
  | done _ => exact ⟨_, rfl⟩
  | stopped _ hn => exact absurd hn (h _ (List.mem_append_right _ List.mem_cons_self))

/-- There is only one first dangling name. -/
theorem eq_error {before after : List Name} (hx : Showing t (before ++ n :: after) x)
    (hbefore : ∀ m ∈ before, ¬t.Dangling m) (hn : t.Dangling n) : x = .error (t.noText n) := by
  generalize hnames : before ++ n :: after = names at hx
  cases hx with
  | done h => exact absurd hn (h n (hnames ▸ List.mem_append_right _ List.mem_cons_self))
  | @stopped before' after' n' hbefore' hn' =>
    -- if one of the two were further left, the other would not be the first
    rcases List.append_eq_append_iff.mp hnames with ⟨rest, hrest, htail⟩ | ⟨rest, hrest, htail⟩
    · cases rest with
      | nil => rw [(List.cons.inj htail).1]
      | cons m rest =>
        obtain ⟨rfl, -⟩ := List.cons.inj htail
        exact absurd hn (hbefore' n (hrest ▸ List.mem_append_right _ List.mem_cons_self))
    · cases rest with
      | nil => rw [(List.cons.inj htail).1]
      | cons m rest =>
        obtain ⟨rfl, -⟩ := List.cons.inj htail
        exact absurd hn' (hbefore n' (hrest ▸ List.mem_append_right _ List.mem_cons_self))

end Showing

/-! ### Written trees -/

variable (t : Interner)

theorem Piece.showing_write (hidden : Char → Bool) (p : Piece Name) :
    Showing t (Piece.names [p]) (p.write hidden t.lookup) := by
  cases p with
  | fixed cs => exact .nothing cs
  | shown n => exact (Showing.lookup t n).map _
  | quoted n => exact (Showing.lookup t n).map _

theorem Piece.showing_writeAll (hidden : Char → Bool) (ps : List (Piece Name)) :
    Showing t (Piece.names ps) (Piece.writeAll hidden t.lookup ps) := by
  induction ps with
  | nil => exact .nothing []
  | cons p ps ih =>
    have hcons : Piece.names (p :: ps) = Piece.names [p] ++ Piece.names ps :=
      Piece.names_append [p] ps
    rw [hcons]
    exact (showing_write t hidden p).seq ih _

theorem Attr.showing_renderBody (a : Attr Name) : Showing t a.names (a.renderBody t) := by
  rw [← Attr.names_pieces Text.isInvisible, Attr.renderBody_eq_pieces]
  exact (Piece.showing_writeAll t _ _).map _

theorem Attr.showing_render (a : Attr Name) : Showing t a.names (a.render t) := by
  rw [← Attr.names_entryPieces Text.isInvisible, Attr.render_eq_pieces]
  exact (Piece.showing_writeAll t _ _).map _

theorem AttrList.showing_render (l : AttrList Name) :
    Showing t (Attr.namesAll l.items) (l.render t) := by
  rw [← AttrList.names_pieces Text.isInvisible, AttrList.render_eq_pieces]
  exact (Piece.showing_writeAll t _ _).map _

/-! ### After further calls -/

variable {t}

theorem Piece.writeAll_congr {t' : Interner} (hidden : Char → Bool) {ps : List (Piece Name)}
    (h : ∀ n ∈ Piece.names ps, t'.lookup n = t.lookup n) :
    Piece.writeAll hidden t'.lookup ps = Piece.writeAll hidden t.lookup ps := by
  induction ps with
  | nil => rfl
  | cons p ps ih =>
    have hp : p.write hidden t'.lookup = p.write hidden t.lookup := by
      cases p with
      | fixed cs => rfl
      | shown n => simp only [write, h n List.mem_cons_self]
      | quoted n => simp only [write, h n List.mem_cons_self]
    have hps : ∀ n ∈ Piece.names ps, t'.lookup n = t.lookup n := fun n hn =>
      h n (Piece.names_append [p] ps ▸ List.mem_append_right _ hn)
    rw [writeAll, writeAll, hp, ih hps]

/-- **An attribute whose names have texts** keeps its written form. -/
theorem Attr.render_later {t' : Interner} {a : Attr Name} (h : ∀ n ∈ a.names, ¬t.Dangling n)
    (hlater : t.Later t') : a.render t' = a.render t := by
  have hlookup : ∀ n ∈ Piece.names (a.entryPieces Text.isInvisible), t'.lookup n = t.lookup n := by
    intro n hn
    rw [Attr.names_entryPieces] at hn
    obtain ⟨s, hs⟩ := Interner.exists_lookup_iff.mpr (h n hn)
    rw [hs, hlater.lookup hs]
  rw [Attr.render_eq_pieces, Attr.render_eq_pieces, Piece.writeAll_congr _ hlookup]

end ItemAttrs
