import Mathlib.Data.List.Basic
import ItemAttrs.Expr.Write

/-!
# Where a written form ends

A reader of written text knows where one part ends only by what comes next. This module has the
two ways in which that happens here, each as a statement about two texts that agree: parts made
of characters of one kind, up to a character of another kind (`eq_of_stretch`), and parts with
commas between them, up to a closing character (`eq_of_separated`).
-/

namespace ItemAttrs

/-- The text does not go on with a character of the given kind. -/
def Stops (P : Char → Prop) (r : List Char) : Prop := ∀ c rest, r = c :: rest → ¬P c

theorem stops_cons {P : Char → Prop} {c : Char} (hc : ¬P c) (r : List Char) : Stops P (c :: r) := by
  intro d rest hd
  exact (List.cons.inj hd).1 ▸ hc

/-- **Stretches of characters of one kind** are equal if the texts are, and so is what follows. -/
theorem eq_of_stretch {P : Char → Prop} {cs cs' r r' : List Char} (hcs : ∀ c ∈ cs, P c)
    (hcs' : ∀ c ∈ cs', P c) (hr : Stops P r) (hr' : Stops P r') (h : cs ++ r = cs' ++ r') :
    cs = cs' ∧ r = r' := by
  induction cs generalizing cs' with
  | nil =>
    cases cs' with
    | nil => exact ⟨rfl, h⟩
    -- one stretch ends here and the other one does not, against what `r` begins with
    | cons c' cs' => exact absurd (hcs' c' List.mem_cons_self) (hr c' _ h)
  | cons c cs ih =>
    cases cs' with
    | nil => exact absurd (hcs c List.mem_cons_self) (hr' c _ h.symm)
    | cons c' cs' =>
      obtain ⟨rfl, htail⟩ := List.cons.inj h
      obtain ⟨rfl, hrest⟩ := ih (fun d hd => hcs d (List.mem_cons_of_mem c hd))
        (fun d hd => hcs' d (List.mem_cons_of_mem c hd)) htail
      exact ⟨rfl, hrest⟩

/-! ### Parts with commas between them -/

/-- The text goes on with a comma or with the closing character. -/
def Ends (close : Char) (r : List Char) : Prop := ∃ c rest, r = c :: rest ∧ (c = ',' ∨ c = close)

section Separated

variable {α β : Type} {write : α → List Char} {key : α → β} {close : Char}

theorem intercalate_cons_eq_flatMap (separator w : List Char) (ws : List (List Char)) :
    separator.intercalate (w :: ws) = w ++ ws.flatMap fun v => separator ++ v := by
  induction ws generalizing w with
  | nil => simp
  | cons v ws ih => rw [List.intercalate_cons_cons, ih, List.flatMap_cons, List.append_assoc,
      List.append_assoc]

theorem ends_flatMap (write : α → List Char) (close : Char) (as : List α) (r : List Char) :
    Ends close ((as.flatMap fun a => listSeparator ++ write a) ++ close :: r) := by
  cases as with
  | nil => exact ⟨close, r, rfl, .inr rfl⟩
  | cons a as => exact ⟨',', _, rfl, .inl rfl⟩

/-- The parts after the first one, each with a comma before it. -/
theorem eq_of_flatMap {as bs : List α} {r r' : List Char} (hclose : close ≠ ',')
    (hpart : ∀ a ∈ as, ∀ b ∈ bs, ∀ r r', Ends close r → Ends close r' →
      write a ++ r = write b ++ r' → key a = key b ∧ r = r')
    (h : (as.flatMap fun a => listSeparator ++ write a) ++ close :: r =
      (bs.flatMap fun b => listSeparator ++ write b) ++ close :: r') :
    as.map key = bs.map key ∧ r = r' := by
  induction as generalizing bs with
  | nil =>
    cases bs with
    | nil => exact ⟨rfl, (List.cons.inj h).2⟩
    | cons b bs => exact absurd (List.cons.inj h).1 hclose
  | cons a as ih =>
    cases bs with
    | nil => exact absurd (List.cons.inj h).1.symm hclose
    | cons b bs =>
      simp only [List.flatMap_cons, List.append_assoc] at h
      -- behind each part there is the comma before the next one, or the closing character
      obtain ⟨hkey, h⟩ := hpart a List.mem_cons_self b List.mem_cons_self _ _
        (ends_flatMap write close as r) (ends_flatMap write close bs r')
        (List.append_cancel_left h)
      obtain ⟨hkeys, hr⟩ := ih (fun a ha b hb => hpart a (List.mem_cons_of_mem _ ha) b
        (List.mem_cons_of_mem _ hb)) h
      exact ⟨by rw [List.map_cons, List.map_cons, hkey, hkeys], hr⟩

/-- **Parts with commas between them** agree one by one if the texts agree up to the closing
character, provided that each part can be told where it ends and none begins like a closing
character. -/
theorem eq_of_separated {as bs : List α} {r r' : List Char} (hclose : close ≠ ',')
    (hpart : ∀ a ∈ as, ∀ b ∈ bs, ∀ r r', Ends close r → Ends close r' →
      write a ++ r = write b ++ r' → key a = key b ∧ r = r')
    (has : ∀ a ∈ as, ∀ r r', write a ++ r ≠ close :: r')
    (hbs : ∀ b ∈ bs, ∀ r r', write b ++ r ≠ close :: r')
    (h : listSeparator.intercalate (as.map write) ++ close :: r =
      listSeparator.intercalate (bs.map write) ++ close :: r') :
    as.map key = bs.map key ∧ r = r' := by
  -- only the first part has no comma before it, so it is only here that nothing but the form of
  -- the parts tells a part from the end
  cases as with
  | nil =>
    cases bs with
    | nil => exact ⟨rfl, (List.cons.inj h).2⟩
    | cons b bs =>
      rw [List.map_cons, intercalate_cons_eq_flatMap, List.append_assoc] at h
      exact absurd h.symm (hbs b List.mem_cons_self _ _)
  | cons a as =>
    cases bs with
    | nil =>
      rw [List.map_cons, intercalate_cons_eq_flatMap, List.append_assoc] at h
      exact absurd h (has a List.mem_cons_self _ _)
    | cons b bs =>
      simp only [List.map_cons, intercalate_cons_eq_flatMap, List.append_assoc,
        List.flatMap_map] at h
      obtain ⟨hkey, h⟩ := hpart a List.mem_cons_self b List.mem_cons_self _ _
        (ends_flatMap write close as r) (ends_flatMap write close bs r') h
      obtain ⟨hkeys, hr⟩ := eq_of_flatMap hclose (fun a ha b hb => hpart a
        (List.mem_cons_of_mem _ ha) b (List.mem_cons_of_mem _ hb)) h
      exact ⟨by rw [List.map_cons, List.map_cons, hkey, hkeys], hr⟩

end Separated

end ItemAttrs
