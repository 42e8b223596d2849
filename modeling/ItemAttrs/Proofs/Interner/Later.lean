import ItemAttrs.Proofs.Interner.History

/-!
# Names without text, and further calls

Any word is a name, but an interner has a text only for those whose slot is taken in their
shard. The other ones are **dangling**, and looking one up is an index fault. Further calls
only ever take more slots, whether they succeed or not, so a text once there stays there.

* `lookup_of_dangling` and `exists_lookup_iff`: what a look-up comes to;
* `Later`: the states that further calls lead to, and `Later.lookup`: names keep their texts.
-/

namespace ItemAttrs

/-- What holds of the state in which the first step ends, and is kept by the second one, holds
at the end, whether or not there is a second step. -/
theorem InternM.state_bind {α β : Type} {x : InternM α} {f : α → InternM β} {t : Interner}
    {P : Interner → Prop} (hx : P (x t).2) (hf : ∀ a t₁, P t₁ → P (f a t₁).2) :
    P ((x >>= f) t).2 := by
  generalize hres : x t = res at hx
  obtain ⟨answer, t₁⟩ := res
  cases answer with
  | ok a =>
    rw [bind_of_ok hres]
    exact hf a t₁ hx
  | error cause =>
    rw [bind_of_error hres]
    exact hx

namespace Interner

variable {t t' : Interner} {n : Name} {s : String}

/-- **The slot of the name is not taken.** -/
def Dangling (t : Interner) (n : Name) : Prop := (t.shard n.shard).size ≤ n.slot

instance (t : Interner) (n : Name) : Decidable (t.Dangling n) :=
  inferInstanceAs (Decidable (_ ≤ _))

/-- The fault of looking up a name without text. -/
def noText (t : Interner) (n : Name) : Fault := .pastEnd (t.shard n.shard).size n.slot

theorem lookup_of_dangling (h : t.Dangling n) : t.lookup n = .error (t.noText n) := by
  have hnone : (t.shard n.shard).strings[n.slot]? = none := Array.getElem?_eq_none_iff.mpr h
  rw [shard_eq_getElem] at hnone
  simp only [lookup, hnone, noText, shard_eq_getElem]

theorem exists_lookup_iff : (∃ s, t.lookup n = .ok s) ↔ ¬t.Dangling n := by
  constructor
  · rintro ⟨s, hs⟩ hdangling
    exact nomatch hs.symm.trans (lookup_of_dangling hdangling)
  · intro h
    have hlt : n.slot < (t.shard n.shard).strings.size := Nat.lt_of_not_le h
    exact ⟨_, lookup_eq_ok.mpr (Array.getElem?_eq_getElem hlt)⟩

/-! ### Further calls -/

/-- **The states that further calls lead to.** A call that fails counts, too. -/
inductive Later (t : Interner) : Interner → Prop where
  | refl : Later t t
  | intern {t' : Interner} (h : Later t t') (s : String) : Later t (intern s t').2
  | internPath {t' : Interner} (h : Later t t') (path : String) : Later t (internPath path t').2

theorem Later.trans {t'' : Interner} (h : t.Later t') (h' : t'.Later t'') : t.Later t'' := by
  induction h' with
  | refl => exact h
  | intern _ s ih => exact ih.intern s
  | internPath _ path ih => exact ih.internPath path

theorem lookup_intern (h : t.lookup n = .ok s) (r : String) :
    (intern r t).2.lookup n = .ok s := by
  -- only a text that is new, and for which there is room, changes the state
  cases hr : (t.home r).find? r with
  | some slot =>
    rw [intern_of_find? hr]
    exact h
  | none =>
    by_cases hsize : (t.home r).size ≤ Name.maxSlot
    · rw [intern_of_new hr hsize]
      exact lookup_add h r
    · rw [intern_of_full hr hsize]
      exact h

theorem lookup_mapM_intern (h : t.lookup n = .ok s) (texts : List String) :
    ((texts.mapM Interner.intern) t).2.lookup n = .ok s := by
  induction texts generalizing t with
  | nil => exact h
  | cons r texts ih =>
    rw [List.mapM_cons]
    -- the name keeps its text in the first call, and in the others after it
    apply InternM.state_bind (P := fun t => t.lookup n = .ok s) (lookup_intern h r)
    intro m t₁ h₁
    exact InternM.state_bind (P := fun t => t.lookup n = .ok s) (ih h₁) fun names t₂ h₂ => h₂

/-- **Names keep their texts.** -/
theorem Later.lookup (h : t.Later t') (hn : t.lookup n = .ok s) : t'.lookup n = .ok s := by
  induction h with
  | refl => exact hn
  | intern _ r ih => exact lookup_intern ih r
  | internPath _ path ih => exact lookup_mapM_intern ih (Path.split path)

end Interner

end ItemAttrs
