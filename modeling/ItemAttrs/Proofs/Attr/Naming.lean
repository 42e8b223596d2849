import ItemAttrs.Proofs.Attr.Tree
import ItemAttrs.Proofs.Interner.Later

/-!
# Trees of names and trees of texts

A tree over names and the tree over their texts determine each other, as long as one stays with
one interner.

* `intern_traverse`: looking all names of a tree up and then naming the texts again gives the
  tree back, and the state does not change (`Attr.eq_of_traverse`: so no two trees have the
  same texts);
* `ReadsBack` is what naming comes to: the names can be looked up, then and after further calls,
  and `lookup_traverse` says so of naming all texts of a tree.
-/

namespace ItemAttrs

theorem exists_of_bind_eq_ok {α β : Type} {x : Except Fault α} {f : α → Except Fault β} {b : β}
    (h : (x >>= f) = .ok b) : ∃ a, x = .ok a ∧ f a = .ok b := by
  cases x with
  | ok a => exact ⟨a, rfl, h⟩
  | error cause => exact nomatch h

theorem forall₂_of_mapM {α β : Type} {f : α → Except Fault β} {as : List α} {bs : List β}
    (h : as.mapM f = .ok bs) : List.Forall₂ (fun a b => f a = .ok b) as bs := by
  induction as generalizing bs with
  | nil =>
    cases h
    exact .nil
  | cons a as ih =>
    rw [List.mapM_cons] at h
    obtain ⟨b, hb, h⟩ := exists_of_bind_eq_ok h
    obtain ⟨bs', hbs, h⟩ := exists_of_bind_eq_ok h
    cases h
    exact .cons hb (ih hbs)

theorem exists_of_mem_mapM {α β : Type} {f : α → Except Fault β} {as : List α} {bs : List β} {b : β}
    (h : as.mapM f = .ok bs) (hb : b ∈ bs) : ∃ a ∈ as, f a = .ok b := by
  have hresults := forall₂_of_mapM h
  clear h
  induction hresults with
  | nil => exact nomatch hb
  | cons hab _ ih =>
    rcases List.mem_cons.mp hb with rfl | hb
    · exact ⟨_, List.mem_cons_self, hab⟩
    · obtain ⟨a', ha', hab'⟩ := ih hb
      exact ⟨a', List.mem_cons_of_mem _ ha', hab'⟩

variable {t t' : Interner}

/-! ### From names to texts and back -/

theorem mapM_inverse {α β : Type} {g : α → Except Fault β} {f : β → InternM α} {as : List α}
    {bs : List β} (hinv : ∀ a ∈ as, ∀ b, g a = .ok b → (f b) t = (.ok a, t))
    (h : as.mapM g = .ok bs) : (bs.mapM f) t = (.ok as, t) := by
  induction as generalizing bs with
  | nil =>
    cases h
    rfl
  | cons a as ih =>
    rw [List.mapM_cons] at h
    obtain ⟨b, hb, h⟩ := exists_of_bind_eq_ok h
    obtain ⟨bs', hbs, h⟩ := exists_of_bind_eq_ok h
    cases h
    -- the first computation leaves the state as it is, so the others begin in `t`, too
    have htail := ih (fun a' ha' => hinv a' (List.mem_cons_of_mem a ha')) hbs
    rw [List.mapM_cons, InternM.bind_of_ok (hinv a List.mem_cons_self b hb),
      InternM.bind_of_ok htail]
    rfl

section Inverse

variable (hwf : t.WellFormed)
include hwf

theorem mapM_intern_of_lookup {names : List Name} {texts : List String}
    (h : names.mapM t.lookup = .ok texts) : (texts.mapM Interner.intern) t = (.ok names, t) :=
  mapM_inverse (fun _ _ _ hn => hwf.intern_of_lookup hn) h

theorem Literal.intern_traverse {l : Literal Name} {l' : Literal String}
    (h : l.traverse t.lookup = .ok l') : (l'.traverse Interner.intern) t = (.ok l, t) := by
  cases l with
  | str n =>
    obtain ⟨s, hs, h⟩ := exists_of_bind_eq_ok h
    cases h
    rw [traverse, InternM.bind_of_ok (hwf.intern_of_lookup hs)]
    rfl
  | _ =>
    cases h
    rfl

theorem Expr.intern_traverse {e : Expr Name} {e' : Expr String}
    (h : e.traverse t.lookup = .ok e') : (e'.traverse Interner.intern) t = (.ok e, t) := by
  -- the hypothesis tells, part by part, that the texts have been read off this expression
  induction e generalizing e' with
  | literal l _ =>
    obtain ⟨l', hl, h⟩ := exists_of_bind_eq_ok h
    cases h
    rw [traverse, InternM.bind_of_ok (Literal.intern_traverse hwf hl)]
    rfl
  | path p _ =>
    obtain ⟨p', hp, h⟩ := exists_of_bind_eq_ok h
    cases h
    rw [traverse, InternM.bind_of_ok (mapM_intern_of_lookup hwf hp)]
    rfl
  | call p args _ ih =>
    obtain ⟨p', hp, h⟩ := exists_of_bind_eq_ok h
    obtain ⟨args', hargs, h⟩ := exists_of_bind_eq_ok h
    cases h
    rw [traverseAll_eq_mapM] at hargs
    rw [traverse, traverseAll_eq_mapM, InternM.bind_of_ok (mapM_intern_of_lookup hwf hp),
      InternM.bind_of_ok (mapM_inverse (fun e he _ => ih e he) hargs)]
    rfl
  | unary op e _ ih =>
    obtain ⟨e', he, h⟩ := exists_of_bind_eq_ok h
    cases h
    rw [traverse, InternM.bind_of_ok (ih he)]
    rfl
  | binary op l r _ ihl ihr =>
    obtain ⟨l', hl, h⟩ := exists_of_bind_eq_ok h
    obtain ⟨r', hr, h⟩ := exists_of_bind_eq_ok h
    cases h
    rw [traverse, InternM.bind_of_ok (ihl hl), InternM.bind_of_ok (ihr hr)]
    rfl
  | paren e _ ih =>
    obtain ⟨e', he, h⟩ := exists_of_bind_eq_ok h
    cases h
    rw [traverse, InternM.bind_of_ok (ih he)]
    rfl

theorem Expr.eq_of_traverse {a b : Expr Name} {c : Expr String} (ha : a.traverse t.lookup = .ok c)
    (hb : b.traverse t.lookup = .ok c) : a = b := by
  have h := (intern_traverse hwf ha).symm.trans (intern_traverse hwf hb)
  exact Except.ok.inj (congrArg Prod.fst h)

theorem AttrName.intern_traverse {name : AttrName Name} {name' : AttrName String}
    (h : name.traverse t.lookup = .ok name') :
    (name'.traverse Interner.intern) t = (.ok name, t) := by
  obtain ⟨segments, hsegments, h⟩ := exists_of_bind_eq_ok h
  cases h
  rw [traverse, InternM.bind_of_ok (mapM_intern_of_lookup hwf hsegments)]
  rfl

theorem Attr.intern_traverse {a : Attr Name} {a' : Attr String}
    (h : a.traverse t.lookup = .ok a') : (a'.traverse Interner.intern) t = (.ok a, t) := by
  -- the name comes back first, and the state is still `t` when the payload is named
  have hattr : ∀ {span name payload used} {a' : Attr String},
      (∀ p', payload.traverse t.lookup = .ok p' →
        (p'.traverse Interner.intern) t = (.ok payload, t)) →
      Attr.traverse t.lookup ⟨span, name, payload, used⟩ = .ok a' →
      (a'.traverse Interner.intern) t = (.ok ⟨span, name, payload, used⟩, t) := by
    intro span name payload used a' hpayload h
    obtain ⟨name', hname, h⟩ := exists_of_bind_eq_ok h
    obtain ⟨p', hp, h⟩ := exists_of_bind_eq_ok h
    cases h
    rw [traverse, InternM.bind_of_ok (AttrName.intern_traverse hwf hname),
      InternM.bind_of_ok (hpayload p' hp)]
    rfl
  induction a generalizing a' with
  | bare _ name _ =>
    refine hattr (fun p' hp => ?_) h
    cases hp
    rfl
  | value _ name e _ =>
    refine hattr (fun p' hp => ?_) h
    obtain ⟨e', he, hp⟩ := exists_of_bind_eq_ok hp
    cases hp
    rw [Payload.traverse, InternM.bind_of_ok (Expr.intern_traverse hwf he)]
    rfl
  | text _ name n _ =>
    refine hattr (fun p' hp => ?_) h
    obtain ⟨s, hs, hp⟩ := exists_of_bind_eq_ok hp
    cases hp
    rw [Payload.traverse, InternM.bind_of_ok (hwf.intern_of_lookup hs)]
    rfl
  | nested _ name items _ ih =>
    refine hattr (fun p' hp => ?_) h
    obtain ⟨items', hitems, hp⟩ := exists_of_bind_eq_ok hp
    cases hp
    rw [traverseAll_eq_mapM] at hitems
    rw [Payload.traverse, traverseAll_eq_mapM,
      InternM.bind_of_ok (mapM_inverse (fun a ha _ => ih a ha) hitems)]
    rfl

theorem AttrList.intern_traverse {l : AttrList Name} {l' : AttrList String}
    (h : l.traverse t.lookup = .ok l') : (l'.traverse Interner.intern) t = (.ok l, t) := by
  obtain ⟨items, hitems, h⟩ := exists_of_bind_eq_ok h
  cases h
  rw [Attr.traverseAll_eq_mapM] at hitems
  rw [traverse, Attr.traverseAll_eq_mapM,
    InternM.bind_of_ok (mapM_inverse (fun _ _ _ ha => Attr.intern_traverse hwf ha) hitems)]
  rfl

theorem AttrName.eq_of_traverse {name₁ name₂ : AttrName Name} {name' : AttrName String}
    (h₁ : name₁.traverse t.lookup = .ok name') (h₂ : name₂.traverse t.lookup = .ok name') :
    name₁ = name₂ := by
  have h := (intern_traverse hwf h₁).symm.trans (intern_traverse hwf h₂)
  exact Except.ok.inj (congrArg Prod.fst h)

/-- **No two attributes over names have the same texts** in all places. -/
theorem Attr.eq_of_traverse {a b : Attr Name} {c : Attr String} (ha : a.traverse t.lookup = .ok c)
    (hb : b.traverse t.lookup = .ok c) : a = b := by
  have h := (intern_traverse hwf ha).symm.trans (intern_traverse hwf hb)
  exact Except.ok.inj (congrArg Prod.fst h)

/-- Looking a name up is the same as looking its text up among texts. -/
theorem AttrName.is_traverse {name : AttrName Name} {name' : AttrName String} {n : Name}
    {s : String} (hname : name.traverse t.lookup = .ok name') (hn : t.lookup n = .ok s) :
    name.is n = name'.is s := by
  -- being the trivial name `n` is an equation between names, so it is one between their texts
  have htrivial : (trivial n).traverse t.lookup = .ok (trivial s) := by
    simp only [traverse, trivial, List.mapM_cons, List.mapM_nil, hn]
    rfl
  rw [Bool.eq_iff_iff, is_iff, is_iff]
  constructor
  · rintro rfl
    exact Except.ok.inj (hname.symm.trans htrivial)
  · rintro rfl
    exact eq_of_traverse hwf hname htrivial

end Inverse

/-! ### From texts to names and back -/

/-- **What a computation names stays readable:** whenever it gives a result, `back` reads `b` off
this result, in the state that it ends in and in all later ones. -/
def ReadsBack {α β : Type} (x : InternM α) (back : Interner → α → Except Fault β) (b : β) : Prop :=
  ∀ t a t', t.WellFormed → x t = (.ok a, t') →
    t'.WellFormed ∧ t.Later t' ∧ ∀ t'', t'.Later t'' → back t'' a = .ok b

namespace ReadsBack

variable {α β γ α' β' γ' : Type} {x : InternM α} {y : InternM β}
  {f : Interner → α → Except Fault α'} {g : Interner → β → Except Fault β'}
  {back : Interner → γ → Except Fault γ'} {a' : α'} {b' : β'}

theorem intern (s : String) : ReadsBack (Interner.intern s) Interner.lookup s := by
  intro t n t' hwf hn
  have hnaming := Interner.intern_naming hwf hn
  have hlater : t.Later (Interner.intern s t).2 := Interner.Later.refl.intern s
  rw [hn] at hlater
  exact ⟨hnaming.wellFormed hwf, hlater, fun t'' h => h.lookup hnaming.lookup_self⟩

theorem pure {a : α} (h : ∀ t, f t a = .ok a') : ReadsBack (pure a) f a' := by
  intro t _ t' hwf ha
  cases ha
  exact ⟨hwf, .refl, fun t'' _ => h t''⟩

theorem map (k : α → γ) (k' : α' → γ') (hback : ∀ t a, back t (k a) = do return k' (← f t a))
    (hx : ReadsBack x f a') : ReadsBack (do return k (← x)) back (k' a') := by
  intro t c t₁ hwf hc
  obtain ⟨a, t₁, ha, hc⟩ := InternM.exists_of_bind_eq_ok hc
  cases hc
  obtain ⟨hwf₁, hlater, hread⟩ := hx t a t₁ hwf ha
  refine ⟨hwf₁, hlater, ?_⟩
  intro t'' h
  rw [hback, hread t'' h]
  rfl

/-- **One computation after the other.** The results are read in the same order, and the first
one is still readable where the second one ends. -/
theorem seq (k : α → β → γ) (k' : α' → β' → γ')
    (hback : ∀ t a b, back t (k a b) = do return k' (← f t a) (← g t b))
    (hx : ReadsBack x f a') (hy : ReadsBack y g b') :
    ReadsBack (do let a ← x; let b ← y; return k a b) back (k' a' b') := by
  intro t c t₂ hwf hc
  obtain ⟨a, t₁, ha, hc⟩ := InternM.exists_of_bind_eq_ok hc
  obtain ⟨b, t₂, hb, hc⟩ := InternM.exists_of_bind_eq_ok hc
  cases hc
  obtain ⟨hwf₁, hlater₁, hreada⟩ := hx t a t₁ hwf ha
  obtain ⟨hwf₂, hlater₂, hreadb⟩ := hy t₁ b t₂ hwf₁ hb
  refine ⟨hwf₂, hlater₁.trans hlater₂, ?_⟩
  intro t'' h
  -- a state later than the second one is later than the first one, too
  rw [hback, hreada t'' (hlater₂.trans h), hreadb t'' h]
  rfl

theorem mapM {f : α' → InternM α} {back : Interner → α → Except Fault α'} {as : List α'}
    (h : ∀ a ∈ as, ReadsBack (f a) back a) :
    ReadsBack (as.mapM f) (fun t names => names.mapM (back t)) as := by
  induction as with
  | nil => exact pure fun _ => rfl
  | cons a as ih =>
    rw [List.mapM_cons]
    exact seq List.cons List.cons (fun _ _ _ => List.mapM_cons) (h a List.mem_cons_self)
      (ih fun b hb => h b (List.mem_cons_of_mem a hb))

end ReadsBack

theorem Literal.lookup_traverse (l : Literal String) :
    ReadsBack (l.traverse Interner.intern) (fun t l => l.traverse t.lookup) l := by
  cases l with
  | str s => exact .map str str (fun _ _ => rfl) (.intern s)
  | _ => exact .pure fun _ => rfl

theorem Expr.lookup_traverse (e : Expr String) :
    ReadsBack (e.traverse Interner.intern) (fun t e => e.traverse t.lookup) e := by
  induction e with
  | literal l span =>
    exact .map (literal · span) (literal · span) (fun _ _ => rfl) l.lookup_traverse
  | path p span =>
    exact .map (path · span) (path · span) (fun _ _ => rfl) (.mapM fun s _ => .intern s)
  | call p args span ih =>
    rw [traverse, traverseAll_eq_mapM]
    refine .seq (call · · span) (call · · span) (fun t p args => ?_) (.mapM fun s _ => .intern s)
      (.mapM ih)
    rw [traverse, traverseAll_eq_mapM]
  | unary op e span ih => exact .map (unary op · span) (unary op · span) (fun _ _ => rfl) ih
  | binary op l r span ihl ihr =>
    exact .seq (binary op · · span) (binary op · · span) (fun _ _ _ => rfl) ihl ihr
  | paren e span ih => exact .map (paren · span) (paren · span) (fun _ _ => rfl) ih

theorem AttrName.lookup_traverse (name : AttrName String) :
    ReadsBack (name.traverse Interner.intern) (fun t name => name.traverse t.lookup) name :=
  .map mk mk (fun _ _ => rfl) (.mapM fun s _ => .intern s)

theorem Attr.lookup_traverse (a : Attr String) :
    ReadsBack (a.traverse Interner.intern) (fun t a => a.traverse t.lookup) a := by
  -- what is left to show for each payload is that the payload can be read
  have hattr : ∀ {span name payload used}, ReadsBack (Payload.traverse Interner.intern payload)
      (fun t p => p.traverse t.lookup) payload →
      ReadsBack (Attr.traverse Interner.intern ⟨span, name, payload, used⟩)
        (fun t a => a.traverse t.lookup) ⟨span, name, payload, used⟩ := by
    intro span name payload used hpayload
    rw [traverse]
    exact .seq (mk span · · used) (mk span · · used) (fun _ _ _ => rfl) name.lookup_traverse
      hpayload
  induction a with
  | bare _ name _ => exact hattr (.pure fun _ => rfl)
  | value _ name e _ =>
    exact hattr (.map Payload.value Payload.value (fun _ _ => rfl) e.lookup_traverse)
  | text _ name s _ =>
    exact hattr (.map Payload.text Payload.text (fun _ _ => rfl) (.intern s))
  | nested _ name items _ ih =>
    refine hattr ?_
    rw [Payload.traverse, traverseAll_eq_mapM]
    refine .map Payload.nested Payload.nested (fun t items => ?_) (.mapM ih)
    rw [Payload.traverse, traverseAll_eq_mapM]

/-- **Naming all texts of a list** gives a list of names that stand for them, then and later. -/
theorem AttrList.lookup_traverse (l : AttrList String) :
    ReadsBack (l.traverse Interner.intern) (fun t l => l.traverse t.lookup) l := by
  rw [traverse, Attr.traverseAll_eq_mapM]
  refine .map mk mk (fun t l => ?_) (.mapM fun a _ => Attr.lookup_traverse a)
  rw [traverse, Attr.traverseAll_eq_mapM]

/-- **The texts of a list stay the same** in later states. -/
theorem AttrList.traverse_later {l : AttrList Name} {l' : AttrList String} (hwf : t.WellFormed)
    (h : l.traverse t.lookup = .ok l') (hlater : t.Later t') : l.traverse t'.lookup = .ok l' := by
  obtain ⟨-, -, hread⟩ := l'.lookup_traverse t l t hwf (intern_traverse hwf h)
  exact hread t' hlater

end ItemAttrs
