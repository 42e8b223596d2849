import ItemAttrs.Proofs.Attr.Naming
import ItemAttrs.Proofs.Attr.Strip
import ItemAttrs.Proofs.Expr.Operand

/-!
# What a written expression says

An expression whose grouping is written out can be read back. The same symbols have several uses,
`!` even three, but not in the same place: in front of an operand a sign is an operator, behind a
path it opens arguments, and between two operands an operator ends at the next space.

* `readsAsOperand_of_opens`: the opening of an operand is read first, and then what is behind it,
  which is another matter for each form of operand (`readsAsOperand_call` and its kin);
* `readsAsPart_of_operand`, `readsAsPart_of_binary`: arguments and expressions in parentheses are
  operands, or two of them with an operator between;
* `Grouped.reads` is the induction over the tree;
* `render_determines` is the result for expressions over names.
-/

namespace ItemAttrs

/-- No two operators have the same symbol. -/
theorem BinaryOp.symbol_injective {op op' : BinaryOp} (h : op.symbol = op'.symbol) : op = op' := by
  have hfind : ∀ op : BinaryOp, (all.find? fun o => o.symbol == op.symbol) = some op := by
    intro op
    cases op <;> decide
  exact Option.some.inj ((hfind op).symm.trans (h ▸ hfind op'))

/-- **A symbol ends at the next space,** and so it is known which of the operators it is. -/
theorem BinaryOp.tells_symbol (op op' : BinaryOp) :
    Tells (Follows [' ']) op.symbol.toList op'.symbol.toList (op = op') := by
  have hspace : ∀ op : BinaryOp, ∀ c ∈ op.symbol.toList, c ≠ ' ' := by
    intro op c hc
    have hnone : ' ' ∉ op.symbol.toList := by
      cases op <;> decide
    exact fun heq => hnone (heq ▸ hc)
  intro r r' hr hr' heq
  obtain ⟨hsymbol, hrest⟩ := eq_of_stretch (hspace op) (hspace op') (hr.stops (by decide))
    (hr'.stops (by decide)) heq
  exact ⟨symbol_injective (String.toList_inj.mp hsymbol), hrest⟩

namespace Expr

section Operands

open Opening (ends)

variable {hidden : Char → Bool} {a b : Expr String} {o : Opening} {tail tail' r : List Char}

/-! ### Operands and parts -/

/-- **The operand can be read off** where an operand is expected. -/
def ReadsAsOperand (hidden : Char → Bool) (a : Expr String) : Prop :=
  ∀ b : Expr String, b.Grouped → b.isBinary = false →
    Tells (Follows ends) (a.write hidden) (b.write hidden) (a.strip = b.strip)

/-- **The expression can be read off** where it is followed by a comma or a closing parenthesis,
as arguments and expressions in parentheses are. -/
def ReadsAsPart (hidden : Char → Bool) (a : Expr String) : Prop :=
  ∀ b : Expr String, b.Grouped →
    Tells (Ends ')') (a.write hidden) (b.write hidden) (a.strip = b.strip)

/-- The opening of an operand is read first, and then what is behind the same opening. -/
theorem readsAsOperand_of_opens (ha : Opens hidden a o tail) (ho : o.Plain)
    (htail : ∀ (b : Expr String) tail', b.Grouped → Opens hidden b o tail' →
      Tells (Follows ends) tail tail' (a.strip = b.strip)) : ReadsAsOperand hidden a := by
  intro b hb hop r r' hr hr' heq
  obtain ⟨o', tail', hopens, ho'⟩ := hb.exists_opens hop hidden
  rw [ha.write_eq, hopens.write_eq, List.append_assoc, List.append_assoc] at heq
  obtain ⟨rfl, hrest⟩ := Opening.eq_of_write ho ho' (ha.follows hr) (hopens.follows hr') heq
  exact htail b tail' hb hopens r r' hr hr' hrest

theorem ends_of_part (h : Ends ')' r) : Follows ends r := follows_of_ends h (by decide)

/-- A space comes behind the left operand of an operator, but not behind the whole expression. -/
theorem ne_space_of_part (h : Ends ')' r) (rest : List Char) : r ≠ ' ' :: rest := by
  have hnext : Follows [',', ')'] r := follows_of_ends h (by decide)
  exact hnext.ne_cons (by decide) rest

theorem follows_space (rest : List Char) : Follows ends (' ' :: rest) :=
  follows_cons (by decide) rest

theorem readsAsPart_of_operand (ha : ReadsAsOperand hidden a) : ReadsAsPart hidden a := by
  intro b hb r r' hr hr' heq
  rcases hb.isBinary_or with hop | ⟨op, l, e, span, rfl, hl, -, hlop, -⟩
  · exact ha b hb hop r r' (ends_of_part hr) (ends_of_part hr') heq
  · -- the left operand of the other expression would end where this one does
    simp only [write, List.append_assoc] at heq
    obtain ⟨-, hrest⟩ := ha l hl hlop r _ (ends_of_part hr) (follows_space _) heq
    exact absurd hrest (ne_space_of_part hr _)

theorem readsAsPart_of_binary {op : BinaryOp} {l e : Expr String} {span : Span}
    (hl : ReadsAsOperand hidden l) (he : ReadsAsOperand hidden e) :
    ReadsAsPart hidden (.binary op l e span) := by
  intro b hb r r' hr hr' heq
  rcases hb.isBinary_or with hop | ⟨op', l', e', span', rfl, hl', he', hlop', heop'⟩
  · simp only [write, List.append_assoc] at heq
    obtain ⟨-, hrest⟩ := hl b hb hop _ r' (follows_space _) (ends_of_part hr') heq
    exact absurd hrest.symm (ne_space_of_part hr' _)
  · -- the left operands, the symbols between two spaces, and the right operands
    simp only [write, List.append_assoc] at heq
    obtain ⟨hstrip, hsymbol⟩ := hl l' hl' hlop' _ _ (follows_space _) (follows_space _) heq
    obtain ⟨rfl, hright⟩ := BinaryOp.tells_symbol op op' _ _ (follows_cons (by decide) _)
      (follows_cons (by decide) _) (List.cons.inj hsymbol).2
    obtain ⟨hstrip', hrest⟩ := he e' he' heop' r r' (ends_of_part hr) (ends_of_part hr')
      (List.cons.inj hright).2
    refine ⟨?_, hrest⟩
    rw [strip, strip, hstrip, hstrip']

/-! ### One node -/

theorem readsAsOperand_literal {l : Literal String} {span : Span}
    (hl : Grouped (.literal l span)) : ReadsAsOperand hidden (.literal l span) := by
  obtain ⟨o, tail, hopens, ho⟩ := hl.exists_opens rfl hidden
  refine readsAsOperand_of_opens hopens ho ?_
  intro b tail' hb hopens'
  cases hopens with
  | int =>
    cases hopens'
    exact .same [] rfl
  | @bool x _ _ hp =>
    -- a truth value begins like a path, but no path of a grouped expression looks like one
    cases hopens' with
    | @bool y _ _ hp' =>
      rw [boolWord_injective (List.singleton_inj.mp (hp.symm.trans hp'))]
      exact .same [] rfl
    | path => exact absurd hp (hb.path_ne x)
  | char =>
    cases hopens'
    exact .same [] rfl
  | str =>
    cases hopens'
    exact .same [] rfl

theorem readsAsOperand_path {p : List String} {span : Span} (hp : Grouped (.path p span)) :
    ReadsAsOperand hidden (.path p span) := by
  have hplain : Path.Plain p := by
    cases hp with
    | path hplain _ _ => exact hplain
  refine readsAsOperand_of_opens .path hplain ?_
  intro b tail' hb hopens
  cases hopens with
  | @bool x _ _ hx => exact absurd hx (hp.path_ne x)
  | path => exact .same [] rfl

/-- Behind the opening of a macro call, its arguments are read up to the closing parenthesis. -/
theorem readsAsOperand_call {p : List String} {args : List (Expr String)} {span : Span}
    (hp : Path.Plain p) (hargs : ∀ e ∈ args, e.Grouped)
    (hreads : ∀ e ∈ args, ReadsAsPart hidden e) : ReadsAsOperand hidden (.call p args span) := by
  refine readsAsOperand_of_opens .call hp ?_
  intro b tail' hb hopens
  cases hopens with
  | @call _ args' _ =>
    have hargs' : ∀ e ∈ args', e.Grouped := by
      cases hb with
      | call _ hargs' => exact hargs'
    -- an argument ends at a comma or at the closing parenthesis, and begins like neither
    refine (tells_separated (by decide) (fun e he e' he' => hreads e he e' (hargs' e' he'))
      (fun e he => (hargs e he).write_ne) (fun e he => (hargs' e he).write_ne)).mono ?_
    intro hstrips
    rw [strip, strip, stripAll_eq_map, stripAll_eq_map, hstrips]

theorem readsAsOperand_unary {op : UnaryOp} {e : Expr String} {span : Span}
    (he : ReadsAsOperand hidden e) : ReadsAsOperand hidden (.unary op e span) := by
  refine readsAsOperand_of_opens .unary trivial ?_
  intro b tail' hb hopens
  cases hopens with
  | @unary _ e' _ =>
    cases hb with
    | unary he' hop' =>
      refine (he e' he' hop').mono ?_
      intro hstrip
      rw [strip, strip, hstrip]

theorem readsAsOperand_paren {e : Expr String} {span : Span} (he : ReadsAsPart hidden e) :
    ReadsAsOperand hidden (.paren e span) := by
  refine readsAsOperand_of_opens .paren trivial ?_
  intro b tail' hb hopens
  cases hopens with
  | @paren e' _ =>
    cases hb with
    | paren he' =>
      refine ((he e' he').close [')'] fun r => ⟨')', r, rfl, .inr rfl⟩).mono ?_
      intro hstrip
      rw [strip, strip, hstrip]

/-! ### The whole tree -/

/-- **Every expression with its grouping written out can be read off.** -/
theorem Grouped.reads (ha : a.Grouped) :
    (a.isBinary = false → ReadsAsOperand hidden a) ∧ ReadsAsPart hidden a := by
  have hboth : ∀ {e : Expr String}, ReadsAsOperand hidden e →
      (e.isBinary = false → ReadsAsOperand hidden e) ∧ ReadsAsPart hidden e := by
    intro e he
    exact ⟨fun _ => he, readsAsPart_of_operand he⟩
  -- both claims go through the tree together: an operator between two operands is a part only,
  -- and needs its operands as operands; parentheses turn a part into an operand again
  induction ha with
  | literal hfloat => exact hboth (readsAsOperand_literal (.literal hfloat))
  | path hp htrue hfalse => exact hboth (readsAsOperand_path (.path hp htrue hfalse))
  | call hp hargs ih => exact hboth (readsAsOperand_call hp hargs fun e he => (ih e he).2)
  | unary _ hop ih => exact hboth (readsAsOperand_unary (ih.1 hop))
  | binary _ _ hlop hrop ihl ihr =>
    refine ⟨?_, readsAsPart_of_binary (ihl.1 hlop) (ihr.1 hrop)⟩
    intro hop
    exact nomatch hop
  | paren _ ih => exact hboth (readsAsOperand_paren ih.2)

theorem Grouped.strip_eq_of_write (ha : a.Grouped) (hb : b.Grouped)
    (h : a.write hidden = b.write hidden) : a.strip = b.strip := by
  have hend : Ends ')' [')'] := ⟨')', [], rfl, .inr rfl⟩
  exact (ha.reads.2 b hb _ _ hend hend (congrArg (· ++ [')']) h)).1

end Operands

/-! ### Over names -/

section Names

variable {t : Interner} {a b : Expr Name} {a' b' : Expr String}

/-- Expressions over names say the same if their texts do. -/
theorem strip_eq_of_traverse (hwf : t.WellFormed) (ha : a.traverse t.lookup = .ok a')
    (hb : b.traverse t.lookup = .ok b') (h : a'.strip = b'.strip) : a.strip = b.strip := by
  have ha' : a.strip.traverse t.lookup = .ok a'.strip := by
    rw [strip_traverse, ha]
    rfl
  have hb' : b.strip.traverse t.lookup = .ok b'.strip := by
    rw [strip_traverse, hb]
    rfl
  exact eq_of_traverse hwf ha' (h ▸ hb')

theorem write_eq_of_strip (hidden : Char → Bool) (ha : a.traverse t.lookup = .ok a')
    (hb : b.traverse t.lookup = .ok b') (h : a.strip = b.strip) :
    a'.write hidden = b'.write hidden := by
  -- both are written piece by piece, and the pieces do not depend on what is stripped
  have hpieces : a.pieces hidden = b.pieces hidden := by
    rw [← a.pieces_strip, h, pieces_strip]
  have hwrite := a.write_traverse hidden t.lookup
  rw [hpieces, write_traverse, ha, hb] at hwrite
  exact (Except.ok.inj hwrite).symm

/-- **Rendering determines the tree** where the grouping is written out. Two such expressions over
the names of one interner have the same written form exactly if they agree in everything but
spans: in every node, operator, literal, name and list of arguments. This does not depend on which
characters of a text are hidden. -/
theorem render_determines (ht : t.Reachable) (ha : a.traverse t.lookup = .ok a')
    (hb : b.traverse t.lookup = .ok b') (hga : a'.Grouped) (hgb : b'.Grouped) :
    (∀ hidden, a'.write hidden = b'.write hidden ↔ a.strip = b.strip) ∧
      (a.render t = b.render t ↔ a.strip = b.strip) := by
  have hwrite : ∀ hidden, a'.write hidden = b'.write hidden ↔ a.strip = b.strip := by
    intro hidden
    constructor
    · intro h
      exact strip_eq_of_traverse ht.wellFormed ha hb (hga.strip_eq_of_write hgb h)
    · exact write_eq_of_strip hidden ha hb
  have hrender : ∀ {e : Expr Name} {e' : Expr String}, e.traverse t.lookup = .ok e' →
      e.render t = .ok (String.ofList (e'.write Text.isInvisible)) := by
    intro e e' he
    rw [render, he]
    rfl
  refine ⟨hwrite, ?_⟩
  rw [hrender ha, hrender hb, ← hwrite Text.isInvisible, Except.ok.injEq, String.ofList_inj]

/-- `!cfg!(…)` with a text full of delimiters, twice with different spans, and the same operands the
other way around. -/
theorem render_determines_operands :
    let t := (Interner.intern "\"), -1" .initial).2
    let text : Expr Name := .literal (.str ⟨4026531841⟩) ⟨10, 18⟩
    let mark : Expr Name := .literal (.char '\'') ⟨22, 26⟩
    let whole (l r : Expr Name) (s : Span) : Expr Name :=
      .unary .not (.call [⟨1073741824⟩]
        [.unary .neg (.literal (.int 1) s) s, .paren (.binary .ne l r s) s] s) s
    t.Reachable ∧ (whole text mark ⟨0, 27⟩).render t = .ok "!cfg!(-1, (\"\\\"), -1\" != '\\''))" ∧
      (whole text mark ⟨0, 27⟩).render t = (whole text mark ⟨9, 2⟩).render t ∧
      (whole text mark ⟨0, 27⟩).render t ≠ (whole mark text ⟨0, 27⟩).render t := by
  intro t text mark whole
  have hname : Interner.intern "\"), -1" .initial = (.ok ⟨4026531841⟩, t) :=
    InternM.eq_of_answer (by decide +kernel)
  have ht : t.Reachable := ⟨_, Interner.History.initial.intern hname⟩
  have hcfg : Path.Plain ["cfg"] := ⟨by decide, by decide +kernel⟩
  let text' : Expr String := .literal (.str "\"), -1") ⟨10, 18⟩
  let mark' : Expr String := .literal (.char '\'') ⟨22, 26⟩
  let whole' (l r : Expr String) (s : Span) : Expr String :=
    .unary .not (.call ["cfg"]
      [.unary .neg (.literal (.int 1) s) s, .paren (.binary .ne l r s) s] s) s
  have htext : text'.Grouped := .literal (by simp)
  have hmark : mark'.Grouped := .literal (by simp)
  have hwhole : ∀ {l r : Expr String} (s : Span), l.Grouped → r.Grouped → l.isBinary = false →
      r.isBinary = false → (whole' l r s).Grouped := by
    intro l r s hl hr hlop hrop
    refine .unary (.call hcfg (List.forall_mem_cons.mpr ⟨?_, List.forall_mem_singleton.mpr ?_⟩)) rfl
    · exact .unary (.literal (by simp)) rfl
    · exact .paren (.binary hl hr hlop hrop)
  have ha : (whole text mark ⟨0, 27⟩).traverse t.lookup = .ok (whole' text' mark' ⟨0, 27⟩) := by
    decide +kernel
  have hb : (whole text mark ⟨9, 2⟩).traverse t.lookup = .ok (whole' text' mark' ⟨9, 2⟩) := by
    decide +kernel
  have hc : (whole mark text ⟨0, 27⟩).traverse t.lookup = .ok (whole' mark' text' ⟨0, 27⟩) := by
    decide +kernel
  obtain ⟨-, hab⟩ := render_determines ht ha hb (hwhole _ htext hmark rfl rfl)
    (hwhole _ htext hmark rfl rfl)
  obtain ⟨-, hac⟩ := render_determines ht ha hc (hwhole _ htext hmark rfl rfl)
    (hwhole _ hmark htext rfl rfl)
  exact ⟨ht, by decide +kernel, hab.mpr (by decide +kernel), hac.not.mpr (by decide +kernel)⟩

/-- Without parentheses the same text may mean two trees. -/
example (hidden : Char → Bool) (s : Span) :
    let n (k : UInt64) : Expr String := .literal (.int k) s
    (binary .sub (binary .sub (n 1) (n 2) s) (n 3) s).write hidden =
      (binary .sub (n 1) (binary .sub (n 2) (n 3) s) s).write hidden := by
  rfl

end Names

end Expr

end ItemAttrs
