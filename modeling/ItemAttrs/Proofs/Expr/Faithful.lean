import ItemAttrs.Proofs.Dump.Layout
import ItemAttrs.Proofs.Expr.Tree
import ItemAttrs.Proofs.Name.Packing

/-!
# What the dump of an expression tells

Dumps of expressions are told apart by everything that there is to an expression. Spans and names
are numbers between fixed texts, and a name is told by its shard and its slot. The heads of nodes
tell the nodes apart (`alike_of_heading`), and behind the same head the parts of the node are told
one by one, with the span at the end. The induction is `Expr.tell_dump`.
-/

namespace ItemAttrs

open Dump (IsWord Headed)

/-! ### Numbers, spans and names -/

theorem Span.tells_toText_of_ends (s s' : Span) :
    Tells (Follows Dump.ends) s.toText.toList s'.toText.toList (s = s') :=
  (s.tells_toText s').restrict fun r hr => hr.stops (by decide)

theorem Span.tell_dump (s s' : Span) : s.dump.Tell s'.dump (s = s') := s.tells_toText_of_ends s'

theorem Name.toList_dumpText (n : Name) : n.dumpText.toList = "Name(shard=".toList ++
    (Nat.toDigits 10 n.shard.val ++ (", local=".toList ++ Nat.toDigits 10 n.slot) ++ [')']) := by
  show (("Name(shard=" ++ toString _) ++ ", local=" ++ toString _ ++ ")").toList = _
  rw [String.toList_append, String.toList_append, String.toList_append, String.toList_append,
    toList_toString, toList_toString]
  simp only [List.append_assoc]
  rfl

/-- **Names are told by shard and slot.** -/
theorem Name.tell_dump (n n' : Name) : n.dump.Tell n'.dump (n = n') := by
  unfold Dump.Tell
  show Tells _ n.dumpText.toList n'.dumpText.toList _
  have hcomma : ∀ r, Stops (·.isDigit = true) (", local=".toList ++ r) := by
    intro r
    exact stops_cons (c := ',') (by decide) _
  have hnumbers := tells_numbers n.shard.val n.slot n'.shard.val n'.slot hcomma
  rw [toList_dumpText, toList_dumpText]
  refine .prepend _ ((hnumbers.close [')'] ?_).mono ?_)
  · intro r
    exact stops_cons (by decide) _
  · rintro ⟨hshard, hslot⟩
    exact eq_of_parts (Fin.ext hshard) hslot

theorem Name.headed_dump (n : Name) : Headed "Name" n.dump := by
  refine ⟨by decide +kernel, _, n.toList_dumpText, .inr ?_⟩
  exact follows_cons (c := '(') (by decide) _

theorem Name.tell_dumpAll (names names' : List Name) :
    (dumpAll names).Tell (dumpAll names') (names = names') :=
  Dump.tell_list headed_dump fun n _ n' _ => n.tell_dump n'

/-! ### Literals -/

theorem tell_number (m n : UInt64) :
    (Dump.word (toString m.toNat)).Tell (.word (toString n.toNat)) (m = n) := by
  unfold Dump.Tell
  show Tells _ (toString m.toNat).toList (toString n.toNat).toList _
  rw [toList_toString, toList_toString]
  have hdigits := tells_toDigits m.toNat n.toNat
  exact (hdigits.restrict fun r hr => hr.stops (by decide)).mono UInt64.toNat_inj.mp

theorem tell_bool (b b' : Bool) : (Dump.bool b).Tell (.bool b') (b = b') := by
  have hword : ∀ b : Bool, IsWord (if b then "true" else "false") := by decide +kernel
  refine (Dump.tell_word (hword b) (hword b')).mono ?_
  revert b b'
  decide

theorem tell_char (c c' : Char) :
    (Dump.word (Text.quoteChar c)).Tell (.word (Text.quoteChar c')) (c = c') := by
  unfold Dump.Tell
  show Tells _ (Text.quoteChar c).toList (Text.quoteChar c').toList _
  rw [Text.quoteChar, Text.quoteChar, String.toList_ofList, String.toList_ofList]
  intro r r' _ _ heq
  obtain ⟨hchar, hrest⟩ := Text.Quoting.eq_of_quote (Text.Quoting.marks _).2 heq
  exact ⟨List.singleton_inj.mp hchar, hrest⟩

/-- The head of the dump of a literal. -/
def Literal.heading : Literal Name → String
  | .int _ => "Int"
  | .float _ => "Float"
  | .bool _ => "Bool"
  | .char _ => "Char"
  | .str _ => "Str"

theorem Literal.headed_dump (l : Literal Name) : Headed l.heading l.dump := by
  have hword : ∀ head ∈ ["Int", "Float", "Bool", "Char", "Str"], IsWord head := by decide +kernel
  cases l <;> exact Dump.headed_tuple (hword _ (by simp [heading])) _

theorem Literal.tell_dump (l l' : Literal Name) : l.dump.Tell l'.dump (l = l') := by
  -- every literal is dumped as one part in parentheses
  have hsole : ∀ {head : String} {d d' : Dump} {P Q : Prop}, d.Tell d' P → (P → Q) →
      (Dump.tuple head [d]).Tell (.tuple head [d']) Q := by
    intro head d d' P Q h hPQ
    refine (Dump.tell_group _ _ (.cons h .nil)).mono ?_
    rintro ⟨hP, -⟩
    exact hPQ hP
  refine Dump.tell_of_heads l.headed_dump l'.headed_dump ?_
  intro h
  -- from here on the heads are equal, so the literals are of one kind
  cases l with
  | int n =>
    cases l' with
    | int n' => exact hsole (tell_number n n') (congrArg int)
    | _ => exact absurd h (by simp [heading])
  | float bits =>
    cases l' with
    | float bits' => exact hsole (tell_number bits bits') (congrArg float)
    | _ => exact absurd h (by simp [heading])
  | bool b =>
    cases l' with
    | bool b' => exact hsole (tell_bool b b') (congrArg bool)
    | _ => exact absurd h (by simp [heading])
  | char c =>
    cases l' with
    | char c' => exact hsole (tell_char c c') (congrArg char)
    | _ => exact absurd h (by simp [heading])
  | str n =>
    cases l' with
    | str n' => exact hsole (n.tell_dump n') (congrArg str)
    | _ => exact absurd h (by simp [heading])

/-! ### Expressions -/

namespace Expr

variable {a b : Expr Name} {node node' : Dump} {P : Prop}

@[simp] theorem dumpAll_eq_map (es : List (Expr Name)) : dumpAll es = es.map dump := by
  induction es with
  | nil => rfl
  | cons e es ih => rw [dumpAll, ih, List.map_cons, dump]

/-- **The span behind a node** is told, too. A node ends at the space in front of the sign between
the two. -/
theorem tell_atSpan (s s' : Span) (h : node.Tell node' P) :
    (atSpan node s).Tell (atSpan node' s') (P ∧ s = s') := by
  unfold Dump.Tell
  show Tells _ (node.write ++ [' ', '@', ' '] ++ s.toText.toList)
    (node'.write ++ [' ', '@', ' '] ++ s'.toText.toList) _
  rw [List.append_assoc, List.append_assoc]
  have hspace : ∀ w r, Follows Dump.ends ([' ', '@', ' '] ++ w ++ r) := by
    intro w r
    exact follows_cons (c := ' ') (by decide) _
  exact Tells.append h (fun _ => (s.tells_toText_of_ends s').prepend _) (fun r _ => hspace _ r)
    (fun r _ => hspace _ r)

theorem headed_atSpan {head : String} (h : Headed head node) (s : Span) :
    Headed head (atSpan node s) := by
  obtain ⟨rest, hw, hrest⟩ := h.form
  refine ⟨h.word, rest ++ ([' ', '@', ' '] ++ s.toText.toList), ?_, .inr ?_⟩
  · show node.write ++ [' ', '@', ' '] ++ s.toText.toList = _
    rw [hw, List.append_assoc, List.append_assoc]
  · rcases hrest with rfl | ⟨c, rest', rfl, hc⟩
    · exact follows_cons (c := ' ') (by decide) _
    · exact follows_cons hc _

/-- The head of the dump of an expression. -/
def heading : Expr Name → String
  | .literal l _ => l.heading
  | .path .. => "Path"
  | .call .. => "MacroCall"
  | .unary .. => "Unary"
  | .binary .. => "Binary"
  | .paren .. => "Paren"

theorem headed_dump (a : Expr Name) : Headed a.heading a.dump := by
  have hword : ∀ head ∈ ["Path", "MacroCall", "Unary", "Binary", "Paren"], IsWord head := by
    decide +kernel
  refine headed_atSpan ?_ a.span
  cases a with
  | literal l _ => exact l.headed_dump
  | path | paren => exact Dump.headed_tuple (hword _ (by simp [heading])) _
  | call | unary | binary => exact Dump.headed_record (hword _ (by simp [heading])) _

/-- **The two expressions are nodes of the same form.** -/
inductive Alike : Expr Name → Expr Name → Prop where
  | literal {l l' : Literal Name} {s s' : Span} : Alike (.literal l s) (.literal l' s')
  | path {p p' : List Name} {s s' : Span} : Alike (.path p s) (.path p' s')
  | call {p p' : List Name} {args args' : List (Expr Name)} {s s' : Span} :
      Alike (.call p args s) (.call p' args' s')
  | unary {op op' : UnaryOp} {e e' : Expr Name} {s s' : Span} :
      Alike (.unary op e s) (.unary op' e' s')
  | binary {op op' : BinaryOp} {l l' r r' : Expr Name} {s s' : Span} :
      Alike (.binary op l r s) (.binary op' l' r' s')
  | paren {e e' : Expr Name} {s s' : Span} : Alike (.paren e s) (.paren e' s')

/-- Nodes of different forms have different heads. -/
theorem alike_of_heading (h : a.heading = b.heading) : Alike a b := by
  -- the head of a literal depends on the literal, but it is the head of no other node
  have hliteral : ∀ (l : Literal Name) (head : String), l.heading = head →
      head ∉ ["Path", "MacroCall", "Unary", "Binary", "Paren"] := by
    rintro l _ rfl
    cases l <;> simp [Literal.heading]
  cases a with
  | literal l _ =>
    cases b with
    | literal => exact .literal
    | _ => exact absurd (by simp [heading]) (hliteral l _ h)
  | path =>
    cases b with
    | path => exact .path
    | literal l _ => exact absurd (by simp [heading]) (hliteral l _ h.symm)
    | _ => exact absurd h (by simp [heading])
  | call =>
    cases b with
    | call => exact .call
    | literal l _ => exact absurd (by simp [heading]) (hliteral l _ h.symm)
    | _ => exact absurd h (by simp [heading])
  | unary =>
    cases b with
    | unary => exact .unary
    | literal l _ => exact absurd (by simp [heading]) (hliteral l _ h.symm)
    | _ => exact absurd h (by simp [heading])
  | binary =>
    cases b with
    | binary => exact .binary
    | literal l _ => exact absurd (by simp [heading]) (hliteral l _ h.symm)
    | _ => exact absurd h (by simp [heading])
  | paren =>
    cases b with
    | paren => exact .paren
    | literal l _ => exact absurd (by simp [heading]) (hliteral l _ h.symm)
    | _ => exact absurd h (by simp [heading])

/-- Only nodes of the same form have to be compared. -/
theorem tell_of_alike (h : Alike a b → a.dump.Tell b.dump P) : a.dump.Tell b.dump P :=
  Dump.tell_of_heads a.headed_dump b.headed_dump fun hheading => h (alike_of_heading hheading)

theorem tell_unaryOp (op op' : UnaryOp) :
    (Dump.word op.label).Tell (.word op'.label) (op = op') := by
  have hword : ∀ op : UnaryOp, IsWord op.label := by
    intro op
    cases op <;> decide +kernel
  refine (Dump.tell_word (hword op) (hword op')).mono ?_
  intro h
  exact Option.some.inj (by rw [← UnaryOp.ofLabel?_label op, h, UnaryOp.ofLabel?_label])

theorem tell_binaryOp (op op' : BinaryOp) :
    (Dump.word op.label).Tell (.word op'.label) (op = op') := by
  have hword : ∀ op : BinaryOp, IsWord op.label := by
    intro op
    cases op <;> decide +kernel
  refine (Dump.tell_word (hword op) (hword op')).mono ?_
  intro h
  exact Option.some.inj (by rw [← BinaryOp.ofLabel?_label op, h, BinaryOp.ofLabel?_label])

/-- **The dump of an expression tells the expression,** with all its spans. -/
theorem tell_dump (a b : Expr Name) : a.dump.Tell b.dump (a = b) := by
  -- the other expression has a node of the same form, and its parts are compared in order
  induction a generalizing b with
  | literal l s =>
    refine tell_of_alike fun h => ?_
    cases h with
    | @literal _ l' _ s' =>
      refine (tell_atSpan s s' (l.tell_dump l')).mono ?_
      rintro ⟨rfl, rfl⟩
      rfl
  | path p s =>
    refine tell_of_alike fun h => ?_
    cases h with
    | @path _ p' _ s' =>
      have hnode := Dump.tell_group .parentheses "Path" (.cons (Name.tell_dumpAll p p') .nil)
      refine (tell_atSpan s s' hnode).mono ?_
      rintro ⟨⟨rfl, -⟩, rfl⟩
      rfl
  | call p args s ih =>
    refine tell_of_alike fun h => ?_
    cases h with
    | @call _ p' _ args' _ s' =>
      have hargs : (Dump.list (dumpAll args)).Tell (.list (dumpAll args')) (args = args') := by
        rw [dumpAll_eq_map, dumpAll_eq_map]
        exact Dump.tell_list headed_dump fun e he e' _ => ih e he e'
      have hnode := Dump.tell_group .braces "MacroCall"
        (.cons (Dump.tell_field "path" (Name.tell_dumpAll p p'))
          (.cons (Dump.tell_field "args" hargs) .nil))
      refine (tell_atSpan s s' hnode).mono ?_
      rintro ⟨⟨rfl, rfl, -⟩, rfl⟩
      rfl
  | unary op e s ih =>
    refine tell_of_alike fun h => ?_
    cases h with
    | @unary _ op' _ e' _ s' =>
      have hnode := Dump.tell_group .braces "Unary"
        (.cons (Dump.tell_field "op" (tell_unaryOp op op'))
          (.cons (Dump.tell_field "operand" (ih e')) .nil))
      refine (tell_atSpan s s' hnode).mono ?_
      rintro ⟨⟨rfl, rfl, -⟩, rfl⟩
      rfl
  | binary op l r s ihl ihr =>
    refine tell_of_alike fun h => ?_
    cases h with
    | @binary _ op' _ l' _ r' _ s' =>
      have hnode := Dump.tell_group .braces "Binary"
        (.cons (Dump.tell_field "op" (tell_binaryOp op op'))
          (.cons (Dump.tell_field "lhs" (ihl l')) (.cons (Dump.tell_field "rhs" (ihr r')) .nil)))
      refine (tell_atSpan s s' hnode).mono ?_
      rintro ⟨⟨rfl, rfl, rfl, -⟩, rfl⟩
      rfl
  | paren e s ih =>
    refine tell_of_alike fun h => ?_
    cases h with
    | @paren _ e' _ s' =>
      have hnode := Dump.tell_group .parentheses "Paren" (.cons (ih e') .nil)
      refine (tell_atSpan s s' hnode).mono ?_
      rintro ⟨⟨rfl, -⟩, rfl⟩
      rfl

end Expr

end ItemAttrs
