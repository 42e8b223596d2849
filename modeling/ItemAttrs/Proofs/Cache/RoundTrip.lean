import ItemAttrs.Cache.Decode
import ItemAttrs.Proofs.Cache.Written

/-!
# Cache documents are read back

Each reader takes the room that it has, and gives it to the readers of what is nested in its
containers. `Reads` says that a reader gets a value from some amount of room on, and fails with
less. What reads a container needs one more than what reads its contents (`Reads.opens`), and
what reads several things needs as much as each of them does (`Reads.bind`, `Reads.all`): these
are the equations of `Json.depth`, so a document is read with as much room as it has depth.
-/

namespace ItemAttrs

open Json

/-- **A reader gets `a` as soon as it has room `d`,** and nothing with less. -/
structure Reads {α : Type} (read : Nat → Option α) (a : α) (d : Nat) : Prop where
  enough : ∀ room, d ≤ room → read room = some a
  short : ∀ room, room < d → read room = none

namespace Reads

variable {α β : Type} {read inner : Nat → Option α} {a : α} {b : β} {d d' : Nat}

theorem const (a : α) : Reads (fun _ => some a) a 0 where
  enough _ _ := rfl
  short _ h := absurd h (Nat.not_lt_zero _)

/-- **A container** takes one from the room of what it contains. -/
theorem opens (h : Reads inner a d) (hzero : read 0 = none)
    (hsucc : ∀ room, read (room + 1) = inner room) : Reads read a (d + 1) where
  enough
    | 0, hd => absurd hd (Nat.not_succ_le_zero d)
    | room + 1, hd => (hsucc room).trans (h.enough room (Nat.le_of_succ_le_succ hd))
  short
    | 0, _ => hzero
    | room + 1, hd => (hsucc room).trans (h.short room (Nat.lt_of_succ_lt_succ hd))

/-- **One reader after the other.** -/
theorem bind (next : α → Nat → Option β) (h : Reads read a d) (hnext : Reads (next a) b d') :
    Reads (fun room => (read room).bind fun x => next x room) b (max d d') where
  enough room hmax := by
    obtain ⟨hd, hd'⟩ := Nat.max_le.mp hmax
    show (read room).bind _ = _
    rw [h.enough room hd, Option.bind_some, hnext.enough room hd']
  short room hmax := by
    show (read room).bind _ = _
    by_cases hd : d ≤ room
    · have hd' : room < d' := by omega
      rw [h.enough room hd, Option.bind_some, hnext.short room hd']
    · rw [h.short room (Nat.lt_of_not_le hd), Option.bind_none]

theorem map (h : Reads read a d) (k : α → β) :
    Reads (fun room => (read room).bind fun x => some (k x)) (k a) d where
  enough room hd := congrArg (Option.bind · fun x => some (k x)) (h.enough room hd)
  short room hd := congrArg (Option.bind · fun x => some (k x)) (h.short room hd)

/-- **Two readers** of parts of one value. -/
theorem map₂ {γ : Type} {read' : Nat → Option β} (h : Reads read a d) (h' : Reads read' b d')
    (k : α → β → γ) :
    Reads (fun room => (read room).bind fun x => (read' room).bind fun y => some (k x y)) (k a b)
      (max d d') :=
  h.bind (fun x room => (read' room).bind fun y => some (k x y)) (h'.map (k a))

/-- **A list** is read as soon as each of its items is. -/
theorem all (item : Nat → Json → Option α) {toJson : α → Json} {as : List α}
    (h : ∀ a ∈ as, Reads (item · (toJson a)) a (toJson a).depth) :
    Reads (fun room => (as.map toJson).mapM (item room)) as (depthOfItems (as.map toJson)) := by
  induction as with
  | nil => exact const []
  | cons a as ih =>
    have has := ih fun b hb => h b (List.mem_cons_of_mem a hb)
    have hcons := (h a List.mem_cons_self).map₂ has List.cons
    have heq : (fun room => ((a :: as).map toJson).mapM (item room)) =
        fun room => (item room (toJson a)).bind fun x =>
          ((as.map toJson).mapM (item room)).bind fun xs => some (x :: xs) := by
      funext room
      rw [List.map_cons, List.mapM_cons]
      rfl
    rw [heq]
    exact hcons

end Reads

/-! ### Leaves -/

theorem asUInt32?_ofNat (n : UInt32) : (Json.ofNat n.toNat).asUInt32? = some n := by
  simp [asUInt32?, n.toNat_lt_size]

theorem asUInt64?_ofNat (n : UInt64) : (Json.ofNat n.toNat).asUInt64? = some n := by
  simp [asUInt64?, n.toNat_lt_size]

theorem asChar?_ofText (c : Char) : (Json.ofText (String.singleton c)).asChar? = some c := by
  simp [asChar?]

theorem label?_ofText (room : Nat) (s : String) : (Json.ofText s).label? room = some s := by
  simp [label?, variant?_ofText]

theorem Name.ofJson?_toJson (n : Name) : ofJson? n.toJson = some n := by
  simp [ofJson?, toJson, asUInt32?_ofNat]

theorem Span.reads_toJson (s : Span) : Reads (ofJson? · s.toJson) s s.toJson.depth := by
  have hdepth : s.toJson.depth = 0 + 1 := rfl
  have hfields : s.toJson.record? ["start", "end"] =
      some [.ofNat s.start.toNat, .ofNat s.stop.toNat] := record?_ofRecord (by simp)
  rw [hdepth]
  refine (Reads.const s).opens rfl fun room => ?_
  simp [ofJson?, hfields, asUInt32?_ofNat]

theorem Name.reads_allToJson (names : List Name) :
    Reads (allOfJson? · (allToJson names)) names (allToJson names).depth := by
  have hnames : Reads (fun _ => (names.map toJson).mapM ofJson?) names
      (depthOfItems (names.map toJson)) :=
    Reads.all (fun _ => ofJson?) fun n _ => n.ofJson?_toJson ▸ Reads.const n
  exact hnames.opens rfl fun _ => rfl

/-! ### Expressions -/

namespace Expr

variable {e : Expr Name} {s : Span}

/-- **A node** is read as soon as its kind and its span are. -/
theorem reads_recordJson {kind : Json} (h : Reads (ofKind? · s kind) e kind.depth) :
    Reads (ofJson? · (recordJson kind s)) e (recordJson kind s).depth := by
  have hfields : (recordJson kind s).record? ["kind", "span"] = some [kind, s.toJson] :=
    record?_ofRecord (by simp)
  have hdepth : (recordJson kind s).depth = max s.toJson.depth kind.depth + 1 := by
    simp [recordJson, depth_ofRecord, depthOfItems, Nat.max_comm]
  rw [hdepth]
  refine (s.reads_toJson.bind (fun s room => ofKind? room s kind) h).opens rfl fun room => ?_
  simp [ofJson?, hfields]

/-- **A kind** is read as soon as the content behind its tag is. -/
theorem reads_tagged {content : Json} {tag : String} {inner : Nat → Option (Expr Name)}
    (h : Reads inner e content.depth)
    (hsucc : ∀ room, ofKind? (room + 1) s (tagged tag content) = inner room) :
    Reads (ofKind? · s (tagged tag content)) e (tagged tag content).depth := by
  rw [depth_tagged]
  exact h.opens rfl hsucc

theorem reads_literal (l : Literal Name) (s : Span) :
    Reads (ofKind? · s l.toJson) (.literal l s) l.toJson.depth := by
  have hdepth : l.toJson.depth = 0 + 1 := by cases l <;> rfl
  rw [hdepth]
  refine (Reads.const _).opens rfl fun room => ?_
  cases l <;> simp [ofKind?, Literal.toJson, variant?_tagged, asUInt64?_ofNat, asChar?_ofText,
    Name.ofJson?_toJson]

theorem reads_path (p : List Name) (s : Span) :
    Reads (ofKind? · s (tagged "Path" (Name.allToJson p))) (.path p s)
      (tagged "Path" (Name.allToJson p)).depth := by
  refine reads_tagged ((Name.reads_allToJson p).map fun p => Expr.path p s) fun room => ?_
  simp [ofKind?, variant?_tagged]

theorem reads_paren (h : Reads (ofJson? · e.toJson) e e.toJson.depth) (s : Span) :
    Reads (ofKind? · s (tagged "Paren" e.toJson)) (.paren e s)
      (tagged "Paren" e.toJson).depth := by
  refine reads_tagged (h.map fun e => Expr.paren e s) fun room => ?_
  simp [ofKind?, variant?_tagged]

theorem reads_unary (h : Reads (ofJson? · e.toJson) e e.toJson.depth) (op : UnaryOp) (s : Span) :
    let parts := Json.ofRecord [("op", .ofText op.label), ("operand", e.toJson)]
    Reads (ofKind? · s (tagged "Unary" parts)) (.unary op e s) (tagged "Unary" parts).depth := by
  intro parts
  have hfields : parts.record? ["op", "operand"] = some [.ofText op.label, e.toJson] :=
    record?_ofRecord (by simp)
  have hdepth : parts.depth = e.toJson.depth + 1 := by
    simp [parts, depth_ofRecord, depthOfItems, Json.ofText, Json.depth]
  have hparts : Reads (ofUnary? · s parts) (.unary op e s) parts.depth := by
    rw [hdepth]
    refine (h.map fun e => Expr.unary op e s).opens rfl fun room => ?_
    simp [ofUnary?, hfields, label?_ofText]
  exact reads_tagged hparts fun room => by simp [ofKind?, variant?_tagged]

theorem reads_binary {l r : Expr Name} (hl : Reads (ofJson? · l.toJson) l l.toJson.depth)
    (hr : Reads (ofJson? · r.toJson) r r.toJson.depth) (op : BinaryOp) (s : Span) :
    let parts := Json.ofRecord [("op", .ofText op.label), ("lhs", l.toJson), ("rhs", r.toJson)]
    Reads (ofKind? · s (tagged "Binary" parts)) (.binary op l r s)
      (tagged "Binary" parts).depth := by
  intro parts
  have hfields : parts.record? ["op", "lhs", "rhs"] =
      some [.ofText op.label, l.toJson, r.toJson] := record?_ofRecord (by simp)
  have hdepth : parts.depth = max l.toJson.depth r.toJson.depth + 1 := by
    simp [parts, depth_ofRecord, depthOfItems, Json.ofText, Json.depth]
  have hoperands := hl.map₂ hr fun l r => Expr.binary op l r s
  have hparts : Reads (ofBinary? · s parts) (.binary op l r s) parts.depth := by
    rw [hdepth]
    refine hoperands.opens rfl fun room => ?_
    simp [ofBinary?, hfields, label?_ofText]
  exact reads_tagged hparts fun room => by simp [ofKind?, variant?_tagged]

theorem reads_call {args : List (Expr Name)}
    (h : ∀ e ∈ args, Reads (ofJson? · e.toJson) e e.toJson.depth) (p : List Name) (s : Span) :
    let parts := Json.ofRecord [("path", Name.allToJson p), ("args", .array (allToJson args))]
    Reads (ofKind? · s (tagged "MacroCall" parts)) (.call p args s)
      (tagged "MacroCall" parts).depth := by
  intro parts
  have hfields : parts.record? ["path", "args"] =
      some [Name.allToJson p, .array (allToJson args)] := record?_ofRecord (by simp)
  have hdepth : parts.depth =
      max (Name.allToJson p).depth (Json.array (allToJson args)).depth + 1 := by
    simp [parts, depth_ofRecord, depthOfItems]
  have hargs : Reads (allOfJson? · (.array (allToJson args))) args
      (Json.array (allToJson args)).depth := by
    rw [allToJson_eq_map]
    exact (Reads.all ofJson? h).opens rfl fun _ => rfl
  have hboth := (Name.reads_allToJson p).map₂ hargs fun p args => Expr.call p args s
  have hparts : Reads (ofCall? · s parts) (.call p args s) parts.depth := by
    rw [hdepth]
    refine hboth.opens rfl fun room => ?_
    simp [ofCall?, hfields]
  exact reads_tagged hparts fun room => by simp [ofKind?, variant?_tagged]

/-- **The document of an expression is read back.** -/
theorem reads_toJson (e : Expr Name) : Reads (ofJson? · e.toJson) e e.toJson.depth := by
  induction e with
  | literal l s => exact reads_recordJson (reads_literal l s)
  | path p s => exact reads_recordJson (reads_path p s)
  | call p args s ih => exact reads_recordJson (reads_call ih p s)
  | unary op e s ih => exact reads_recordJson (reads_unary ih op s)
  | binary op l r s ihl ihr => exact reads_recordJson (reads_binary ihl ihr op s)
  | paren e s ih => exact reads_recordJson (reads_paren ih s)

end Expr

/-! ### Attributes -/

theorem AttrName.reads_toJson (name : AttrName Name) :
    Reads (ofJson? · name.toJson) name name.toJson.depth := by
  have hfields : name.toJson.record? ["segments"] = some [Name.allToJson name.segments] :=
    record?_ofRecord (by simp)
  have hdepth : name.toJson.depth = (Name.allToJson name.segments).depth + 1 := by
    simp [toJson, depth_ofRecord, depthOfItems]
  rw [hdepth]
  refine ((Name.reads_allToJson name.segments).map AttrName.mk).opens rfl fun room => ?_
  simp [ofJson?, hfields]

/-- **A payload** that is not bare is read as soon as the content behind its tag is. -/
theorem Payload.reads_tagged {p : Payload Name} {tag : String} {content : Json}
    {inner : Nat → Option (Payload Name)} (h : Reads inner p content.depth)
    (hsucc : ∀ room, ofJson? (room + 1) (tagged tag content) = inner room) :
    Reads (ofJson? · (tagged tag content)) p (tagged tag content).depth := by
  rw [depth_tagged]
  refine h.opens ?_ hsucc
  simp [ofJson?, variant?_tagged]

namespace Attr

/-- **An attribute** is read as soon as its payload is, and its span and its name. -/
theorem reads_of_payload {p : Payload Name}
    (h : Reads (Payload.ofJson? · p.toJson) p p.toJson.depth)
    (span : Span) (name : AttrName Name) (used : Bool) :
    let a : Attr Name := ⟨span, name, p, used⟩
    Reads (ofJson? · a.toJson) a a.toJson.depth := by
  intro a
  have hfields : a.toJson.record? ["span", "name", "data", "is_used"] =
      some [span.toJson, name.toJson, p.toJson, .bool used] := record?_ofRecord (by simp)
  have hdepth : a.toJson.depth =
      max span.toJson.depth (max name.toJson.depth p.toJson.depth) + 1 := by
    simp [a, toJson, depth_ofRecord, depthOfItems, Json.depth]
  have hparts := span.reads_toJson.bind
    (fun span room => (AttrName.ofJson? room name.toJson).bind fun name =>
      (Payload.ofJson? room p.toJson).bind fun p => some (Attr.mk span name p used))
    (name.reads_toJson.map₂ h fun name p => Attr.mk span name p used)
  rw [hdepth]
  refine hparts.opens rfl fun room => ?_
  simp [ofJson?, hfields]

theorem reads_items {items : List (Attr Name)}
    (h : ∀ a ∈ items, Reads (ofJson? · a.toJson) a a.toJson.depth) :
    Reads (allOfJson? · (.array (allToJson items))) items
      (Json.array (allToJson items)).depth := by
  rw [allToJson_eq_map]
  exact (Reads.all ofJson? h).opens rfl fun _ => rfl

/-- **The document of an attribute is read back.** -/
theorem reads_toJson (a : Attr Name) : Reads (ofJson? · a.toJson) a a.toJson.depth := by
  induction a with
  | bare span name used =>
    refine reads_of_payload ?_ span name used
    have hpayload : (Payload.ofJson? · (Payload.toJson .bare)) = fun _ => some .bare := by
      funext room
      cases room <;> simp [Payload.ofJson?, Payload.toJson, variant?_ofText, Shape.label]
    rw [hpayload]
    exact Reads.const _
  | value span name e used =>
    have hpayload : ∀ room, Payload.ofJson? (room + 1) (Payload.toJson (.value e)) =
        (Expr.ofJson? room e.toJson).bind fun e => some (.value e) := by
      intro room
      simp [Payload.ofJson?, Payload.toJson, variant?_tagged, Shape.label]
    exact reads_of_payload (p := .value e)
      (Payload.reads_tagged (e.reads_toJson.map Payload.value) hpayload) span name used
  | text span name n used =>
    have hpayload : ∀ room, Payload.ofJson? (room + 1) (Payload.toJson (.text n)) =
        some (.text n) := by
      intro room
      simp [Payload.ofJson?, Payload.toJson, variant?_tagged, Shape.label, Name.ofJson?_toJson]
    have hname : n.toJson.depth = 0 := rfl
    exact reads_of_payload (p := .text n)
      (Payload.reads_tagged (hname ▸ Reads.const _) hpayload) span name used
  | nested span name items used ih =>
    have hpayload : ∀ room, Payload.ofJson? (room + 1) (Payload.toJson (.nested items)) =
        (allOfJson? room (.array (allToJson items))).bind fun as => some (.nested as) := by
      intro room
      simp [Payload.ofJson?, Payload.toJson, variant?_tagged, Shape.label]
    exact reads_of_payload (p := .nested items)
      (Payload.reads_tagged ((reads_items ih).map Payload.nested) hpayload) span name used

end Attr

/-! ### Lists -/

theorem AttrList.reads_toJson (l : AttrList Name) :
    Reads (ofJson? · l.toJson) l l.toJson.depth := by
  have hfields : l.toJson.record? ["items"] = some [.array (Attr.allToJson l.items)] :=
    record?_ofRecord (by simp)
  have hdepth : l.toJson.depth = (Json.array (Attr.allToJson l.items)).depth + 1 := by
    simp [toJson, depth_ofRecord, depthOfItems]
  have hitems := Attr.reads_items fun a (_ : a ∈ l.items) => a.reads_toJson
  rw [hdepth]
  refine (hitems.map AttrList.mk).opens rfl fun room => ?_
  simp [ofJson?, hfields]

/-- **A list is read back from its cache document,** with every span, flag, name and expression
in its place. The written document is read as the document that was written, and reading the list
takes as much room as the document has depth; with less, nothing is read. -/
theorem AttrList.cache_read_back (l : AttrList Name) :
    Json.read? l.toJson.toText = some l.toJson ∧
      ∀ room, ofJson? room l.toJson = if l.toJson.depth ≤ room then some l else none := by
  refine ⟨read?_toText l.spelled_toJson, fun room => ?_⟩
  split
  · next hdepth => exact l.reads_toJson.enough room hdepth
  · next hdepth => exact l.reads_toJson.short room (Nat.lt_of_not_le hdepth)

end ItemAttrs
