import ItemAttrs.Proofs.Attr.Tree
import ItemAttrs.Proofs.Json.Record

/-!
# Cache documents as they are written

A cache document consists of records, variants and lists, and its leaves are made by `Json.ofNat`
and `Json.ofText`. So it is spelled throughout as the writer spells (`AttrList.spelled_toJson`),
and its written form is read back as the same document.
-/

namespace ItemAttrs

open Json

/-! ### Expressions -/

theorem Span.spelled_toJson (s : Span) : s.toJson.Spelled :=
  spelled_ofRecord (by simp [spelled_ofNat])

theorem Name.spelled_allToJson (names : List Name) : (allToJson names).Spelled := by
  refine .array fun j hj => ?_
  obtain ⟨n, -, rfl⟩ := List.mem_map.mp hj
  exact spelled_ofNat _

theorem Literal.spelled_toJson (l : Literal Name) : l.toJson.Spelled := by
  cases l with
  | int n => exact spelled_tagged _ (spelled_ofNat _)
  | float bits => exact spelled_tagged _ (spelled_ofNat _)
  | bool b => exact spelled_tagged _ (.bool b)
  | char c => exact spelled_tagged _ (spelled_ofText _)
  | str n => exact spelled_tagged _ (spelled_ofNat _)

namespace Expr

theorem allToJson_eq_map (es : List (Expr Name)) : allToJson es = es.map toJson := by
  induction es with
  | nil => rfl
  | cons e es ih => rw [allToJson, ih, List.map_cons]

theorem spelled_recordJson {kind : Json} (h : kind.Spelled) (s : Span) :
    (recordJson kind s).Spelled := spelled_ofRecord (by simp [h, s.spelled_toJson])

theorem spelled_toJson (e : Expr Name) : e.toJson.Spelled := by
  induction e with
  | literal l s => exact spelled_recordJson l.spelled_toJson s
  | path p s => exact spelled_recordJson (spelled_tagged _ (Name.spelled_allToJson p)) s
  | call p args s ih =>
    refine spelled_recordJson (spelled_tagged _ (spelled_ofRecord ?_)) s
    have hargs : (Json.array (allToJson args)).Spelled := by
      rw [allToJson_eq_map]
      exact .array (by simpa using ih)
    simp [Name.spelled_allToJson, hargs]
  | unary op e s ih =>
    exact spelled_recordJson
      (spelled_tagged _ (spelled_ofRecord (by simp [spelled_ofText, ih]))) s
  | binary op l r s ihl ihr =>
    exact spelled_recordJson
      (spelled_tagged _ (spelled_ofRecord (by simp [spelled_ofText, ihl, ihr]))) s
  | paren e s ih => exact spelled_recordJson (spelled_tagged _ ih) s

end Expr

/-! ### Attributes -/

theorem AttrName.spelled_toJson (name : AttrName Name) : name.toJson.Spelled :=
  spelled_ofRecord (by simp [Name.spelled_allToJson])

namespace Attr

theorem allToJson_eq_map (as : List (Attr Name)) : allToJson as = as.map toJson := by
  induction as with
  | nil => rfl
  | cons a as ih => rw [allToJson, ih, List.map_cons]

theorem spelled_of_payload {p : Payload Name} (h : p.toJson.Spelled) (span : Span)
    (name : AttrName Name) (used : Bool) : (toJson ⟨span, name, p, used⟩).Spelled :=
  spelled_ofRecord (by simp [span.spelled_toJson, name.spelled_toJson, h, Spelled.bool])

theorem spelled_toJson (a : Attr Name) : a.toJson.Spelled := by
  induction a with
  | bare span name used => exact spelled_of_payload (p := .bare) (spelled_ofText _) span name used
  | value span name e used =>
    exact spelled_of_payload (p := .value e) (spelled_tagged _ e.spelled_toJson) span name used
  | text span name n used =>
    exact spelled_of_payload (p := .text n) (spelled_tagged _ (spelled_ofNat _)) span name used
  | nested span name items used ih =>
    have hitems : (Json.array (allToJson items)).Spelled := by
      rw [allToJson_eq_map]
      exact .array (by simpa using ih)
    exact spelled_of_payload (p := .nested items) (spelled_tagged _ hitems) span name used

end Attr

theorem AttrList.spelled_toJson (l : AttrList Name) : l.toJson.Spelled := by
  have hitems : (Json.array (Attr.allToJson l.items)).Spelled := by
    rw [Attr.allToJson_eq_map]
    refine .array fun j hj => ?_
    obtain ⟨a, -, rfl⟩ := List.mem_map.mp hj
    exact a.spelled_toJson
  exact spelled_ofRecord (by simp [hitems])

end ItemAttrs
