import Mathlib.Data.List.Forall2
import ItemAttrs.Cache.Encode
import ItemAttrs.Proofs.Json.Reading

/-!
# Records and variants as documents

A record is written as an object with its fields in order, and a variant as its tag, alone or in
front of its content. Read as what they are they give back what was put in
(`record?_ofRecord`, `variant?_tagged`, `variant?_ofText`), and they are spelled as the writer
spells (`spelled_ofRecord` and its kin). `depth` is the number of containers, one inside the
other, that a document opens; a reader needs that much room.
-/

namespace ItemAttrs

/-- **A list of readings succeeds** if each of them does. -/
theorem mapM_eq_some_iff {α β : Type} {f : α → Option β} {as : List α} {bs : List β} :
    as.mapM f = some bs ↔ as.map f = bs.map some := by
  induction as generalizing bs with
  | nil => cases bs <;> simp
  | cons a as ih =>
    rw [List.mapM_cons, List.map_cons]
    cases hb : f a with
    | none => cases bs <;> simp
    | some b =>
      cases bs with
      | nil => cases as.mapM f <;> simp
      | cons b' bs => simp [Option.bind_eq_some_iff, ih, and_comm]

theorem forall₂_of_mapM_eq_some {α β : Type} {f : α → Option β} {as : List α} {bs : List β}
    (h : as.mapM f = some bs) : List.Forall₂ (fun a b => f a = some b) as bs := by
  have hmap : List.Forall₂ (· = ·) (as.map f) (bs.map some) :=
    List.forall₂_eq_eq_eq ▸ mapM_eq_some_iff.mp h
  rwa [List.forall₂_map_left_iff, List.forall₂_map_right_iff] at hmap

theorem mapM_map_eq_some_iff {α β γ : Type} {f : β → Option γ} {g : α → β} {k : α → γ}
    {as : List α} : (as.map g).mapM f = some (as.map k) ↔ ∀ a ∈ as, f (g a) = some (k a) := by
  rw [mapM_eq_some_iff, List.map_map, List.map_map, List.map_inj_left]
  rfl

namespace Json

/-! ### Reading -/

theorem namedMembers?_encode (members : List (String × Json)) :
    namedMembers? (members.map fun m => (encodeText m.1.toList, m.2)) = some members := by
  rw [namedMembers?, mapM_eq_some_iff, List.map_map]
  refine List.map_congr_left fun m _ => ?_
  rw [Function.comp_apply, decodeText?_encodeText, Option.map_some, String.ofList_toList]

theorem sole?_of_mem {members : List (String × Json)} (h : (members.map Prod.fst).Nodup)
    {m : String × Json} (hm : m ∈ members) : sole? members m.1 = some m.2 := by
  have hfilter : members.filter (fun m' => m'.1 == m.1) = [m] := by
    induction members with
    | nil => exact nomatch hm
    | cons m' members ih =>
      rw [List.map_cons, List.nodup_cons] at h
      rcases List.mem_cons.mp hm with rfl | hm
      · -- no member after this one has its name
        have hrest : members.filter (fun m' => m'.1 == m.1) = [] := by
          rw [List.filter_eq_nil_iff]
          intro m' hm' heq
          exact h.1 (List.mem_map.mpr ⟨m', hm', beq_iff_eq.mp heq⟩)
        rw [List.filter_cons_of_pos (by simp), hrest]
      · have hne : ¬(m'.1 == m.1) = true := by
          intro heq
          exact h.1 (List.mem_map.mpr ⟨m, hm, (beq_iff_eq.mp heq).symm⟩)
        rw [List.filter_cons_of_neg (by simpa using hne), ih h.2 hm]
  rw [sole?, hfilter]

/-- **A record is read back** field by field. -/
theorem record?_ofRecord {members : List (String × Json)} (h : (members.map Prod.fst).Nodup) :
    (ofRecord members).record? (members.map Prod.fst) = some (members.map Prod.snd) := by
  rw [ofRecord, record?, namedMembers?_encode]
  exact mapM_map_eq_some_iff.mpr fun m hm => sole?_of_mem h hm

theorem variant?_tagged (tag : String) (content : Json) :
    (tagged tag content).variant? = some (tag, some content) := by
  simp [tagged, ofRecord, variant?]

theorem variant?_ofText (tag : String) : (ofText tag).variant? = some (tag, none) := by
  simp [ofText, variant?]

/-! ### Spelling -/

theorem spelled_ofNat (n : Nat) : (ofNat n).Spelled := .number n

theorem spelled_ofText (s : String) : (ofText s).Spelled := .text s.toList

theorem spelled_ofRecord {members : List (String × Json)} (h : ∀ m ∈ members, m.2.Spelled) :
    (ofRecord members).Spelled := by
  refine .object ?_ ?_
  · rintro _ hm
    obtain ⟨m, -, rfl⟩ := List.mem_map.mp hm
    exact ⟨_, rfl⟩
  · rintro _ hm
    obtain ⟨m, hmem, rfl⟩ := List.mem_map.mp hm
    exact h m hmem

theorem spelled_tagged (tag : String) {content : Json} (h : content.Spelled) :
    (tagged tag content).Spelled := spelled_ofRecord (by simpa using h)

/-! ### Depth -/

mutual

/-- **How many containers are open at once,** where most are. -/
def depth : Json → Nat
  | .array items => depthOfItems items + 1
  | .object members => depthOfMembers members + 1
  | .null | .bool _ | .number _ | .text _ => 0

/-- The greatest depth of some documents. -/
def depthOfItems : List Json → Nat
  | [] => 0
  | j :: js => max j.depth (depthOfItems js)

/-- The greatest depth of the values of some members. -/
def depthOfMembers : List (List Char × Json) → Nat
  | [] => 0
  | (_, value) :: members => max value.depth (depthOfMembers members)

end

theorem depth_ofRecord (members : List (String × Json)) :
    (ofRecord members).depth = depthOfItems (members.map Prod.snd) + 1 := by
  have h : depthOfMembers (members.map fun m => (encodeText m.1.toList, m.2)) =
      depthOfItems (members.map Prod.snd) := by
    induction members with
    | nil => rfl
    | cons m members ih => rw [List.map_cons, depthOfMembers, ih, List.map_cons, depthOfItems]
  rw [ofRecord, depth, h]

theorem depth_tagged (tag : String) (content : Json) :
    (tagged tag content).depth = content.depth + 1 := by
  simp [tagged, depth_ofRecord, depthOfItems]

end Json

end ItemAttrs
