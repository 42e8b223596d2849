import Mathlib.Data.Finset.Card
import ItemAttrs.Proofs.Interner.Invariant

/-!
# What an interner has been told

A **history** lists the texts that calls have named since the start, each with the name it
got, together with the state that the calls have led to. The state remembers the history
faithfully: every name still stands for its text, equal texts have equal names, and the
count is the number of different texts.

* `Records` is the invariant of a history, and `Records.intern` what one call preserves;
* `Records.mapM_intern` and `Records.internAll` are runs of calls, `records_initial` the start;
* `History.faithful` is the theorem about all histories.
-/

namespace ItemAttrs

/-! ### Steps that may fail -/

namespace InternM

variable {α β : Type} {x : InternM α} {f : α → InternM β} {t t' : Interner}

theorem bind_of_ok {a : α} (h : x t = (.ok a, t')) : (x >>= f) t = f a t' := by
  change ExceptT.bindCont f (x t).1 (x t).2 = _
  rw [h]
  rfl

theorem bind_of_error {cause : Fault} (h : x t = (.error cause, t')) :
    (x >>= f) t = (.error cause, t') := by
  change ExceptT.bindCont f (x t).1 (x t).2 = _
  rw [h]
  rfl

/-- A computation that succeeds as a whole has succeeded step by step. -/
theorem exists_of_bind_eq_ok {b : β} (h : (x >>= f) t = (.ok b, t')) :
    ∃ a t₁, x t = (.ok a, t₁) ∧ f a t₁ = (.ok b, t') := by
  generalize hx : x t = res
  obtain ⟨answer, t₁⟩ := res
  cases answer with
  | ok a => exact ⟨a, t₁, rfl, (bind_of_ok hx).symm.trans h⟩
  | error cause => exact nomatch (bind_of_error hx).symm.trans h

/-- A run that fails has come to a first call that fails. -/
theorem exists_of_mapM_eq_error {xs : List α} {g : α → InternM β} {cause : Fault}
    (h : (xs.mapM g) t = (.error cause, t')) :
    ∃ before y after bs t₁, xs = before ++ y :: after ∧ (before.mapM g) t = (.ok bs, t₁) ∧
      g y t₁ = (.error cause, t') := by
  induction xs generalizing t with
  | nil => exact nomatch h
  | cons x xs ih =>
    generalize hx : g x t = res at h
    obtain ⟨answer, t₁⟩ := res
    rw [List.mapM_cons] at h
    cases answer with
    | error cause' =>
      rw [bind_of_error hx] at h
      cases h
      exact ⟨[], x, xs, [], t, rfl, rfl, hx⟩
    | ok b =>
      rw [bind_of_ok hx] at h
      generalize hxs : (xs.mapM g) t₁ = res at h
      obtain ⟨answer, t₂⟩ := res
      cases answer with
      | ok bs =>
        rw [bind_of_ok hxs] at h
        exact nomatch h
      | error cause' =>
        rw [bind_of_error hxs] at h
        cases h
        -- the first call has succeeded, so the failing one is among the others
        obtain ⟨before, y, after, bs, t₃, rfl, hbefore, hy⟩ := ih hxs
        refine ⟨x :: before, y, after, b :: bs, t₃, rfl, ?_, hy⟩
        rw [List.mapM_cons, bind_of_ok hx, bind_of_ok hbefore]
        rfl

theorem eq_of_answer {answer : Except Fault α} (h : (x t).1 = answer) : x t = (answer, (x t).2) :=
  Prod.ext h rfl

end InternM

namespace Interner

variable {t t' : Interner} {s : String} {n : Name} {known : List String}
  {calls : List (String × Name)}

/-! ### Histories -/

/-- **A history:** the texts named by calls since the start, in order, with the names they got,
and the state after these calls. A call is for one text or for the segments of a written path,
and all calls have succeeded. -/
inductive History : List (String × Name) → Interner → Prop where
  | initial : History [] initial
  | intern {calls : List (String × Name)} {t t' : Interner} {s : String} {n : Name}
      (h : History calls t) (hs : intern s t = (.ok n, t')) : History (calls ++ [(s, n)]) t'
  | internPath {calls : List (String × Name)} {t t' : Interner} {path : String}
      {names : List Name} (h : History calls t) (hp : internPath path t = (.ok names, t')) :
      History (calls ++ (Path.split path).zip names) t'

/-- **A state that calls can lead to.** -/
def Reachable (t : Interner) : Prop := ∃ calls, History calls t

/-! ### The invariant of a history -/

/-- **What a state knows:** exactly the texts `known`, and the names given out by `calls`. -/
structure Records (t : Interner) (known : List String) (calls : List (String × Name)) : Prop where
  wellFormed : t.WellFormed
  mem_texts : ∀ s, s ∈ t.texts ↔ s ∈ known
  count_eq : t.count = t.texts.length
  named : ∀ c ∈ calls, t.lookup c.2 = .ok c.1

/-- **A call adds its text and its name** to what is known. -/
theorem Records.intern (h : t.Records known calls) (hs : intern s t = (.ok n, t')) :
    t'.Records (known ++ [s]) (calls ++ [(s, n)]) := by
  have hn := intern_naming h.wellFormed hs
  refine ⟨hn.wellFormed h.wellFormed, fun r => ?_, hn.count_eq h.count_eq, fun c hc => ?_⟩
  · rw [hn.mem_texts_iff, h.mem_texts, List.mem_append, List.mem_singleton]
  · rcases List.mem_append.mp hc with hc | hc
    · -- a name that was given out before keeps its text
      exact hn.lookup (h.named c hc)
    · rw [List.mem_singleton.mp hc]
      exact hn.lookup_self

/-- **Calls for several texts** give one name for each of them. -/
theorem Records.mapM_intern {texts : List String} {names : List Name}
    (h : t.Records known calls) (hm : (texts.mapM Interner.intern) t = (.ok names, t')) :
    names.length = texts.length ∧ t'.Records (known ++ texts) (calls ++ texts.zip names) := by
  induction texts generalizing t known calls names with
  | nil =>
    rw [List.mapM_nil] at hm
    cases hm
    simpa using h
  | cons s texts ih =>
    rw [List.mapM_cons] at hm
    -- the first text gets its name in one state, and the others theirs in the next
    obtain ⟨n, t₁, hs, hm⟩ := InternM.exists_of_bind_eq_ok hm
    obtain ⟨ns, t₂, hns, hm⟩ := InternM.exists_of_bind_eq_ok hm
    cases hm
    obtain ⟨hlen, hrec⟩ := ih (h.intern hs) hns
    refine ⟨congrArg Nat.succ hlen, ?_⟩
    rw [List.append_assoc, List.append_assoc] at hrec
    exact hrec

/-- Calls whose answers nobody keeps. They all succeed while there is room. -/
theorem Records.internAll (texts : List String) (h : t.Records known calls)
    (hroom : t.texts.length + texts.length ≤ Name.slotCount) :
    (internAll texts t).Records (known ++ texts) calls := by
  induction texts generalizing t known with
  | nil =>
    rw [List.append_nil]
    exact h
  | cons s texts ih =>
    rw [List.length_cons] at hroom
    -- no shard has more texts than there are in all
    have hsize : (t.home s).size ≤ Name.maxSlot := by
      have := size_home_le t s
      simp only [Name.slotCount, Name.maxSlot] at hroom ⊢
      omega
    obtain ⟨n, t₁, hs⟩ := h.wellFormed.exists_intern hsize
    have hlen := (intern_naming h.wellFormed hs).length_texts_le
    have hrec := h.intern hs
    -- the name is not kept
    have hforget : t₁.Records (known ++ [s]) calls :=
      { hrec with named := fun c hc => hrec.named c (List.mem_append_left _ hc) }
    have htail := ih hforget (by omega)
    rw [List.append_assoc] at htail
    rw [Interner.internAll, List.foldl_cons, hs]
    exact htail

/-- The start, before any shard has been given a text. -/
def bare : Interner := ⟨Vector.replicate Name.shardCount Shard.empty, 0⟩

theorem shard_bare (k : Fin Name.shardCount) : bare.shard k = Shard.empty := by
  rw [shard_eq_getElem, bare, Fin.getElem_fin, Vector.getElem_replicate]

theorem wellFormed_bare : bare.WellFormed where
  consistent k := by
    rw [shard_bare]
    exact Shard.consistent_empty
  homed k s hs := by
    simp [shard_bare, Shard.empty] at hs
  bounded k := by
    rw [shard_bare]
    exact Nat.zero_le _

/-- The empty text is stored first, in the first slot of the first shard, so its name is the
word that is zero. -/
theorem records_blank : blank.Records [""] [("", .empty)] := by
  have hadd : blank = { bare.add "" with count := 1 } := rfl
  have htexts : bare.texts = [] := rfl
  have hperm : blank.texts.Perm [""] := by
    have := texts_add_perm bare ""
    rw [htexts] at this
    exact this
  have hwf : (bare.add "").WellFormed := wellFormed_bare.add rfl (Nat.zero_le _)
  have hempty : blank.lookup .empty = .ok "" := rfl
  -- the count is set, not raised, but comes to the same
  refine ⟨hwf.of_shards (by rw [hadd]), fun s => hperm.mem_iff, ?_, fun c hc => ?_⟩
  · rw [hperm.length_eq]
    rfl
  · rw [List.mem_singleton.mp hc]
    exact hempty

/-- **The start:** the empty text and the built-in names are known, and the name of the empty
text has been given out. -/
theorem records_initial : initial.Records ("" :: builtins) [("", .empty)] := by
  have hlen : blank.texts.length = 1 := records_blank.count_eq.symm
  refine records_blank.internAll builtins ?_
  -- there is room for twenty-six texts after the first
  rw [hlen]
  decide

/-- **A history is remembered,** and the name of the empty text with it. -/
theorem History.records (h : History calls t) :
    t.Records ("" :: builtins ++ calls.map Prod.fst) (("", .empty) :: calls) := by
  induction h with
  | initial => simpa using records_initial
  | intern h hs ih =>
    have hrec := ih.intern hs
    simpa only [List.map_append, List.map_cons, List.map_nil, List.append_assoc,
      List.cons_append] using hrec
  | internPath h hp ih =>
    obtain ⟨hlen, hrec⟩ := ih.mapM_intern hp
    have hfst : ((Path.split _).zip _).map Prod.fst = Path.split _ :=
      List.map_fst_zip (Nat.le_of_eq hlen.symm)
    simpa only [List.map_append, hfst, List.append_assoc, List.cons_append] using hrec

theorem Reachable.wellFormed (h : t.Reachable) : t.WellFormed := by
  obtain ⟨calls, h⟩ := h
  exact h.records.wellFormed

theorem Reachable.count_eq (h : t.Reachable) : t.count = t.texts.length := by
  obtain ⟨calls, h⟩ := h
  exact h.records.count_eq

/-! ### All histories -/

/-- **A state is faithful to its history:** its shards are in order, its count is right, each name
that was given out still stands for its text, and so will the names to come. -/
structure Faithful (t : Interner) (calls : List (String × Name)) : Prop where
  /-- In each shard, the slots by text and the texts by slot are inverse to each other. -/
  inverse : ∀ (k : Fin Name.shardCount) (s : String) (i : Nat),
    (t.shard k).slots[s]? = some i ↔ (t.shard k).strings[i]? = some s
  nodup : ∀ k : Fin Name.shardCount, (t.shard k).strings.toList.Nodup
  homed : ∀ (k : Fin Name.shardCount), ∀ s ∈ (t.shard k).strings, shardOf s = k
  slots_le : ∀ (k : Fin Name.shardCount) (i : Nat), i < (t.shard k).strings.size → i ≤ Name.maxSlot
  /-- The count is the number of different texts. -/
  size_eq : t.size = ("" :: builtins ++ calls.map Prod.fst).toFinset.card
  not_isEmpty : t.isEmpty = false
  lookup : ∀ c ∈ calls, t.lookup c.2 = .ok c.1
  name_eq_iff : ∀ c ∈ calls, ∀ d ∈ calls, c.2 = d.2 ↔ c.1 = d.1
  intern_empty : Interner.intern "" t = (.ok .empty, t)
  /-- Naming a text that is stored changes nothing. -/
  intern_of_mem : ∀ s ∈ t.texts, ∃ n, Interner.intern s t = (.ok n, t)
  /-- Any other text gets a name that stands for it, unless its shard is full. -/
  intern_total : ∀ s, (∃ n t', Interner.intern s t = (.ok n, t') ∧ t'.lookup n = .ok s) ∨
    s ∉ t.texts ∧ (t.home s).size = Name.slotCount ∧
      Interner.intern s t = (.error (.shardFull (shardOf s) Name.slotCount), t)
  length_internPath : ∀ path names t', internPath path t = (.ok names, t') →
    names.length = (Path.split path).length

theorem Records.size_eq (h : t.Records known calls) : t.size = known.toFinset.card := by
  -- the stored texts are the known ones, each of them once
  have hsame : t.texts.toFinset = known.toFinset := by
    ext s
    rw [List.mem_toFinset, List.mem_toFinset, h.mem_texts]
  rw [← hsame, List.toFinset_card_of_nodup h.wellFormed.nodup_texts]
  exact h.count_eq

/-- **Every state is faithful to its history.** -/
theorem History.faithful (h : History calls t) : t.Faithful calls := by
  have hrec := h.records
  have hwf := hrec.wellFormed
  have hnamed : ∀ c ∈ calls, t.lookup c.2 = .ok c.1 :=
    fun c hc => hrec.named c (List.mem_cons_of_mem _ hc)
  have hempty : t.lookup .empty = .ok "" := hrec.named ("", .empty) List.mem_cons_self
  refine
    { inverse := hwf.consistent
      nodup := fun k => (hwf.consistent k).nodup
      homed := hwf.homed
      slots_le := fun k i hi => Nat.le_of_lt_succ (Nat.lt_of_lt_of_le hi (hwf.bounded k))
      size_eq := hrec.size_eq
      not_isEmpty := ?_
      lookup := hnamed
      name_eq_iff := fun c hc d hd => hwf.eq_iff_of_lookup (hnamed c hc) (hnamed d hd)
      intern_empty := hwf.intern_of_lookup hempty
      intern_of_mem := fun s hs => hwf.intern_of_mem hs
      intern_total := fun s => ?_
      length_internPath := fun path names t' hp => (hrec.mapM_intern hp).1 }
  · -- the empty text and the first built-in name are two texts
    have hcfg : "cfg" ∈ "" :: builtins := List.mem_cons_of_mem "" List.mem_cons_self
    have htwo : 1 < t.size := by
      rw [hrec.size_eq, Finset.one_lt_card]
      refine ⟨"", ?_, "cfg", ?_, by decide⟩
      · exact List.mem_toFinset.mpr List.mem_cons_self
      · exact List.mem_toFinset.mpr (List.mem_append_left _ hcfg)
    exact decide_eq_false (Nat.not_le_of_lt htwo)
  · -- a call can only fail because the home shard is full
    generalize hs : Interner.intern s t = res
    obtain ⟨answer, t'⟩ := res
    cases intern_naming hwf hs with
    | found n hn => exact Or.inl ⟨n, _, rfl, hn⟩
    | added n _ _ hn => exact Or.inl ⟨n, _, rfl, hn⟩
    | full hnone hsize => exact Or.inr ⟨hwf.find?_eq_none_iff.mp hnone, hsize, rfl⟩

/-- A new text, and then a path of that text and a built-in name. -/
theorem faithful_tool_path :
    let calls : List (String × Name) :=
      [("tool", ⟨2147483649⟩), ("tool", ⟨2147483649⟩), ("skip", ⟨4026531840⟩)]
    let t := (Interner.internPath "tool::skip" (Interner.intern "tool" initial).2).2
    History calls t ∧ t.Faithful calls := by
  have htool : Interner.intern "tool" initial =
      (.ok ⟨2147483649⟩, (Interner.intern "tool" initial).2) :=
    InternM.eq_of_answer (by decide +kernel)
  have hpath : Interner.internPath "tool::skip" (Interner.intern "tool" initial).2 =
      (.ok [⟨2147483649⟩, ⟨4026531840⟩],
        (Interner.internPath "tool::skip" (Interner.intern "tool" initial).2).2) :=
    InternM.eq_of_answer (by decide +kernel)
  have hsplit : Path.split "tool::skip" = ["tool", "skip"] := by decide +kernel
  intro calls t
  have h : History calls t := by
    have := (History.initial.intern htool).internPath hpath
    rwa [hsplit] at this
  exact ⟨h, History.faithful h⟩

end Interner

end ItemAttrs
