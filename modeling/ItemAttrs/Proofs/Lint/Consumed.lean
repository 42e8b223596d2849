import Mathlib.Data.List.Forall2
import ItemAttrs.Proofs.Attr.LookUp
import ItemAttrs.Proofs.Lint.Marks

/-!
# What passes can consume by name

A pass that handles a name looks it up and marks the entry that it finds. Marks do not change
names, so whatever the passes before have marked, a name always finds the entry that it finds in
the list as it was (`Reached`). Several passes thus mark the entries that their names reach, in
whatever order and however often they run. No pass ever marks a path of several segments or a
later entry of the same name, so the check reports these unless they were used before.

* `consume_cases` is one pass, and `Consumed.consume` what it adds to those before;
* `consumed_consumeAll`: what several passes mark, by induction, from the entries as they were;
* `reportsUnreached`: what a check reports afterwards;
* `consumed_by_name` puts these together.
-/

namespace ItemAttrs

section Passes

variable {ν : Type}

/-- **The entry with index `i` is reached by some of the names:** it is the first one whose name is
this single segment. -/
def Reached (l : AttrList ν) (names : List ν) (i : Nat) : Prop :=
  ∃ n ∈ names, ∃ a, FirstNamed l n i a

/-- **What becomes of a list** when the entries reached by some names are marked. -/
structure Consumed (l : AttrList ν) (names : List ν) (l' : AttrList ν) : Prop where
  reached : ∀ i, Reached l names i → l'.items[i]? = l.items[i]?.map Attr.markUsed
  rest : ∀ i, ¬Reached l names i → l'.items[i]? = l.items[i]?

variable {l l' l'' : AttrList ν} {n : ν} {names names' : List ν} {i : Nat} {a : Attr ν}

/-- **A path of several segments, or a later entry of the same name,** is not reached. -/
theorem not_reached (ha : l.items[i]? = some a)
    (h : a.name.segments.length ≠ 1 ∨ ∃ j b, j < i ∧ l.items[j]? = some b ∧ b.name = a.name) :
    ¬Reached l names i := by
  rintro ⟨n, -, c, hfirst⟩
  obtain rfl : c = a := Option.some.inj (hfirst.entry.symm.trans ha)
  rcases h with hlength | ⟨j, b, hj, hb, hname⟩
  · exact hlength (congrArg List.length hfirst.segments_eq)
  · exact hfirst.first j b hj hb (hname ▸ hfirst.segments_eq)

/-! ### What marks leave behind -/

theorem Consumed.congr (h : Consumed l names l')
    (hiff : ∀ i, Reached l names i ↔ Reached l names' i) : Consumed l names' l' where
  reached i hi := h.reached i ((hiff i).mpr hi)
  rest i hi := h.rest i (mt (hiff i).mp hi)

theorem Consumed.unique (h : Consumed l names l') (h' : Consumed l names l'') : l' = l'' := by
  have hitems : l'.items = l''.items := by
    refine List.ext_getElem? fun i => ?_
    by_cases hi : Reached l names i
    · rw [h.reached i hi, h'.reached i hi]
    · rw [h.rest i hi, h'.rest i hi]
  exact congrArg AttrList.mk hitems

/-- Reached or not, an entry differs in nothing but its flag. -/
theorem Consumed.map_eq {β : Type} {f : Attr ν → β} (h : Consumed l names l')
    (hf : ∀ a, f a.markUsed = f a) : l'.items.map f = l.items.map f := by
  refine List.ext_getElem? fun i => ?_
  rw [List.getElem?_map, List.getElem?_map]
  by_cases hi : Reached l names i
  · rw [h.reached i hi, Option.map_map]
    congr 1
    exact funext hf
  · rw [h.rest i hi]

theorem Consumed.length_eq (h : Consumed l names l') : l'.length = l.length := by
  simpa [AttrList.length] using congrArg List.length (h.map_eq (f := Attr.name) fun _ => rfl)

theorem Consumed.usedAt_iff (h : Consumed l names l') (i : Nat) :
    UsedAt l'.items i ↔ UsedAt l.items i ∨ Reached l names i := by
  by_cases hi : Reached l names i
  · -- a name that reaches an index finds an entry there
    obtain ⟨n, hn, a, ha⟩ := id hi
    rw [UsedAt, h.reached i hi, ha.entry]
    exact iff_of_true ⟨a.markUsed, rfl, rfl⟩ (.inr hi)
  · rw [UsedAt, h.rest i hi, or_iff_left hi, UsedAt]

/-! ### The passes -/

variable [DecidableEq ν]

theorem reached_iff : Reached l names i ↔ ∃ n ∈ names, l.findIdx? n = some i := by
  simp only [Reached, AttrList.findIdx?_eq_some_iff]

/-- **One pass** marks the entry that a look-up of its name finds, if there is one. -/
theorem consume_cases (l : AttrList ν) (n : ν) :
    (∃ i a, FirstNamed l n i a ∧ l.find? n = some a ∧ l.consume n = ⟨l.items.set i a.markUsed⟩) ∨
      (l.find? n = none ∧ l.consume n = l) := by
  cases hi : l.findIdx? n with
  | none =>
    refine .inr ⟨AttrList.findIdx?_eq_none_iff.mp hi, ?_⟩
    rw [AttrList.consume, hi]
  | some i =>
    obtain ⟨a, ha⟩ := AttrList.findIdx?_eq_some_iff.mp hi
    have hfind := AttrList.find?_eq_some_iff.mpr ⟨i, ha⟩
    have hset : l.items.modify i Attr.markUsed = l.items.set i a.markUsed := by
      rw [List.modify_eq_set_getElem?, ha.entry]
      rfl
    refine .inl ⟨i, a, ha, hfind, ?_⟩
    rw [AttrList.consume, hi]
    exact congrArg AttrList.mk hset

theorem getElem?_consume (l : AttrList ν) (n : ν) (i : Nat) :
    (l.consume n).items[i]? =
      if l.findIdx? n = some i then l.items[i]?.map Attr.markUsed else l.items[i]? := by
  rcases consume_cases l n with ⟨k, a, ha, -, h⟩ | ⟨hnone, h⟩
  · rw [h, ha.findIdx?_eq]
    by_cases hk : k = i
    · subst hk
      obtain ⟨hlt, -⟩ := List.getElem?_eq_some_iff.mp ha.entry
      rw [if_pos rfl, ha.entry, List.getElem?_set_self hlt, Option.map_some]
    · rw [if_neg (fun h => hk (Option.some.inj h)), List.getElem?_set_ne hk]
  · rw [h, AttrList.findIdx?_eq_none_iff.mpr hnone, if_neg (nofun)]

/-- **What one pass adds** to those before it. It looks its name up among entries that may have
been marked, and finds what it would have found at first. -/
theorem Consumed.consume (h : Consumed l names l') (n : ν) :
    Consumed l (names ++ [n]) (l'.consume n) := by
  have hfind : l'.findIdx? n = l.findIdx? n :=
    AttrList.locate?_congr (h.map_eq fun _ => rfl) (.named n)
  have hreached : ∀ i, Reached l (names ++ [n]) i ↔ Reached l names i ∨ l.findIdx? n = some i := by
    intro i
    rw [reached_iff, reached_iff]
    simp [or_and_right, exists_or]
  constructor
  · intro i hi
    rw [getElem?_consume, hfind]
    by_cases hbefore : Reached l names i
    · -- marking an entry again makes no difference
      rw [h.reached i hbefore, Option.map_map]
      exact ite_self _
    · rw [if_pos (((hreached i).mp hi).resolve_left hbefore), h.rest i hbefore]
  · intro i hi
    obtain ⟨hbefore, hn⟩ := not_or.mp (mt (hreached i).mpr hi)
    rw [getElem?_consume, hfind, if_neg hn, h.rest i hbefore]

/-- **Several passes mark what their names reach** in the list as it was. -/
theorem consumed_consumeAll (l : AttrList ν) (names : List ν) :
    Consumed l names (l.consumeAll names) := by
  -- from the end, since the last pass runs on what the others have left
  induction names using List.reverseRecOn with
  | nil =>
    refine ⟨?_, fun i _ => rfl⟩
    rintro i ⟨n, hn, -⟩
    exact nomatch hn
  | append_singleton names n ih =>
    rw [AttrList.consumeAll, List.foldl_append]
    exact ih.consume n

end Passes

/-! ### The check afterwards -/

/-- **A check after the passes reports the entries that were unused and are not reached,** those
with the indices `is`, in this order. It comes to an end if the entries have written forms. -/
structure ReportsUnreached (l : AttrList Name) (names : List Name) (is : List Nat) : Prop where
  ascending : is.Pairwise (· < ·)
  mem_iff : ∀ i, i ∈ is ↔ i < l.length ∧ ¬UsedAt l.items i ∧ ¬Reached l names i
  reports : ∀ t ds, (checkUnused t [l.consumeAll names]).start.1 = .ok ds →
    List.Forall₂ (fun i d => ∃ a, l.items[i]? = some a ∧ reportOf t a = .ok d) is ds
  answers : ∀ t, (∀ a ∈ l.items, a.used = false → ∃ shown, a.render t = .ok shown) →
    ∃ ds, (checkUnused t [l.consumeAll names]).start.1 = .ok ds

theorem exists_mapM {α β : Type} {f : α → Except Fault β} {as : List α}
    (h : ∀ a ∈ as, ∃ b, f a = .ok b) : ∃ bs, as.mapM f = .ok bs := by
  induction as with
  | nil => exact ⟨[], rfl⟩
  | cons a as ih =>
    obtain ⟨b, hb⟩ := h a List.mem_cons_self
    obtain ⟨bs, hbs⟩ := ih fun a' ha' => h a' (List.mem_cons_of_mem a ha')
    refine ⟨b :: bs, ?_⟩
    rw [List.mapM_cons, hb, hbs]
    rfl

theorem reportsUnreached (l : AttrList Name) (names : List Name) :
    ReportsUnreached l names (unusedIndices (l.consumeAll names)) := by
  have hconsumed := consumed_consumeAll l names
  have hmem : ∀ i, i ∈ unusedIndices (l.consumeAll names) ↔
      i < l.length ∧ ¬UsedAt l.items i ∧ ¬Reached l names i := by
    intro i
    rw [mem_unusedIndices, hconsumed.usedAt_iff, not_or, ← hconsumed.length_eq, AttrList.length]
  -- an entry that is left unused is the one that was there before
  have hentries : (unusedIndices (l.consumeAll names)).map (l.items[·]?) =
      (l.consumeAll names).unused.map some := by
    rw [← map_unusedIndices]
    exact List.map_congr_left fun i hi => (hconsumed.rest i ((hmem i).mp hi).2.2).symm
  refine ⟨pairwise_unusedIndices _, hmem, fun t ds hds => ?_, fun t hrender => ?_⟩
  · rw [answer_checkUnused] at hds
    have hreports : List.Forall₂ (fun (o : Option (Attr Name)) d =>
        ∃ a, o = some a ∧ reportOf t a = .ok d) ((l.consumeAll names).unused.map some) ds := by
      rw [List.forall₂_map_left_iff]
      exact (forall₂_of_mapM hds).imp fun a d hd => ⟨a, rfl, hd⟩
    rwa [← hentries, List.forall₂_map_left_iff] at hreports
  · rw [answer_checkUnused]
    refine exists_mapM fun a ha => ?_
    have hbefore : some a ∈ (unusedIndices (l.consumeAll names)).map (l.items[·]?) := by
      rw [hentries]
      exact List.mem_map_of_mem ha
    obtain ⟨i, -, hi⟩ := List.mem_map.mp hbefore
    obtain ⟨shown, hshown⟩ := hrender a (List.mem_of_getElem? hi) (AttrList.mem_unused.mp ha).2
    exact ⟨unusedReport a shown, by rw [reportOf, hshown]; rfl⟩

/-- **What passes can consume by name.** Each of them marks the entry that its name finds, or
nothing. Together they mark the first entries of their names and change nothing else, so neither
order nor repetition matters, and a check still reports the other entries that were unused: all
those with paths of several segments, and all later entries of the same name. -/
theorem consumed_by_name (l : AttrList Name) (names : List Name) :
    (∀ (l : AttrList Name) n, (∃ i a, FirstNamed l n i a ∧ l.find? n = some a ∧
        l.consume n = ⟨l.items.set i a.markUsed⟩) ∨ (l.find? n = none ∧ l.consume n = l)) ∧
      Consumed l names (l.consumeAll names) ∧
      (∀ i, UsedAt (l.consumeAll names).items i ↔ UsedAt l.items i ∨ Reached l names i) ∧
      (∀ names', (∀ n, n ∈ names ↔ n ∈ names') → l.consumeAll names = l.consumeAll names') ∧
      ∃ is, ReportsUnreached l names is ∧ ∀ i a, l.items[i]? = some a → a.used = false →
        (a.name.segments.length ≠ 1 ∨ ∃ j b, j < i ∧ l.items[j]? = some b ∧ b.name = a.name) →
        i ∈ is := by
  have hconsumed := consumed_consumeAll l names
  have hreports := reportsUnreached l names
  refine ⟨consume_cases, hconsumed, hconsumed.usedAt_iff, fun names' hnames => ?_,
    _, hreports, fun i a ha hused h => ?_⟩
  · have hreached : ∀ i, Reached l names i ↔ Reached l names' i := by
      intro i
      simp only [Reached, hnames]
    exact (hconsumed.congr hreached).unique (consumed_consumeAll l names')
  · obtain ⟨hi, -⟩ := List.getElem?_eq_some_iff.mp ha
    have hunused : ¬UsedAt l.items i := by
      rintro ⟨b, hb, hbused⟩
      obtain rfl : b = a := Option.some.inj (hb.symm.trans ha)
      exact absurd hbused (Bool.eq_false_iff.mp hused)
    exact (hreports.mem_iff i).mpr ⟨hi, hunused, not_reached ha h⟩

/-- `#[inline::inline]` and `#[inline]` twice, of which two passes for `inline` mark one. -/
theorem consumed_by_name_duplicates :
    let inline : Name := ⟨2415919105⟩
    let cfg : Name := ⟨1073741824⟩
    let l : AttrList Name := ⟨[.new ⟨0, 17⟩ ⟨[inline, inline]⟩ .bare,
      .new ⟨18, 27⟩ (.trivial inline) .bare, .new ⟨28, 37⟩ (.trivial inline) .bare]⟩
    l.consumeAll [inline, cfg, inline] = l.consumeAll [cfg, inline] ∧
      (∀ i, UsedAt (l.consumeAll [inline, cfg, inline]).items i ↔ i = 1) ∧
      (checkUnused .initial [l.consumeAll [inline, cfg, inline]]).start.2 =
        [.began, .unused ⟨0, 17⟩ "#[inline::inline]", .unused ⟨28, 37⟩ "#[inline]",
          .finished 1 2] := by
  intro inline cfg l
  obtain ⟨-, -, hused, hsame, -⟩ := consumed_by_name l [inline, cfg, inline]
  have hunused : ∀ i, ¬UsedAt l.items i := by
    rintro i ⟨a, ha, hau⟩
    have hitems : ∀ a ∈ l.items, a.used = false := by decide +kernel
    exact nomatch (hitems a (List.mem_of_getElem? ha)).symm.trans hau
  have hinline : l.findIdx? inline = some 1 := by decide +kernel
  have hcfg : l.findIdx? cfg = none := by decide +kernel
  refine ⟨hsame _ fun n => ?_, fun i => ?_, by decide +kernel⟩
  · simp only [List.mem_cons, List.not_mem_nil]
    tauto
  · rw [hused, or_iff_right (hunused i), reached_iff]
    simp [hinline, hcfg, eq_comm]

end ItemAttrs
