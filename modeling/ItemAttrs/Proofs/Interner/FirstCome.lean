import ItemAttrs.Proofs.Interner.History

/-!
# First come, first numbered

Where a text is stored can be told from the texts that have been named so far, in order: it is in
its home shard, behind the texts of that shard that were named before it for the first time. So the
state of an interner is a function of these texts, and even of those of each shard alone
(`FirstCome`).

* `arrivals` are the texts of a shard in the order in which they come first, and
  `Interner.Arranged` says that the shards hold just these: `Arranged.intern` is one call,
  `Arranged.mapM_intern` a run of calls, `arranged_initial` the start;
* `Arranged.slot_eq`: the slot of a name is the place of its text;
* `Arranged.exists_run`: a run succeeds as long as there are slots for all arrivals;
* `Arranged.unique`: shards with the same arrivals make the same state.
-/

namespace ItemAttrs

/-! ### First occurrences -/

section FirstOccurrences

variable {α : Type} [DecidableEq α]

/-- Occurrences that do not count may be dropped before or after. -/
theorem eraseDups_filter (p : α → Bool) (l : List α) :
    (l.filter p).eraseDups = l.eraseDups.filter p := by
  -- dropping the first element and all its copies leaves a shorter list
  induction hn : l.length using Nat.strongRecOn generalizing l with
  | ind n ih =>
    cases l with
    | nil => rfl
    | cons a l =>
      have hlt : (l.filter fun b => !b == a).length < n :=
        hn ▸ Nat.lt_succ_of_le (List.length_filter_le _ l)
      have htail := ih _ hlt (l.filter fun b => !b == a) rfl
      rw [List.eraseDups_cons, List.filter_cons, List.filter_cons, ← htail, List.filter_filter]
      split
      · rw [List.eraseDups_cons, List.filter_filter]
        simp only [Bool.and_comm]
      · next hp =>
        -- if the first element does not count, its copies do not either
        have hcopies : ∀ b ∈ l, (p b && !b == a) = p b := by
          intro b _
          by_cases hb : b = a
          · simp [hb, hp]
          · simp [hb]
        rw [List.filter_congr hcopies]

/-- **First occurrences are in the order** in which the elements come first. -/
theorem idxOf_eraseDups_lt_iff {p : α → Bool} {a b : α} (ha : p a = true) (hb : p b = true)
    (l : List α) :
    (l.filter p).eraseDups.idxOf a < (l.filter p).eraseDups.idxOf b ↔ l.idxOf a < l.idxOf b := by
  induction l generalizing p with
  | nil => rfl
  | cons c l ih =>
    rw [List.filter_cons]
    split
    · -- the first element counts; if it is neither of the two, they are compared behind it
      rw [List.eraseDups_cons, List.filter_filter]
      have hne : ∀ {d}, c ≠ d → p d = true → ((!d == c) && p d) = true := by
        intro d hd hp
        simp [Ne.symm hd, hp]
      by_cases hca : c = a
      · subst hca
        by_cases hcb : c = b
        · simp [hcb]
        · simp [hcb]
      · by_cases hcb : c = b
        · simp [hcb]
        · simpa [List.idxOf_cons, hca, hcb] using ih (hne hca ha) (hne hcb hb)
    · next hc =>
      -- an element that does not count is neither of the two
      have hca : c ≠ a := fun h => hc (h ▸ ha)
      have hcb : c ≠ b := fun h => hc (h ▸ hb)
      simpa [List.idxOf_cons, hca, hcb] using ih ha hb

end FirstOccurrences

/-! ### The texts of a shard -/

/-- **The arrivals at a shard:** the texts that belong to it, each where it comes first. -/
def arrivals (k : Fin Name.shardCount) (texts : List String) : List String :=
  (texts.filter fun s => shardOf s = k).eraseDups

section Arrivals

variable {k : Fin Name.shardCount} {s r : String} {xs ys : List String}

/-- Of further texts, those arrive that have not arrived before. -/
theorem arrivals_append (k : Fin Name.shardCount) (xs ys : List String) :
    arrivals k (xs ++ ys) = arrivals k xs ++ (arrivals k ys).filter fun s => s ∉ arrivals k xs := by
  unfold arrivals
  rw [List.filter_append, List.eraseDups_append, List.removeAll,
    eraseDups_filter _ (ys.filter fun s => shardOf s = k)]
  simp only [List.elem_eq_mem, List.mem_eraseDups, decide_not]

theorem arrivals_concat (k : Fin Name.shardCount) (xs : List String) (s : String) :
    arrivals k (xs ++ [s]) =
      if shardOf s = k ∧ s ∉ arrivals k xs then arrivals k xs ++ [s] else arrivals k xs := by
  have hsingle : arrivals k [s] = if shardOf s = k then [s] else [] := by
    rw [arrivals, List.filter_singleton]
    by_cases hk : shardOf s = k
    · simp only [hk]
      rfl
    · simp only [hk]
      rfl
  rw [arrivals_append, hsingle]
  by_cases hk : shardOf s = k
  · by_cases hs : s ∈ arrivals k xs
    · simp [hk, hs]
    · simp [hk, hs]
  · simp [hk]

/-- Texts that belong to different shards do not arrive at one shard, so their order is not seen. -/
theorem arrivals_swap (h : shardOf s ≠ shardOf r) (k : Fin Name.shardCount) (xs ys : List String) :
    arrivals k (xs ++ s :: r :: ys) = arrivals k (xs ++ r :: s :: ys) := by
  unfold arrivals
  congr 1
  by_cases hs : shardOf s = k
  · have hr : shardOf r ≠ k := fun hr => h (hs.trans hr.symm)
    simp [hs, hr]
  · simp [List.filter_cons, hs]

theorem idxOf_arrivals_lt_iff (h : shardOf s = shardOf r) (xs : List String) :
    (arrivals (shardOf s) xs).idxOf s < (arrivals (shardOf s) xs).idxOf r ↔
      xs.idxOf s < xs.idxOf r :=
  idxOf_eraseDups_lt_iff (by simp) (by simp [h]) xs

end Arrivals

/-! ### The shards of an interner -/

/-- The texts of a shard determine the shard. -/
theorem Shard.Consistent.ext {sh sh' : Shard} (h : sh.Consistent) (h' : sh'.Consistent)
    (heq : sh.strings = sh'.strings) : sh = sh' := by
  have hslots : sh.slots = sh'.slots := by
    apply Std.ExtTreeMap.ext_getElem?
    intro s
    apply Option.ext
    intro i
    exact (h s i).trans (heq ▸ (h' s i).symm)
  cases sh
  cases sh'
  cases heq
  cases hslots
  rfl

namespace Interner

variable {t t' : Interner} {s : String} {n m : Name} {known known' texts : List String}
  {names : List Name} {calls calls' : List (String × Name)}

/-- **Every shard holds its arrivals,** in their order. -/
def Arranged (t : Interner) (known : List String) : Prop :=
  ∀ k, (t.shard k).strings.toList = arrivals k known

theorem arranged_initial : initial.Arranged ("" :: builtins) := by
  unfold Arranged
  decide +kernel

theorem Arranged.find?_eq_none_iff (h : t.Arranged known) (hwf : t.WellFormed) :
    (t.home s).find? s = none ↔ s ∉ arrivals (shardOf s) known := by
  rw [home_eq_shard, (hwf.consistent _).find?_eq_none_iff, ← h, Array.mem_toList_iff]

/-- **One call.** A new text goes behind all others of its shard, and nothing else moves. -/
theorem Arranged.intern (h : t.Arranged known) (hwf : t.WellFormed)
    (hs : intern s t = (.ok n, t')) : t'.Arranged (known ++ [s]) := by
  intro k
  rw [arrivals_concat]
  cases intern_naming hwf hs with
  | found _ hn =>
    have hmem : s ∈ arrivals (shardOf s) known := by
      rw [← h, ← (hwf.lookup_eq_ok_iff.mp hn).1, Array.mem_toList_iff]
      exact Array.mem_of_getElem? (lookup_eq_ok.mp hn)
    rw [if_neg, h k]
    rintro ⟨rfl, hnew⟩
    exact hnew hmem
  | added _ hnone _ _ =>
    have hnew := (h.find?_eq_none_iff hwf).mp hnone
    change ((t.add s).shard k).strings.toList = _
    rw [shard_add]
    by_cases hk : shardOf s = k
    · subst hk
      rw [if_pos rfl, if_pos ⟨rfl, hnew⟩, ← h, home_eq_shard]
      exact Array.toList_push
    · rw [if_neg hk, if_neg fun hnot => hk hnot.1, h k]

/-- **A run of calls.** -/
theorem Arranged.mapM_intern (h : t.Arranged known) (ht : t.Records known calls)
    (hm : (texts.mapM Interner.intern) t = (.ok names, t')) : t'.Arranged (known ++ texts) := by
  induction texts generalizing t known calls names with
  | nil =>
    cases hm
    rwa [List.append_nil]
  | cons s texts ih =>
    rw [List.mapM_cons] at hm
    obtain ⟨n, t₁, hs, hm⟩ := InternM.exists_of_bind_eq_ok hm
    obtain ⟨ns, t₂, hns, hm⟩ := InternM.exists_of_bind_eq_ok hm
    cases hm
    have htail := ih (h.intern ht.wellFormed hs) (ht.intern hs) hns
    rwa [List.append_assoc] at htail

/-- **The slot of a name** is the place of its text among the arrivals. -/
theorem Arranged.slot_eq (h : t.Arranged known) (hwf : t.WellFormed) (hn : t.lookup n = .ok s) :
    n.shard = shardOf s ∧ n.slot = (arrivals (shardOf s) known).idxOf s := by
  have hshard := (hwf.lookup_eq_ok_iff.mp hn).1
  refine ⟨hshard, ?_⟩
  have hslot := lookup_eq_ok.mp hn
  have hnodup := (hwf.consistent n.shard).nodup
  rw [← Array.getElem?_toList] at hslot
  rw [← hshard, ← h]
  -- no text is in a shard twice, so the slot is the first one with the text
  obtain ⟨hlt, hget⟩ := List.getElem?_eq_some_iff.mp hslot
  rw [← hget, hnodup.idxOf_getElem]

theorem Arranged.ofParts_eq (h : t.Arranged known) (hwf : t.WellFormed)
    (hn : t.lookup n = .ok s) :
    Name.ofParts (shardOf s) ((arrivals (shardOf s) known).idxOf s) = .ok n := by
  obtain ⟨hshard, hslot⟩ := h.slot_eq hwf hn
  rw [Name.ofParts_eq_ok_iff]
  exact ⟨congrArg Fin.val hshard, hslot⟩

/-- **A run succeeds** if there are slots for all arrivals. -/
theorem Arranged.exists_run (h : t.Arranged known) (ht : t.Records known calls)
    (hroom : ∀ k, (arrivals k (known ++ texts)).length ≤ Name.slotCount) :
    ∃ names t', (texts.mapM Interner.intern) t = (.ok names, t') := by
  generalize hm : (texts.mapM Interner.intern) t = res
  obtain ⟨answer, t'⟩ := res
  cases answer with
  | ok names => exact ⟨names, t', rfl⟩
  | error cause =>
    -- the text that fails would have been one more arrival at a full shard
    obtain ⟨before, s, after, names, t₁, rfl, hbefore, hs⟩ := InternM.exists_of_mapM_eq_error hm
    have ht₁ := (ht.mapM_intern hbefore).2
    have h₁ := h.mapM_intern ht hbefore
    cases intern_naming ht₁.wellFormed hs with
    | full hnone hfull =>
      have hnew := (h₁.find?_eq_none_iff ht₁.wellFormed).mp hnone
      have hlen : (arrivals (shardOf s) (known ++ before)).length = Name.slotCount := by
        rw [← h₁, Array.length_toList, ← home_eq_shard]
        exact hfull
      have hsplit : known ++ (before ++ s :: after) = known ++ before ++ [s] ++ after := by simp
      have hle := hroom (shardOf s)
      rw [hsplit, arrivals_append, arrivals_concat, if_pos ⟨rfl, hnew⟩, List.length_append,
        List.length_append, hlen, List.length_singleton] at hle
      omega

theorem Arranged.room (h : t.Arranged known) (hwf : t.WellFormed) (k : Fin Name.shardCount) :
    (arrivals k known).length ≤ Name.slotCount := by
  rw [← h, Array.length_toList]
  exact hwf.bounded k

/-- **Shards with the same arrivals** make the same state. -/
theorem Arranged.unique (h : t.Arranged known) (ht : t.Records known calls)
    (h' : t'.Arranged known') (ht' : t'.Records known' calls')
    (hsame : ∀ k, arrivals k known = arrivals k known') : t = t' := by
  have hshards : t.shards = t'.shards := by
    apply Vector.ext
    intro k hk
    have hstrings : (t.shard ⟨k, hk⟩).strings = (t'.shard ⟨k, hk⟩).strings := by
      rw [← Array.toList_inj, h, h', hsame]
    exact (ht.wellFormed.consistent ⟨k, hk⟩).ext (ht'.wellFormed.consistent ⟨k, hk⟩) hstrings
  -- the count is the number of the texts in the shards
  have hcount : t.count = t'.count := by
    rw [ht.count_eq, ht'.count_eq, texts, texts, hshards]
  cases t
  cases t'
  cases hshards
  cases hcount
  rfl

/-! ### All runs -/

/-- All texts that have been named when `texts` have been named from the start on: the empty text
and the built-in names come first. -/
def seen (texts : List String) : List String := "" :: builtins ++ texts

/-- **The same run in other words:** naming `texts'` succeeds, too, leads to the same state, and
gives the same names to the same texts. -/
def Repeats (t : Interner) (texts : List String) (names : List Name) (texts' : List String) :
    Prop :=
  ∃ names', (texts'.mapM Interner.intern) initial = (.ok names', t) ∧
    ∀ c ∈ texts.zip names, ∀ d ∈ texts'.zip names', c.1 = d.1 → c.2 = d.2

/-- **Numbering by arrival.** The names given out and the state depend on nothing but the arrivals
at each shard. -/
structure FirstCome (t : Interner) (texts : List String) (names : List Name) : Prop where
  /-- A shard holds its arrivals, in their order. -/
  strings_eq : ∀ k, (t.shard k).strings.toList = arrivals k (seen texts)
  length_eq : names.length = texts.length
  /-- The name of a text is put together from its shard and its place among the arrivals. -/
  named : ∀ c ∈ texts.zip names,
    Name.ofParts (shardOf c.1) ((arrivals (shardOf c.1) (seen texts)).idxOf c.1) = .ok c.2
  /-- Naming one of the texts again, or one of those at the start, gives this name, too. -/
  renamed : ∀ s ∈ seen texts, ∃ n, Interner.intern s t = (.ok n, t) ∧
    Name.ofParts (shardOf s) ((arrivals (shardOf s) (seen texts)).idxOf s) = .ok n
  /-- Only the arrivals at each shard matter. -/
  repeats : ∀ texts', (∀ k, arrivals k texts = arrivals k texts') → t.Repeats texts names texts'
  /-- The order of texts that belong to different shards does not matter. -/
  swap : ∀ before s r after, texts = before ++ s :: r :: after → shardOf s ≠ shardOf r →
    t.Repeats texts names (before ++ r :: s :: after)
  /-- Names of one shard are in the order in which their texts came first. -/
  lt_iff : ∀ n m s r, t.lookup n = .ok s → t.lookup m = .ok r → n.shard = m.shard →
    (n < m ↔ (seen texts).idxOf s < (seen texts).idxOf r)

theorem arrivals_seen {texts' : List String} (h : ∀ k, arrivals k texts = arrivals k texts')
    (k : Fin Name.shardCount) : arrivals k (seen texts) = arrivals k (seen texts') := by
  rw [seen, seen, arrivals_append, arrivals_append, h]

/-- **Numbering is first come, first numbered,** in each shard on its own. -/
theorem first_come (h : (texts.mapM Interner.intern) initial = (.ok names, t)) :
    t.FirstCome texts names := by
  obtain ⟨hlength, hrec⟩ := records_initial.mapM_intern h
  have harr : t.Arranged (seen texts) := arranged_initial.mapM_intern records_initial h
  have hwf := hrec.wellFormed
  have hlookup : ∀ c ∈ texts.zip names, t.lookup c.2 = .ok c.1 :=
    fun c hc => hrec.named c (List.mem_append_right _ hc)
  have hrepeats : ∀ texts', (∀ k, arrivals k texts = arrivals k texts') →
      t.Repeats texts names texts' := by
    intro texts' hsame
    have hroom : ∀ k, (arrivals k (seen texts')).length ≤ Name.slotCount := by
      intro k
      rw [← arrivals_seen hsame]
      exact harr.room hwf k
    obtain ⟨names', t', h'⟩ := arranged_initial.exists_run records_initial hroom
    have harr' : t'.Arranged (seen texts') := arranged_initial.mapM_intern records_initial h'
    have hrec' := (records_initial.mapM_intern h').2
    obtain rfl : t = t' := harr.unique hrec harr' hrec' (arrivals_seen hsame)
    -- in one state there is only one name for a text
    refine ⟨names', h', fun c hc d hd heq => ?_⟩
    have hd' : t.lookup d.2 = .ok d.1 := hrec'.named d (List.mem_append_right _ hd)
    exact hwf.eq_of_lookup (hlookup c hc) (heq ▸ hd')
  refine
    { strings_eq := harr
      length_eq := hlength
      named := fun c hc => harr.ofParts_eq hwf (hlookup c hc)
      renamed := fun s hs => ?_
      repeats := hrepeats
      swap := ?_
      lt_iff := ?_ }
  · obtain ⟨n, hn⟩ := hwf.intern_of_mem ((hrec.mem_texts s).mpr hs)
    exact ⟨n, hn, harr.ofParts_eq hwf (intern_naming hwf hn).lookup_self⟩
  · rintro before s r after rfl hne
    exact hrepeats _ fun k => arrivals_swap hne k before after
  · intro n m s r hn hm hshard
    obtain ⟨hns, hnslot⟩ := harr.slot_eq hwf hn
    obtain ⟨hmr, hmslot⟩ := harr.slot_eq hwf hm
    -- both slots are places among the arrivals at one shard
    have hsr : shardOf s = shardOf r := by rw [← hns, ← hmr, hshard]
    rw [Name.lt_iff_of_shard_eq hshard, hnslot, hmslot, ← hsr, idxOf_arrivals_lt_iff hsr]

/-- `q` and `a` belong to one shard and `b` to another one, so `q` comes before `a` wherever `b`
stands. -/
theorem first_come_three :
    let names : List Name := [⟨268435459⟩, ⟨536870913⟩, ⟨268435460⟩, ⟨268435459⟩]
    let t := ((["q", "b", "a", "q"].mapM Interner.intern) initial).2
    (["q", "b", "a", "q"].mapM Interner.intern) initial = (.ok names, t) ∧
      t.FirstCome ["q", "b", "a", "q"] names ∧
      t.Repeats ["q", "b", "a", "q"] names ["b", "q", "a"] ∧
      (⟨268435459⟩ : Name) < ⟨268435460⟩ := by
  intro names t
  have hrun : (["q", "b", "a", "q"].mapM Interner.intern) initial = (.ok names, t) :=
    InternM.eq_of_answer (by decide +kernel)
  have h : t.FirstCome ["q", "b", "a", "q"] names := first_come hrun
  have hq : t.lookup ⟨268435459⟩ = .ok "q" := by decide +kernel
  have ha : t.lookup ⟨268435460⟩ = .ok "a" := by decide +kernel
  refine ⟨hrun, h, h.repeats _ (by decide +kernel), ?_⟩
  rw [h.lt_iff _ _ _ _ hq ha (by decide)]
  decide +kernel

end Interner

end ItemAttrs
