import ItemAttrs.Proofs.Interner.Linearization

/-!
# Threads that name the same texts

In general the slots that texts get depend on the schedule. They do not if all threads name
the same texts in the same order (`Shared.interning_agrees`): a thread comes to a text only
after the texts before it have been stored, by itself or by another, so the store always
holds what one thread would have stored for a first part of the list.

The serial run carries this as `Shared.Aligned`: the store is that of `names.length` texts
named by one thread, and each thread has come no further (`Worker.At`). A thread that is
behind finds its text stored; one that has come as far as any names the next text for all.
-/

namespace ItemAttrs

/-! ### Runs of calls, in two parts -/

namespace InternM

variable {α β : Type} {f : α → InternM β} {xs ys : List α} {as bs cs : List β}
  {t t₁ t₂ : Interner} {cause : Fault}

theorem mapM_append_of_ok (hx : (xs.mapM f) t = (.ok as, t₁)) (hy : (ys.mapM f) t₁ = (.ok bs, t₂)) :
    ((xs ++ ys).mapM f) t = (.ok (as ++ bs), t₂) := by
  rw [List.mapM_append, bind_of_ok hx, bind_of_ok hy]
  rfl

theorem mapM_append_of_error (hx : (xs.mapM f) t = (.ok as, t₁))
    (hy : (ys.mapM f) t₁ = (.error cause, t₂)) :
    ((xs ++ ys).mapM f) t = (.error cause, t₂) := by
  rw [List.mapM_append, bind_of_ok hx, bind_of_error hy]

theorem exists_of_mapM_append (h : ((xs ++ ys).mapM f) t = (.ok cs, t₂)) :
    ∃ as bs t₁, (xs.mapM f) t = (.ok as, t₁) ∧ (ys.mapM f) t₁ = (.ok bs, t₂) ∧ cs = as ++ bs := by
  rw [List.mapM_append] at h
  obtain ⟨as, t₁, hx, h⟩ := exists_of_bind_eq_ok h
  obtain ⟨bs, t₃, hy, h⟩ := exists_of_bind_eq_ok h
  cases h
  exact ⟨as, bs, t₁, hx, hy, rfl⟩

theorem mapM_singleton_of_ok {x : α} {a : β} (h : f x t = (.ok a, t₁)) :
    ([x].mapM f) t = (.ok [a], t₁) := by
  rw [List.mapM_cons, bind_of_ok h]
  rfl

theorem mapM_cons_of_error {x : α} (h : f x t = (.error cause, t₁)) (ys : List α) :
    ((x :: ys).mapM f) t = (.error cause, t₁) := by
  rw [List.mapM_cons, bind_of_error h]

end InternM

/-! ### One thread among others that name the same texts -/

/-- **How far a thread has come** that names `texts`, when the first of them have the names
`names` in the store `t`: it has been given some of these, or has failed at the text after
them. -/
inductive Worker.At (texts : List String) (names : List Name) (t : Interner) : Worker → Prop where
  | ready (p : Nat) (hp : p ≤ names.length) :
      At texts names t ⟨(texts.drop p).map .intern, .ready, (names.take p).map .name⟩
  | failed {text : String} {rest : List String} {cause : Fault}
      (hnext : texts.drop names.length = text :: rest)
      (hfull : Interner.intern text t = (.error cause, t)) :
      At texts names t ⟨rest.map .intern, .failed cause, names.map .name⟩

section Aligned

variable {t store store' : Interner} {texts known rest : List String} {text : String}
  {names names' : List Name} {calls : List (String × Name)} {n : Name} {w : Worker} {cause : Fault}

/-- **The store of one thread** that has named the first of `texts` and got `names`. -/
structure Interner.After (t : Interner) (texts : List String) (names : List Name)
    (store : Interner) : Prop where
  length_le : names.length ≤ texts.length
  run : ((texts.take names.length).mapM Interner.intern) t = (.ok names, store)

namespace Interner

theorem after_start (t : Interner) (texts : List String) : t.After texts [] t :=
  ⟨Nat.zero_le _, rfl⟩

theorem After.records (h : t.After texts names store) (ht : t.Records known calls) :
    store.Records (known ++ texts.take names.length)
      (calls ++ (texts.take names.length).zip names) :=
  (ht.mapM_intern h.run).2

theorem After.intern_of_lt (h : t.After texts names store) (ht : t.Records known calls) {p : Nat}
    (hlt : p < texts.length) (hp : p < names.length) :
    Interner.intern texts[p] store = (.ok names[p], store) := by
  -- the text is stored, under the name that it was given before
  have hrec := h.records ht
  have hzip : p < ((texts.take names.length).zip names).length := by
    rw [List.length_zip, List.length_take]
    omega
  have hpair : ((texts.take names.length).zip names)[p] = (texts[p], names[p]) := by
    rw [List.getElem_zip, List.getElem_take]
  have hmem : (texts[p], names[p]) ∈ (texts.take names.length).zip names :=
    hpair ▸ List.getElem_mem hzip
  have hlookup : store.lookup names[p] = .ok texts[p] :=
    hrec.named (texts[p], names[p]) (List.mem_append_right calls hmem)
  exact hrec.wellFormed.intern_of_lookup hlookup

theorem After.take (h : t.After texts names store) (ht : t.Records known calls) (m : Nat) :
    ∃ store', t.After texts (names.take m) store' := by
  by_cases hm : m ≤ names.length
  · -- the run passed the shorter part first
    have hmlen : m ≤ texts.length := Nat.le_trans hm h.length_le
    have hsplit : texts.take names.length =
        texts.take m ++ (texts.drop m).take (names.length - m) := by
      rw [← List.take_add, Nat.add_sub_cancel' hm]
    have hrun := h.run
    rw [hsplit] at hrun
    obtain ⟨as, bs, t₁, hfirst, -, rfl⟩ := InternM.exists_of_mapM_append hrun
    have hlen : as.length = m := by
      rw [(ht.mapM_intern hfirst).1, List.length_take_of_le hmlen]
    rw [List.take_left' hlen]
    subst hlen
    exact ⟨t₁, hmlen, hfirst⟩
  · rw [List.take_of_length_le (Nat.le_of_not_le hm)]
    exact ⟨store, h⟩

/-- **One more text.** -/
theorem After.snoc (h : t.After texts names store) (hnext : texts.drop names.length = text :: rest)
    (hs : Interner.intern text store = (.ok n, store')) :
    t.After texts (names ++ [n]) store' := by
  have hlen : (names ++ [n]).length = names.length + 1 := List.length_append
  constructor
  · have hrest := congrArg List.length hnext
    rw [List.length_drop, List.length_cons] at hrest
    omega
  · rw [hlen, List.take_add, hnext]
    exact InternM.mapM_append_of_ok h.run (InternM.mapM_singleton_of_ok hs)

theorem After.run_of_error (h : t.After texts names store)
    (hnext : texts.drop names.length = text :: rest)
    (hs : Interner.intern text store = (.error cause, store')) :
    (texts.mapM Interner.intern) t = (.error cause, store') := by
  rw [← List.take_append_drop names.length texts, hnext]
  exact InternM.mapM_append_of_error h.run (InternM.mapM_cons_of_error hs rest)

theorem After.run_of_length (h : t.After texts names store) (hlen : names.length = texts.length) :
    (texts.mapM Interner.intern) t = (.ok names, store) := by
  have hrun := h.run
  rwa [hlen, List.take_length] at hrun

/-- **Nothing comes after a text that cannot be named.** -/
theorem After.length_le_of_error (h : t.After texts names store)
    (hnext : texts.drop names.length = text :: rest)
    (hs : Interner.intern text store = (.error cause, store)) (h' : t.After texts names' store') :
    names'.length ≤ names.length := by
  rw [← Nat.not_lt]
  intro hlt
  -- otherwise the longer run has the text in it, and fails
  have hshort : t.After (texts.take names'.length) names store := by
    refine ⟨?_, ?_⟩
    · rw [List.length_take_of_le h'.length_le]
      exact Nat.le_of_lt hlt
    · rw [List.take_take, Nat.min_eq_left (Nat.le_of_lt hlt)]
      exact h.run
  have hmore : (texts.take names'.length).drop names.length =
      text :: rest.take (names'.length - names.length - 1) := by
    rw [List.drop_take, hnext, ← List.take_succ_cons, Nat.sub_add_cancel (Nat.sub_pos_of_lt hlt)]
  have herror := hshort.run_of_error hmore hs
  rw [h'.run] at herror
  exact nomatch herror

theorem After.unique (h : t.After texts names store) (h' : t.After texts names' store')
    (hlen : names.length = names'.length) : names = names' ∧ store = store' := by
  have hrun := h.run
  rw [hlen, h'.run, Prod.mk.injEq, Except.ok.injEq] at hrun
  exact ⟨hrun.1.symm, hrun.2.symm⟩

end Interner

namespace Worker

theorem At.snoc (hw : w.At texts names store) (hnext : texts.drop names.length = text :: rest)
    (hs : Interner.intern text store = (.ok n, store')) : w.At texts (names ++ [n]) store' := by
  cases hw with
  | ready p hp =>
    have htake : (names ++ [n]).take p = names.take p := List.take_append_of_le_length hp
    rw [← htake]
    refine .ready p ?_
    rw [List.length_append]
    exact Nat.le_add_right_of_le hp
  | failed hnext' hfull =>
    -- no thread has failed at a text that can be named
    rw [hnext, List.cons.injEq] at hnext'
    rw [← hnext'.1, hs] at hfull
    exact nomatch hfull

/-- **A whole call** of one of the threads. The other threads stay where they are. -/
theorem At.serve (h : t.After texts names store) (ht : t.Records known calls)
    (hw : w.At texts names store) :
    ∃ names', t.After texts names' (w.serve store).2 ∧
      (w.serve store).1.At texts names' (w.serve store).2 ∧
      ∀ v : Worker, v.At texts names store → v.At texts names' (w.serve store).2 := by
  cases hw with
  | failed hnext hfull => exact ⟨names, h, .failed hnext hfull, fun _ hv => hv⟩
  | ready p hp =>
    cases hdrop : texts.drop p with
    | nil =>
      -- the thread has been given all names
      refine ⟨names, h, ?_, fun _ hv => hv⟩
      have hready : At texts names store ⟨(texts.drop p).map .intern, .ready, _⟩ := .ready p hp
      rw [hdrop] at hready
      exact hready
    | cons text rest =>
      have hplt : p < texts.length := by
        have hlen := congrArg List.length hdrop
        rw [List.length_drop, List.length_cons] at hlen
        omega
      have hrest : rest = texts.drop (p + 1) := by
        rw [← List.drop_drop, hdrop]
        rfl
      rw [List.map_cons, serve_intern]
      by_cases hlt : p < names.length
      · -- the thread is behind: its text has a name
        have htext : text = texts[p] := by
          rw [List.drop_eq_getElem_cons hplt, List.cons.injEq] at hdrop
          exact hdrop.1.symm
        have hs : Interner.intern text store = (.ok names[p], store) := by
          rw [htext]
          exact h.intern_of_lt ht hplt hlt
        rw [hs]
        refine ⟨names, h, ?_, fun _ hv => hv⟩
        have hready : At texts names store ⟨(texts.drop (p + 1)).map .intern, .ready, _⟩ :=
          .ready (p + 1) hlt
        rw [List.take_add_one, List.getElem?_eq_getElem hlt, List.map_append, ← hrest] at hready
        exact hready
      · -- the thread has come as far as any
        obtain rfl : p = names.length := Nat.le_antisymm hp (Nat.le_of_not_lt hlt)
        generalize hs : Interner.intern text store = res
        obtain ⟨answer, store'⟩ := res
        cases answer with
        | ok n =>
          refine ⟨names ++ [n], h.snoc hdrop hs, ?_, fun v hv => hv.snoc hdrop hs⟩
          have hlen : (names ++ [n]).length = names.length + 1 := List.length_append
          have hready : At texts (names ++ [n]) store'
              ⟨(texts.drop (names.length + 1)).map .intern, .ready, _⟩ :=
            .ready (names.length + 1) (Nat.le_of_eq hlen.symm)
          rw [← hrest, ← hlen, List.take_length, List.map_append] at hready
          rw [List.take_length]
          exact hready
        | error cause =>
          -- the home shard of the text is full, and the thread ends here
          have hsame : store' = store := by
            cases Interner.intern_naming (h.records ht).wellFormed hs with
            | full _ _ => rfl
          subst hsame
          refine ⟨names, h, ?_, fun _ hv => hv⟩
          rw [List.take_length]
          exact .failed hdrop hs

theorem At.exists_answers (hw : w.At texts names store) :
    ∃ m, w.answers = (names.take m).map .name := by
  cases hw with
  | ready p hp => exact ⟨p, rfl⟩
  | failed hnext hfull => exact ⟨names.length, by rw [List.take_length]⟩

/-- **The end of a thread:** it has been given all names, or has failed at the text after those
that have names. -/
theorem At.of_stopped (h : t.After texts names store) (hw : w.At texts names store)
    (hstopped : w.Stopped) :
    (names.length = texts.length ∧ w = ⟨[], .ready, names.map .name⟩) ∨
      ∃ text rest cause, texts.drop names.length = text :: rest ∧
        Interner.intern text store = (.error cause, store) ∧
        w = ⟨rest.map .intern, .failed cause, names.map .name⟩ := by
  cases hw with
  | failed hnext hfull => exact Or.inr ⟨_, _, _, hnext, hfull, rfl⟩
  | ready p hp =>
    left
    rcases hstopped with hfinished | ⟨cause, hstage⟩
    · obtain ⟨-, hcalls⟩ := (finished_iff _).mp hfinished
      have hdrop : texts.drop p = [] := List.map_eq_nil_iff.mp hcalls
      have hlen : texts.length ≤ p := List.drop_eq_nil_iff.mp hdrop
      have heq : names.length = texts.length :=
        Nat.le_antisymm h.length_le (Nat.le_trans hlen hp)
      obtain rfl : p = names.length := Nat.le_antisymm hp (heq ▸ hlen)
      rw [hdrop, List.take_length]
      exact ⟨heq, rfl⟩
    · exact nomatch hstage

/-- **Threads that have stopped have come to the same,** even in two different runs. -/
theorem At.unique {w' : Worker} (h : t.After texts names store) (hw : w.At texts names store)
    (hstopped : w.Stopped) (h' : t.After texts names' store') (hw' : w'.At texts names' store')
    (hstopped' : w'.Stopped) : store = store' ∧ w = w' := by
  rcases hw.of_stopped h hstopped with ⟨hlen, rfl⟩ | ⟨text, rest, cause, hnext, hfull, rfl⟩
  · rcases hw'.of_stopped h' hstopped' with ⟨hlen', rfl⟩ |
      ⟨text', rest', cause', hnext', hfull', rfl⟩
    · obtain ⟨rfl, rfl⟩ := h.unique h' (hlen.trans hlen'.symm)
      exact ⟨rfl, rfl⟩
    · -- one run would both succeed and fail
      have hrun := h.run_of_length hlen
      rw [h'.run_of_error hnext' hfull'] at hrun
      exact nomatch hrun
  · rcases hw'.of_stopped h' hstopped' with ⟨hlen', rfl⟩ |
      ⟨text', rest', cause', hnext', hfull', rfl⟩
    · have hrun := h'.run_of_length hlen'
      rw [h.run_of_error hnext hfull] at hrun
      exact nomatch hrun
    · -- neither run passes the text at which the other one fails
      have hlen : names.length = names'.length :=
        Nat.le_antisymm (h'.length_le_of_error hnext' hfull' h)
          (h.length_le_of_error hnext hfull h')
      obtain ⟨rfl, rfl⟩ := h.unique h' hlen
      rw [hnext, List.cons.injEq] at hnext'
      obtain ⟨rfl, rfl⟩ := hnext'
      rw [hfull, Prod.mk.injEq, Except.error.injEq] at hfull'
      obtain ⟨rfl, -⟩ := hfull'
      exact ⟨rfl, rfl⟩

theorem At.of_run_ok (h : t.After texts names store) (hw : w.At texts names store)
    (hstopped : w.Stopped) (hrun : (texts.mapM Interner.intern) t = (.ok names', store')) :
    store = store' ∧ w = ⟨[], .ready, names'.map .name⟩ := by
  rcases hw.of_stopped h hstopped with ⟨hlen, rfl⟩ | ⟨text, rest, cause, hnext, hfull, -⟩
  · rw [h.run_of_length hlen, Prod.mk.injEq, Except.ok.injEq] at hrun
    obtain ⟨rfl, rfl⟩ := hrun
    exact ⟨rfl, rfl⟩
  · rw [h.run_of_error hnext hfull] at hrun
    exact nomatch hrun

theorem At.of_run_error (h : t.After texts names store) (hw : w.At texts names store)
    (hstopped : w.Stopped) (hrun : (texts.mapM Interner.intern) t = (.error cause, store')) :
    store = store' ∧ w.stage = .failed cause := by
  rcases hw.of_stopped h hstopped with ⟨hlen, -⟩ | ⟨text, rest, cause', hnext, hfull, rfl⟩
  · rw [h.run_of_length hlen] at hrun
    exact nomatch hrun
  · rw [h.run_of_error hnext hfull, Prod.mk.injEq, Except.error.injEq] at hrun
    obtain ⟨rfl, rfl⟩ := hrun
    exact ⟨rfl, rfl⟩

end Worker

/-! ### All threads -/

namespace Shared

variable {s s' : Shared} {i n : Nat} {schedule : List Nat}

/-- **The invariant of a serial run:** the store is that of one thread, and each of the threads
has come no further than that one. -/
structure Aligned (t : Interner) (texts : List String) (names : List Name) (s : Shared) : Prop where
  after : t.After texts names s.store
  workers : ∀ w ∈ s.workers, w.At texts names s.store

theorem aligned_start (t : Interner) (n : Nat) (texts : List String) :
    Aligned t texts [] (interning t n texts) where
  after := t.after_start texts
  workers w hw := by
    rw [List.eq_of_mem_replicate hw]
    exact .ready 0 (Nat.le_refl 0)

/-- **What one call preserves.** -/
theorem Aligned.serve (h : Aligned t texts names s) (ht : t.Records known calls) (i : Nat) :
    ∃ names', Aligned t texts names' (s.serve i) := by
  cases hi : s.workers[i]? with
  | none =>
    rw [Shared.serve, hi]
    exact ⟨names, h⟩
  | some w =>
    obtain ⟨names', hafter, hw, hothers⟩ :=
      (h.workers w (List.mem_of_getElem? hi)).serve h.after ht
    rw [serve_eq hi]
    refine ⟨names', hafter, fun v hv => ?_⟩
    rcases List.mem_or_eq_of_mem_set hv with hv | rfl
    · exact hothers v (h.workers v hv)
    · exact hw

theorem Aligned.serveAll (h : Aligned t texts names s) (ht : t.Records known calls)
    (order : List Nat) : ∃ names', Aligned t texts names' (s.serveAll order) := by
  induction order generalizing s names with
  | nil => exact ⟨names, h⟩
  | cons i order ih =>
    obtain ⟨names', h'⟩ := h.serve ht i
    rw [serveAll_cons]
    exact ih h'

/-- The answers of a thread are the first ones of the settled thread. -/
theorem Aligned.exists_answers (h : Aligned t texts names s.settled) (ht : t.Records known calls)
    (hw : w ∈ s.workers) :
    ∃ names store, t.After texts names store ∧ w.answers = names.map .name := by
  obtain ⟨m, hm⟩ := (h.workers _ (List.mem_map_of_mem hw)).exists_answers
  obtain ⟨store, hstore⟩ := h.after.take ht (min w.answers.length m)
  refine ⟨_, store, hstore, ?_⟩
  calc w.answers = w.settled.answers.take w.answers.length :=
        List.prefix_iff_eq_take.mp w.answers_prefix_settled
    _ = (names.take (min w.answers.length m)).map .name := by
        rw [hm, ← List.map_take, List.take_take]

theorem interning_eq_start (t : Interner) (n : Nat) (texts : List String) :
    interning t n texts = start t (List.replicate n (texts.map .intern)) := by
  rw [start, List.map_replicate]
  rfl

theorem length_workers_run (s : Shared) (schedule : List Nat) :
    (s.run schedule).workers.length = s.workers.length := by
  induction schedule generalizing s with
  | nil => rfl
  | cons i schedule ih =>
    rw [run_cons, ih]
    cases hi : s.workers[i]? with
    | none => rw [step, hi]
    | some w => rw [step_eq hi, List.length_set]

/-- **Every schedule keeps the threads aligned.** -/
theorem exists_aligned (ht : t.Reachable) (n : Nat) (texts : List String) (schedule : List Nat) :
    ∃ names, Aligned t texts names ((interning t n texts).run schedule).settled := by
  obtain ⟨calls, hhistory⟩ := ht
  obtain ⟨order, -, -, hserial⟩ := (interning t n texts).exists_serveAll schedule
  rw [hserial, interning_eq_start, settled_start, ← interning_eq_start]
  exact (aligned_start t n texts).serveAll hhistory.records order

theorem atRest_of_stopped {w : Worker} (h : w.Stopped) : w.AtRest := by
  rcases h with hfinished | ⟨cause, hstage⟩
  · exact Worker.atRest_of_finished hfinished
  · constructor
    · simp only [Worker.settled, hstage]
    · simp only [Worker.owed, hstage]

/-- **One thread that names the texts alone,** and is served until it stops. -/
def alone (t : Interner) (texts : List String) : Shared :=
  (interning t 1 texts).run (interning t 1 texts).fairSchedule

/-- **What holds of `n` threads that name the same texts** and have come to the state `s` in the
course of a schedule. At any time the store holds what one thread has stored after a first part
of the texts, and the threads have been given the names that one thread gets for first parts.
Threads that are served often enough stop. -/
structure Agrees (t : Interner) (n : Nat) (texts : List String) (schedule : List Nat)
    (s : Shared) : Prop where
  stored : ∃ names store, t.After texts names store ∧ s.store.shards = store.shards
  answers : ∀ w ∈ s.workers, ∃ names store, t.After texts names store ∧
    w.answers = names.map .name
  stopped : (∀ i < n, 3 * texts.length ≤ schedule.count i) → ∀ w ∈ s.workers, w.Stopped
  /-- When the threads have stopped, the shards and the count are those of one thread that names
  the texts alone, and each of the threads has come to what that one comes to. -/
  ends : (∀ w ∈ s.workers, w.Stopped) → s.store = (alone t texts).store ∧
    ∃ w, (alone t texts).workers = [w] ∧ s.workers = List.replicate n w
  /-- If all texts can be named, each thread ends with their names. -/
  named : (∀ w ∈ s.workers, w.Stopped) → ∀ names store,
    (texts.mapM Interner.intern) t = (.ok names, store) →
    s = ⟨store, List.replicate n ⟨[], .ready, names.map .name⟩⟩
  /-- If a shard is full before that, each thread fails. -/
  failed : (∀ w ∈ s.workers, w.Stopped) → ∀ cause store,
    (texts.mapM Interner.intern) t = (.error cause, store) →
    s.store = store ∧ ∀ w ∈ s.workers, w.stage = .failed cause

theorem exists_aligned_of_stopped (ht : t.Reachable) (n : Nat) (texts : List String)
    (schedule : List Nat) (h : ∀ w ∈ ((interning t n texts).run schedule).workers, w.Stopped) :
    ∃ names, Aligned t texts names ((interning t n texts).run schedule) := by
  have haligned := exists_aligned ht n texts schedule
  rwa [settled_eq_self fun w hw => atRest_of_stopped (h w hw)] at haligned

theorem length_workers_interning (t : Interner) (n : Nat) (texts : List String)
    (schedule : List Nat) : ((interning t n texts).run schedule).workers.length = n := by
  rw [length_workers_run]
  exact List.length_replicate

theorem stopped_of_served_interning (t : Interner) (n : Nat) (texts : List String)
    (schedule : List Nat) (hserved : ∀ i < n, 3 * texts.length ≤ schedule.count i) :
    ∀ w ∈ ((interning t n texts).run schedule).workers, w.Stopped := by
  rw [interning_eq_start]
  refine stopped_of_served t _ schedule fun i calls hcalls => ?_
  rw [List.getElem?_replicate, Option.ite_none_right_eq_some, Option.some.injEq] at hcalls
  obtain ⟨hi, rfl⟩ := hcalls
  rw [List.length_map]
  exact hserved i hi

theorem stopped_alone (t : Interner) (texts : List String) :
    ∀ w ∈ (alone t texts).workers, w.Stopped := by
  rw [alone, interning_eq_start]
  exact stopped_of_fairSchedule t _

/-- **Threads that name the same texts agree,** whatever the schedule. -/
theorem interning_agrees (ht : t.Reachable) (hn : 0 < n) (texts : List String)
    (schedule : List Nat) : Agrees t n texts schedule ((interning t n texts).run schedule) := by
  obtain ⟨names, haligned⟩ := exists_aligned ht n texts schedule
  have hlength := length_workers_interning t n texts schedule
  have hstop := exists_aligned_of_stopped ht n texts schedule
  have hserved := stopped_of_served_interning t n texts schedule
  generalize (interning t n texts).run schedule = s at *
  -- some thread tells what the store is, since there is one
  obtain ⟨v, hv⟩ : ∃ v, v ∈ s.workers := List.exists_mem_of_length_pos (hlength ▸ hn)
  have hreplicate : ∀ w, (∀ v ∈ s.workers, v = w) → s.workers = List.replicate n w :=
    fun w hw => List.eq_replicate_iff.mpr ⟨hlength, hw⟩
  refine
    { stored := ⟨names, _, haligned.after, rfl⟩
      answers := fun w hw => ?_
      stopped := hserved
      ends := fun hstopped => ?_
      named := fun hstopped names' store hrun => ?_
      failed := fun hstopped cause store hrun => ?_ }
  · obtain ⟨calls, hhistory⟩ := ht
    exact haligned.exists_answers hhistory.records hw
  · -- the thread that runs alone is a run of this kind, too
    obtain ⟨names', halone⟩ := exists_aligned_of_stopped ht 1 texts _ (stopped_alone t texts)
    obtain ⟨w, hw⟩ := List.length_eq_one_iff.mp (length_workers_interning t 1 texts
      (interning t 1 texts).fairSchedule)
    have hmem : w ∈ (alone t texts).workers := List.mem_of_mem_head? (by rw [alone, hw]; rfl)
    obtain ⟨names, haligned⟩ := hstop hstopped
    have hsame : ∀ v ∈ s.workers, s.store = (alone t texts).store ∧ v = w := fun v hv =>
      (haligned.workers v hv).unique haligned.after (hstopped v hv) halone.after
        (halone.workers w hmem) (stopped_alone t texts w hmem)
    exact ⟨(hsame v hv).1, w, hw, hreplicate w fun v hv => (hsame v hv).2⟩
  · obtain ⟨names, haligned⟩ := hstop hstopped
    have hsame : ∀ v ∈ s.workers, s.store = store ∧ v = ⟨[], .ready, names'.map .name⟩ :=
      fun v hv => (haligned.workers v hv).of_run_ok haligned.after (hstopped v hv) hrun
    rw [← (hsame v hv).1, ← hreplicate _ fun v hv => (hsame v hv).2]
  · obtain ⟨names, haligned⟩ := hstop hstopped
    have hsame : ∀ v ∈ s.workers, s.store = store ∧ v.stage = .failed cause :=
      fun v hv => (haligned.workers v hv).of_run_error haligned.after (hstopped v hv) hrun
    exact ⟨(hsame v hv).1, fun v hv => (hsame v hv).2⟩

/-- Two threads, of which each stores one of the texts before the other. -/
theorem interning_agrees_two :
    Interner.initial.Reachable ∧ 0 < 2 ∧
      Agrees Interner.initial 2 ["tool", "note"] [0, 0, 0, 1, 1, 1, 1, 0]
        ((interning Interner.initial 2 ["tool", "note"]).run [0, 0, 0, 1, 1, 1, 1, 0]) := by
  have hreach : Interner.initial.Reachable := ⟨[], .initial⟩
  exact ⟨hreach, Nat.two_pos, interning_agrees hreach Nat.two_pos ["tool", "note"]
    [0, 0, 0, 1, 1, 1, 1, 0]⟩

end Shared

end Aligned

end ItemAttrs
