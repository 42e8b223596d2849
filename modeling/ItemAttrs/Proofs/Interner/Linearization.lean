import ItemAttrs.Proofs.Interner.History
import ItemAttrs.Proofs.Interner.Progress

/-!
# Threads that share an interner

Any number of threads run their programs on one interner, and a schedule says whose section is
next. Whatever the schedule, what they get is what they would have got one call after the
other (`Shared.linearizable`), and therefore each text has one name for all of them.

The serial run of `ItemAttrs.Proofs.Interner.Serial` carries the invariant `Shared.Sound`:
the store is well-formed and counted, and each thread follows its program
(`Worker.Follows`). `Follows.serve` is what one call preserves, for the thread that makes it,
and `Follows.mono` for the others; `Sound.serveAll` is the serial run. The theorem then reads
the state between two sections off its settled form.
-/

namespace ItemAttrs

/-- **A program that looks up only names that it has been given,** of which there are `given`
when it begins. -/
def Call.Fits (given : Nat) : List Call → Prop
  | [] => True
  | .intern _ :: rest => Fits (given + 1) rest
  | .lookup k :: rest => k < given ∧ Fits given rest

namespace Interner

variable {t t' : Interner} {s : String} {answer : Except Fault Name}

/-- **One state grows into another:** its names keep their texts, and no shard shrinks. -/
structure Grows (t t' : Interner) : Prop where
  lookup : ∀ {n : Name} {s : String}, t.lookup n = .ok s → t'.lookup n = .ok s
  size_le : ∀ k : Fin Name.shardCount, (t.shard k).size ≤ (t'.shard k).size

theorem Grows.refl (t : Interner) : Grows t t := ⟨id, fun _ => Nat.le_refl _⟩

theorem size_le_add (t : Interner) (s : String) (k : Fin Name.shardCount) :
    (t.shard k).size ≤ ((t.add s).shard k).size := by
  rw [shard_add]
  split
  · next hk =>
    rw [← hk, ← home_eq_shard, Shard.size_push]
    exact Nat.le_succ _
  · exact Nat.le_refl _

theorem Naming.grows (hn : Naming t s answer t') : Grows t t' where
  lookup := hn.lookup
  size_le k := by
    cases hn with
    | found _ _ => exact Nat.le_refl _
    | added _ _ _ _ => exact size_le_add t s k
    | full _ _ => exact Nat.le_refl _

theorem Grows.size_eq (h : Grows t t') (hwf : t'.WellFormed) {k : Fin Name.shardCount}
    (hk : (t.shard k).size = Name.slotCount) : (t'.shard k).size = Name.slotCount := by
  -- a full shard stays full
  have hle : Name.slotCount ≤ (t'.shard k).size := hk ▸ h.size_le k
  exact Nat.le_antisymm (hwf.bounded k) hle

end Interner

/-! ### One thread in a serial run -/

namespace Worker

theorem names_append_name (calls : List Call) (stage : Stage) (answers : List Answer) (n : Name) :
    names ⟨calls, stage, answers ++ [.name n]⟩ = names ⟨calls, stage, answers⟩ ++ [n] := by
  simp [names]

theorem names_append_text (calls : List Call) (stage : Stage) (answers : List Answer) (s : String) :
    names ⟨calls, stage, answers ++ [.text s]⟩ = names ⟨calls, stage, answers⟩ := by
  simp [names]

/-- **A thread follows its program.** Between two calls, the calls to come are those that have no
answer yet, and look up only names that the thread will have been given by then. Its names
have texts, those of the calls that they answer, and it fails only where a shard is full. -/
structure Follows (w : Worker) (program : List Call) (t : Interner) : Prop where
  pending : w.stage = .ready → ∃ past, program = past ++ w.calls ∧ past.length = w.answers.length
  fits : w.stage = .ready → Call.Fits w.names.length w.calls
  known : ∀ n ∈ w.names, ∃ s, t.lookup n = .ok s
  named : ∀ {p : Nat} {s : String} {n : Name}, program[p]? = some (.intern s) →
    w.answers[p]? = some (.name n) → t.lookup n = .ok s
  full : ∀ {cause : Fault}, w.stage = .failed cause →
    ∃ k : Fin Name.shardCount, (t.shard k).size = Name.slotCount

variable {w : Worker} {program : List Call} {t t' : Interner}

theorem follows_start (h : Call.Fits 0 program) : (start program).Follows program t where
  pending _ := ⟨[], rfl, rfl⟩
  fits _ := h
  known := nofun
  named _ h := nomatch h
  full h := nomatch h

theorem Follows.mono (h : w.Follows program t) (hg : t.Grows t') (hwf : t'.WellFormed) :
    w.Follows program t' where
  pending := h.pending
  fits := h.fits
  known n hn := by
    obtain ⟨s, hs⟩ := h.known n hn
    exact ⟨s, hg.lookup hs⟩
  named hp ha := hg.lookup (h.named hp ha)
  full hc := by
    obtain ⟨k, hk⟩ := h.full hc
    exact ⟨k, hg.size_eq hwf hk⟩

/-- **One more answer.** The answer stands at the end, where the program has the call. -/
theorem Follows.answered {call : Call} {rest : List Call} {answers : List Answer} {a : Answer}
    (h : Follows ⟨call :: rest, .ready, answers⟩ program t)
    (hfits : Call.Fits (names ⟨rest, .ready, answers ++ [a]⟩).length rest)
    (hknown : ∀ n ∈ names ⟨rest, .ready, answers ++ [a]⟩, ∃ s, t.lookup n = .ok s)
    (hnamed : ∀ s n, call = .intern s → a = .name n → t.lookup n = .ok s) :
    Follows ⟨rest, .ready, answers ++ [a]⟩ program t := by
  obtain ⟨past, hprogram, hlen⟩ := h.pending rfl
  refine ⟨fun _ => ⟨past ++ [call], ?_, ?_⟩, fun _ => hfits, hknown, fun {p s n} hp ha => ?_, nofun⟩
  · rw [hprogram, List.append_assoc, List.singleton_append]
  · simp [hlen]
  · rcases Nat.lt_trichotomy p answers.length with hlt | heq | hgt
    · -- an answer to an earlier call
      rw [List.getElem?_append_left hlt] at ha
      exact h.named hp ha
    · -- the answer to this call, which is the first one that was pending
      subst heq
      rw [hprogram, ← hlen, List.getElem?_append_right (Nat.le_refl _), Nat.sub_self] at hp
      rw [List.getElem?_append_right (Nat.le_refl _), Nat.sub_self] at ha
      exact hnamed s n (Option.some.inj hp) (Option.some.inj ha)
    · rw [List.getElem?_append_right (Nat.le_of_lt hgt), List.getElem?_eq_none_iff.mpr] at ha
      · exact nomatch ha
      · exact Nat.le_sub_of_add_le' hgt

/-- **What a whole call preserves.** -/
theorem Follows.serve (h : w.Follows program t) (hwf : t.WellFormed) :
    (w.serve t).1.Follows program (w.serve t).2 ∧ (w.serve t).2.WellFormed ∧
      t.Grows (w.serve t).2 ∧
      (t.count = t.texts.length → (w.serve t).2.count = (w.serve t).2.texts.length) := by
  have hself : w.Follows program t ∧ t.WellFormed ∧ t.Grows t ∧
      (t.count = t.texts.length → t.count = t.texts.length) := ⟨h, hwf, .refl t, id⟩
  obtain ⟨calls, stage, answers⟩ := w
  cases stage with
  | ready =>
    cases calls with
    | nil => exact hself
    | cons call rest =>
      cases call with
      | intern s =>
        rw [serve_intern]
        generalize hs : Interner.intern s t = res
        obtain ⟨result, t'⟩ := res
        have hnaming := Interner.intern_naming hwf hs
        have hwf' := hnaming.wellFormed hwf
        have hmono := h.mono hnaming.grows hwf'
        refine ⟨?_, hwf', hnaming.grows, hnaming.count_eq⟩
        cases result with
        | ok n =>
          -- one more name, which stands for the text
          refine hmono.answered ?_ (fun m hm => ?_) (fun r m hr hm => ?_)
          · rw [names_append_name, List.length_append, List.length_singleton]
            exact h.fits rfl
          · rw [names_append_name, List.mem_append, List.mem_singleton] at hm
            rcases hm with hm | rfl
            · exact hmono.known m hm
            · exact ⟨s, hnaming.lookup_self⟩
          · cases hr
            cases hm
            exact hnaming.lookup_self
        | error cause =>
          refine ⟨nofun, nofun, hmono.known, hmono.named, fun _ => ?_⟩
          cases hnaming with
          | full _ hsize => exact ⟨shardOf s, hsize⟩
      | lookup k =>
        -- the name is one of those that the thread has been given, so it has a text
        obtain ⟨hk, hrest⟩ := h.fits rfl
        obtain ⟨s, hs⟩ := h.known _ (List.getElem_mem hk)
        have hretrieve : Call.retrieve (names ⟨rest, .ready, answers⟩) t k = .ok (.text s) := by
          have hgiven : (names ⟨rest, .ready, answers⟩)[k]? = some _ := List.getElem?_eq_getElem hk
          simp only [Call.retrieve, hgiven]
          exact congrArg (Except.map Answer.text) hs
        rw [serve_lookup, hretrieve]
        refine ⟨h.answered ?_ ?_ fun r n hcall => ?_, hself.2⟩
        · rw [names_append_text]
          exact hrest
        · rw [names_append_text]
          exact h.known
        · cases hcall
  | missed s => exact hself
  | stored n => exact hself
  | failed cause => exact hself

theorem answers_prefix_settled (w : Worker) : w.answers <+: w.settled.answers := by
  obtain ⟨calls, stage, answers⟩ := w
  cases stage with
  | stored n => exact List.prefix_append answers [.name n]
  | ready | missed _ | failed _ => exact List.prefix_refl answers

theorem finished_iff (w : Worker) : w.finished = true ↔ w.stage = .ready ∧ w.calls = [] := by
  simp [finished]

theorem settled_of_failed {w : Worker} {cause : Fault} (h : w.stage = .failed cause) :
    w.settled = w := by
  simp only [settled, h]

theorem atRest_of_finished {w : Worker} (h : w.finished = true) : w.AtRest := by
  have hready := (w.finished_iff.mp h).1
  constructor
  · simp only [settled, hready]
  · simp only [owed, hready]

end Worker

/-! ### All threads in a serial run -/

namespace Shared

variable {s : Shared} {t : Interner} {programs : List (List Call)} {i p : Nat} {text : String}
  {n : Name}

/-- **The invariant of a serial run.** -/
structure Sound (programs : List (List Call)) (s : Shared) : Prop where
  wellFormed : s.store.WellFormed
  count_eq : s.store.count = s.store.texts.length
  follows : ∀ (i : Nat) (w : Worker), s.workers[i]? = some w →
    ∃ program, programs[i]? = some program ∧ w.Follows program s.store

theorem sound_start (ht : t.Reachable) (hfits : ∀ calls ∈ programs, Call.Fits 0 calls) :
    Sound programs (start t programs) where
  wellFormed := ht.wellFormed
  count_eq := ht.count_eq
  follows i w hw := by
    rw [start, List.getElem?_map, Option.map_eq_some_iff] at hw
    obtain ⟨program, hprogram, rfl⟩ := hw
    have hmem : program ∈ programs := List.mem_of_getElem? hprogram
    exact ⟨program, hprogram, Worker.follows_start (hfits program hmem)⟩

/-- **What one call preserves,** for the thread that makes it and for the others. -/
theorem Sound.serve (h : Sound programs s) (i : Nat) : Sound programs (s.serve i) := by
  cases hi : s.workers[i]? with
  | none =>
    rw [Shared.serve, hi]
    exact h
  | some w =>
    obtain ⟨program, hprogram, hw⟩ := h.follows i w hi
    obtain ⟨hfollows, hwf, hgrows, hcount⟩ := hw.serve h.wellFormed
    rw [serve_eq hi]
    refine ⟨hwf, hcount h.count_eq, fun j v hv => ?_⟩
    by_cases hij : i = j
    · -- the thread that has been served
      subst hij
      have hlt := (List.getElem?_eq_some_iff.mp hi).1
      rw [List.getElem?_set_self hlt, Option.some.injEq] at hv
      subst hv
      exact ⟨program, hprogram, hfollows⟩
    · -- another thread, for which the store has grown
      rw [List.getElem?_set_ne hij] at hv
      obtain ⟨program', hprogram', hv⟩ := h.follows j v hv
      exact ⟨program', hprogram', hv.mono hgrows hwf⟩

theorem Sound.serveAll (h : Sound programs s) (order : List Nat) :
    Sound programs (s.serveAll order) := by
  induction order generalizing s with
  | nil => exact h
  | cons i order ih =>
    rw [serveAll_cons]
    exact ih (h.serve i)

/-! ### Any run -/

/-- The thread with number `i` has been given the name `n` for its call with number `p`, which
names `text`. -/
def Returned (programs : List (List Call)) (s : Shared) (i p : Nat) (text : String) (n : Name) :
    Prop :=
  ∃ program w, programs[i]? = some program ∧ program[p]? = some (.intern text) ∧
    s.workers[i]? = some w ∧ w.answers[p]? = some (.name n)

/-- Some thread has stored a text and has not counted it yet. -/
def Counting (s : Shared) : Prop := ∃ w ∈ s.workers, ∃ n, w.stage = .stored n

/-- No shard is full. -/
def HasRoom (s : Shared) : Prop :=
  ∀ k : Fin Name.shardCount, (s.store.shard k).size < Name.slotCount

section Settled

variable (h : Sound programs s.settled)
include h

theorem Sound.wellFormed_of_settled : s.store.WellFormed := h.wellFormed.of_shards rfl

theorem Sound.follows_settled {w : Worker} (hw : s.workers[i]? = some w) :
    ∃ program, programs[i]? = some program ∧ w.settled.Follows program s.settled.store := by
  refine h.follows i w.settled ?_
  rw [settled, List.getElem?_map, hw, Option.map_some]

theorem Sound.lookup_returned (hn : Returned programs s i p text n) :
    s.store.lookup n = .ok text := by
  obtain ⟨program, w, hprogram, hp, hw, ha⟩ := hn
  obtain ⟨program', hprogram', hfollows⟩ := h.follows_settled hw
  obtain rfl : program = program' := Option.some.inj (hprogram.symm.trans hprogram')
  have hlt : p < w.answers.length := (List.getElem?_eq_some_iff.mp ha).1
  -- settling leaves the answers that are there in their places
  have ha' : w.settled.answers[p]? = some (.name n) := by
    rw [← ha]
    exact (List.prefix_iff_getElem?.mp w.answers_prefix_settled p hlt).trans
      (List.getElem?_eq_getElem hlt).symm
  exact hfollows.named hp ha'

/-- **The count lags behind** by one for each text that is stored and not counted. -/
theorem Sound.count_add_owed : s.store.count + s.owed = s.store.texts.length := h.count_eq

theorem Sound.count_eq_of_not_counting (hc : ¬s.Counting) :
    s.store.count = s.store.texts.length := by
  have howed : s.owed = 0 := by
    rw [owed, List.sum_eq_zero_iff_forall_eq_nat]
    intro d hd
    obtain ⟨w, hw, rfl⟩ := List.mem_map.mp hd
    cases hstage : w.stage with
    | stored n => exact absurd ⟨w, hw, n, hstage⟩ hc
    | ready | missed _ | failed _ => simp only [Worker.owed, hstage]
  have hcount := h.count_add_owed
  omega

theorem Sound.not_failed (hroom : s.HasRoom) {w : Worker} (hw : w ∈ s.workers) (cause : Fault) :
    w.stage ≠ .failed cause := by
  intro hstage
  obtain ⟨i, hi⟩ := List.mem_iff_getElem?.mp hw
  obtain ⟨program, -, hfollows⟩ := h.follows_settled hi
  rw [Worker.settled_of_failed hstage] at hfollows
  obtain ⟨k, hk⟩ := hfollows.full hstage
  exact Nat.ne_of_lt (hroom k) hk

theorem Sound.length_answers {w : Worker} (hw : s.workers[i]? = some w)
    (hfinished : w.finished = true) :
    ∃ program, programs[i]? = some program ∧ w.answers.length = program.length := by
  obtain ⟨program, hprogram, hfollows⟩ := h.follows_settled hw
  rw [(Worker.atRest_of_finished hfinished).1] at hfollows
  -- no call is pending, so all of the program is past
  obtain ⟨hready, hcalls⟩ := w.finished_iff.mp hfinished
  obtain ⟨past, hpast, hlen⟩ := hfollows.pending hready
  refine ⟨program, hprogram, ?_⟩
  rw [hpast, hcalls, List.append_nil, hlen]

end Settled

theorem finished_iff : s.finished = true ↔ ∀ w ∈ s.workers, w.finished = true := by
  rw [finished, List.all_eq_true]

theorem settled_of_finished (h : s.finished = true) : s.settled = s :=
  settled_eq_self fun w hw => Worker.atRest_of_finished (finished_iff.mp h w hw)

theorem settled_start (t : Interner) (programs : List (List Call)) :
    (start t programs).settled = start t programs := by
  refine settled_eq_self fun w hw => ?_
  obtain ⟨calls, -, rfl⟩ := List.mem_map.mp hw
  exact Worker.atRest_start calls

/-- **What holds of threads that share an interner** and have come to the state `s` by running
their programs for a while, as a schedule says. -/
structure Linearizable (t : Interner) (programs : List (List Call)) (schedule : List Nat)
    (s : Shared) : Prop where
  /-- The run has the effect of whole calls one after the other, each thread's in its own order.
  When the threads are finished, nothing tells the two runs apart: not the names and texts they
  got, not the shards and not the count. -/
  serial : ∃ order, order.Sublist schedule ∧ (start t programs).Serves order ∧
    s.settled = (start t programs).serveAll order ∧
    s.store.shards = ((start t programs).serveAll order).store.shards ∧
    (s.finished = true → s = (start t programs).serveAll order)
  /-- Two calls, of whichever threads, get one name exactly if they name one text. -/
  name_eq_iff : ∀ {i p j q : Nat} {a b : String} {m n : Name},
    Returned programs s i p a m → Returned programs s j q b n → (m = n ↔ a = b)
  /-- A name stands for the text of the call that it answers. -/
  lookup : ∀ {i p : Nat} {a : String} {n : Name},
    Returned programs s i p a n → s.store.lookup n = .ok a
  /-- No text is stored twice. -/
  nodup : s.store.texts.Nodup
  /-- The count is never ahead of the texts. -/
  count_le : s.store.count ≤ s.store.texts.length
  /-- The count is right while no thread has still to count a text that it has stored. -/
  count_eq : ¬s.Counting → s.store.count = s.store.texts.length
  /-- No call fails while there is room. -/
  not_failed : s.HasRoom → ∀ w ∈ s.workers, ∀ cause, w.stage ≠ .failed cause
  /-- Threads that are served often enough finish. -/
  finished : s.HasRoom →
    (∀ i calls, programs[i]? = some calls → 3 * calls.length ≤ schedule.count i) →
    s.finished = true
  /-- Threads that are finished have an answer for each call. -/
  length_answers : ∀ {i : Nat} {w : Worker}, s.workers[i]? = some w → w.finished = true →
    ∃ program, programs[i]? = some program ∧ w.answers.length = program.length

/-- **Threads that share an interner are linearizable,** whatever their programs and the
schedule. A thread looks up only names that it has been given. -/
theorem linearizable (ht : t.Reachable) (hfits : ∀ calls ∈ programs, Call.Fits 0 calls)
    (schedule : List Nat) :
    Linearizable t programs schedule ((start t programs).run schedule) := by
  obtain ⟨order, hsub, hserves, hserial⟩ := (start t programs).exists_serveAll schedule
  rw [settled_start] at hserves hserial
  have hsound : Sound programs ((start t programs).run schedule).settled := by
    rw [hserial]
    exact (sound_start ht hfits).serveAll order
  have hwf := hsound.wellFormed_of_settled
  refine
    { serial := ⟨order, hsub, hserves, hserial, ?_, fun hfin => ?_⟩
      name_eq_iff := fun hm hn =>
        hwf.eq_iff_of_lookup (hsound.lookup_returned hm) (hsound.lookup_returned hn)
      lookup := hsound.lookup_returned
      nodup := hwf.nodup_texts
      count_le := ?_
      count_eq := hsound.count_eq_of_not_counting
      not_failed := fun hroom w hw => hsound.not_failed hroom hw
      finished := fun hroom hserved => ?_
      length_answers := hsound.length_answers }
  · -- settling changes the count alone
    rw [← hserial]
    rfl
  · rw [← hserial, settled_of_finished hfin]
  · have hcount := hsound.count_add_owed
    omega
  · refine finished_iff.mpr fun w hw => ?_
    rcases stopped_of_served t programs schedule hserved w hw with hfin | ⟨cause, hstage⟩
    · exact hfin
    · exact absurd hstage (hsound.not_failed hroom hw cause)

/-- Two threads race for a new text, and both look before either stores it. -/
theorem linearizable_race :
    Interner.initial.Reachable ∧
      (∀ calls ∈ [[Call.intern "tool", .lookup 0], [.intern "tool"]], Call.Fits 0 calls) ∧
      Linearizable Interner.initial [[.intern "tool", .lookup 0], [.intern "tool"]]
        [0, 1, 1, 0, 1, 0] ((start Interner.initial
          [[.intern "tool", .lookup 0], [.intern "tool"]]).run [0, 1, 1, 0, 1, 0]) := by
  have hreach : Interner.initial.Reachable := ⟨[], .initial⟩
  have hfits : ∀ calls ∈ [[Call.intern "tool", .lookup 0], [.intern "tool"]],
      Call.Fits 0 calls := by
    simp [Call.Fits]
  exact ⟨hreach, hfits, linearizable hreach hfits [0, 1, 1, 0, 1, 0]⟩

end Shared

end ItemAttrs
