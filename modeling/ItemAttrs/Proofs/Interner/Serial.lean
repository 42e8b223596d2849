import ItemAttrs.Interner.Shared
import ItemAttrs.Proofs.Interner.Invariant

/-!
# Calls one after the other

In a **serial** run each call takes place as a whole, from its first section to its answer,
with no other thread in between (`Shared.serve`). Every schedule of sections has the effect of
a serial run: a call takes effect in the one section that decides its answer, which is the
read section if the text is found there and the write section otherwise.

`Shared.settled` reads a state that way. A thread that has missed a text is set back to before
its call, and a thread that has stored a text is given its answer and counted. Each section
then either changes nothing or serves one whole call (`Shared.settled_step`), and so a run of
sections is a serial run (`Shared.exists_serveAll`). The serial order is part of the schedule.
-/

namespace ItemAttrs

/-! ### Serial runs -/

/-- The answer to a look-up by a thread that has been given `names`. -/
def Call.retrieve (names : List Name) (t : Interner) (k : Nat) : Except Fault Answer :=
  match names[k]? with
  | some n => (t.lookup n).map .text
  | none => .error (.pastEnd names.length k)

/-- **A whole call** of a thread that has been given `names`. -/
def Call.perform (names : List Name) (t : Interner) : Call → Except Fault Answer × Interner
  | .intern s => ((Interner.intern s t).1.map .name, (Interner.intern s t).2)
  | .lookup k => (retrieve names t k, t)

namespace Worker

/-- The thread is between two calls and has one left. -/
def Waiting (w : Worker) : Prop := w.stage = .ready ∧ w.calls ≠ []

/-- **The next call of a thread** that is waiting for one. -/
def serve (w : Worker) (t : Interner) : Worker × Interner :=
  match w.stage, w.calls with
  | .ready, call :: rest =>
    ({ w with calls := rest }.answer (call.perform w.names t).1, (call.perform w.names t).2)
  | _, _ => (w, t)

end Worker

namespace Shared

def serve (s : Shared) (i : Nat) : Shared :=
  match s.workers[i]? with
  | some w => ⟨(w.serve s.store).2, s.workers.set i (w.serve s.store).1⟩
  | none => s

/-- **The state after some whole calls,** in the given order of threads. -/
def serveAll (s : Shared) (order : List Nat) : Shared := order.foldl serve s

/-- **Each turn of an order is a call:** the thread whose turn it is has one left. -/
def Serves : Shared → List Nat → Prop
  | _, [] => True
  | s, i :: order => (∃ w, s.workers[i]? = some w ∧ w.Waiting) ∧ (s.serve i).Serves order

/-- Threads about to run their programs. -/
def start (t : Interner) (programs : List (List Call)) : Shared :=
  ⟨t, programs.map Worker.start⟩

end Shared

/-! ### Settling -/

namespace Interner

/-- The state with a count that is higher by `d`. -/
def raised (t : Interner) (d : Nat) : Interner := { t with count := t.count + d }

@[simp] theorem home_raised (t : Interner) (d : Nat) (s : String) :
    (t.raised d).home s = t.home s := rfl

end Interner

namespace Worker

/-- The texts that the thread has stored and not counted. -/
def owed (w : Worker) : Nat :=
  match w.stage with
  | .stored _ => 1
  | .ready | .missed _ | .failed _ => 0

/-- **The thread as it stands in a serial run:** a call is either still to be made or over. -/
def settled (w : Worker) : Worker :=
  match w.stage with
  | .missed s => ⟨.intern s :: w.calls, .ready, w.answers⟩
  | .stored n => ⟨w.calls, .ready, w.answers ++ [.name n]⟩
  | .ready | .failed _ => w

/-- The thread is in no call, or has ended in one. -/
def AtRest (w : Worker) : Prop := w.settled = w ∧ w.owed = 0

theorem atRest_start (calls : List Call) : (start calls).AtRest := ⟨rfl, rfl⟩

@[simp] theorem settled_answer (w : Worker) (r : Except Fault Answer) :
    (w.answer r).settled = w.answer r := by
  cases r <;> rfl

@[simp] theorem owed_answer (w : Worker) (r : Except Fault Answer) : (w.answer r).owed = 0 := by
  cases r <;> rfl

section Sections

variable {s : String} {t : Interner} {calls rest : List Call} {answers : List Answer}

theorem step_of_hit {slot : Nat} (hs : (t.home s).find? s = some slot) :
    step ⟨.intern s :: rest, .ready, answers⟩ t =
      (answer ⟨rest, .ready, answers⟩ ((Name.ofParts (shardOf s) slot).map .name), t) := by
  simp only [step, begin, hs]

theorem step_of_miss (hs : (t.home s).find? s = none) :
    step ⟨.intern s :: rest, .ready, answers⟩ t = (⟨rest, .missed s, answers⟩, t) := by
  simp only [step, begin, hs]

theorem step_lookup (t : Interner) (k : Nat) (rest : List Call) (answers : List Answer) :
    step ⟨.lookup k :: rest, .ready, answers⟩ t =
      (answer ⟨rest, .ready, answers⟩ (Call.retrieve (names ⟨rest, .ready, answers⟩) t k), t) := by
  cases hk : (names ⟨rest, .ready, answers⟩)[k]? <;> simp only [step, begin, Call.retrieve, hk]

theorem step_of_late_hit {slot : Nat} (hs : (t.home s).find? s = some slot) :
    step ⟨calls, .missed s, answers⟩ t =
      (answer ⟨calls, .missed s, answers⟩ ((Name.ofParts (shardOf s) slot).map .name), t) := by
  simp only [step, write, hs]

theorem step_of_new {n : Name} (hs : (t.home s).find? s = none)
    (hsize : (t.home s).size ≤ Name.maxSlot)
    (hn : Name.ofParts (shardOf s) (t.home s).size = .ok n) :
    step ⟨calls, .missed s, answers⟩ t = (⟨calls, .stored n, answers⟩, t.add s) := by
  simp only [step, write, hs, if_pos hsize, hn, Interner.add]

theorem step_of_full (hs : (t.home s).find? s = none) (hsize : ¬(t.home s).size ≤ Name.maxSlot) :
    step ⟨calls, .missed s, answers⟩ t =
      (answer ⟨calls, .missed s, answers⟩
        (.error (.shardFull (shardOf s) (t.home s).size)), t) := by
  simp only [step, write, hs, if_neg hsize]

theorem answer_stage (stage : Stage) (r : Except Fault Answer) :
    answer ⟨calls, stage, answers⟩ r = answer ⟨calls, .ready, answers⟩ r := by
  -- an answer ends the call, whatever stage it was in
  cases r <;> rfl

theorem serve_intern (t : Interner) (s : String) (rest : List Call) (answers : List Answer) :
    serve ⟨.intern s :: rest, .ready, answers⟩ t =
      (answer ⟨rest, .ready, answers⟩ ((Interner.intern s t).1.map .name),
        (Interner.intern s t).2) := rfl

theorem serve_lookup (t : Interner) (k : Nat) (rest : List Call) (answers : List Answer) :
    serve ⟨.lookup k :: rest, .ready, answers⟩ t =
      (answer ⟨rest, .ready, answers⟩ (Call.retrieve (names ⟨rest, .ready, answers⟩) t k), t) := rfl

end Sections

/-- **A section and a whole call.** A section of a thread leaves the settled thread and store
alone, or serves the next call of the settled thread. `others` is what the other threads owe. -/
theorem settled_step (w : Worker) (t : Interner) (others : Nat) :
    ((w.step t).1.settled, (w.step t).2.raised ((w.step t).1.owed + others)) =
        (w.settled, t.raised (w.owed + others)) ∨
      w.settled.Waiting ∧
        ((w.step t).1.settled, (w.step t).2.raised ((w.step t).1.owed + others)) =
          w.settled.serve (t.raised (w.owed + others)) := by
  obtain ⟨calls, stage, answers⟩ := w
  cases stage with
  | ready =>
    cases calls with
    | nil => exact Or.inl rfl
    | cons call rest =>
      cases call with
      | intern s =>
        cases hs : (t.home s).find? s with
        | some slot =>
          -- a hit: the read section decides the answer
          refine Or.inr ⟨⟨rfl, List.cons_ne_nil _ _⟩, ?_⟩
          change _ = serve ⟨.intern s :: rest, .ready, answers⟩ (t.raised (0 + others))
          rw [step_of_hit hs, settled_answer, owed_answer, serve_intern,
            Interner.intern_of_find? (t := t.raised _) hs]
        | none =>
          -- a miss: the call has not begun
          left
          rw [step_of_miss hs]
          rfl
      | lookup k =>
        -- a look-up has no other section
        refine Or.inr ⟨⟨rfl, List.cons_ne_nil _ _⟩, ?_⟩
        change _ = serve ⟨.lookup k :: rest, .ready, answers⟩ (t.raised (0 + others))
        rw [step_lookup, settled_answer, owed_answer, serve_lookup]
        rfl
  | missed s =>
    -- the write section decides the answer in any case
    refine Or.inr ⟨⟨rfl, List.cons_ne_nil _ _⟩, ?_⟩
    change _ = serve ⟨.intern s :: calls, .ready, answers⟩ (t.raised (0 + others))
    rw [serve_intern]
    cases hs : (t.home s).find? s with
    | some slot =>
      rw [step_of_late_hit hs, settled_answer, owed_answer, answer_stage,
        Interner.intern_of_find? (t := t.raised _) hs]
    | none =>
      by_cases hsize : (t.home s).size ≤ Name.maxSlot
      · -- the text is stored now and counted in the next section
        obtain ⟨n, hn, -, -⟩ := Name.exists_ofParts (shardOf s).isLt hsize
        have hcount : t.count + (1 + others) = t.count + (0 + others) + 1 := by omega
        rw [step_of_new hs hsize hn, Interner.intern_of_new (t := t.raised _) hs hsize,
          Interner.home_raised, hn]
        exact congrArg (fun c => ((⟨calls, .ready, answers ++ [.name n]⟩ : Worker),
          (⟨(t.add s).shards, c⟩ : Interner))) hcount
      · rw [step_of_full hs hsize, settled_answer, owed_answer, answer_stage,
          Interner.intern_of_full (t := t.raised _) hs hsize]
        rfl
  | stored n =>
    -- the answer was decided before; now the text is counted
    left
    have hcount : t.count + 1 + (0 + others) = t.count + (1 + others) := by omega
    exact congrArg (fun c => ((⟨calls, .ready, answers ++ [.name n]⟩ : Worker),
      (⟨t.shards, c⟩ : Interner))) hcount
  | failed cause => exact Or.inl rfl

end Worker

namespace Shared

variable {s : Shared} {w : Worker} {i : Nat}

theorem step_eq (h : s.workers[i]? = some w) :
    s.step i = ⟨(w.step s.store).2, s.workers.set i (w.step s.store).1⟩ := by
  simp only [step, h]

theorem serve_eq (h : s.workers[i]? = some w) :
    s.serve i = ⟨(w.serve s.store).2, s.workers.set i (w.serve s.store).1⟩ := by
  simp only [serve, h]

/-- The texts that are stored and not counted. -/
def owed (s : Shared) : Nat := (s.workers.map Worker.owed).sum

/-- **The state as it stands in a serial run.** -/
def settled (s : Shared) : Shared := ⟨s.store.raised s.owed, s.workers.map Worker.settled⟩

theorem exists_owed_set (h : s.workers[i]? = some w) :
    ∃ others, s.owed = w.owed + others ∧
      ∀ t w', owed ⟨t, s.workers.set i w'⟩ = w'.owed + others := by
  -- the threads in front of the one and behind it owe what they owed
  obtain ⟨hlt, rfl⟩ := List.getElem?_eq_some_iff.mp h
  have hsplit : s.workers = s.workers.take i ++ s.workers[i] :: s.workers.drop (i + 1) := by
    rw [List.getElem_cons_drop, List.take_append_drop]
  refine ⟨((s.workers.take i).map Worker.owed).sum +
    ((s.workers.drop (i + 1)).map Worker.owed).sum, ?_, fun t w' => ?_⟩
  · rw [owed]
    conv => lhs; rw [hsplit]
    rw [List.map_append, List.map_cons, List.sum_append, List.sum_cons]
    omega
  · rw [owed, List.set_eq_take_append_cons_drop, if_pos hlt, List.map_append, List.map_cons,
      List.sum_append, List.sum_cons]
    omega

theorem settled_step (s : Shared) (i : Nat) :
    (s.step i).settled = s.settled ∨
      (∃ w, s.settled.workers[i]? = some w ∧ w.Waiting) ∧
        (s.step i).settled = s.settled.serve i := by
  cases h : s.workers[i]? with
  | none =>
    left
    simp only [step, h]
  | some w =>
    obtain ⟨others, hbefore, hafter⟩ := exists_owed_set h
    have hstep : (s.step i).settled = ⟨(w.step s.store).2.raised ((w.step s.store).1.owed + others),
        (s.workers.map Worker.settled).set i (w.step s.store).1.settled⟩ := by
      rw [step_eq h, settled, hafter, List.map_set]
    have hold : s.settled = ⟨s.store.raised (w.owed + others), s.workers.map Worker.settled⟩ := by
      rw [settled, hbefore]
    have hsettled : s.settled.workers[i]? = some w.settled := by
      rw [hold, List.getElem?_map, h, Option.map_some]
    rcases w.settled_step s.store others with hw | ⟨hwaiting, hw⟩
    · left
      obtain ⟨hworker, hstore⟩ := Prod.mk.inj hw
      rw [hstep, hworker, hstore, hold]
      -- the settled thread is already in its place
      have hlt := (List.getElem?_eq_some_iff.mp h).1
      rw [← (List.getElem?_eq_some_iff.mp h).2, ← List.map_set, List.set_getElem_self]
    · refine Or.inr ⟨⟨w.settled, hsettled, hwaiting⟩, ?_⟩
      rw [serve_eq hsettled, hstep, hold]
      exact congrArg (fun p : Worker × Interner => Shared.mk p.2 (List.set _ i p.1)) hw

theorem serveAll_cons (s : Shared) (i : Nat) (order : List Nat) :
    s.serveAll (i :: order) = (s.serve i).serveAll order := rfl

theorem run_cons (s : Shared) (i : Nat) (schedule : List Nat) :
    s.run (i :: schedule) = (s.step i).run schedule := rfl

/-- **Every schedule has the effect of a serial run,** whose order is part of the schedule: each
call takes effect in one of its own sections. -/
theorem exists_serveAll (s : Shared) (schedule : List Nat) :
    ∃ order, order.Sublist schedule ∧ s.settled.Serves order ∧
      (s.run schedule).settled = s.settled.serveAll order := by
  induction schedule generalizing s with
  | nil => exact ⟨[], List.Sublist.refl [], trivial, rfl⟩
  | cons i schedule ih =>
    obtain ⟨order, hsub, hserves, hrun⟩ := ih (s.step i)
    rw [run_cons]
    rcases s.settled_step i with hi | ⟨hwaiting, hi⟩
    · -- the section is not the one that decides the answer
      rw [hi] at hserves hrun
      exact ⟨order, hsub.cons i, hserves, hrun⟩
    · rw [hi] at hserves hrun
      exact ⟨i :: order, hsub.cons_cons i, ⟨hwaiting, hserves⟩, hrun⟩

theorem settled_eq_self (h : ∀ w ∈ s.workers, w.AtRest) : s.settled = s := by
  have howed : s.owed = 0 := by
    rw [owed, List.sum_eq_zero_iff_forall_eq_nat]
    intro d hd
    obtain ⟨w, hw, rfl⟩ := List.mem_map.mp hd
    exact (h w hw).2
  have hworkers : s.workers.map Worker.settled = s.workers :=
    (List.map_congr_left fun w hw => (h w hw).1).trans (List.map_id _)
  rw [settled, howed, hworkers]
  rfl

end Shared

end ItemAttrs
