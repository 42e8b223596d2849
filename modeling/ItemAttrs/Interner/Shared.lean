import ItemAttrs.Interner.Basic

/-!
# An interner shared by several threads

Each shard has a lock of its own, which any number of readers or one writer may hold, and
the count of texts is raised by an atomic addition. A thread that names a text goes through
up to three sections, and other threads may run between any two of them:

1. it looks the text up in the home shard (a read section);
2. if it was not there, it looks again, because another thread may have stored it
   meanwhile, and otherwise stores it (a write section);
3. if it stored the text, it raises the count.

`Worker.step` runs one section of one thread. A **schedule** says whose section is next, so
`Shared.run` over all schedules covers all interleavings. `Shared.fairSchedule` serves the
threads in turn for long enough that all their calls are answered.
-/

namespace ItemAttrs

/-- **What a thread asks the interner for.** -/
inductive Call where
  /-- The name of a text. -/
  | intern (text : String)
  /-- The text of the `k`-th name that this thread has been given, counted from 0. -/
  | lookup (k : Nat)
  deriving DecidableEq, Repr

/-- What a thread gets for a call. -/
inductive Answer where
  | name (n : Name)
  | text (s : String)
  deriving DecidableEq, Repr

/-- **Where a thread stands in its current call.** -/
inductive Stage where
  /-- Between two calls. -/
  | ready
  /-- The text was not in its home shard when the thread looked. -/
  | missed (text : String)
  /-- The thread has stored a text and not yet raised the count. -/
  | stored (n : Name)
  /-- A call failed; the thread has ended. -/
  | failed (cause : Fault)
  deriving DecidableEq, Repr

/-- **One thread:** the calls it has still to begin, its stage, and the answers it got. -/
structure Worker where
  calls : List Call
  stage : Stage
  answers : List Answer
  deriving DecidableEq, Repr

namespace Worker

/-- A thread about to make the given calls. -/
def start (calls : List Call) : Worker := ⟨calls, .ready, []⟩

/-- The names that the thread has been given. -/
def names (w : Worker) : List Name :=
  w.answers.filterMap fun
    | .name n => some n
    | .text _ => none

/-- All calls are answered. -/
def finished (w : Worker) : Bool := w.stage == .ready && w.calls.isEmpty

/-- The thread has got an answer, or ends with a fault. -/
def answer (w : Worker) : Except Fault Answer → Worker
  | .ok a => { w with stage := .ready, answers := w.answers ++ [a] }
  | .error cause => { w with stage := .failed cause }

/-- The first section of a call. -/
def begin (w : Worker) (t : Interner) : Call → Worker
  | .intern s =>
    match (t.home s).find? s with
    | some slot => w.answer ((Name.ofParts (shardOf s) slot).map .name)
    | none => { w with stage := .missed s }
  | .lookup k =>
    match w.names[k]? with
    | some n => w.answer ((t.lookup n).map .text)
    | none => w.answer (.error (.pastEnd w.names.length k))

/-- The write section: the thread looks again, and stores the text if it is still new. -/
def write (w : Worker) (s : String) (t : Interner) : Worker × Interner :=
  match (t.home s).find? s with
  | some slot => (w.answer ((Name.ofParts (shardOf s) slot).map .name), t)
  | none =>
    let size := (t.home s).size
    if size ≤ Name.maxSlot then
      let t' := t.setHome s ((t.home s).push s)
      match Name.ofParts (shardOf s) size with
      | .ok n => ({ w with stage := .stored n }, t')
      | .error cause => (w.answer (.error cause), t')
    else (w.answer (.error (.shardFull (shardOf s) size)), t)

/-- **One section of one thread.** A thread without calls, or with a failed one, waits. -/
def step (w : Worker) (t : Interner) : Worker × Interner :=
  match w.stage, w.calls with
  | .ready, call :: rest => ({ w with calls := rest }.begin t call, t)
  | .ready, [] => (w, t)
  | .missed s, _ => w.write s t
  | .stored n, _ => (w.answer (.ok (.name n)), { t with count := t.count + 1 })
  | .failed _, _ => (w, t)

end Worker

/-- **An interner together with the threads that share it.** -/
structure Shared where
  store : Interner
  workers : List Worker

namespace Shared

/-- The next section of the thread with number `i`; nothing happens if there is no such
thread. -/
def step (s : Shared) (i : Nat) : Shared :=
  match s.workers[i]? with
  | some w => let (w', t) := w.step s.store; ⟨t, s.workers.set i w'⟩
  | none => s

/-- **The state after a schedule.** -/
def run (s : Shared) (schedule : List Nat) : Shared := schedule.foldl step s

/-- Every thread has got all its answers. -/
def finished (s : Shared) : Bool := s.workers.all Worker.finished

/-- Threads are served in turn, three sections for every call of the longest program. -/
def fairSchedule (s : Shared) : List Nat :=
  let rounds := 3 * (s.workers.map fun w => w.calls.length).foldl max 0
  (List.replicate rounds (List.range s.workers.length)).flatten

/-- The threads of `n` equal workers that each name the given texts, in order. -/
def interning (t : Interner) (n : Nat) (texts : List String) : Shared :=
  ⟨t, List.replicate n (Worker.start (texts.map Call.intern))⟩

end Shared

end ItemAttrs
