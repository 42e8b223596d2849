import ItemAttrs.Proofs.Interner.Serial

/-!
# Threads come to an end

A call takes at most three sections, so a thread that has been served three times for each of
its calls has no section left (`Shared.stopped_of_served`): all of its calls are answered, or
one of them has failed. `Worker.sections` bounds what is left, and each section of the thread
takes one off (`Worker.sections_step_le`); sections of other threads do not touch it.
-/

namespace ItemAttrs

namespace Worker

/-- **The thread has no section left:** its calls are answered, or one has failed. -/
def Stopped (w : Worker) : Prop := w.finished = true ∨ ∃ cause, w.stage = .failed cause

/-- A bound on the sections that are left. -/
def sections (w : Worker) : Nat :=
  match w.stage with
  | .ready => 3 * w.calls.length
  | .missed _ => 3 * w.calls.length + 2
  | .stored _ => 3 * w.calls.length + 1
  | .failed _ => 0

theorem sections_answer_le (w : Worker) (r : Except Fault Answer) (d : Nat) :
    (w.answer r).sections ≤ 3 * w.calls.length + d := by
  cases r with
  | ok a => exact Nat.le_add_right _ d
  | error cause => exact Nat.zero_le _

/-- **Each section takes one off.** -/
theorem sections_step_le (w : Worker) (t : Interner) :
    (w.step t).1.sections ≤ w.sections - 1 := by
  obtain ⟨calls, stage, answers⟩ := w
  cases stage with
  | ready =>
    cases calls with
    | nil => exact Nat.le_refl _
    | cons call rest =>
      -- a call that does not end here has two more sections
      change _ ≤ 3 * rest.length + 2
      cases call with
      | intern s =>
        cases hs : (t.home s).find? s with
        | some slot =>
          rw [step_of_hit hs]
          exact sections_answer_le _ _ 2
        | none =>
          rw [step_of_miss hs]
          exact Nat.le_refl _
      | lookup k =>
        rw [step_lookup]
        exact sections_answer_le _ _ 2
  | missed s =>
    -- storing the text leaves the addition to the count
    change _ ≤ 3 * calls.length + 1
    cases hs : (t.home s).find? s with
    | some slot =>
      rw [step_of_late_hit hs]
      exact sections_answer_le _ _ 1
    | none =>
      by_cases hsize : (t.home s).size ≤ Name.maxSlot
      · obtain ⟨n, hn, -, -⟩ := Name.exists_ofParts (shardOf s).isLt hsize
        rw [step_of_new hs hsize hn]
        exact Nat.le_refl _
      · rw [step_of_full hs hsize]
        exact Nat.zero_le _
  | stored n => exact Nat.le_refl _
  | failed cause => exact Nat.le_refl _

theorem stopped_of_sections {w : Worker} (h : w.sections = 0) : w.Stopped := by
  obtain ⟨calls, stage, answers⟩ := w
  cases stage with
  | ready =>
    cases calls with
    | nil => exact Or.inl rfl
    | cons call rest => exact absurd h (Nat.succ_ne_zero _)
  | missed s => exact absurd h (Nat.succ_ne_zero _)
  | stored n => exact absurd h (Nat.succ_ne_zero _)
  | failed cause => exact Or.inr ⟨cause, rfl⟩

end Worker

namespace Shared

variable {s : Shared}

/-- **A schedule takes off as many sections of a thread as it has turns of it.** -/
theorem sections_run_le (s : Shared) (schedule : List Nat) {i : Nat} {w : Worker}
    (h : (s.run schedule).workers[i]? = some w) :
    ∃ w₀, s.workers[i]? = some w₀ ∧ w.sections ≤ w₀.sections - schedule.count i := by
  induction schedule generalizing s with
  | nil => exact ⟨w, h, Nat.le_refl _⟩
  | cons j schedule ih =>
    obtain ⟨w₁, h₁, hle⟩ := ih (s.step j) h
    rw [step] at h₁
    cases hj : s.workers[j]? with
    | none =>
      -- nobody has this turn
      simp only [hj] at h₁
      have hne : j ≠ i := fun e => by simp [← e, hj] at h₁
      exact ⟨w₁, h₁, by rwa [List.count_cons_of_ne hne]⟩
    | some v =>
      simp only [hj] at h₁
      by_cases hne : j = i
      · -- a turn of the thread itself
        subst hne
        have hlt := (List.getElem?_eq_some_iff.mp hj).1
        rw [List.getElem?_set_self hlt, Option.some.injEq] at h₁
        have hstep := v.sections_step_le s.store
        rw [h₁] at hstep
        refine ⟨v, hj, ?_⟩
        rw [List.count_cons_self]
        omega
      · -- a turn of another thread
        rw [List.getElem?_set_ne hne] at h₁
        exact ⟨w₁, h₁, by rwa [List.count_cons_of_ne hne]⟩

/-- **A thread that is served three times for each call comes to its end.** -/
theorem stopped_of_served (t : Interner) (programs : List (List Call)) (schedule : List Nat)
    (hserved : ∀ i calls, programs[i]? = some calls → 3 * calls.length ≤ schedule.count i) :
    ∀ w ∈ ((start t programs).run schedule).workers, w.Stopped := by
  intro w hw
  obtain ⟨i, hi⟩ := List.mem_iff_getElem?.mp hw
  obtain ⟨w₀, h₀, hle⟩ := sections_run_le _ _ hi
  rw [start, List.getElem?_map, Option.map_eq_some_iff] at h₀
  obtain ⟨calls, hcalls, rfl⟩ := h₀
  have hcount := hserved i calls hcalls
  have hstart : (Worker.start calls).sections = 3 * calls.length := rfl
  exact Worker.stopped_of_sections (by omega)

theorem count_fairSchedule {w : Worker} {i : Nat} (hw : s.workers[i]? = some w) :
    3 * w.calls.length ≤ s.fairSchedule.count i := by
  have hlt : i < s.workers.length := (List.getElem?_eq_some_iff.mp hw).1
  have hmem : w.calls.length ∈ s.workers.map fun w => w.calls.length :=
    List.mem_map_of_mem (List.mem_of_getElem? hw)
  have hmax : w.calls.length ≤ (s.workers.map fun w => w.calls.length).foldl max 0 := by
    rw [List.foldl_max_eq_max (List.ne_nil_of_mem hmem)]
    exact Nat.le_trans (List.le_max_of_mem hmem) (Nat.le_max_right _ _)
  -- the thread has one turn in each round
  rw [fairSchedule, List.count_flatten, List.map_replicate, List.sum_replicate_nat,
    List.count_range, if_pos hlt, Nat.mul_one]
  exact Nat.mul_le_mul_left 3 hmax

theorem stopped_of_fairSchedule (t : Interner) (programs : List (List Call)) :
    ∀ w ∈ ((start t programs).run (start t programs).fairSchedule).workers, w.Stopped := by
  refine stopped_of_served t programs _ fun i calls hcalls => ?_
  have hw : (start t programs).workers[i]? = some (Worker.start calls) := by
    rw [start, List.getElem?_map, hcalls, Option.map_some]
  exact count_fairSchedule hw

end Shared

end ItemAttrs
