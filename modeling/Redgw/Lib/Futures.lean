import Mathlib.Data.List.Nodup
import Mathlib.Logic.Function.Basic

/-! # An executor with one worker

Jobs are submitted to a queue, and one worker takes them in order. A job that is finished runs its callbacks in
the worker; a callback that comes later is run at once by the one who adds it. -/

namespace Futures

/-- The worker runs a job, and after it the callbacks that the job has by then. -/
inductive Worker
  | idle
  | running (j : Nat)
  | calling (j : Nat)
deriving DecidableEq

/-- Jobs are numbered in the order in which they are submitted. `callbacks` are the ones that wait. -/
structure Executor (κ : Type) where
  submitted : Nat
  finished : Nat → Bool
  callbacks : Nat → List κ
  queue : List Nat
  worker : Worker

namespace Executor
variable {κ : Type} {x y : Executor κ} {j i : Nat}

def init : Executor κ := ⟨0, fun _ => false, fun _ => [], [], .idle⟩

/-- The new job has the number `x.submitted`. -/
def submit (x : Executor κ) : Executor κ := { x with submitted := x.submitted + 1, queue := x.queue ++ [x.submitted] }

/-- The worker takes the job that has waited longest. -/
def take (x : Executor κ) : Option (Executor κ) :=
  match x.worker, x.queue with
  | .idle, j :: queue => some { x with queue := queue, worker := .running j }
  | _, _ => none

/-- The job ends, with a result or an exception. Who waits for it may go on from here. -/
def finish (x : Executor κ) : Option (Executor κ) :=
  match x.worker with
  | .running j => some { x with finished := Function.update x.finished j true, worker := .calling j }
  | _ => none

/-- The worker runs the callbacks of the job that has ended. -/
def invoke (x : Executor κ) : Option (Nat × List κ × Executor κ) :=
  match x.worker with
  | .calling j => some (j, x.callbacks j, { x with callbacks := Function.update x.callbacks j [], worker := .idle })
  | _ => none

/-- A callback waits for its job. On a finished one it is to be run at once, which the flag tells. -/
def addDoneCallback (x : Executor κ) (j : Nat) (c : κ) : Executor κ × Bool :=
  if x.finished j then (x, true)
  else ({ x with callbacks := Function.update x.callbacks j (x.callbacks j ++ [c]) }, false)

/-- The job is queued or running. -/
def Open (x : Executor κ) (j : Nat) : Prop := j ∈ x.queue ∨ x.worker = .running j

/-- Jobs are queued once, run and finish in this order, and callbacks that wait are run after it. -/
structure Ok (x : Executor κ) : Prop where
  known : ∀ j, x.Open j → j < x.submitted ∧ x.finished j = false
  pending : ∀ j < x.submitted, x.finished j = false → x.Open j
  once : x.queue.Nodup ∧ ∀ j, x.worker = .running j → j ∉ x.queue
  calling : ∀ j, x.worker = .calling j → j < x.submitted ∧ x.finished j = true
  fresh : ∀ j, x.submitted ≤ j → x.callbacks j = [] ∧ x.finished j = false
  waiting : ∀ j, x.finished j = true → x.callbacks j ≠ [] → x.worker = .calling j

theorem ok_init : (init : Executor κ).Ok where
  known j hj := by
    rcases hj with hj | hj <;> cases hj
  pending j hj := absurd hj (Nat.not_lt_zero j)
  once := ⟨List.nodup_nil, nofun⟩
  calling _ := nofun
  fresh _ _ := ⟨rfl, rfl⟩
  waiting _ := nofun

theorem Ok.submit (h : x.Ok) : x.submit.Ok := by
  have hopen : ∀ j, x.submit.Open j ↔ x.Open j ∨ j = x.submitted := by
    intro j
    unfold Open Executor.submit
    simp only [List.mem_append, List.mem_singleton]
    tauto
  have hlt : ∀ j, x.Open j → j < x.submitted := fun j hj => (h.known j hj).1
  constructor
  · intro j hj
    rcases (hopen j).mp hj with hj | rfl
    · exact ⟨Nat.lt_succ_of_lt (hlt j hj), (h.known j hj).2⟩
    · exact ⟨Nat.lt_succ_self _, (h.fresh _ (Nat.le_refl _)).2⟩
  · intro j hj hopenj
    rcases Nat.lt_succ_iff_lt_or_eq.mp hj with hj | rfl
    · exact (hopen j).mpr (Or.inl (h.pending j hj hopenj))
    · exact (hopen _).mpr (Or.inr rfl)
  · constructor
    · refine List.nodup_append.mpr ⟨h.once.1, List.nodup_singleton _, fun a ha b hb heq => ?_⟩
      rw [List.mem_singleton.mp hb] at heq
      exact absurd (hlt a (Or.inl ha)) (heq ▸ Nat.lt_irrefl _)
    · intro j hj hmem
      rcases List.mem_append.mp hmem with hmem | hmem
      · exact h.once.2 j hj hmem
      · exact absurd (hlt j (Or.inr hj)) (List.mem_singleton.mp hmem ▸ Nat.lt_irrefl _)
  · exact fun j hj => ⟨Nat.lt_succ_of_lt (h.calling j hj).1, (h.calling j hj).2⟩
  · exact fun j hj => h.fresh j (Nat.le_of_succ_le hj)
  · exact h.waiting

theorem take_eq_some : x.take = some y ↔
    ∃ j queue, x.worker = .idle ∧ x.queue = j :: queue ∧ y = { x with queue := queue, worker := .running j } := by
  unfold take
  constructor
  · intro h
    split at h
    · rename_i j queue hworker hqueue
      cases h
      exact ⟨j, queue, hworker, hqueue, rfl⟩
    · cases h
  · rintro ⟨j, queue, hworker, hqueue, rfl⟩
    rw [hworker, hqueue]

theorem Ok.take (h : x.Ok) (ht : x.take = some y) : y.Ok := by
  obtain ⟨j, queue, hworker, hqueue, rfl⟩ := take_eq_some.mp ht
  have hopen : ∀ i, Open { x with queue := queue, worker := .running j } i ↔ x.Open i := by
    intro i
    unfold Open
    rw [hqueue, hworker, List.mem_cons]
    simp [or_comm, eq_comm]
  have honce := h.once.1
  rw [hqueue, List.nodup_cons] at honce
  exact {
    known := fun i hi => h.known i ((hopen i).mp hi)
    pending := fun i hi hfinished => (hopen i).mpr (h.pending i hi hfinished)
    once := ⟨honce.2, fun i hi => by
      cases hi
      exact honce.1⟩
    calling := fun _ => nofun
    fresh := h.fresh
    waiting := fun i hfinished hcallbacks => by
      have hcalling := h.waiting i hfinished hcallbacks
      rw [hworker] at hcalling
      cases hcalling }

theorem finish_eq_some : x.finish = some y ↔
    ∃ j, x.worker = .running j ∧ y = { x with finished := Function.update x.finished j true, worker := .calling j } := by
  unfold finish
  constructor
  · intro h
    split at h
    · rename_i j hworker
      cases h
      exact ⟨j, hworker, rfl⟩
    · cases h
  · rintro ⟨j, hworker, rfl⟩
    rw [hworker]

theorem finished_update {f : Nat → Bool} : Function.update f j true i = true ↔ i = j ∨ f i = true := by
  by_cases hi : i = j
  · simp [hi]
  · simp [hi]

theorem Ok.finish (h : x.Ok) (ht : x.finish = some y) : y.Ok := by
  obtain ⟨j, hworker, rfl⟩ := finish_eq_some.mp ht
  have hj := h.known j (Or.inr hworker)
  have hunfinished : ∀ i, Function.update x.finished j true i = false ↔ i ≠ j ∧ x.finished i = false := by
    intro i
    rw [← Bool.not_eq_true, finished_update, not_or, Bool.not_eq_true]
  constructor
  · rintro i (hi | hi)
    · have hne : i ≠ j := fun heq => h.once.2 j hworker (heq ▸ hi)
      exact ⟨(h.known i (Or.inl hi)).1, (hunfinished i).mpr ⟨hne, (h.known i (Or.inl hi)).2⟩⟩
    · cases hi
  · intro i hi hopen
    obtain ⟨hne, hopen⟩ := (hunfinished i).mp hopen
    rcases h.pending i hi hopen with hqueued | hrunning
    · exact Or.inl hqueued
    · rw [hworker] at hrunning
      cases hrunning
      exact absurd rfl hne
  · exact ⟨h.once.1, fun _ => nofun⟩
  · intro i hi
    cases hi
    exact ⟨hj.1, finished_update.mpr (Or.inl rfl)⟩
  · intro i hi
    refine ⟨(h.fresh i hi).1, (hunfinished i).mpr ⟨?_, (h.fresh i hi).2⟩⟩
    exact fun heq => absurd (heq ▸ hj.1) (Nat.not_lt.mpr hi)
  · intro i hfinished hcallbacks
    rcases finished_update.mp hfinished with rfl | hfinished
    · rfl
    · have hcalling := h.waiting i hfinished hcallbacks
      rw [hworker] at hcalling
      cases hcalling

theorem invoke_eq_some {cs : List κ} : x.invoke = some (j, cs, y) ↔
    x.worker = .calling j ∧ cs = x.callbacks j ∧ y = { x with callbacks := Function.update x.callbacks j [], worker := .idle } := by
  unfold invoke
  constructor
  · intro h
    split at h
    · rename_i i hworker
      cases h
      exact ⟨hworker, rfl, rfl⟩
    · cases h
  · rintro ⟨hworker, rfl, rfl⟩
    rw [hworker]

theorem Ok.invoke {cs : List κ} (h : x.Ok) (ht : x.invoke = some (j, cs, y)) : y.Ok := by
  obtain ⟨hworker, -, rfl⟩ := invoke_eq_some.mp ht
  have hqueued : ∀ i, x.Open i → i ∈ x.queue := fun i hi => by
    rcases hi with hi | hi
    · exact hi
    · rw [hworker] at hi
      cases hi
  constructor
  · rintro i (hi | hi)
    · exact h.known i (Or.inl hi)
    · cases hi
  · exact fun i hi hopen => Or.inl (hqueued i (h.pending i hi hopen))
  · exact ⟨h.once.1, fun _ => nofun⟩
  · exact fun _ => nofun
  · intro i hi
    refine ⟨?_, (h.fresh i hi).2⟩
    by_cases hij : i = j
    · simp [hij]
    · simpa [hij] using (h.fresh i hi).1
  · intro i hfinished hcallbacks
    by_cases hij : i = j
    · simp [hij] at hcallbacks
    · simp only [ne_eq, hij, not_false_eq_true, Function.update_of_ne] at hcallbacks
      have hcalling := h.waiting i hfinished hcallbacks
      rw [hworker] at hcalling
      cases hcalling
      exact absurd rfl hij

/-- A callback on a finished job changes nothing in the executor. -/
theorem addDoneCallback_finished (hj : x.finished j = true) (c : κ) : x.addDoneCallback j c = (x, true) := by
  unfold addDoneCallback
  rw [if_pos hj]

theorem addDoneCallback_open (hj : x.finished j = false) (c : κ) : x.addDoneCallback j c =
    ({ x with callbacks := Function.update x.callbacks j (x.callbacks j ++ [c]) }, false) := by
  unfold addDoneCallback
  rw [hj]
  rfl

theorem Ok.addDoneCallback (h : x.Ok) (hj : j < x.submitted) (c : κ) : (x.addDoneCallback j c).1.Ok := by
  cases hfinished : x.finished j with
  | true =>
    rw [addDoneCallback_finished hfinished]
    exact h
  | false =>
    rw [addDoneCallback_open hfinished]
    refine { h with fresh := fun i hi => ⟨?_, (h.fresh i hi).2⟩, waiting := fun i hi hcallbacks => ?_ }
    · have hne : i ≠ j := fun heq => absurd hj (heq ▸ Nat.not_lt.mpr hi)
      simpa [hne] using (h.fresh i hi).1
    · have hne : i ≠ j := by
        rintro rfl
        rw [hfinished] at hi
        cases hi
      exact h.waiting i hi (by simpa [hne] using hcallbacks)

end Executor

end Futures
