import Mathlib.Data.List.ReduceOption
import Redgw.Audit.Logger

/-! # What shutting down the audit queue reports

Every captured line is handed over, queued, in the listener's hand or counted as dropped. The count
that the shutdown returns is that of the lines handed over and dropped exactly when there was room for
the sentinel. -/

namespace Redgw.AuditLogger

variable {ρ : Type} {s t : State ρ}

/-! ### What a step does -/

theorem step_capture {record : ρ} (h : step s (.capture record) = some t) :
    s.phase = .serving ∧ s.listener ≠ .absent ∧
      t = { s.enqueue record with phase := .logged, captured := s.captured ++ [record] } := by
  simp only [step] at h
  cases hp : s.phase <;> cases hl : s.listener <;> rw [hp, hl] at h <;> cases h <;>
    exact ⟨rfl, nofun, rfl⟩

theorem step_incrementEventCount (h : step s .incrementEventCount = some t) :
    s.phase = .logged ∧ t = { s with phase := .serving, eventCount := s.eventCount + 1 } := by
  simp only [step] at h
  split at h
  · cases h
    exact ⟨‹_›, rfl⟩
  · cases h

theorem step_shutdown (h : step s .shutdown = some t) : s.phase = .serving ∧ t = { s with phase := .stopping } := by
  simp only [step] at h
  split at h
  · cases h
    exact ⟨‹_›, rfl⟩
  · cases h

theorem step_putSentinel (h : step s .putSentinel = some t) :
    s.phase = .stopping ∧
      ((s.listener ≠ .absent ∧ s.queue.length < queueMaxsize ∧
          t = { s with queue := s.queue ++ [none], phase := .joining }) ∨
        ((s.listener = .absent ∨ queueMaxsize ≤ s.queue.length) ∧ t = { s with phase := .stopped })) := by
  simp only [step] at h
  split at h
  · rename_i hp hl
    cases h
    exact ⟨hp, Or.inr ⟨Or.inl hl, rfl⟩⟩
  · rename_i hp hl
    refine ⟨hp, ?_⟩
    split at h
    · rename_i hlt
      cases h
      exact Or.inl ⟨hl, hlt, rfl⟩
    · rename_i hlt
      cases h
      exact Or.inr ⟨Or.inr (Nat.not_lt.mp hlt), rfl⟩
  · cases h

theorem step_join (h : step s .join = some t) :
    s.phase = .joining ∧ s.listener = .finished ∧ t = { s with phase := .stopped } := by
  simp only [step] at h
  split at h
  · cases h
    exact ⟨‹_›, ‹_›, rfl⟩
  · cases h

theorem step_finish (h : step s .finish = some t) :
    s.phase = .stopped ∧ t = { s with phase := .returned s.eventCount } := by
  simp only [step] at h
  split at h
  · cases h
    exact ⟨‹_›, rfl⟩
  · cases h

theorem step_dequeue (h : step s .dequeue = some t) :
    s.listener = .idle ∧
      ((∃ record queue, s.queue = some record :: queue ∧ t = { s with queue := queue, listener := .holding record }) ∨
        ∃ queue, s.queue = none :: queue ∧ t = { s with queue := queue, listener := .finished }) := by
  simp only [step] at h
  split at h
  · cases h
    exact ⟨‹_›, Or.inl ⟨_, _, ‹_›, rfl⟩⟩
  · cases h
    exact ⟨‹_›, Or.inr ⟨_, ‹_›, rfl⟩⟩
  · cases h

theorem step_handle (h : step s .handle = some t) :
    ∃ record, s.listener = .holding record ∧ t = { s with listener := .idle, handed := s.handed ++ [record] } := by
  simp only [step] at h
  split at h
  · cases h
    exact ⟨_, ‹_›, rfl⟩
  · cases h

/-! ### Where the captured lines are -/

def Listener.hand : Listener ρ → List ρ
  | .holding record => [record]
  | _ => []

/-- The lines that were not dropped: handed over, in the listener's hand, or queued. -/
def State.kept (s : State ρ) : List ρ := s.handed ++ (s.listener.hand ++ s.queue.reduceOption)

/-- The event loop has not begun to stop the listener. -/
def Phase.open : Phase → Bool
  | .serving | .logged | .stopping => true
  | _ => false

structure Inv (s : State ρ) : Prop where
  order : s.kept.Sublist s.captured
  total : s.captured.length = s.kept.length + s.droppedQueueFull
  count : s.eventCount + (if s.phase = .logged then 1 else 0) = s.captured.length
  absent : s.listener = .absent → s.queue = []
  quiet : s.phase.open = true → none ∉ s.queue ∧ s.listener ≠ .finished
  result : ∀ n, s.phase = .returned n → n = s.eventCount

theorem inv_init (level : Nat) : Inv (State.init ρ level) where
  order := by
    unfold State.kept State.init
    split <;> exact List.Sublist.refl _
  total := by
    unfold State.kept State.init
    split <;> rfl
  count := rfl
  absent _ := rfl
  quiet _ := by
    refine ⟨List.not_mem_nil, ?_⟩
    unfold State.init
    split <;> exact nofun
  result := nofun

theorem Inv.enqueue (h : Inv s) (record : ρ) :
    ((s.enqueue record).kept.Sublist (s.captured ++ [record])) ∧
      (s.captured ++ [record]).length = (s.enqueue record).kept.length + (s.enqueue record).droppedQueueFull := by
  have htotal := h.total
  unfold State.enqueue
  split
  · have hkept : State.kept { s with queue := s.queue ++ [some record] } = s.kept ++ [record] := by
      unfold State.kept
      rw [List.reduceOption_append, List.append_assoc, List.append_assoc]
      rfl
    rw [hkept]
    refine ⟨h.order.append (List.Sublist.refl _), ?_⟩
    rw [List.length_append, List.length_append]
    dsimp only
    omega
  · refine ⟨h.order.trans (List.sublist_append_left _ _), ?_⟩
    rw [List.length_append, List.length_singleton]
    show _ = s.kept.length + (s.droppedQueueFull + 1)
    omega

theorem enqueue_listener (s : State ρ) (record : ρ) : (s.enqueue record).listener = s.listener := by
  unfold State.enqueue
  split <;> rfl

theorem enqueue_eventCount (s : State ρ) (record : ρ) : (s.enqueue record).eventCount = s.eventCount := by
  unfold State.enqueue
  split <;> rfl

theorem enqueue_quiet {record : ρ} (h : none ∉ s.queue) : none ∉ (s.enqueue record).queue := by
  unfold State.enqueue
  split
  · simpa using h
  · exact h

theorem inv_step (s : State ρ) (a : Action ρ) (t : State ρ) (h : step s a = some t) (hs : Inv s) : Inv t := by
  have hcount := hs.count
  cases a with
  | capture record =>
    obtain ⟨hp, hl, rfl⟩ := step_capture h
    obtain ⟨horder, htotal⟩ := hs.enqueue record
    obtain ⟨hq, hf⟩ := hs.quiet (by rw [hp]; rfl)
    rw [hp] at hcount
    refine ⟨horder, htotal, ?_, fun he => ?_, fun _ => ⟨enqueue_quiet hq, ?_⟩, nofun⟩
    · rw [List.length_append, List.length_singleton, ← hcount]
      exact congrArg (· + 1) (enqueue_eventCount s record)
    · exact absurd ((enqueue_listener s record).symm.trans he) hl
    · rw [enqueue_listener]
      exact hf
  | incrementEventCount =>
    obtain ⟨hp, rfl⟩ := step_incrementEventCount h
    rw [hp] at hcount
    exact ⟨hs.order, hs.total, hcount, hs.absent, fun _ => hs.quiet (by rw [hp]; rfl), nofun⟩
  | shutdown =>
    obtain ⟨hp, rfl⟩ := step_shutdown h
    rw [hp] at hcount
    exact ⟨hs.order, hs.total, hcount, hs.absent, fun _ => hs.quiet (by rw [hp]; rfl), nofun⟩
  | putSentinel =>
    obtain ⟨hp, ⟨hl, -, rfl⟩ | ⟨-, rfl⟩⟩ := step_putSentinel h
    · rw [hp] at hcount
      have hkept : State.kept { s with queue := s.queue ++ [none], phase := .joining } = s.kept := by
        unfold State.kept
        rw [List.reduceOption_append]
        simp [List.reduceOption]
      refine ⟨hkept ▸ hs.order, ?_, hcount, fun he => absurd he hl, nofun, nofun⟩
      rw [hkept]
      exact hs.total
    · rw [hp] at hcount
      exact ⟨hs.order, hs.total, hcount, hs.absent, nofun, nofun⟩
  | join =>
    obtain ⟨hp, -, rfl⟩ := step_join h
    rw [hp] at hcount
    exact ⟨hs.order, hs.total, hcount, hs.absent, nofun, nofun⟩
  | finish =>
    obtain ⟨hp, rfl⟩ := step_finish h
    rw [hp] at hcount
    refine ⟨hs.order, hs.total, hcount, hs.absent, nofun, fun n hn => ?_⟩
    cases hn
    rfl
  | dequeue =>
    obtain ⟨hl, ⟨record, queue, hq, rfl⟩ | ⟨queue, hq, rfl⟩⟩ := step_dequeue h
    · have hkept : State.kept { s with queue := queue, listener := .holding record } = s.kept := by
        unfold State.kept
        rw [hl, hq]
        rfl
      refine ⟨hkept ▸ hs.order, ?_, hcount, nofun, fun ho => ⟨?_, nofun⟩, hs.result⟩
      · rw [hkept]
        exact hs.total
      · have hnone := (hs.quiet ho).1
        rw [hq] at hnone
        exact fun hm => hnone (List.mem_cons_of_mem _ hm)
    · have hkept : State.kept { s with queue := queue, listener := .finished } = s.kept := by
        unfold State.kept
        rw [hl, hq]
        rfl
      refine ⟨hkept ▸ hs.order, ?_, hcount, nofun, fun ho => ?_, hs.result⟩
      · rw [hkept]
        exact hs.total
      · have hnone := (hs.quiet ho).1
        rw [hq] at hnone
        exact absurd List.mem_cons_self hnone
  | handle =>
    obtain ⟨record, hl, rfl⟩ := step_handle h
    have hkept : State.kept { s with listener := .idle, handed := s.handed ++ [record] } = s.kept := by
      unfold State.kept
      rw [hl, List.append_assoc]
      rfl
    refine ⟨hkept ▸ hs.order, ?_, hcount, nofun, fun ho => ⟨(hs.quiet ho).1, nofun⟩, hs.result⟩
    rw [hkept]
    exact hs.total

theorem inv_run {level : Nat} {as : List (Action ρ)} (h : run (.init ρ level) as = some s) : Inv s :=
  Runs.run_inv inv_step h (inv_init level)

/-! ### Shutting down with room for the sentinel -/

def Listener.working : Listener ρ → Bool
  | .idle | .holding _ => true
  | _ => false

/-- The sentinel is the only one and the last of the queue, or the listener is done with it. -/
def Draining (s : State ρ) : Prop :=
  match s.phase with
  | .joining => (∃ records : List ρ, s.queue = records.map some ++ [none]) ∧ s.listener.working = true ∨
      s.queue = [] ∧ s.listener = .finished
  | .stopped | .returned _ => s.queue = [] ∧ (s.listener = .finished ∨ s.listener = .absent)
  | _ => False

theorem draining_step (s : State ρ) (a : Action ρ) (t : State ρ) (h : step s a = some t) (hs : Draining s) :
    Draining t := by
  have hbusy : ∀ {p : Phase}, s.phase = p → p.open = true → False := by
    intro p hp ho
    unfold Draining at hs
    rw [hp] at hs
    cases p with
    | serving | logged | stopping => exact hs
    | joining | stopped | returned => cases ho
  cases a with
  | capture record => exact (hbusy (step_capture h).1 rfl).elim
  | incrementEventCount => exact (hbusy (step_incrementEventCount h).1 rfl).elim
  | shutdown => exact (hbusy (step_shutdown h).1 rfl).elim
  | putSentinel => exact (hbusy (step_putSentinel h).1 rfl).elim
  | join =>
    obtain ⟨hp, hl, rfl⟩ := step_join h
    unfold Draining at hs ⊢
    rw [hp] at hs
    rcases hs with ⟨-, hw⟩ | ⟨hq, -⟩
    · rw [hl] at hw
      cases hw
    · exact ⟨hq, Or.inl hl⟩
  | finish =>
    obtain ⟨hp, rfl⟩ := step_finish h
    unfold Draining at hs ⊢
    rw [hp] at hs
    exact hs
  | dequeue =>
    obtain ⟨hl, hdeq⟩ := step_dequeue h
    -- The queue is not empty, so the event loop waits for the listener.
    obtain ⟨hp, records, hrecords⟩ : s.phase = .joining ∧ ∃ records : List ρ, s.queue = records.map some ++ [none] := by
      have hne : s.queue ≠ [] := by
        rcases hdeq with ⟨_, _, hq, -⟩ | ⟨_, hq, -⟩ <;> rw [hq] <;> exact List.cons_ne_nil _ _
      unfold Draining at hs
      cases hp : s.phase <;> rw [hp] at hs
      case joining =>
        rcases hs with ⟨hr, -⟩ | ⟨hq, -⟩
        · exact ⟨rfl, hr⟩
        · exact absurd hq hne
      case stopped => exact absurd hs.1 hne
      case returned => exact absurd hs.1 hne
      all_goals exact hs.elim
    rcases hdeq with ⟨record, queue, hq, rfl⟩ | ⟨queue, hq, rfl⟩
    · unfold Draining
      rw [hp]
      rw [hq] at hrecords
      cases records with
      | nil => cases hrecords
      | cons r records => exact Or.inl ⟨⟨records, (List.cons.inj hrecords).2⟩, rfl⟩
    · unfold Draining
      rw [hp]
      rw [hq] at hrecords
      cases records with
      | nil => exact Or.inr ⟨(List.cons.inj hrecords).2, rfl⟩
      | cons r records => cases hrecords
  | handle =>
    obtain ⟨record, hl, rfl⟩ := step_handle h
    unfold Draining at hs ⊢
    rw [hl] at hs
    cases hp : s.phase <;> rw [hp] at hs
    case joining =>
      rcases hs with ⟨hr, -⟩ | ⟨-, hf⟩
      · exact Or.inl ⟨hr, rfl⟩
      · cases hf
    case stopped => rcases hs.2 with hf | hf <;> cases hf
    case returned => rcases hs.2 with hf | hf <;> cases hf
    all_goals exact hs.elim

theorem eq_map_some {q : List (Option ρ)} (h : none ∉ q) : q = q.reduceOption.map some := by
  induction q with
  | nil => rfl
  | cons x q ih =>
    cases x with
    | none => exact absurd List.mem_cons_self h
    | some r =>
      rw [List.reduceOption_cons_of_some, List.map_cons, ← ih fun hm => h (List.mem_cons_of_mem _ hm)]

/-- Where there was room for the sentinel, or nothing to stop, the queue is drained. -/
theorem draining_of_put (hs : Inv s) (hlt : s.queue.length < queueMaxsize) (hput : step s .putSentinel = some t) :
    Draining t := by
  obtain ⟨hp, ⟨hl, -, rfl⟩ | ⟨hfull, rfl⟩⟩ := step_putSentinel hput
  · obtain ⟨hnone, hf⟩ := hs.quiet (by rw [hp]; rfl)
    refine Or.inl ⟨⟨s.queue.reduceOption, ?_⟩, ?_⟩
    · rw [← eq_map_some hnone]
    · cases hl' : s.listener with
      | absent => exact absurd hl' hl
      | finished => exact absurd hl' hf
      | idle | holding => rfl
  · rcases hfull with hl | hge
    · exact ⟨hs.absent hl, Or.inr hl⟩
    · omega

/-- What the shutdown returns is the number of lines handed over or dropped, and the lines were handed
    over in the order of their capture. -/
def Conserved (s : State ρ) (count : Nat) : Prop :=
  count = s.handed.length + s.droppedQueueFull ∧ s.handed.Sublist s.captured

theorem Inv.conserved (h : Inv s) (hd : Draining s) {count : Nat} (hp : s.phase = .returned count) :
    Conserved s count := by
  unfold Draining at hd
  rw [hp] at hd
  obtain ⟨hq, hl⟩ := hd
  have hhand : s.listener.hand = [] := by
    rcases hl with hl | hl <;> rw [hl] <;> rfl
  have hkept : s.kept = s.handed := by
    unfold State.kept
    rw [hq, hhand]
    exact List.append_nil _
  have hcount := h.count
  have htotal := h.total
  have horder := h.order
  rw [hp] at hcount
  rw [hkept] at htotal horder
  rw [h.result count hp]
  exact ⟨hcount.trans htotal, horder⟩

/-- A run that returns has put the sentinel, or tried to, at some point. -/
theorem put_of_returned {as : List (Action ρ)} (h : run s as = some t) (hs : s.phase.open = true)
    (ht : t.phase.open = false) : ∃ before after u v, as = before ++ .putSentinel :: after ∧
      run s before = some u ∧ step u .putSentinel = some v ∧ run v after = some t := by
  induction as generalizing s with
  | nil =>
    cases h
    rw [hs] at ht
    cases ht
  | cons a as ih =>
    obtain ⟨u, hu, hut⟩ := Runs.run_cons.mp h
    by_cases hput : a = .putSentinel
    · subst hput
      exact ⟨[], as, s, u, rfl, rfl, hu, hut⟩
    · have hopen : u.phase.open = true := by
        cases a with
        | putSentinel => exact absurd rfl hput
        | capture record =>
          obtain ⟨-, -, rfl⟩ := step_capture hu
          rfl
        | incrementEventCount =>
          obtain ⟨-, rfl⟩ := step_incrementEventCount hu
          rfl
        | shutdown =>
          obtain ⟨-, rfl⟩ := step_shutdown hu
          rfl
        | join =>
          obtain ⟨hp, -⟩ := step_join hu
          rw [hp] at hs
          cases hs
        | finish =>
          obtain ⟨hp, -⟩ := step_finish hu
          rw [hp] at hs
          cases hs
        | dequeue =>
          obtain ⟨-, ⟨_, _, -, rfl⟩ | ⟨_, -, rfl⟩⟩ := step_dequeue hu <;> exact hs
        | handle =>
          obtain ⟨_, -, rfl⟩ := step_handle hu
          exact hs
      obtain ⟨before, after, v, w, rfl, hv, hw, hwt⟩ := ih hut hopen
      exact ⟨a :: before, after, v, w, rfl, Runs.run_cons.mpr ⟨u, hu, hv⟩, hw, hwt⟩

/-- However the event loop and the listener take their turns, what a shutdown returns is right exactly
    when there was room for the sentinel. -/
theorem shutdown_conserves_iff {level : Nat} {before : List (Action ρ)} (hrun : run (.init ρ level) before = some s)
    (hput : step s .putSentinel = some t) :
    (∀ after u count, run t after = some u → u.phase = .returned count → Conserved u count) ↔
      s.queue.length < queueMaxsize := by
  have hs := inv_run hrun
  have ht := inv_step s .putSentinel t hput hs
  constructor
  · intro hall
    by_contra hnot
    obtain ⟨hp, ⟨-, hlt, -⟩ | ⟨-, rfl⟩⟩ := step_putSentinel hput
    · exact hnot hlt
    · -- The event loop returns at once, with the queue still full.
      obtain ⟨hcount, -⟩ := hall [.finish] { s with phase := .returned s.eventCount } s.eventCount rfl rfl
      have hnone := (hs.quiet (by rw [hp]; rfl)).1
      have hq : s.queue.length = s.queue.reduceOption.length := by
        conv_lhs => rw [eq_map_some hnone]
        exact List.length_map _
      have hkept : s.kept.length = s.handed.length + (s.listener.hand.length + s.queue.reduceOption.length) := by
        unfold State.kept
        rw [List.length_append, List.length_append]
      have htotal := hs.total
      have hcaptured := hs.count
      rw [hp] at hcaptured
      simp only [reduceCtorEq, ↓reduceIte, Nat.add_zero] at hcaptured
      dsimp only at hcount
      unfold queueMaxsize at hnot
      omega
  · intro hlt after u count hu hp
    obtain ⟨hinv, hd⟩ : Inv u ∧ Draining u :=
      Runs.run_inv (I := fun s => Inv s ∧ Draining s) (fun s a t h hs => ⟨inv_step s a t h hs.1, draining_step s a t h hs.2⟩) hu
        ⟨ht, draining_of_put hs hlt hput⟩
    exact hinv.conserved hd hp

theorem shutdown_conserves_one :
    (∀ after u count, run (⟨[some "line", none], .idle, .joining, 1, 0, ["line"], []⟩ : State String) after = some u →
      u.phase = .returned count → Conserved u count) ↔ [some "line"].length < queueMaxsize :=
  shutdown_conserves_iff
    (show run (.init String 1) [.capture "line", .incrementEventCount, .shutdown] =
      some ⟨[some "line"], .idle, .stopping, 1, 0, ["line"], []⟩ from rfl) rfl

/-! ### Shutting down with a full queue -/

/-- The requests log `n` lines while the listener does nothing. -/
def backlog (record : ρ) : Nat → List (Action ρ)
  | 0 => []
  | n + 1 => .capture record :: .incrementEventCount :: backlog record n

theorem run_backlog (record : ρ) (n : Nat) {queue : List (Option ρ)} {k d : Nat} {captured handed : List ρ}
    (hn : queue.length + n ≤ queueMaxsize) :
    run ⟨queue, .idle, .serving, k, d, captured, handed⟩ (backlog record n) =
      some ⟨queue ++ List.replicate n (some record), .idle, .serving, k + n, d, captured ++ List.replicate n record,
        handed⟩ := by
  induction n generalizing queue k captured with
  | zero => simp [backlog]
  | succ n ih =>
    have hlt : queue.length < queueMaxsize := by omega
    have hcapture : step ⟨queue, .idle, .serving, k, d, captured, handed⟩ (.capture record) =
        some ⟨queue ++ [some record], .idle, .logged, k, d, captured ++ [record], handed⟩ := by
      simp only [step, State.enqueue, if_pos hlt]
    refine Runs.run_cons.mpr ⟨_, hcapture, Runs.run_cons.mpr ⟨_, rfl, ?_⟩⟩
    have hroom : (queue ++ [some record]).length + n ≤ queueMaxsize := by
      rw [List.length_append, List.length_singleton]
      omega
    have hrest : run ⟨queue ++ [some record], .idle, .serving, k + 1, d, captured ++ [record], handed⟩
        (backlog record n) = some _ := ih hroom
    have hk : k + 1 + n = k + (n + 1) := by omega
    rw [List.append_assoc, List.append_assoc, hk] at hrest
    exact hrest

/-- With 10000 lines queued the shutdown returns 10000 and none of them has been handed over. -/
theorem full_queue_lost : ∃ t, run (.init String 1) (backlog "line" 10000 ++ [.shutdown, .putSentinel, .finish]) = some t ∧
    t.phase = .returned 10000 ∧ ¬Conserved t 10000 := by
  have hfill : run (.init String 1) (backlog "line" 10000) = some _ := run_backlog "line" 10000 (by decide)
  have hfull : ¬(List.replicate 10000 (some "line")).length < queueMaxsize := by
    rw [List.length_replicate]
    decide
  have hput : step ⟨List.replicate 10000 (some "line"), .idle, .stopping, 10000, 0, List.replicate 10000 "line", []⟩
      .putSentinel =
        some ⟨List.replicate 10000 (some "line"), .idle, .stopped, 10000, 0, List.replicate 10000 "line", []⟩ := by
    simp only [step, if_neg hfull]
  refine ⟨⟨List.replicate 10000 (some "line"), .idle, .returned 10000, 10000, 0, List.replicate 10000 "line", []⟩, ?_,
    rfl, ?_⟩
  · rw [List.nil_append, List.nil_append, Nat.zero_add] at hfill
    exact Runs.run_append.mpr ⟨_, hfill, Runs.run_cons.mpr ⟨_, rfl, Runs.run_cons.mpr ⟨_, hput, Runs.run_cons.mpr
      ⟨_, rfl, rfl⟩⟩⟩⟩
  · rintro ⟨hcount, -⟩
    exact absurd hcount (by decide)

end Redgw.AuditLogger
