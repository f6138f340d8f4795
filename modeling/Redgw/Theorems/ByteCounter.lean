import Redgw.FileLogger.Handler

/-! # The byte counter

The handler counts the bytes that it writes instead of asking for the size of the file. The record that
follows a rollover is written without being counted, so that the counter is the size of the active file up
to the first rollover only. -/

namespace Redgw.FileLogger

variable {ρ : Type} {cfg : Config} {bytes : ρ → Nat}

/-- The records that are given to the handler, with the clock readings. -/
def emitted (as : List (Action ρ)) : List (ρ × Nat) :=
  as.filterMap fun
    | .emit record today => some (record, today)
    | _ => none

/-- The counter is the size of the active file, and a file of several records is smaller than `max_bytes`. -/
structure Exact (cfg : Config) (bytes : ρ → Nat) (s : State ρ) : Prop where
  counter : s.currentBytes = s.activeBytes bytes
  small : 2 ≤ (s.slot 0).plainData.length → s.activeBytes bytes < cfg.maxBytes

/-- Every record is of the day, and all of them fit into the file. -/
def FitOneFile (cfg : Config) (bytes : ρ → Nat) (today size : Nat) (as : List (Action ρ)) : Prop :=
  emitted as ≠ [] → (∀ e ∈ emitted as, e.2 = today) ∧ size + fileBytes bytes ((emitted as).map (·.1)) < cfg.maxBytes

theorem fileBytes_cons (bytes : ρ → Nat) (r : ρ) (xs : List ρ) : fileBytes bytes (r :: xs) = bytes r + fileBytes bytes xs :=
  rfl

theorem fileBytes_append (bytes : ρ → Nat) (xs ys : List ρ) :
    fileBytes bytes (xs ++ ys) = fileBytes bytes xs + fileBytes bytes ys := by
  induction xs with
  | nil => exact (Nat.zero_add _).symm
  | cons x xs ih => rw [List.cons_append, fileBytes_cons, fileBytes_cons, ih, Nat.add_assoc]

@[simp] theorem emitted_emit (r : ρ) (today : Nat) (as : List (Action ρ)) :
    emitted (.emit r today :: as) = (r, today) :: emitted as := rfl

theorem emitted_append (as bs : List (Action ρ)) : emitted (as ++ bs) = emitted as ++ emitted bs :=
  List.filterMap_append

theorem shouldRollover_some {s : State ρ} {r : ρ} {today counter : Nat} (hmax : 0 < cfg.maxBytes)
    (h : shouldRollover cfg bytes s r today = some counter) :
    today = s.date ∧ counter = s.currentBytes + bytes r ∧ counter < cfg.maxBytes := by
  unfold shouldRollover at h
  split at h
  · cases h
  · rename_i hday
    split at h
    · cases h
    · cases h
      exact ⟨not_not.mp hday, rfl, by omega⟩

theorem shouldRollover_fits {s : State ρ} {r : ρ} (hmax : 0 < cfg.maxBytes)
    (h : s.currentBytes + bytes r < cfg.maxBytes) :
    shouldRollover cfg bytes s r s.date = some (s.currentBytes + bytes r) := by
  unfold shouldRollover
  rw [if_neg (by simp), if_pos hmax, if_neg (by omega)]

theorem write_activeBytes (s : State ρ) (r : ρ) : (s.write r).activeBytes bytes = s.activeBytes bytes + bytes r := by
  unfold State.activeBytes
  rw [State.slot_write]
  exact fileBytes_append bytes _ [r]

/-! ### Before the first rollover -/

/-- Between two records, with no compression to be done, and the counter right. -/
structure Counting (bytes : ρ → Nat) (today size : Nat) (s : State ρ) : Prop where
  phase : s.phase = .idle
  jobs : s.jobs = []
  date : s.date = today
  counter : s.currentBytes = size
  active : s.activeBytes bytes = size

theorem start_counting (dir : Directory ρ) (today : Nat) (written : List (Nat × ρ)) (discarded : List (Nat × List ρ)) :
    Counting bytes today (fileBytes bytes (dir ⟨today, 0⟩).plainData) (.start bytes dir today written discarded) := by
  have hactive : (State.start bytes dir today written discarded).activeBytes bytes =
      fileBytes bytes (dir ⟨today, 0⟩).plainData := by
    unfold State.activeBytes
    exact congrArg (fun slot => fileBytes bytes slot.plainData) (State.slot_touch _)
  exact ⟨rfl, rfl, rfl, hactive, hactive⟩

/-- A record that fits is written and counted. -/
theorem Counting.write {today size : Nat} {s : State ρ} (h : Counting bytes today size s) (r : ρ) :
    Counting bytes today (size + bytes r) (({ s with currentBytes := size + bytes r } : State ρ).write r) where
  phase := rfl
  jobs := h.jobs
  date := h.date
  counter := rfl
  active := (write_activeBytes _ r).trans (congrArg (· + bytes r) h.active)

/-- The only step from there is to take a record: it fits and is written, or a rollover is to come. -/
theorem Counting.next {today size : Nat} {s t : State ρ} {a : Action ρ} (hmax : 0 < cfg.maxBytes)
    (hs : Counting bytes today size s) (hkill : ∀ d, a ≠ .kill d) (h : step cfg bytes s a = some t) :
    ∃ r clock, a = .emit r clock ∧
      ((clock = today ∧ size + bytes r < cfg.maxBytes ∧ Counting bytes today (size + bytes r) t) ∨
      (¬(clock = today ∧ size + bytes r < cfg.maxBytes) ∧ t.phase = .waiting r)) := by
  cases a with
  | emit r clock =>
    refine ⟨r, clock, rfl, ?_⟩
    obtain ⟨-, ⟨counter, hcounter, rfl⟩ | ⟨hnone, rfl⟩⟩ := step_emit h
    · obtain ⟨rfl, rfl, hfits⟩ := shouldRollover_some hmax hcounter
      rw [hs.counter] at hfits ⊢
      exact Or.inl ⟨hs.date, hfits, hs.write r⟩
    · refine Or.inr ⟨?_, rfl⟩
      rintro ⟨rfl, hfits⟩
      rw [← hs.date, shouldRollover_fits hmax (hs.counter ▸ hfits)] at hnone
      cases hnone
  | rollover clock =>
    obtain ⟨-, record, hwaiting, -⟩ := step_rollover h
    rw [hs.phase] at hwaiting
    cases hwaiting
  | operate =>
    obtain ⟨record, op, ops, hrolling, -⟩ := step_operate h
    rw [hs.phase] at hrolling
    cases hrolling
  | write =>
    obtain ⟨record, hrolling, -⟩ := step_write h
    rw [hs.phase] at hrolling
    cases hrolling
  | gzip ok =>
    obtain ⟨job, jobs, hjobs, -⟩ := step_gzip h
    rw [hs.jobs] at hjobs
    cases hjobs
  | kill d => exact absurd rfl (hkill d)

/-- While everything fits, the counter is right. -/
theorem Counting.steps {today size : Nat} {s t : State ρ} {as : List (Action ρ)} (hmax : 0 < cfg.maxBytes)
    (hs : Counting bytes today size s) (hkill : ∀ d, Action.kill d ∉ as)
    (hfit : FitOneFile cfg bytes today size as) (h : run cfg bytes s as = some t) :
    Counting bytes today (size + fileBytes bytes ((emitted as).map (·.1))) t := by
  induction as generalizing s size with
  | nil =>
    cases h
    exact hs
  | cons a as ih =>
    obtain ⟨u, hu, hut⟩ := Runs.run_cons.mp h
    have hkill' : ∀ d, Action.kill d ∉ as := fun d hd => hkill d (List.mem_cons_of_mem _ hd)
    obtain ⟨r, clock, rfl, hstep⟩ := hs.next hmax (fun d hd => hkill d (hd ▸ List.mem_cons_self)) hu
    obtain ⟨hdays, hsize⟩ := hfit (List.cons_ne_nil _ _)
    simp only [emitted_emit, List.map_cons, fileBytes_cons] at hsize
    rw [emitted_emit] at hdays
    rw [emitted_emit, List.map_cons, fileBytes_cons, ← Nat.add_assoc]
    dsimp only
    rcases hstep with ⟨-, -, hcount⟩ | ⟨hnot, -⟩
    · refine ih hcount hkill' (fun _ => ⟨fun e he => hdays e (List.mem_cons_of_mem _ he), ?_⟩) hut
      omega
    · exact absurd ⟨hdays _ List.mem_cons_self, by omega⟩ hnot

/-! ### From the first rollover on -/

/-- In a rollover: when it is over, the counter is 0. -/
def Turning (s : State ρ) : Prop :=
  match s.phase with
  | .idle => False
  | .waiting _ => True
  | .rolling _ ops => ops.getLast? = some .openFile ∨ ops = [] ∧ s.currentBytes = 0

/-- A record was written that was not counted. -/
def Missed (bytes : ρ → Nat) (s : State ρ) : Prop :=
  s.phase = .idle ∧ s.currentBytes ≠ s.activeBytes bytes

theorem Turning.step {s t : State ρ} {a : Action ρ} (hpos : ∀ r, 0 < bytes r) (hs : Turning s)
    (hkill : ∀ d, a ≠ .kill d) (h : step cfg bytes s a = some t) : Turning t ∨ Missed bytes t := by
  unfold Turning at hs
  cases a with
  | emit r clock =>
    obtain ⟨hidle, -⟩ := step_emit h
    rw [hidle] at hs
    exact hs.elim
  | rollover clock =>
    obtain ⟨-, record, -, rfl⟩ := step_rollover h
    refine Or.inl (Or.inl ?_)
    unfold rolloverOps
    simp
  | operate =>
    obtain ⟨record, op, ops, hrolling, rfl⟩ := step_operate h
    rw [hrolling] at hs
    rcases hs with hlast | ⟨hnil, -⟩
    · cases ops with
      | nil =>
        cases Option.some.inj hlast
        exact Or.inl (Or.inr ⟨rfl, rfl⟩)
      | cons op' ops => exact Or.inl (Or.inl (by simpa [List.getLast?_cons_cons] using hlast))
    · cases hnil
  | write =>
    obtain ⟨record, hrolling, rfl⟩ := step_write h
    rw [hrolling] at hs
    rcases hs with hlast | ⟨-, hzero⟩
    · cases hlast
    · refine Or.inr ⟨rfl, ?_⟩
      have hcounter : (s.write record).currentBytes = 0 := hzero
      have := hpos record
      rw [hcounter, write_activeBytes]
      omega
  | gzip ok =>
    obtain ⟨job, jobs, -, rfl⟩ := step_gzip h
    exact Or.inl hs
  | kill d => exact absurd rfl (hkill d)

/-- When the handler is through with a rollover, it has missed a record. -/
theorem Turning.ends {s t : State ρ} {as : List (Action ρ)} (hpos : ∀ r, 0 < bytes r) (hs : Turning s)
    (hkill : ∀ d, Action.kill d ∉ as) (h : run cfg bytes s as = some t) (ht : t.phase = .idle) :
    ∃ as₁ as₂ u, as = as₁ ++ as₂ ∧ run cfg bytes s as₁ = some u ∧ Missed bytes u := by
  induction as generalizing s with
  | nil =>
    cases h
    unfold Turning at hs
    rw [ht] at hs
    exact hs.elim
  | cons a as ih =>
    obtain ⟨u, hu, hut⟩ := Runs.run_cons.mp h
    rcases hs.step hpos (fun d hd => hkill d (hd ▸ List.mem_cons_self)) hu with hu' | hu'
    · obtain ⟨as₁, as₂, v, rfl, hv, hmissed⟩ := ih hu' (fun d hd => hkill d (List.mem_cons_of_mem _ hd)) hut
      exact ⟨a :: as₁, as₂, v, rfl, Runs.run_cons.mpr ⟨u, hu, hv⟩, hmissed⟩
    · exact ⟨[a], as, u, rfl, Runs.run_cons.mpr ⟨u, hu, rfl⟩, hu'⟩

/-- Where the counter is right after every record, all records fit into the file. -/
theorem Counting.fit {today size : Nat} {s t : State ρ} {as : List (Action ρ)} (hmax : 0 < cfg.maxBytes)
    (hpos : ∀ r, 0 < bytes r) (hs : Counting bytes today size s) (hkill : ∀ d, Action.kill d ∉ as)
    (h : run cfg bytes s as = some t) (ht : t.phase = .idle)
    (hright : ∀ as₁ as₂ u, as = as₁ ++ as₂ → run cfg bytes s as₁ = some u → ¬Missed bytes u) :
    FitOneFile cfg bytes today size as := by
  induction as generalizing s size with
  | nil => exact fun hne => absurd rfl hne
  | cons a as ih =>
    obtain ⟨u, hu, hut⟩ := Runs.run_cons.mp h
    have hkill' : ∀ d, Action.kill d ∉ as := fun d hd => hkill d (List.mem_cons_of_mem _ hd)
    have hright' : ∀ as₁ as₂ v, as = as₁ ++ as₂ → run cfg bytes u as₁ = some v → ¬Missed bytes v := by
      rintro as₁ as₂ v rfl hv
      exact hright (a :: as₁) as₂ v rfl (Runs.run_cons.mpr ⟨u, hu, hv⟩)
    obtain ⟨r, clock, rfl, ⟨rfl, hfits, hcount⟩ | ⟨-, hwaiting⟩⟩ :=
      hs.next hmax (fun d hd => hkill d (hd ▸ List.mem_cons_self)) hu
    · have hrest := ih hcount hkill' hut hright'
      intro _
      rw [emitted_emit, List.map_cons, fileBytes_cons, List.forall_mem_cons, ← Nat.add_assoc]
      by_cases hnil : emitted as = []
      · rw [hnil]
        exact ⟨⟨rfl, by simp⟩, by simpa [fileBytes] using hfits⟩
      · exact ⟨⟨rfl, (hrest hnil).1⟩, (hrest hnil).2⟩
    · have hturning : Turning u := by
        unfold Turning
        rw [hwaiting]
        trivial
      obtain ⟨as₁, as₂, v, rfl, hv, hmissed⟩ := hturning.ends hpos hkill' hut ht
      exact absurd hmissed (hright' as₁ as₂ v rfl hv)

/-! ### When the counter is right -/

/-- In a file of records that fit, the counter is right and the file is small. -/
theorem Counting.exact {today size : Nat} {s : State ρ} (h : Counting bytes today size s) (hsize : size < cfg.maxBytes) :
    Exact cfg bytes s :=
  ⟨h.counter.trans h.active.symm, fun _ => h.active ▸ hsize⟩

theorem FitOneFile.of_append {today size : Nat} {as₁ as₂ : List (Action ρ)}
    (h : FitOneFile cfg bytes today size (as₁ ++ as₂)) : FitOneFile cfg bytes today size as₁ := by
  intro hne
  have happend := emitted_append as₁ as₂
  obtain ⟨hdays, hsize⟩ := h (by simp [happend, hne])
  rw [happend] at hdays hsize
  rw [List.map_append, fileBytes_append] at hsize
  exact ⟨fun e he => hdays e (List.mem_append_left _ he), by omega⟩

/-- The handler begins with a record. -/
theorem Counting.emits {today size : Nat} {s t : State ρ} {as : List (Action ρ)} (hmax : 0 < cfg.maxBytes)
    (hs : Counting bytes today size s) (hkill : ∀ d, Action.kill d ∉ as) (hne : as ≠ [])
    (h : run cfg bytes s as = some t) : emitted as ≠ [] := by
  obtain ⟨a, as, rfl⟩ := List.exists_cons_of_ne_nil hne
  obtain ⟨u, hu, -⟩ := Runs.run_cons.mp h
  obtain ⟨r, clock, rfl, -⟩ := hs.next hmax (fun d hd => hkill d (hd ▸ List.mem_cons_self)) hu
  exact List.cons_ne_nil _ _

/-- From the start of a process, the counter is right after every record exactly when no record comes on
    another day and all of them fit into the file that was there. -/
theorem counter_exact_iff (cfg : Config) (hmax : 0 < cfg.maxBytes) (dir : Directory LogRecord) (today : Nat)
    {as : List (Action LogRecord)} (hkill : ∀ d, Action.kill d ∉ as) {t : State LogRecord}
    (h : run cfg LogRecord.bytes (.start LogRecord.bytes dir today [] []) as = some t) (ht : t.phase = .idle) :
    (∀ as₁ as₂ u, as = as₁ ++ as₂ → as₁ ≠ [] →
        run cfg LogRecord.bytes (.start LogRecord.bytes dir today [] []) as₁ = some u → u.phase = .idle →
        Exact cfg LogRecord.bytes u) ↔
      FitOneFile cfg LogRecord.bytes today (fileBytes LogRecord.bytes (dir ⟨today, 0⟩).plainData) as := by
  have hstart : Counting LogRecord.bytes today _ (.start LogRecord.bytes dir today [] []) :=
    start_counting dir today [] []
  constructor
  · intro hexact
    refine hstart.fit hmax (fun r => Nat.succ_pos _) hkill h ht ?_
    rintro as₁ as₂ u rfl hu ⟨hidle, hmissed⟩
    by_cases hnil : as₁ = []
    · subst hnil
      cases hu
      exact hmissed rfl
    · exact hmissed (hexact as₁ as₂ u rfl hnil hu hidle).counter
  · rintro hfit as₁ as₂ u rfl hne hu -
    have hkill₁ : ∀ d, Action.kill d ∉ as₁ := fun d hd => hkill d (List.mem_append_left _ hd)
    have hcount := hstart.steps hmax hkill₁ hfit.of_append hu
    exact hcount.exact (hfit.of_append (hstart.emits hmax hkill₁ hne hu)).2

theorem counter_exact_iff_two :
    FitOneFile ⟨100, 2, true⟩ LogRecord.bytes 20260306 0
      [.emit ⟨"start", none, none⟩ 20260306, .emit ⟨"stop", some "Error", none⟩ 20260306] := by
  refine (counter_exact_iff ⟨100, 2, true⟩ (by decide) (fun _ => ⟨none, none⟩) 20260306 (by simp) rfl rfl).mp ?_
  intro as₁ as₂ u has hne hu _
  match as₁, hne with
  | [a], _ =>
    cases has
    cases hu
    exact ⟨rfl, fun h => absurd h (by decide)⟩
  | [a, b], _ =>
    cases has
    cases hu
    exact ⟨rfl, fun _ => by decide⟩
  | a :: b :: c :: more, _ => cases has


/-- A file of 10 bytes at most: of the three records after the rollover the first is not counted, and the
    file has 12 bytes. -/
theorem record_after_rollover_uncounted : ∃ (cfg : Config) (as : List (Action LogRecord)) (u : State LogRecord),
    0 < cfg.maxBytes ∧ (∀ d, Action.kill d ∉ as) ∧
      run cfg LogRecord.bytes (.start LogRecord.bytes (fun _ => ⟨none, none⟩) 20260306 [] []) as = some u ∧
      u.phase = .idle ∧ u.currentBytes = 9 ∧ u.activeBytes LogRecord.bytes = 12 ∧ ¬Exact cfg LogRecord.bytes u := by
  let as : List (Action LogRecord) :=
    [.emit ⟨"12345678", none, none⟩ 20260306, .emit ⟨"12", none, none⟩ 20260306, .rollover 20260306, .operate, .operate,
      .operate, .operate, .write, .emit ⟨"12345", none, none⟩ 20260306, .emit ⟨"12", none, none⟩ 20260306]
  have hview : (run ⟨10, 1, false⟩ LogRecord.bytes (.start LogRecord.bytes (fun _ => ⟨none, none⟩) 20260306 [] []) as).map
      (fun u => (u.phase, u.currentBytes, u.activeBytes LogRecord.bytes)) = some (.idle, 9, 12) := by
    decide +kernel
  obtain ⟨u, hu, hvalues⟩ := Option.map_eq_some_iff.mp hview
  simp only [Prod.mk.injEq] at hvalues
  obtain ⟨hidle, hcounter, hactive⟩ := hvalues
  refine ⟨_, as, u, by decide, by simp [as], hu, hidle, hcounter, hactive, fun h => ?_⟩
  have hwrong := h.counter
  rw [hcounter, hactive] at hwrong
  cases hwrong

end Redgw.FileLogger
