import Redgw.FileLogger.Handler

/-! # Which files a handler touches

The handler works on the files of the current day, up to the last index. When the clock does not go back,
the days to come have no files. -/

namespace Redgw.FileLogger

variable {ρ : Type} {cfg : Config} {bytes : ρ → Nat}

/-- The indexes of the operation are within the number of backups. -/
def Op.Within (count : Nat) : Op → Prop
  | .unlinkGz i => i ≤ count
  | .unlinkPlain i => i ≤ count
  | .shift i => i + 1 ≤ count
  | .retire => 1 ≤ count
  | .switch _ => False
  | .openFile => True

theorem dir_move_of_ne (s : State ρ) {i j : Nat} (x y : Slot ρ) {name : Name} (hi : name ≠ ⟨s.date, i⟩)
    (hj : name ≠ ⟨s.date, j⟩) : ((s.setSlot i x).setSlot j y).dir name = s.dir name :=
  (State.dir_setSlot_of_ne (s.setSlot i x) j y hj).trans (State.dir_setSlot_of_ne s i x hi)

/-! ### Moves -/

section Moves
variable {s : State ρ}

theorem Slot.eq_empty {slot : Slot ρ} (hplain : slot.plain = none) (harchive : slot.archive = none) :
    slot = ⟨none, none⟩ := by
  obtain ⟨p, a⟩ := slot
  cases hplain
  cases harchive
  rfl

theorem shift_archive {i : Nat} {a : Archive ρ} (ha : (s.slot i).archive = some a) (hempty : s.slot (i + 1) = ⟨none, none⟩) :
    (Op.shift i).apply cfg s = (s.setSlot i ⟨(s.slot i).plain, none⟩).setSlot (i + 1) ⟨none, some a⟩ := by
  simp only [Op.apply, ha, hempty]

theorem shift_plain {i : Nat} {c : List ρ} (ha : (s.slot i).archive = none) (hc : (s.slot i).plain = some c)
    (hempty : s.slot (i + 1) = ⟨none, none⟩) :
    (Op.shift i).apply cfg s = (s.setSlot i ⟨none, none⟩).setSlot (i + 1) ⟨some c, none⟩ := by
  simp only [Op.apply, ha, hc, hempty]

theorem shift_nothing {i : Nat} (ha : (s.slot i).archive = none) (hc : (s.slot i).plain = none) :
    (Op.shift i).apply cfg s = s := by
  simp only [Op.apply, ha, hc]

/-- After a move from `i` to `i + 1`. -/
theorem move_slots {i : Nat} (x y : Slot ρ) :
    ((s.setSlot i x).setSlot (i + 1) y).slot i = x ∧ ((s.setSlot i x).setSlot (i + 1) y).slot (i + 1) = y ∧
      ∀ j, j ≠ i → j ≠ i + 1 → ((s.setSlot i x).setSlot (i + 1) y).slot j = s.slot j := by
  refine ⟨?_, State.slot_setSlot .., fun j hi hj => ?_⟩
  · rw [State.slot_setSlot_of_ne _ _ _ (Nat.ne_of_lt (Nat.lt_succ_self i)), State.slot_setSlot]
  · rw [State.slot_setSlot_of_ne _ _ _ hj, State.slot_setSlot_of_ne _ _ _ hi]

end Moves

/-- Nothing happens to the files of another day or beyond the last index. -/
structure Aside (count : Nat) (s t : State ρ) : Prop where
  dir : ∀ name : Name, name.date ≠ s.date ∨ count < name.index → t.dir name = s.dir name
  date : t.date = s.date
  jobs : ∀ job ∈ t.jobs, job ∈ s.jobs ∨ job.name.date = s.date ∧ job.name.index ≤ count

/-- The operations work on the files of the day, up to the last index. -/
theorem apply_aside (cfg : Config) (s : State ρ) {op : Op} {count : Nat} (hop : op.Within count) : Aside count s (op.apply cfg s) := by
  have hne : ∀ {name : Name}, name.date ≠ s.date ∨ count < name.index → ∀ i, i ≤ count → name ≠ ⟨s.date, i⟩ := by
    rintro name hname i hi rfl
    rcases hname with hname | hname
    · exact hname rfl
    · exact absurd hi (Nat.not_le.mpr hname)
  have hone : ∀ (i : Nat) (x : Slot ρ) (discarded : List (Nat × List ρ)) (counter : Nat), i ≤ count →
      Aside count s { s.setSlot i x with discarded := discarded, currentBytes := counter } := fun i x _ _ hi =>
    ⟨fun _ hname => State.dir_setSlot_of_ne _ _ _ (hne hname i hi), rfl, fun _ hjob => Or.inl hjob⟩
  have htwo : ∀ (i j : Nat) (x y : Slot ρ), i ≤ count → j ≤ count → Aside count s ((s.setSlot i x).setSlot j y) :=
    fun i j x y hi hj =>
      ⟨fun _ hname => dir_move_of_ne s x y (hne hname i hi) (hne hname j hj), rfl, fun _ hjob => Or.inl hjob⟩
  have hnothing : Aside count s s := ⟨fun _ _ => rfl, rfl, fun _ hjob => Or.inl hjob⟩
  cases op with
  | unlinkGz i =>
    simp only [Op.apply]
    split <;> exact hone _ _ _ _ hop
  | unlinkPlain i =>
    simp only [Op.apply]
    split <;> exact hone _ _ _ _ hop
  | shift i =>
    simp only [Op.apply]
    split
    · exact htwo _ _ _ _ (Nat.le_of_succ_le hop) hop
    · exact htwo _ _ _ _ (Nat.le_of_succ_le hop) hop
    · exact hnothing
  | retire =>
    simp only [Op.apply]
    split
    · have hmove := htwo 0 1 { s.slot 0 with plain := none } { s.slot 1 with plain := (s.slot 0).plain } (Nat.zero_le _) hop
      rename_i c hc
      rw [hc] at hmove
      rw [State.submit_eq]
      refine ⟨hmove.dir, hmove.date, fun job hjob => (List.mem_append.mp hjob).imp id fun hnew => ?_⟩
      cases hcompress : cfg.compress with
      | true =>
        rw [if_pos hcompress] at hnew
        cases List.mem_singleton.mp hnew
        exact ⟨rfl, hop⟩
      | false =>
        rw [if_neg (by simp [hcompress])] at hnew
        cases hnew
    · exact hnothing
  | switch today => exact hop.elim
  | openFile => exact hone _ _ _ _ (Nat.zero_le _)

theorem within_shifts {n count : Nat} (h : n + 1 ≤ count) : ∀ op ∈ shifts n, op.Within count := by
  induction n with
  | zero => simp [shifts]
  | succ n ih =>
    intro op hop
    rcases List.mem_cons.mp hop with rfl | hop
    · exact h
    · exact ih (Nat.le_of_succ_le h) op hop

theorem within_shiftBackups (h : cfg.backupCount ≠ 0) : ∀ op ∈ shiftBackups cfg, op.Within cfg.backupCount := by
  obtain ⟨n, hn⟩ := Nat.exists_eq_succ_of_ne_zero h
  have hshifts := within_shifts (n := n) (Nat.le_of_eq hn.symm)
  have hlow : n + 1 ≤ cfg.backupCount := Nat.le_of_eq hn.symm
  intro op hop
  simp only [shiftBackups, hn, List.cons_append, List.mem_cons, List.mem_append, List.not_mem_nil, or_false] at hop
  rcases hop with rfl | rfl | hop | rfl
  · exact hlow
  · exact hlow
  · exact hshifts op hop
  · exact Nat.le_of_add_left_le hlow

/-- The clock is not before the current day. -/
def Forward (s : State ρ) : Action ρ → Prop
  | .rollover today => s.date ≤ today
  | .kill today => s.date ≤ today
  | _ => True

/-- There are no files of later days or beyond the last index, and none will be made by what is still to be
    done. -/
structure Framed (cfg : Config) (s : State ρ) : Prop where
  files : ∀ name, s.date < name.date ∨ cfg.backupCount < name.index → s.dir name = ⟨none, none⟩
  jobs : ∀ job ∈ s.jobs, job.name.date ≤ s.date ∧ job.name.index ≤ cfg.backupCount
  ops : ∀ record ops, s.phase = .rolling record ops →
    (∃ today, s.date ≤ today ∧ ops = [.switch today, .openFile]) ∨ ∀ op ∈ ops, op.Within cfg.backupCount

section Steps
variable {s t : State ρ}

/-- What does not change the frame: the day and the files of other days stay, and no rotation is begun. -/
theorem Framed.aside (h : Framed cfg s) (haside : Aside cfg.backupCount s t)
    (hops : ∀ record ops, t.phase = .rolling record ops → ∀ op ∈ ops, op.Within cfg.backupCount) : Framed cfg t where
  files name hname := by
    rw [haside.date] at hname
    rw [haside.dir name (hname.imp_left Nat.ne_of_gt), h.files name hname]
  jobs job hjob := by
    rw [haside.date]
    rcases haside.jobs job hjob with hold | ⟨hdate, hindex⟩
    · exact h.jobs job hold
    · exact ⟨Nat.le_of_eq hdate, hindex⟩
  ops record ops hphase := Or.inr (hops record ops hphase)

theorem write_aside (s : State ρ) (record : ρ) (count : Nat) : Aside count s (s.write record) where
  dir name hname := State.dir_setSlot_of_ne _ _ _ fun he => by
    subst he
    rcases hname with hname | hname
    · exact hname rfl
    · cases hname
  date := rfl
  jobs _ hjob := Or.inl hjob

/-- A process that finds no files of later days. -/
theorem start_framed {dir : Directory ρ} {today : Nat}
    (hfiles : ∀ name : Name, today < name.date ∨ cfg.backupCount < name.index → dir name = ⟨none, none⟩)
    (written : List (Nat × ρ)) (discarded : List (Nat × List ρ)) :
    Framed cfg (.start bytes dir today written discarded) := by
  let w : State ρ := ⟨dir, today, 0, .idle, [], written, discarded⟩
  have hempty : Framed cfg w :=
    ⟨hfiles, fun _ hjob => absurd hjob List.not_mem_nil, fun _ _ hphase => by cases hphase⟩
  have haside : Aside cfg.backupCount w (Op.openFile.apply cfg w) := apply_aside cfg w trivial
  exact hempty.aside ⟨haside.dir, haside.date, haside.jobs⟩ fun _ _ hphase => by cases hphase

theorem Framed.gzip {ok : Bool} (h : Framed cfg s) (hstep : step cfg bytes s (.gzip ok) = some t) : Framed cfg t := by
  obtain ⟨job, jobs, hjobs, rfl⟩ := step_gzip hstep
  obtain ⟨hdate, hindex⟩ := h.jobs job (hjobs ▸ List.mem_cons_self)
  refine ⟨fun name hname => ?_, fun job' hjob' => ?_, h.ops⟩
  · have hne : name ≠ job.name := by
      rintro rfl
      rcases hname with hname | hname
      · exact absurd hdate (Nat.not_le.mpr hname)
      · exact absurd hindex (Nat.not_le.mpr hname)
    exact (Function.update_of_ne hne ..).trans (h.files name hname)
  · rcases List.mem_append.mp hjob' with hnext | hrest
    · obtain ⟨stage, -, rfl⟩ := Option.map_eq_some_iff.mp (Option.mem_toList.mp hnext)
      exact ⟨hdate, hindex⟩
    · exact h.jobs job' (hjobs ▸ List.mem_cons_of_mem _ hrest)

theorem switch_frame (cfg : Config) (s : State ρ) (today : Nat) :
    ((Op.switch today).apply cfg s).dir = s.dir ∧
      ∀ job ∈ ((Op.switch today).apply cfg s).jobs, job ∈ s.jobs ∨ job.name = ⟨s.date, 0⟩ := by
  simp only [Op.apply]
  split
  · refine ⟨State.submit_dir .., fun job hjob => ?_⟩
    have hjob : job ∈ (s.submit cfg 0).jobs := hjob
    rw [State.submit_eq] at hjob
    refine (List.mem_append.mp hjob).imp id fun hnew => ?_
    split at hnew
    · rw [List.mem_singleton.mp hnew]
    · cases hnew
  · exact ⟨rfl, fun job hjob => Or.inl hjob⟩

theorem Framed.operate (h : Framed cfg s) (hstep : step cfg bytes s .operate = some t) : Framed cfg t := by
  obtain ⟨record, op, ops, hrolling, rfl⟩ := step_operate hstep
  rcases h.ops record _ hrolling with ⟨today, hday, hops⟩ | hwithin
  · obtain ⟨rfl, rfl⟩ := List.cons.inj hops
    obtain ⟨hdir, hjobs⟩ := switch_frame cfg s today
    refine ⟨fun name hname => ?_, fun job hjob => ?_, ?_⟩
    · have hdir' : (Op.apply cfg s (.switch today)).dir name = s.dir name := congrFun hdir name
      exact hdir'.trans (h.files name (hname.imp_left (Nat.lt_of_le_of_lt hday)))
    · rcases hjobs job hjob with hold | hnew
      · exact ⟨Nat.le_trans (h.jobs job hold).1 hday, (h.jobs job hold).2⟩
      · rw [hnew]
        exact ⟨hday, Nat.zero_le _⟩
    · rintro record' ops' ⟨⟩
      exact Or.inr fun op hop => by
        cases List.mem_singleton.mp hop
        trivial
  · obtain ⟨hop, hops⟩ := List.forall_mem_cons.mp hwithin
    have haside := apply_aside cfg s hop
    refine h.aside ⟨haside.dir, haside.date, haside.jobs⟩ ?_
    rintro record' ops' ⟨⟩
    exact hops

theorem Framed.step {a : Action ρ} (hcount : cfg.backupCount ≠ 0) (hclock : Forward s a)
    (hstep : step cfg bytes s a = some t) (h : Framed cfg s) : Framed cfg t := by
  cases a with
  | emit record today =>
    obtain ⟨-, ⟨counter, -, rfl⟩ | ⟨-, rfl⟩⟩ := step_emit hstep
    · have haside := write_aside ({ s with currentBytes := counter } : State ρ) record cfg.backupCount
      exact h.aside ⟨haside.dir, haside.date, haside.jobs⟩ fun _ _ hphase => by cases hphase
    · exact ⟨h.files, h.jobs, fun _ _ hphase => by cases hphase⟩
  | rollover today =>
    obtain ⟨-, record, -, rfl⟩ := step_rollover hstep
    refine ⟨h.files, h.jobs, ?_⟩
    rintro record' ops ⟨⟩
    unfold rolloverOps
    by_cases hday : today = s.date
    · rw [if_neg (not_not.mpr hday)]
      refine Or.inr fun op hop => ?_
      rcases List.mem_append.mp hop with hop | hop
      · exact within_shiftBackups hcount op hop
      · cases List.mem_singleton.mp hop
        trivial
    · rw [if_pos hday]
      exact Or.inl ⟨today, hclock, rfl⟩
  | operate => exact h.operate hstep
  | write =>
    obtain ⟨record, -, rfl⟩ := step_write hstep
    exact h.aside (write_aside s record cfg.backupCount) fun _ _ hphase => by cases hphase
  | gzip ok => exact h.gzip hstep
  | kill today =>
    cases hstep
    exact start_framed (fun name hname => h.files name (hname.imp_left (Nat.lt_of_le_of_lt hclock))) _ _

/-! ### Clocks -/

/-- The readings of the clock. -/
def Action.clock : Action ρ → Option Nat
  | .emit _ today => some today
  | .rollover today => some today
  | .kill today => some today
  | _ => none

/-- The current day and the day that a rotation will switch to are not after this one. -/
def Behind (day : Nat) (s : State ρ) : Prop :=
  s.date ≤ day ∧ ∀ record ops, s.phase = .rolling record ops → ∀ today, .switch today ∈ ops → today ≤ day

/-- Every other operation is within some number of backups. -/
theorem within_or_switch (op : Op) : (∃ today, op = .switch today) ∨ ∃ count, op.Within count := by
  cases op with
  | unlinkGz i => exact Or.inr ⟨i, Nat.le_refl i⟩
  | unlinkPlain i => exact Or.inr ⟨i, Nat.le_refl i⟩
  | shift i => exact Or.inr ⟨i + 1, Nat.le_refl (i + 1)⟩
  | retire => exact Or.inr ⟨1, Nat.le_refl 1⟩
  | switch today => exact Or.inl ⟨today, rfl⟩
  | openFile => exact Or.inr ⟨0, trivial⟩

theorem switch_not_mem {today : Nat} {count : Nat} {ops : List Op} (h : ∀ op ∈ ops, op.Within count) :
    Op.switch today ∉ ops := fun hmem => h _ hmem

theorem Behind.step {day : Nat} {a : Action ρ} (hcount : cfg.backupCount ≠ 0) (ha : ∀ today ∈ a.clock, today ≤ day)
    (hstep : FileLogger.step cfg bytes s a = some t) (h : Behind day s) : Behind day t := by
  obtain ⟨hdate, hops⟩ := h
  cases a with
  | emit record today =>
    obtain ⟨-, ⟨counter, -, rfl⟩ | ⟨-, rfl⟩⟩ := step_emit hstep
    · exact ⟨hdate, fun _ _ hphase => by cases hphase⟩
    · exact ⟨hdate, fun _ _ hphase => by cases hphase⟩
  | rollover today =>
    obtain ⟨-, record, -, rfl⟩ := step_rollover hstep
    refine ⟨hdate, ?_⟩
    rintro record' ops ⟨⟩ later hlater
    rcases List.mem_append.mp hlater with hlater | hlater
    · split at hlater
      · cases List.mem_singleton.mp hlater
        exact ha today rfl
      · exact absurd hlater (switch_not_mem (within_shiftBackups hcount))
    · cases List.mem_singleton.mp hlater
  | operate =>
    obtain ⟨record, op, ops, hrolling, rfl⟩ := step_operate hstep
    have hswitches := hops record _ hrolling
    refine ⟨?_, ?_⟩
    · rcases within_or_switch op with ⟨today, rfl⟩ | ⟨count, hwithin⟩
      · exact hswitches today List.mem_cons_self
      · exact Nat.le_trans (Nat.le_of_eq (apply_aside cfg s hwithin).date) hdate
    · rintro record' ops' ⟨⟩ today hmem
      exact hswitches today (List.mem_cons_of_mem _ hmem)
  | write =>
    obtain ⟨record, -, rfl⟩ := step_write hstep
    exact ⟨hdate, fun _ _ hphase => by cases hphase⟩
  | gzip ok =>
    obtain ⟨job, jobs, -, rfl⟩ := step_gzip hstep
    exact ⟨hdate, hops⟩
  | kill today =>
    cases hstep
    exact ⟨ha today rfl, fun _ _ hphase => by cases hphase⟩

theorem forward_of_clock {a : Action ρ} (h : ∀ today ∈ a.clock, s.date ≤ today) : Forward s a := by
  cases a with
  | rollover today => exact h today rfl
  | kill today => exact h today rfl
  | emit record today => trivial
  | operate => trivial
  | write => trivial
  | gzip ok => trivial

/-- Readings that do not go back are never before the current day. -/
theorem forward_of_sorted (hcount : cfg.backupCount ≠ 0) {as : List (Action ρ)}
    (hsorted : (as.filterMap Action.clock).Pairwise (· ≤ ·)) (hbehind : ∀ day ∈ as.filterMap Action.clock, Behind day s) :
    Runs.Allowed (FileLogger.step cfg bytes) Forward s as := by
  induction as generalizing s with
  | nil => trivial
  | cons a as ih =>
    cases hclock : a.clock with
    | none =>
      rw [List.filterMap_cons_none hclock] at hsorted hbehind
      have hquiet : ∀ today ∈ a.clock, s.date ≤ today := by simp [hclock]
      refine ⟨forward_of_clock hquiet, fun t ht => ih hsorted fun day hday => ?_⟩
      exact (hbehind day hday).step hcount (by simp [hclock]) ht
    | some today =>
      rw [List.filterMap_cons_some hclock] at hsorted hbehind
      obtain ⟨hfirst, hrest⟩ := List.pairwise_cons.mp hsorted
      have hnow : ∀ x ∈ a.clock, s.date ≤ x := by simpa [hclock] using (hbehind today List.mem_cons_self).1
      refine ⟨forward_of_clock hnow, fun t ht => ih hrest fun day hday => ?_⟩
      exact (hbehind day (List.mem_cons_of_mem _ hday)).step hcount (by simpa [hclock] using hfirst day hday) ht

/-- From an empty directory, while the clock does not go back. -/
theorem run_framed (hcount : cfg.backupCount ≠ 0) {today : Nat} {as : List (Action ρ)}
    (hclock : (today :: as.filterMap Action.clock).Pairwise (· ≤ ·))
    (h : run cfg bytes (.start bytes (fun _ => ⟨none, none⟩) today [] []) as = some t) : Framed cfg t :=
  Runs.run_inv_at (fun _ _ _ hclock hstep hs => Framed.step hcount hclock hstep hs)
    (forward_of_sorted hcount (List.pairwise_cons.mp hclock).2 fun day hday =>
      ⟨(List.pairwise_cons.mp hclock).1 day hday, fun _ _ hphase => by cases hphase⟩)
    h (start_framed (fun _ _ => rfl) [] [])

end Steps

end Redgw.FileLogger
