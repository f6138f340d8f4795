import Redgw.Theorems.RotationFrame

/-! # Rotation and crashes

A process that is killed may leave a partial archive beside a complete file. The next rotation takes the
archive for the backup and writes over the file. Without such a pair at the first index, nothing is lost
over any number of rotations, compressions and kills. -/

namespace Redgw.FileLogger

variable {ρ : Type} {cfg : Config} {bytes : ρ → Nat}

/-! ### What can be read -/

/-- The record is in the file, or in the archive and that is complete. -/
def Slot.Holds (slot : Slot ρ) (r : ρ) : Prop :=
  (∃ c, slot.plain = some c ∧ r ∈ c) ∨ ∃ data, slot.archive = some ⟨data, true⟩ ∧ r ∈ data

def Readable (dir : Directory ρ) (r : ρ) : Prop := ∃ name, (dir name).Holds r

/-- The record can be read, or its file has been removed at the last index. -/
def Kept (s : State ρ) (r : ρ) : Prop := Readable s.dir r ∨ ∃ f ∈ s.discarded, r ∈ f.2

theorem Readable.update {dir : Directory ρ} {name : Name} {slot : Slot ρ} {r : ρ}
    (hslot : (dir name).Holds r → slot.Holds r) (h : Readable dir r) : Readable (Function.update dir name slot) r := by
  obtain ⟨other, hother⟩ := h
  refine ⟨other, ?_⟩
  by_cases he : other = name
  · subst he
    rw [Function.update_self]
    exact hslot hother
  · rwa [Function.update_of_ne he]

/-- A move from one index to another: what was at the first is at one of them, and what was at the second is
    there or at a third. -/
theorem Readable.move {s : State ρ} {i j : Nat} {x y : Slot ρ} {r : ρ} (hij : i ≠ j)
    (hx : (s.slot i).Holds r → x.Holds r ∨ y.Holds r)
    (hy : (s.slot j).Holds r → y.Holds r ∨ ∃ k, k ≠ i ∧ k ≠ j ∧ (s.slot k).Holds r) (h : Readable s.dir r) :
    Readable ((s.setSlot i x).setSlot j y).dir r := by
  have hat : ∀ {k : Nat}, (((s.setSlot i x).setSlot j y).slot k).Holds r → Readable ((s.setSlot i x).setSlot j y).dir r :=
    fun hk => ⟨_, hk⟩
  have hnew : y.Holds r → Readable ((s.setSlot i x).setSlot j y).dir r := fun hy => by
    refine hat (k := j) ?_
    rwa [State.slot_setSlot]
  obtain ⟨other, hother⟩ := h
  by_cases hj : other = ⟨s.date, j⟩
  · subst hj
    rcases hy hother with hy | ⟨k, hki, hkj, hk⟩
    · exact hnew hy
    · refine hat (k := k) ?_
      rwa [State.slot_setSlot_of_ne _ _ _ hkj, State.slot_setSlot_of_ne _ _ _ hki]
  · by_cases hi : other = ⟨s.date, i⟩
    · subst hi
      rcases hx hother with hx | hy
      · refine hat (k := i) ?_
        rwa [State.slot_setSlot_of_ne _ _ _ hij, State.slot_setSlot]
      · exact hnew hy
    · refine ⟨other, ?_⟩
      rwa [State.dir_setSlot_of_ne (s.setSlot i x) j y hj, State.dir_setSlot_of_ne s i x hi]

/-! ### The directory -/

/-- A complete archive beside a file has what the file has. -/
def Slot.Doubled (slot : Slot ρ) : Prop :=
  ∀ c data, slot.plain = some c → slot.archive = some ⟨data, true⟩ → ∀ r ∈ c, r ∈ data

/-- File and archive stand beside each other only for the active files and the first backups. -/
structure Tidy (dir : Directory ρ) : Prop where
  first : ∀ date, (dir ⟨date, 1⟩).Doubled
  single : ∀ date i, 2 ≤ i → (dir ⟨date, i⟩).plain = none ∨ (dir ⟨date, i⟩).archive = none

theorem Tidy.update {dir : Directory ρ} (h : Tidy dir) {name : Name} {slot : Slot ρ}
    (hfirst : name.index = 1 → slot.Doubled) (hsingle : 2 ≤ name.index → slot.plain = none ∨ slot.archive = none) :
    Tidy (Function.update dir name slot) where
  first date := by
    by_cases he : (⟨date, 1⟩ : Name) = name
    · subst he
      rw [Function.update_self]
      exact hfirst rfl
    · rw [Function.update_of_ne he]
      exact h.first date
  single date i hi := by
    by_cases he : (⟨date, i⟩ : Name) = name
    · subst he
      rw [Function.update_self]
      exact hsingle hi
    · rw [Function.update_of_ne he]
      exact h.single date i hi

/-! ### Compressions -/

/-- What is known of the files when the job is there. -/
def StageOk (slot : Slot ρ) : Stage ρ → Prop
  | .start => slot.archive = none
  | .opened c => slot.archive = none ∧ slot.plain = some c
  | .copying c _ => (∀ a, slot.archive = some a → a.complete = false) ∧ slot.plain = some c
  | .copied => ∃ c, slot = ⟨some c, some ⟨c, true⟩⟩
  | .failed => ∀ a, slot.archive = some a → a.complete = false

/-- What the operations of a compression keep of the files, and what holds when there is a next one. -/
def StageKeeps (slot : Slot ρ) (result : Slot ρ × Option (Stage ρ)) : Prop :=
  (∀ r, slot.Holds r → result.1.Holds r) ∧ result.1.Doubled ∧ ∀ next ∈ result.2, StageOk result.1 next

/-- A complete archive is not there: another one may come in its place. -/
theorem holds_plain {slot : Slot ρ} (h : ∀ a, slot.archive = some a → a.complete = false) {r : ρ} (hr : slot.Holds r)
    (archive : Option (Archive ρ)) : ({ slot with archive := archive } : Slot ρ).Holds r := by
  rcases hr with ⟨c, hc, hr⟩ | ⟨data, ha, -⟩
  · exact Or.inl ⟨c, hc, hr⟩
  · cases h _ ha

theorem StageKeeps.same {slot : Slot ρ} (hdouble : slot.Doubled) {next : Option (Stage ρ)}
    (hnext : ∀ n ∈ next, StageOk slot n) : StageKeeps slot (slot, next) :=
  ⟨fun _ hr => hr, hdouble, hnext⟩

theorem StageKeeps.fail {slot : Slot ρ} (hdouble : slot.Doubled) (h : StageOk slot .failed) :
    StageKeeps slot (slot, some .failed) :=
  .same hdouble fun _ hn => Option.some.inj hn ▸ h

theorem StageOk.doubled {slot : Slot ρ} {stage : Stage ρ} (h : StageOk slot stage) : slot.Doubled := by
  intro c data hc ha r hr
  cases stage with
  | start => cases h.symm.trans ha
  | opened c' => cases h.1.symm.trans ha
  | copying c' k => cases h.1 _ ha
  | copied =>
    obtain ⟨c', rfl⟩ := h
    cases hc
    cases ha
    exact hr
  | failed => cases h _ ha

theorem StageOk.step {slot : Slot ρ} {stage : Stage ρ} (h : StageOk slot stage) (ok : Bool) :
    StageKeeps slot (stage.step slot ok) := by
  have hdouble := h.doubled
  cases stage with
  | start =>
    have hnone : slot.archive = none := h
    have hfailed : StageOk slot .failed := fun a ha => absurd (hnone.symm.trans ha) (by simp)
    cases hp : slot.plain with
    | none =>
      simp only [Stage.step, hp]
      exact .fail hdouble hfailed
    | some c =>
      cases ok with
      | false =>
        simp only [Stage.step, hp]
        exact .fail hdouble hfailed
      | true =>
        simp only [Stage.step, hp]
        exact .same hdouble fun _ hn => Option.some.inj hn ▸ ⟨hnone, hp⟩
  | opened c =>
    obtain ⟨hnone, hp⟩ := h
    have hincomplete : ∀ a, slot.archive = some a → a.complete = false := fun a ha => absurd (hnone.symm.trans ha) (by simp)
    cases ok with
    | false => exact .fail hdouble hincomplete
    | true =>
      refine ⟨fun r hr => holds_plain hincomplete hr _, ?_, ?_⟩
      · intro c data _ ha
        cases ha
      · rintro next ⟨⟩
        exact ⟨fun a ha => by cases ha; rfl, hp⟩
  | copying c k =>
    obtain ⟨hincomplete, hp⟩ := h
    cases ok with
    | false => exact .fail hdouble hincomplete
    | true =>
      simp only [Stage.step, if_true]
      split
      · refine ⟨fun r hr => holds_plain hincomplete hr _, ?_, ?_⟩
        · intro c data _ ha
          cases ha
        · rintro next ⟨⟩
          exact ⟨fun a ha => by cases ha; rfl, hp⟩
      · refine ⟨fun r hr => holds_plain hincomplete hr _, ?_, ?_⟩
        · intro c' data hc ha r hr
          cases ha
          cases hp.symm.trans hc
          exact hr
        · rintro next ⟨⟩
          exact ⟨c, by rw [← hp]⟩
  | copied =>
    obtain ⟨c, rfl⟩ := h
    cases ok with
    | false => exact .same hdouble (by simp)
    | true =>
      refine ⟨?_, ?_, by rintro next ⟨⟩⟩
      · rintro r (⟨c', hc, hr⟩ | harchive)
        · cases hc
          exact Or.inr ⟨c, rfl, hr⟩
        · exact Or.inr harchive
      · intro c' data hc
        cases hc
  | failed =>
    cases ok with
    | false => exact .same hdouble (by simp)
    | true =>
      refine ⟨fun r hr => holds_plain h hr _, ?_, by rintro next ⟨⟩⟩
      intro c data _ ha
      cases ha

/-- A job is for a first backup or for the file of another day. -/
structure JobOk (s : State ρ) (job : Job ρ) : Prop where
  index : job.name.index ≤ 1
  away : job.name ≠ ⟨s.date, 0⟩
  stage : StageOk (s.dir job.name) job.stage

structure JobsOk (s : State ρ) : Prop where
  one : s.jobs.length ≤ 1
  ok : ∀ job ∈ s.jobs, JobOk s job

theorem JobsOk.nil {s : State ρ} (h : s.jobs = []) : JobsOk s := ⟨by simp [h], by simp [h]⟩

theorem JobsOk.single {s : State ρ} {job : Job ρ} (h : s.jobs = [job]) (hok : JobOk s job) : JobsOk s :=
  ⟨by simp [h], by simpa [h] using hok⟩

theorem JobsOk.congr {s t : State ρ} (h : JobsOk s) (hdir : t.dir = s.dir) (hdate : t.date = s.date)
    (hjobs : t.jobs = s.jobs) : JobsOk t where
  one := hjobs ▸ h.one
  ok job hjob := by
    obtain ⟨hindex, haway, hstage⟩ := h.ok job (hjobs ▸ hjob)
    exact ⟨hindex, hdate ▸ haway, hdir ▸ hstage⟩

/-! ### Rotations -/

def FirstComplete (s : State ρ) : Prop := ∀ a, (s.slot 1).archive = some a → a.complete = true

theorem FirstComplete.of_slot {s t : State ρ} (hs : FirstComplete s) (h : t.slot 1 = s.slot 1) : FirstComplete t := by
  unfold FirstComplete
  rw [h]
  exact hs

/-- The operations that are left of a rotation, with what is known before the first of them. -/
inductive Rotating (cfg : Config) (s : State ρ) : List Op → Prop
  | gz {n : Nat} (hcount : cfg.backupCount = n + 1) (hjobs : s.jobs = []) (hfirst : n = 0 ∨ FirstComplete s) :
      Rotating cfg s (.unlinkGz (n + 1) :: .unlinkPlain (n + 1) :: (shifts n ++ [.retire, .openFile]))
  | plain {n : Nat} (hjobs : s.jobs = []) (hgone : (s.slot (n + 1)).archive = none) (hfirst : n = 0 ∨ FirstComplete s) :
      Rotating cfg s (.unlinkPlain (n + 1) :: (shifts n ++ [.retire, .openFile]))
  | shift {n : Nat} (hjobs : s.jobs = []) (hempty : s.slot (n + 2) = ⟨none, none⟩) (hfirst : FirstComplete s) :
      Rotating cfg s (.shift (n + 1) :: (shifts n ++ [.retire, .openFile]))
  | retire (hjobs : s.jobs = []) (hgone : (s.slot 1).archive = none)
      (hdouble : ∀ c, (s.slot 1).plain = some c → ∃ data, (s.slot 2).archive = some ⟨data, true⟩ ∧ ∀ r ∈ c, r ∈ data) :
      Rotating cfg s [.retire, .openFile]
  | switch {today : Nat} (hday : today ≠ s.date) (hjobs : s.jobs = [])
      (hnone : cfg.compress = true → (s.slot 0).archive = none) : Rotating cfg s [.switch today, .openFile]
  | openFile : Rotating cfg s [.openFile]
  | done : Rotating cfg s []

/-- The slot above is empty: the shifts go on from there. -/
theorem Rotating.shifts {s : State ρ} {n : Nat} (hjobs : s.jobs = []) (hempty : s.slot (n + 1) = ⟨none, none⟩)
    (hfirst : n = 0 ∨ FirstComplete s) : Rotating cfg s (shifts n ++ [.retire, .openFile]) := by
  cases n with
  | zero => exact .retire hjobs (by rw [hempty]) (by simp [hempty])
  | succ n => exact .shift hjobs hempty (hfirst.resolve_left (Nat.succ_ne_zero n))

theorem Rotating.congr {s t : State ρ} {ops : List Op} (h : Rotating cfg s ops) (hdir : t.dir = s.dir)
    (hdate : t.date = s.date) (hjobs : t.jobs = s.jobs) : Rotating cfg t ops := by
  have hslot : ∀ i, t.slot i = s.slot i := fun i => by rw [State.slot, State.slot, hdir, hdate]
  have hcomplete : FirstComplete s → FirstComplete t := fun hfirst => hfirst.of_slot (hslot 1)
  cases h with
  | gz hcount hnone hfirst => exact .gz hcount (hjobs.trans hnone) (hfirst.imp_right hcomplete)
  | plain hnone hgone hfirst => exact .plain (hjobs.trans hnone) (by rwa [hslot]) (hfirst.imp_right hcomplete)
  | shift hnone hempty hfirst => exact .shift (hjobs.trans hnone) ((hslot _).trans hempty) (hcomplete hfirst)
  | retire hnone hgone hdouble =>
    refine .retire (hjobs.trans hnone) (by rwa [hslot]) ?_
    rw [hslot, hslot]
    exact hdouble
  | switch hday hnone harchive => exact .switch (hdate ▸ hday) (hjobs.trans hnone) (by rwa [hslot])
  | openFile => exact .openFile
  | done => exact .done

structure Turned (cfg : Config) (s t : State ρ) (ops : List Op) : Prop where
  kept : ∀ r, Kept s r → Kept t r
  tidy : Tidy t.dir
  jobs : JobsOk t
  written : t.written = s.written
  left : Rotating cfg t ops

/-- The slot at one index is another one, and files may have been discarded. -/
structure Replaced (s t : State ρ) (i : Nat) (slot : Slot ρ) : Prop where
  dir : t.dir = (s.setSlot i slot).dir
  date : t.date = s.date
  jobs : t.jobs = s.jobs
  written : t.written = s.written
  discarded : ∀ f ∈ s.discarded, f ∈ t.discarded

section Replaced
variable {s t : State ρ} {i : Nat} {slot : Slot ρ}

theorem Replaced.slot_self (h : Replaced s t i slot) : t.slot i = slot := by
  unfold State.slot
  rw [h.dir, h.date]
  exact State.slot_setSlot s i slot

theorem Replaced.slot_of_ne (h : Replaced s t i slot) {j : Nat} (hj : j ≠ i) : t.slot j = s.slot j := by
  unfold State.slot
  rw [h.dir, h.date]
  exact State.slot_setSlot_of_ne s i slot hj

theorem Replaced.kept (h : Replaced s t i slot)
    (hslot : ∀ r, (s.slot i).Holds r → slot.Holds r ∨ ∃ f ∈ t.discarded, r ∈ f.2) {r : ρ} (hr : Kept s r) : Kept t r := by
  rcases hr with ⟨name, hname⟩ | ⟨f, hf, hr⟩
  · by_cases he : name = ⟨s.date, i⟩
    · subst he
      refine (hslot r hname).imp (fun hnew => ⟨⟨t.date, i⟩, ?_⟩) id
      have hself : t.dir ⟨t.date, i⟩ = slot := h.slot_self
      rwa [hself]
    · refine Or.inl ⟨name, ?_⟩
      rwa [h.dir, State.dir_setSlot_of_ne s i slot he]
  · exact Or.inr ⟨f, h.discarded f hf, hr⟩

theorem Replaced.tidy (h : Replaced s t i slot) (htidy : Tidy s.dir) (hfirst : i = 1 → slot.Doubled)
    (hsingle : 2 ≤ i → slot.plain = none ∨ slot.archive = none) : Tidy t.dir := by
  rw [h.dir]
  exact htidy.update hfirst hsingle

end Replaced

section Operations
variable {s : State ρ}

theorem unlinkGz_apply (cfg : Config) (s : State ρ) (i : Nat) :
    Replaced s ((Op.unlinkGz i).apply cfg s) i { s.slot i with archive := none } ∧
      ∀ data, (s.slot i).archive = some ⟨data, true⟩ → (s.date, data) ∈ ((Op.unlinkGz i).apply cfg s).discarded := by
  simp only [Op.apply]
  split
  · rename_i data ha
    refine ⟨⟨rfl, rfl, rfl, rfl, fun f hf => List.mem_append_left _ hf⟩, fun data' ha' => ?_⟩
    cases ha.symm.trans ha'
    simp
  · rename_i ha
    exact ⟨⟨rfl, rfl, rfl, rfl, fun _ hf => hf⟩, fun data ha' => absurd ha' (ha data)⟩

theorem unlinkPlain_apply (cfg : Config) (s : State ρ) (i : Nat) :
    Replaced s ((Op.unlinkPlain i).apply cfg s) i { s.slot i with plain := none } ∧
      ∀ c, (s.slot i).plain = some c → (s.date, c) ∈ ((Op.unlinkPlain i).apply cfg s).discarded := by
  simp only [Op.apply]
  split
  · rename_i c hc
    refine ⟨⟨rfl, rfl, rfl, rfl, fun f hf => List.mem_append_left _ hf⟩, fun c' hc' => ?_⟩
    cases hc.symm.trans hc'
    simp
  · rename_i hc
    exact ⟨⟨rfl, rfl, rfl, rfl, fun _ hf => hf⟩, fun c hc' => absurd (hc.symm.trans hc') (by simp)⟩

theorem first_kept {t : State ρ} {n : Nat} (hfirst : n = 0 ∨ FirstComplete s) (h : n ≠ 0 → t.slot 1 = s.slot 1) :
    n = 0 ∨ FirstComplete t := by
  rcases hfirst with hn | hfirst
  · exact Or.inl hn
  · by_cases hn : n = 0
    · exact Or.inl hn
    · exact Or.inr (hfirst.of_slot (h hn))

theorem turned_unlinkGz {n : Nat} (htidy : Tidy s.dir) (hjobs : s.jobs = []) (hfirst : n = 0 ∨ FirstComplete s) :
    Turned cfg s ((Op.unlinkGz (n + 1)).apply cfg s) (.unlinkPlain (n + 1) :: (shifts n ++ [.retire, .openFile])) := by
  obtain ⟨hreplaced, hgone⟩ := unlinkGz_apply cfg s (n + 1)
  refine ⟨fun r => hreplaced.kept ?_, hreplaced.tidy htidy ?_ fun _ => Or.inr rfl, .nil (hreplaced.jobs.trans hjobs),
    hreplaced.written, .plain (hreplaced.jobs.trans hjobs) (by rw [hreplaced.slot_self])
      (first_kept hfirst fun hn => hreplaced.slot_of_ne (by omega))⟩
  · rintro r (⟨c, hc, hr⟩ | ⟨data, ha, hr⟩)
    · exact Or.inl (Or.inl ⟨c, hc, hr⟩)
    · exact Or.inr ⟨_, hgone data ha, hr⟩
  · rintro - c data - ⟨⟩

theorem turned_unlinkPlain {n : Nat} (htidy : Tidy s.dir) (hjobs : s.jobs = []) (hnone : (s.slot (n + 1)).archive = none)
    (hfirst : n = 0 ∨ FirstComplete s) :
    Turned cfg s ((Op.unlinkPlain (n + 1)).apply cfg s) (shifts n ++ [.retire, .openFile]) := by
  obtain ⟨hreplaced, hgone⟩ := unlinkPlain_apply cfg s (n + 1)
  refine ⟨fun r => hreplaced.kept ?_, hreplaced.tidy htidy ?_ fun _ => Or.inl rfl, .nil (hreplaced.jobs.trans hjobs),
    hreplaced.written, .shifts (hreplaced.jobs.trans hjobs) (by simp [hreplaced.slot_self, hnone])
      (first_kept hfirst fun hn => hreplaced.slot_of_ne (by omega))⟩
  · rintro r (⟨c, hc, hr⟩ | ⟨data, ha, hr⟩)
    · exact Or.inr ⟨_, hgone c hc, hr⟩
    · exact Or.inl (Or.inr ⟨data, ha, hr⟩)
  · rintro - c data ⟨⟩

/-- A move from one index to the next that is free: what was there is there still or is above. -/
theorem Kept.move {i : Nat} {x y : Slot ρ} (hempty : s.slot (i + 1) = ⟨none, none⟩)
    (hx : ∀ r, (s.slot i).Holds r → x.Holds r ∨ y.Holds r) {r : ρ} (h : Kept s r) :
    Kept ((s.setSlot i x).setSlot (i + 1) y) r := by
  refine h.imp (Readable.move (Nat.ne_of_lt (Nat.lt_succ_self i)) (hx r) ?_) id
  rw [hempty]
  rintro (⟨c, hc, -⟩ | ⟨data, ha, -⟩)
  · cases hc
  · cases ha

theorem Tidy.move {i : Nat} {x y : Slot ρ} (htidy : Tidy s.dir) (hi : i ≠ 0) (hx : x.archive = none)
    (hy : y.plain = none ∨ y.archive = none) : Tidy ((s.setSlot i x).setSlot (i + 1) y).dir := by
  have hfirst : Tidy (s.setSlot i x).dir :=
    htidy.update (fun _ c data _ ha => absurd (hx.symm.trans ha) (by simp)) fun _ => Or.inr hx
  exact hfirst.update (fun hone => absurd (Nat.succ.inj hone) hi) fun _ => hy

theorem turned_shift {n : Nat} (htidy : Tidy s.dir) (hjobs : s.jobs = []) (hempty : s.slot (n + 2) = ⟨none, none⟩)
    (hfirst : FirstComplete s) :
    Turned cfg s ((Op.shift (n + 1)).apply cfg s) (shifts n ++ [.retire, .openFile]) := by
  have hother : ∀ (x y : Slot ρ), n ≠ 0 → ((s.setSlot (n + 1) x).setSlot (n + 2) y).slot 1 = s.slot 1 :=
    fun x y hn => (move_slots x y).2.2 1 (by omega) (by omega)
  cases ha : (s.slot (n + 1)).archive with
  | some a =>
    rw [shift_archive ha hempty]
    refine ⟨fun r => Kept.move hempty ?_, htidy.move (Nat.succ_ne_zero n) rfl (Or.inl rfl), .nil hjobs, rfl, ?_⟩
    · rintro r (⟨c, hc, hr⟩ | ⟨data, hdata, hr⟩)
      · exact Or.inl (Or.inl ⟨c, hc, hr⟩)
      · exact Or.inr (Or.inr ⟨data, ha.symm.trans hdata, hr⟩)
    · by_cases hn : n = 0
      · -- The file of the first backup may be left, and its archive is the second one now.
        subst hn
        refine .retire hjobs (by rw [(move_slots _ _).1]) fun c hc => ?_
        rw [(move_slots _ _).1] at hc
        rw [(move_slots _ _).2.1]
        obtain ⟨data, complete⟩ := a
        cases hfirst _ ha
        exact ⟨data, rfl, htidy.first s.date c data hc ha⟩
      · have hplain : (s.slot (n + 1)).plain = none :=
          (htidy.single s.date (n + 1) (by omega)).resolve_right fun hnone => by cases ha.symm.trans hnone
        exact .shifts hjobs (by rw [(move_slots _ _).1, hplain]) (first_kept (Or.inr hfirst) (hother _ _))
  | none =>
    cases hc : (s.slot (n + 1)).plain with
    | some c =>
      rw [shift_plain ha hc hempty]
      refine ⟨fun r => Kept.move hempty ?_, htidy.move (Nat.succ_ne_zero n) rfl (Or.inr rfl), .nil hjobs, rfl,
        .shifts hjobs (move_slots _ _).1 (first_kept (Or.inr hfirst) (hother _ _))⟩
      rintro r (⟨c', hc', hr⟩ | ⟨data, hdata, -⟩)
      · exact Or.inr (Or.inl ⟨c', hc.symm.trans hc', hr⟩)
      · cases ha.symm.trans hdata
    | none =>
      rw [shift_nothing ha hc]
      exact ⟨fun _ hr => hr, htidy, .nil hjobs, rfl, .shifts hjobs (Slot.eq_empty hc ha) (Or.inr hfirst)⟩

theorem JobsOk.submit {t : State ρ} {name : Name} (hjobs : t.jobs = if cfg.compress then [⟨name, .start⟩] else [])
    (hindex : name.index ≤ 1) (haway : name ≠ ⟨t.date, 0⟩) (hnone : cfg.compress = true → (t.dir name).archive = none) :
    JobsOk t := by
  cases hcompress : cfg.compress with
  | true => exact .single (hjobs.trans (if_pos hcompress)) ⟨hindex, haway, hnone hcompress⟩
  | false => exact .nil (hjobs.trans (if_neg (by simp [hcompress])))

theorem turned_retire (htidy : Tidy s.dir) (hjobs : s.jobs = []) (hgone : (s.slot 1).archive = none)
    (hdouble : ∀ c, (s.slot 1).plain = some c → ∃ data, (s.slot 2).archive = some ⟨data, true⟩ ∧ ∀ r ∈ c, r ∈ data) :
    Turned cfg s (Op.retire.apply cfg s) [.openFile] := by
  cases hbase : (s.slot 0).plain with
  | none =>
    have happly : Op.retire.apply cfg s = s := by simp only [Op.apply, hbase]
    rw [happly]
    exact ⟨fun _ hr => hr, htidy, .nil hjobs, rfl, .openFile⟩
  | some b =>
    let t := (s.setSlot 0 { s.slot 0 with plain := none }).setSlot 1 { s.slot 1 with plain := some b }
    have happly : Op.retire.apply cfg s = t.submit cfg 1 := by simp only [Op.apply, hbase, t]
    have hslot : t.dir ⟨s.date, 1⟩ = { s.slot 1 with plain := some b } := State.slot_setSlot ..
    have hsubmitted : (t.submit cfg 1).jobs = if cfg.compress then [⟨⟨s.date, 1⟩, .start⟩] else [] := by
      rw [State.submit_eq]
      exact (congrArg (· ++ _) hjobs).trans (List.nil_append _)
    rw [happly]
    refine ⟨fun r hr => ?_, ?_, .submit hsubmitted (Nat.le_refl 1) (by simp) fun _ => ?_, State.submit_written .., .openFile⟩
    · have hkept : Kept t r := by
        refine hr.imp (Readable.move Nat.zero_ne_one ?_ ?_) id
        · rintro (⟨c, hc, hr⟩ | ⟨data, ha, hr⟩)
          · exact Or.inr (Or.inl ⟨b, rfl, by cases hbase.symm.trans hc; exact hr⟩)
          · exact Or.inl (Or.inr ⟨data, ha, hr⟩)
        · -- The file that is written over is in the second archive.
          rintro (⟨c, hc, hr⟩ | ⟨data, ha, -⟩)
          · obtain ⟨data, hdata, hall⟩ := hdouble c hc
            exact Or.inr ⟨2, by decide, by decide, Or.inr ⟨data, hdata, hall r hr⟩⟩
          · cases hgone.symm.trans ha
      unfold Kept at hkept ⊢
      rwa [State.submit_dir, State.submit_discarded]
    · rw [State.submit_dir]
      have hbelow : Tidy (s.setSlot 0 { s.slot 0 with plain := none }).dir :=
        htidy.update (fun hone => by cases hone) fun htwo => absurd htwo (by simp)
      exact hbelow.update (fun _ c data _ ha => by cases hgone.symm.trans ha) fun _ => Or.inr hgone
    · rw [State.submit_dir, hslot]
      exact hgone

theorem turned_switch {today : Nat} (htidy : Tidy s.dir) (hday : today ≠ s.date) (hjobs : s.jobs = [])
    (hnone : cfg.compress = true → (s.slot 0).archive = none) :
    Turned cfg s ((Op.switch today).apply cfg s) [.openFile] := by
  cases hbase : (s.slot 0).plain with
  | none =>
    have happly : (Op.switch today).apply cfg s = { s with date := today } := by simp [Op.apply, hbase]
    rw [happly]
    exact ⟨fun _ hr => hr, htidy, .nil hjobs, rfl, .openFile⟩
  | some b =>
    have happly : (Op.switch today).apply cfg s = { s.submit cfg 0 with date := today } := by simp [Op.apply, hbase]
    have hsubmitted : (s.submit cfg 0).jobs = if cfg.compress then [⟨⟨s.date, 0⟩, .start⟩] else [] := by
      rw [State.submit_eq, hjobs]
      exact List.nil_append _
    rw [happly]
    refine ⟨fun r hr => ?_, ?_, .submit hsubmitted (Nat.zero_le 1) ?_ ?_, State.submit_written .., .openFile⟩
    · unfold Kept at hr ⊢
      rwa [State.submit_dir, State.submit_discarded]
    · rwa [State.submit_dir]
    · exact fun he => hday (congrArg Name.date he).symm
    · rwa [State.submit_dir]

/-! ### The active file -/

theorem Replaced.base {s t : State ρ} {slot : Slot ρ} (h : Replaced s t 0 slot)
    (harchive : slot.archive = (s.slot 0).archive) {c : List ρ} (hplain : slot.plain = some c)
    (hmore : ∀ r ∈ (s.slot 0).plainData, r ∈ c) (htidy : Tidy s.dir) (hjobs : JobsOk s) :
    (∀ r, Kept s r → Kept t r) ∧ Tidy t.dir ∧ JobsOk t := by
  refine ⟨fun r => h.kept ?_, h.tidy htidy (fun hone => by cases hone) fun htwo => absurd htwo (by simp), ?_⟩
  · rintro r (⟨b, hb, hr⟩ | ⟨data, ha, hr⟩)
    · refine Or.inl (Or.inl ⟨c, hplain, hmore r ?_⟩)
      simpa [Slot.plainData, hb] using hr
    · exact Or.inl (Or.inr ⟨data, harchive.trans ha, hr⟩)
  · refine ⟨h.jobs ▸ hjobs.one, fun job hjob => ?_⟩
    obtain ⟨hindex, haway, hstage⟩ := hjobs.ok job (h.jobs ▸ hjob)
    refine ⟨hindex, h.date ▸ haway, ?_⟩
    rwa [h.dir, State.dir_setSlot_of_ne s 0 slot haway]

theorem turned_openFile (htidy : Tidy s.dir) (hjobs : JobsOk s) : Turned cfg s (Op.openFile.apply cfg s) [] := by
  have hreplaced : Replaced s (Op.openFile.apply cfg s) 0 ⟨some (s.slot 0).plainData, (s.slot 0).archive⟩ :=
    ⟨rfl, rfl, rfl, rfl, fun _ hf => hf⟩
  obtain ⟨hkept, htidy', hjobs'⟩ := hreplaced.base rfl rfl (fun _ hr => hr) htidy hjobs
  exact ⟨hkept, htidy', hjobs', rfl, .done⟩

theorem Rotating.apply {op : Op} {ops : List Op} (h : Rotating cfg s (op :: ops)) (htidy : Tidy s.dir) (hjobs : JobsOk s) :
    Turned cfg s (op.apply cfg s) ops := by
  cases h with
  | gz _ hnone hfirst => exact turned_unlinkGz htidy hnone hfirst
  | plain hnone hgone hfirst => exact turned_unlinkPlain htidy hnone hgone hfirst
  | shift hnone hempty hfirst => exact turned_shift htidy hnone hempty hfirst
  | retire hnone hgone hdouble => exact turned_retire htidy hnone hgone hdouble
  | switch hday hnone harchive => exact turned_switch htidy hday hnone harchive
  | openFile => exact turned_openFile htidy hjobs

end Operations

/-! ### Runs -/

/-- What holds in every state of a run whose rollovers are safe. -/
structure Inv (cfg : Config) (s : State ρ) : Prop where
  kept : ∀ p ∈ s.written, Kept s p.2
  tidy : Tidy s.dir
  jobs : JobsOk s
  rolling : ∀ record ops, s.phase = .rolling record ops → Rotating cfg s ops

/-- A rollover for the size does not begin with a partial archive of the first backup, unless that is the last,
    nor one for the day with an archive of the file that is left. -/
def SafeRollover (cfg : Config) (s : State ρ) : Action ρ → Prop
  | .rollover today =>
    (today = s.date → cfg.backupCount = 1 ∨ FirstComplete s) ∧
      (today ≠ s.date → cfg.compress = true → (s.slot 0).archive = none)
  | _ => True

theorem rotating_rolloverOps {s : State ρ} {today : Nat} (hcount : cfg.backupCount ≠ 0) (hjobs : s.jobs = [])
    (hsafe : SafeRollover cfg s (.rollover today)) : Rotating cfg s (rolloverOps cfg s today) := by
  unfold rolloverOps
  by_cases hday : today = s.date
  · rw [if_neg (not_not.mpr hday)]
    obtain ⟨n, hn⟩ := Nat.exists_eq_succ_of_ne_zero hcount
    have hfirst : n = 0 ∨ FirstComplete s := (hsafe.1 hday).imp_left fun hone => by omega
    have hops : shiftBackups cfg ++ [.openFile] =
        .unlinkGz (n + 1) :: .unlinkPlain (n + 1) :: (shifts n ++ [.retire, .openFile]) := by
      simp [shiftBackups, hn]
    rw [hops]
    exact .gz hn hjobs hfirst
  · rw [if_pos hday]
    exact .switch hday hjobs (hsafe.2 hday)

theorem Inv.write {s : State ρ} (h : Inv cfg s) (record : ρ) : Inv cfg (s.write record) := by
  let w : State ρ := { s with phase := .idle, written := s.written ++ [(s.date, record)] }
  have hreplaced : Replaced w (s.write record) 0 ⟨some ((s.slot 0).plainData ++ [record]), (s.slot 0).archive⟩ :=
    ⟨rfl, rfl, rfl, rfl, fun _ hf => hf⟩
  obtain ⟨hkept, htidy, hjobs⟩ := hreplaced.base rfl rfl (fun _ hr => List.mem_append_left _ hr) h.tidy
    (h.jobs.congr rfl rfl rfl)
  refine ⟨fun p hp => ?_, htidy, hjobs, fun _ _ hphase => by cases hphase⟩
  have hp : p ∈ s.written ++ [(s.date, record)] := hp
  rcases List.mem_append.mp hp with hp | hp
  · exact hkept _ (h.kept p hp)
  · rw [List.mem_singleton.mp hp]
    refine Or.inl ⟨⟨s.date, 0⟩, Or.inl ⟨(s.slot 0).plainData ++ [record], ?_, by simp⟩⟩
    exact congrArg Slot.plain (State.slot_write s record)

theorem Inv.start {s : State ρ} (h : Inv cfg s) (today : Nat) : Inv cfg (.start bytes s.dir today s.written s.discarded) := by
  let w : State ρ := ⟨s.dir, today, 0, .idle, [], s.written, s.discarded⟩
  have hreplaced : Replaced w (.start bytes s.dir today s.written s.discarded) 0 ⟨some (w.slot 0).plainData, (w.slot 0).archive⟩ :=
    ⟨rfl, rfl, rfl, rfl, fun _ hf => hf⟩
  obtain ⟨hkept, htidy, hjobs⟩ := hreplaced.base rfl rfl (fun _ hr => hr) h.tidy (.nil rfl)
  exact ⟨fun p hp => hkept _ (h.kept p hp), htidy, hjobs, fun _ _ hphase => by cases hphase⟩

theorem Inv.gzip {s t : State ρ} (h : Inv cfg s) {ok : Bool} (hstep : step cfg bytes s (.gzip ok) = some t) : Inv cfg t := by
  obtain ⟨job, jobs, hjobs, rfl⟩ := step_gzip hstep
  have hnil : jobs = [] := by
    have hone := h.jobs.one
    rw [hjobs] at hone
    exact List.eq_nil_of_length_eq_zero (by simpa using hone)
  subst hnil
  obtain ⟨hindex, haway, hstage⟩ := h.jobs.ok job (hjobs ▸ List.mem_cons_self)
  obtain ⟨hholds, hdouble, hnext⟩ := hstage.step ok
  refine ⟨fun p hp => (h.kept p hp).imp (Readable.update (hholds p.2)) id,
    h.tidy.update (fun _ => hdouble) fun htwo => absurd htwo (by omega), ?_, ?_⟩
  · cases hstage' : (job.stage.step (s.dir job.name) ok).2 with
    | none => exact .nil (by simp)
    | some next =>
      have hok : StageOk (Function.update s.dir job.name (job.stage.step (s.dir job.name) ok).1 job.name) next := by
        rw [Function.update_self]
        exact hnext next hstage'
      have hone : ((some next).map (Job.mk job.name)).toList ++ [] = [⟨job.name, next⟩] := rfl
      exact .single hone ⟨hindex, haway, hok⟩
  · intro record ops hphase
    cases h.rolling record ops hphase with
    | gz _ hnone _ => cases hjobs.symm.trans hnone
    | plain hnone _ _ => cases hjobs.symm.trans hnone
    | shift hnone _ _ => cases hjobs.symm.trans hnone
    | retire hnone _ _ => cases hjobs.symm.trans hnone
    | switch _ hnone _ => cases hjobs.symm.trans hnone
    | openFile => exact .openFile
    | done => exact .done

theorem Inv.step {s t : State ρ} {a : Action ρ} (hcount : cfg.backupCount ≠ 0) (hsafe : SafeRollover cfg s a)
    (hstep : step cfg bytes s a = some t) (h : Inv cfg s) : Inv cfg t := by
  cases a with
  | emit record today =>
    obtain ⟨-, ⟨counter, -, rfl⟩ | ⟨-, rfl⟩⟩ := step_emit hstep
    · refine Inv.write (s := { s with currentBytes := counter }) ⟨h.kept, h.tidy, h.jobs.congr rfl rfl rfl, ?_⟩ record
      exact fun record' ops hphase => (h.rolling record' ops hphase).congr rfl rfl rfl
    · exact ⟨h.kept, h.tidy, h.jobs.congr rfl rfl rfl, fun _ _ hphase => by cases hphase⟩
  | rollover today =>
    obtain ⟨hjobs, record, -, rfl⟩ := step_rollover hstep
    refine ⟨h.kept, h.tidy, h.jobs.congr rfl rfl rfl, ?_⟩
    rintro record' ops ⟨⟩
    exact (rotating_rolloverOps hcount hjobs hsafe).congr rfl rfl rfl
  | operate =>
    obtain ⟨record, op, ops, hrolling, rfl⟩ := step_operate hstep
    have hturned := (h.rolling record _ hrolling).apply h.tidy h.jobs
    refine ⟨fun p hp => ?_, hturned.tidy, hturned.jobs.congr rfl rfl rfl, ?_⟩
    · have hp : p ∈ (op.apply cfg s).written := hp
      exact hturned.kept p.2 (h.kept p (hturned.written ▸ hp))
    · rintro record' ops' ⟨⟩
      exact hturned.left.congr rfl rfl rfl
  | write =>
    obtain ⟨record, -, rfl⟩ := step_write hstep
    exact h.write record
  | gzip ok => exact h.gzip hstep
  | kill today =>
    cases hstep
    exact h.start today

theorem start_inv (today : Nat) : Inv cfg (State.start bytes (fun _ => (⟨none, none⟩ : Slot ρ)) today [] []) := by
  have hempty : Inv cfg (⟨fun _ => ⟨none, none⟩, today, 0, .idle, [], [], []⟩ : State ρ) :=
    ⟨by simp, ⟨fun _ c data hc => (by cases hc), fun _ _ _ => Or.inl rfl⟩, .nil rfl, fun _ _ hphase => (by cases hphase)⟩
  exact hempty.start today

/-- Over any number of rotations, compressions, kills and restarts, in every state in which the rollovers were
    safe every record that was written can be read from some complete file, or its file was removed at the last
    index. -/
theorem records_survive_kills (cfg : Config) (bytes : ρ → Nat) (hcount : cfg.backupCount ≠ 0) (today : Nat)
    {as : List (Action ρ)} {t : State ρ}
    (hsafe : Runs.Allowed (step cfg bytes) (SafeRollover cfg) (.start bytes (fun _ => ⟨none, none⟩) today [] []) as)
    (h : run cfg bytes (.start bytes (fun _ => ⟨none, none⟩) today [] []) as = some t) : ∀ p ∈ t.written, Kept t p.2 :=
  (Runs.run_inv_at (fun _ _ _ hsafe hstep hs => Inv.step hcount hsafe hstep hs) hsafe h (start_inv today)).kept

/-- A kill after the first record, and a rollover after the second. -/
theorem records_survive_kills_one : ∃ t : State Nat,
    run ⟨2, 1, true⟩ (fun _ => 1) (.start (fun _ => 1) (fun _ => ⟨none, none⟩) 0 [] [])
      [.emit 5 0, .kill 0, .emit 6 0, .rollover 0, .operate, .operate, .operate, .operate, .write] = some t ∧
    ∀ p ∈ t.written, Kept t p.2 := by
  have hrun : (run ⟨2, 1, true⟩ (fun _ => 1) (.start (fun _ => 1) (fun _ => ⟨none, none⟩) 0 [] [])
      [.emit 5 0, .kill 0, .emit 6 0, .rollover 0, .operate, .operate, .operate, .operate, .write]).isSome = true := rfl
  have h := (Option.some_get hrun).symm
  refine ⟨_, h, records_survive_kills ⟨2, 1, true⟩ (fun _ => 1) (by decide) 0 ?_ h⟩
  refine ⟨trivial, fun _ h₁ => ⟨trivial, fun _ h₂ => ⟨trivial, fun _ h₃ => ⟨⟨fun _ => Or.inl rfl, fun hday => ?_⟩, ?_⟩⟩⟩⟩
  · cases h₁
    cases h₂
    cases h₃
    exact absurd rfl hday
  · exact fun _ _ => ⟨trivial, fun _ _ => ⟨trivial, fun _ _ => ⟨trivial, fun _ _ => ⟨trivial, fun _ _ => ⟨trivial, fun _ _ => trivial⟩⟩⟩⟩⟩

/-- A kill while the first backup is compressed: at the next rotation the partial archive becomes the second
    backup, and the file of the first is written over. -/
theorem partial_archive_shifted : ∃ (cfg : Config) (as : List (Action LogRecord)) (t : State LogRecord) (r : LogRecord),
    cfg.backupCount ≠ 0 ∧ cfg.compress = true ∧ Action.gzip false ∉ as ∧
      run cfg LogRecord.bytes (.start LogRecord.bytes (fun _ => ⟨none, none⟩) 0 [] []) as = some t ∧
      (0, r) ∈ t.written ∧ ¬Kept t r := by
  let first : LogRecord := ⟨"first", none, none⟩
  let second : LogRecord := ⟨"second", none, none⟩
  let third : LogRecord := ⟨"third", none, none⟩
  let cfg : Config := ⟨10, 2, true⟩
  let as : List (Action LogRecord) :=
    [.emit first 0, .emit second 0, .rollover 0, .operate, .operate, .operate, .operate, .operate, .write, .gzip true,
      .gzip true, .kill 0, .emit third 0, .rollover 0, .operate, .operate, .operate, .operate, .operate, .write, .gzip true,
      .gzip true, .gzip true, .gzip true, .gzip true]
  have hview : (run cfg LogRecord.bytes (.start LogRecord.bytes (fun _ => ⟨none, none⟩) 0 [] []) as).map
      (fun u => (u.date, u.written, u.discarded)) = some (0, [(0, first), (0, second), (0, third)], []) := by
    decide +kernel
  have hslots : (run cfg LogRecord.bytes (.start LogRecord.bytes (fun _ => ⟨none, none⟩) 0 [] []) as).map
      (fun u => [u.slot 0, u.slot 1, u.slot 2]) =
      some [⟨some [third], none⟩, ⟨none, some ⟨[second], true⟩⟩, ⟨none, some ⟨[], false⟩⟩] := by
    decide +kernel
  obtain ⟨t, ht, hvalues⟩ := Option.map_eq_some_iff.mp hview
  rw [ht] at hslots
  simp only [Prod.mk.injEq] at hvalues
  simp only [Option.map_some, Option.some.injEq, List.cons.injEq, and_true] at hslots
  obtain ⟨hdate, hwritten, hdiscarded⟩ := hvalues
  obtain ⟨hslot₀, hslot₁, hslot₂⟩ := hslots
  refine ⟨cfg, as, t, first, by decide, rfl, by decide, ht, by simp [hwritten], ?_⟩
  rintro (⟨⟨date, index⟩, hholds⟩ | ⟨f, hf, -⟩)
  · have hframed : Framed cfg t := run_framed (by decide) (by decide) ht
    have hempty : ¬(⟨none, none⟩ : Slot LogRecord).Holds first := by simp [Slot.Holds]
    have hnear : date = 0 ∧ index < 3 := by
      by_contra hfar
      rw [hframed.files ⟨date, index⟩ (by rw [hdate]; simp only [cfg]; omega)] at hholds
      exact hempty hholds
    obtain ⟨rfl, hindex⟩ := hnear
    have hslot : (t.slot index).Holds first := by
      unfold State.slot
      rwa [hdate]
    match index, hindex with
    | 0, _ => simp [hslot₀, Slot.Holds, first, third] at hslot
    | 1, _ => simp [hslot₁, Slot.Holds, first, second] at hslot
    | 2, _ => simp [hslot₂, Slot.Holds] at hslot
  · rw [hdiscarded] at hf
    cases hf

end Redgw.FileLogger
