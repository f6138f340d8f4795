import Redgw.Theorems.ByteCounter
import Redgw.Theorems.RotationFrame

/-! # Rotation and order

The files of a day, read from the last backup down to the file of the day, have its records in the order in
which they were written, from the first on whose file has not been discarded. This holds between any two
operations of a handler and its compressions, as long as each compression leaves the file or the archive. -/

namespace Redgw.FileLogger

variable {ρ : Type} {cfg : Config} {bytes : ρ → Nat}

/-! ### Chains of files -/

/-- What can be read of a name: the file, or its archive when there is no file. -/
def Slot.content (slot : Slot ρ) : List ρ := slot.plain.getD slot.archiveData

/-- The contents from index `n` down to 0. -/
def chain (content : Nat → List ρ) : Nat → List ρ
  | 0 => content 0
  | n + 1 => content (n + 1) ++ chain content n

theorem chain_congr {f g : Nat → List ρ} {n : Nat} (h : ∀ i ≤ n, f i = g i) : chain f n = chain g n := by
  induction n with
  | zero => exact h 0 (Nat.le_refl 0)
  | succ n ih =>
    unfold chain
    rw [h (n + 1) (Nat.le_refl _), ih fun i hi => h i (Nat.le_succ_of_le hi)]

/-- What moves from one index to the next stays at its place in the chain. -/
theorem chain_move {f g : Nat → List ρ} {i n : Nat} (hi : i + 1 ≤ n) (hmove : f (i + 1) ++ f i = g (i + 1) ++ g i)
    (hother : ∀ j, j ≠ i → j ≠ i + 1 → f j = g j) : chain f n = chain g n := by
  induction n with
  | zero => exact absurd hi (Nat.not_succ_le_zero i)
  | succ n ih =>
    by_cases hlast : i = n
    · subst hlast
      cases i with
      | zero => exact hmove
      | succ i =>
        have hbelow : chain f i = chain g i := chain_congr fun j hj => hother j (by omega) (by omega)
        have hf : chain f (i + 2) = (f (i + 2) ++ f (i + 1)) ++ chain f i := (List.append_assoc ..).symm
        have hg : chain g (i + 2) = (g (i + 2) ++ g (i + 1)) ++ chain g i := (List.append_assoc ..).symm
        rw [hf, hg, hmove, hbelow]
    · have hfirst : f (n + 1) = g (n + 1) := hother (n + 1) (by omega) (by omega)
      unfold chain
      rw [hfirst, ih (by omega)]

/-- What is added to the last file is added to the chain. -/
theorem chain_append {f g : Nat → List ρ} {xs : List ρ} (hlast : g 0 = f 0 ++ xs) (hother : ∀ j, j ≠ 0 → g j = f j)
    (n : Nat) : chain g n = chain f n ++ xs := by
  induction n with
  | zero => exact hlast
  | succ n ih =>
    unfold chain
    rw [hother (n + 1) (Nat.succ_ne_zero n), ih, List.append_assoc]

/-! ### The records of a day -/

/-- What the files of a day contain, the oldest backup first. -/
def State.records (s : State ρ) (count date : Nat) : List ρ := chain (fun i => (s.dir ⟨date, i⟩).content) count

/-- What was written to the file of a day. -/
def State.writtenOn (s : State ρ) (date : Nat) : List ρ := (s.written.filter (·.1 = date)).map (·.2)

/-- The contents of the files of a day that were removed at the last index. -/
def State.discardedOn (s : State ρ) (date : Nat) : List ρ := (s.discarded.filter (·.1 = date)).flatMap (·.2)

/-- Nothing is missing from the files of any day but what was discarded, which came first. -/
def Ordered (cfg : Config) (s : State ρ) : Prop :=
  ∀ date, s.discardedOn date ++ s.records cfg.backupCount date = s.writtenOn date

section Ordered
variable {s t : State ρ}

theorem discardedOn_append {content : List ρ} (hdisc : t.discarded = s.discarded ++ [(s.date, content)]) (date : Nat) :
    t.discardedOn date = s.discardedOn date ++ if date = s.date then content else [] := by
  unfold State.discardedOn
  rw [hdisc, List.filter_append, List.flatMap_append]
  by_cases h : date = s.date
  · simp [h]
  · simp [h, Ne.symm h]

theorem writtenOn_append {record : ρ} (hwritten : t.written = s.written ++ [(s.date, record)]) (date : Nat) :
    t.writtenOn date = s.writtenOn date ++ if date = s.date then [record] else [] := by
  unfold State.writtenOn
  rw [hwritten, List.filter_append, List.map_append]
  by_cases h : date = s.date
  · simp [h]
  · simp [h, Ne.symm h]

/-- Where every name has the content that it had. -/
theorem Ordered.same (h : Ordered cfg s) (hdir : ∀ name, (t.dir name).content = (s.dir name).content)
    (hdisc : t.discarded = s.discarded) (hwritten : t.written = s.written) : Ordered cfg t := by
  intro date
  have hrecords : t.records cfg.backupCount date = s.records cfg.backupCount date := chain_congr fun i _ => hdir ⟨date, i⟩
  unfold State.discardedOn State.writtenOn
  rw [hrecords, hdisc, hwritten]
  exact h date

/-- A file leaves the last index and is discarded. -/
theorem Ordered.discard {n : Nat} {slot : Slot ρ} (h : Ordered cfg s) (hcount : cfg.backupCount = n + 1)
    (hdir : t.dir = (s.setSlot (n + 1) slot).dir) (hwritten : t.written = s.written) {content : List ρ}
    (hdisc : t.discarded = s.discarded ++ [(s.date, content)]) (hcontent : (s.slot (n + 1)).content = content ++ slot.content) :
    Ordered cfg t := by
  intro date
  have hold := h date
  rw [hcount] at hold ⊢
  have hwrote : t.writtenOn date = s.writtenOn date := by
    unfold State.writtenOn
    rw [hwritten]
  rw [discardedOn_append hdisc, hwrote, ← hold]
  by_cases hdate : date = s.date
  · subst hdate
    have hself : (t.dir ⟨s.date, n + 1⟩).content = slot.content := by
      rw [hdir]
      exact congrArg Slot.content (s.slot_setSlot (n + 1) slot)
    have hbelow : t.records n s.date = s.records n s.date := chain_congr fun i hi => by
      rw [hdir]
      exact congrArg Slot.content (s.slot_setSlot_of_ne (n + 1) slot (Nat.ne_of_lt (Nat.lt_succ_of_le hi)))
    have ht : t.records (n + 1) s.date = slot.content ++ s.records n s.date := congrArg₂ (· ++ ·) hself hbelow
    have hs : s.records (n + 1) s.date = content ++ (slot.content ++ s.records n s.date) := by
      rw [← List.append_assoc, ← hcontent]
      rfl
    rw [if_pos rfl, ht, hs, List.append_assoc]
  · have hother : t.records (n + 1) date = s.records (n + 1) date :=
      chain_congr fun i _ => by
        rw [hdir, State.dir_setSlot_of_ne s (n + 1) slot fun he => hdate (congrArg Name.date he)]
    rw [if_neg hdate, List.append_nil, hother]

/-- A file moves from one index to the next. -/
theorem Ordered.move {i : Nat} {x y : Slot ρ} (h : Ordered cfg s) (hi : i + 1 ≤ cfg.backupCount)
    (hdir : t.dir = ((s.setSlot i x).setSlot (i + 1) y).dir) (hdisc : t.discarded = s.discarded)
    (hwritten : t.written = s.written) (hcontent : y.content ++ x.content = (s.slot (i + 1)).content ++ (s.slot i).content) :
    Ordered cfg t := by
  intro date
  have hrecords : t.records cfg.backupCount date = s.records cfg.backupCount date := by
    by_cases hdate : date = s.date
    · subst hdate
      obtain ⟨hlow, hhigh, hrest⟩ := move_slots (s := s) (i := i) x y
      have hslot : ∀ j, t.dir ⟨s.date, j⟩ = ((s.setSlot i x).setSlot (i + 1) y).slot j := fun j => by rw [hdir]; rfl
      refine chain_move hi ?_ fun j hj hj' => ?_
      · rw [hslot, hslot, hlow, hhigh]
        exact hcontent
      · rw [hslot, hrest j hj hj']
        rfl
    · refine chain_congr fun j _ => ?_
      rw [hdir, dir_move_of_ne s x y (fun he => hdate (congrArg Name.date he)) fun he => hdate (congrArg Name.date he)]
  unfold State.discardedOn State.writtenOn
  rw [hrecords, hdisc, hwritten]
  exact h date

/-- A record is written to the file of the day. -/
theorem Ordered.write (h : Ordered cfg s) (harchive : (s.slot 0).archive = none) (record : ρ) : Ordered cfg (s.write record) := by
  intro date
  have hdisc : (s.write record).discardedOn date = s.discardedOn date := rfl
  rw [hdisc, writtenOn_append (t := s.write record) rfl, ← h date]
  by_cases hdate : date = s.date
  · subst hdate
    have hlast : ((s.write record).dir ⟨s.date, 0⟩).content = (s.dir ⟨s.date, 0⟩).content ++ [record] := by
      have hslot : (s.write record).dir ⟨s.date, 0⟩ = ⟨some ((s.slot 0).plainData ++ [record]), (s.slot 0).archive⟩ :=
        State.slot_write s record
      have hbefore : (s.dir ⟨s.date, 0⟩).content = (s.slot 0).plainData := by
        have harchive : (s.dir ⟨s.date, 0⟩).archive = none := harchive
        simp [Slot.content, Slot.plainData, Slot.archiveData, State.slot, harchive]
      rw [hslot, hbefore]
      rfl
    have hchain : (s.write record).records cfg.backupCount s.date = s.records cfg.backupCount s.date ++ [record] :=
      chain_append hlast (fun j hj => congrArg Slot.content (State.slot_setSlot_of_ne s 0 _ hj)) _
    rw [if_pos rfl, hchain, List.append_assoc]
  · have hother : (s.write record).records cfg.backupCount date = s.records cfg.backupCount date :=
      chain_congr fun j _ => congrArg Slot.content (State.dir_setSlot_of_ne s 0 _ fun he => hdate (congrArg Name.date he))
    rw [if_neg hdate, List.append_nil, hother]

end Ordered

/-! ### Compressions -/

/-- There is a file, or nothing, or a complete archive. -/
def Slot.Whole (slot : Slot ρ) : Prop := slot.archive = none ∨ ∃ data, slot = ⟨none, some ⟨data, true⟩⟩

/-- The files of a name while they are compressed. -/
def StageAt (slot : Slot ρ) : Stage ρ → Prop
  | .start => ∃ c, slot = ⟨some c, none⟩
  | .opened c => slot = ⟨some c, none⟩
  | .copying c k => slot = ⟨some c, some ⟨c.take k, false⟩⟩
  | .copied => ∃ c, slot = ⟨some c, some ⟨c, true⟩⟩
  | .failed => ∃ c, slot.plain = some c

/-- No kill, and at its end a compression removes the file, or the archive when it has failed. -/
def EndsClean (s : State ρ) : Action ρ → Prop
  | .gzip ok => ∀ job ∈ s.jobs.head?, ok = true ∨ job.stage ≠ .copied ∧ job.stage ≠ .failed
  | .kill _ => False
  | _ => True

/-- A compression leaves what can be read, and in the end only one of the files. -/
structure StageLeaves (slot : Slot ρ) (result : Slot ρ × Option (Stage ρ)) : Prop where
  content : result.1.content = slot.content
  next : ∀ stage ∈ result.2, StageAt result.1 stage
  done : result.2 = none → result.1.Whole

theorem StageLeaves.stay {slot : Slot ρ} {stage : Stage ρ} (h : StageAt slot stage) : StageLeaves slot (slot, some stage) :=
  ⟨rfl, fun _ hstage => Option.some.inj hstage ▸ h, fun hnone => by cases hnone⟩

theorem StageAt.step {slot : Slot ρ} {stage : Stage ρ} (h : StageAt slot stage) {ok : Bool}
    (hclean : ok = true ∨ stage ≠ .copied ∧ stage ≠ .failed) : StageLeaves slot (stage.step slot ok) := by
  cases stage with
  | start =>
    obtain ⟨c, rfl⟩ := h
    cases ok with
    | false => exact .stay ⟨c, rfl⟩
    | true => exact .stay rfl
  | opened c =>
    cases h
    cases ok with
    | false => exact .stay ⟨c, rfl⟩
    | true => exact ⟨rfl, fun _ hstage => Option.some.inj hstage ▸ rfl, fun hnone => by cases hnone⟩
  | copying c k =>
    cases h
    cases ok with
    | false => exact .stay ⟨c, rfl⟩
    | true =>
      simp only [Stage.step, if_true]
      split
      · exact ⟨rfl, fun _ hstage => Option.some.inj hstage ▸ rfl, fun hnone => by cases hnone⟩
      · exact ⟨rfl, fun _ hstage => Option.some.inj hstage ▸ ⟨c, rfl⟩, fun hnone => by cases hnone⟩
  | copied =>
    obtain ⟨c, rfl⟩ := h
    cases hclean.resolve_right fun hne => hne.1 rfl
    exact ⟨rfl, fun _ hstage => by (cases hstage), fun _ => Or.inr ⟨c, rfl⟩⟩
  | failed =>
    obtain ⟨c, hc⟩ := h
    cases hclean.resolve_right fun hne => hne.2 rfl
    refine ⟨?_, fun _ hstage => by (cases hstage), fun _ => Or.inl rfl⟩
    simp [Stage.step, Slot.discard, Slot.content, hc]

/-! ### Rotations -/

/-- The records are in order, and file and archive of a name are both there only while they are compressed.
    The file of the day is not. -/
structure Sound (cfg : Config) (s : State ρ) : Prop where
  ordered : Ordered cfg s
  active : (s.slot 0).archive = none
  one : s.jobs.length ≤ 1
  away : ∀ job ∈ s.jobs, job.name ≠ ⟨s.date, 0⟩ ∧ StageAt (s.dir job.name) job.stage
  whole : ∀ name, (∀ job ∈ s.jobs, job.name ≠ name) → (s.dir name).Whole

/-- The operations that are left of a rotation, with what is known before the first of them. -/
inductive Shifting (cfg : Config) (s : State ρ) : List Op → Prop
  | gz {n : Nat} (hcount : cfg.backupCount = n + 1) (hjobs : s.jobs = []) :
      Shifting cfg s (.unlinkGz (n + 1) :: .unlinkPlain (n + 1) :: (shifts n ++ [.retire, .openFile]))
  | plain {n : Nat} (hcount : cfg.backupCount = n + 1) (hjobs : s.jobs = []) (hgone : (s.slot (n + 1)).archive = none) :
      Shifting cfg s (.unlinkPlain (n + 1) :: (shifts n ++ [.retire, .openFile]))
  | shift {n : Nat} (hcount : n + 2 ≤ cfg.backupCount) (hjobs : s.jobs = []) (hempty : s.slot (n + 2) = ⟨none, none⟩) :
      Shifting cfg s (.shift (n + 1) :: (shifts n ++ [.retire, .openFile]))
  | retire (hcount : 1 ≤ cfg.backupCount) (hjobs : s.jobs = []) (hempty : s.slot 1 = ⟨none, none⟩) :
      Shifting cfg s [.retire, .openFile]
  | switch {today : Nat} (hday : s.date < today) (hjobs : s.jobs = []) : Shifting cfg s [.switch today, .openFile]
  | openFile : Shifting cfg s [.openFile]
  | done : Shifting cfg s []

section Rotation
variable {s t : State ρ}

/-- The slot above is empty: the shifts go on from there. -/
theorem Shifting.shifts {n : Nat} (hcount : n + 1 ≤ cfg.backupCount) (hjobs : s.jobs = [])
    (hempty : s.slot (n + 1) = ⟨none, none⟩) : Shifting cfg s (shifts n ++ [.retire, .openFile]) := by
  cases n with
  | zero => exact .retire hcount hjobs hempty
  | succ n => exact .shift hcount hjobs hempty

theorem Shifting.congr {ops : List Op} (h : Shifting cfg s ops) (hdir : t.dir = s.dir) (hdate : t.date = s.date)
    (hjobs : t.jobs = s.jobs) : Shifting cfg t ops := by
  have hslot : ∀ i, t.slot i = s.slot i := fun i => by rw [State.slot, State.slot, hdir, hdate]
  cases h with
  | gz hcount hnone => exact .gz hcount (hjobs.trans hnone)
  | plain hcount hnone hgone => exact .plain hcount (hjobs.trans hnone) (by rwa [hslot])
  | shift hcount hnone hempty => exact .shift hcount (hjobs.trans hnone) ((hslot _).trans hempty)
  | retire hcount hnone hempty => exact .retire hcount (hjobs.trans hnone) ((hslot _).trans hempty)
  | switch hday hnone => exact .switch (hdate ▸ hday) (hjobs.trans hnone)
  | openFile => exact .openFile
  | done => exact .done

theorem Sound.congr (h : Sound cfg s) (hdir : t.dir = s.dir) (hdate : t.date = s.date) (hjobs : t.jobs = s.jobs)
    (hdisc : t.discarded = s.discarded) (hwritten : t.written = s.written) : Sound cfg t where
  ordered := h.ordered.same (fun name => by rw [hdir]) hdisc hwritten
  active := by
    rw [State.slot, hdir, hdate]
    exact h.active
  one := hjobs ▸ h.one
  away job hjob := by
    rw [hdir, hdate]
    exact h.away job (hjobs ▸ hjob)
  whole name hname := by
    rw [hdir]
    exact h.whole name (hjobs ▸ hname)

/-- With no compression left. -/
theorem Sound.idle (hordered : Ordered cfg s) (hjobs : s.jobs = []) (hactive : (s.slot 0).archive = none)
    (hwhole : ∀ name, (s.dir name).Whole) : Sound cfg s :=
  ⟨hordered, hactive, by simp [hjobs], by simp [hjobs], fun name _ => hwhole name⟩

theorem Sound.all_whole (h : Sound cfg s) (hjobs : s.jobs = []) (name : Name) : (s.dir name).Whole :=
  h.whole name (by simp [hjobs])

/-- A file that is left is compressed, or not. -/
theorem Sound.submit (name : Name) (hordered : Ordered cfg s) (hactive : (s.slot 0).archive = none)
    (hwhole : ∀ name, (s.dir name).Whole) (hjobs : s.jobs = if cfg.compress then [⟨name, .start⟩] else [])
    (haway : name ≠ ⟨s.date, 0⟩) {c : List ρ} (hfile : s.dir name = ⟨some c, none⟩) : Sound cfg s := by
  cases hcompress : cfg.compress with
  | false => exact .idle hordered (hjobs.trans (if_neg (by simp [hcompress]))) hactive hwhole
  | true =>
    have hone : s.jobs = [⟨name, .start⟩] := hjobs.trans (if_pos hcompress)
    refine ⟨hordered, hactive, by simp [hone], fun job hjob => ?_, fun name _ => hwhole name⟩
    rw [hone, List.mem_singleton] at hjob
    subst hjob
    exact ⟨haway, c, hfile⟩

theorem State.setSlot_self (s : State ρ) (i : Nat) : s.setSlot i (s.slot i) = s := by
  unfold State.setSlot State.slot
  rw [Function.update_eq_self]

theorem whole_update {name : Name} {slot : Slot ρ} (hwhole : ∀ name, (s.dir name).Whole) (hslot : slot.Whole) (other : Name) :
    (Function.update s.dir name slot other).Whole := by
  by_cases he : other = name
  · subst he
    rwa [Function.update_self]
  · rw [Function.update_of_ne he]
    exact hwhole other

/-- The last backup is discarded. -/
theorem Sound.discard {n : Nat} {content : List ρ} (h : Sound cfg s) (hcount : cfg.backupCount = n + 1) (hjobs : s.jobs = [])
    (hcontent : (s.slot (n + 1)).content = content) :
    Sound cfg { s.setSlot (n + 1) ⟨none, none⟩ with discarded := s.discarded ++ [(s.date, content)] } := by
  refine .idle (h.ordered.discard hcount rfl rfl rfl ?_) hjobs ?_ (whole_update (h.all_whole hjobs) (Or.inl rfl))
  · rw [hcontent]
    exact (List.append_nil content).symm
  · have hother : (s.setSlot (n + 1) ⟨none, none⟩).slot 0 = s.slot 0 := State.slot_setSlot_of_ne _ _ _ (Nat.succ_ne_zero n).symm
    exact (congrArg Slot.archive hother).trans h.active

theorem apply_unlinkGz {n : Nat} (h : Sound cfg s) (hcount : cfg.backupCount = n + 1) (hjobs : s.jobs = []) :
    Sound cfg ((Op.unlinkGz (n + 1)).apply cfg s) ∧
      Shifting cfg ((Op.unlinkGz (n + 1)).apply cfg s) (.unlinkPlain (n + 1) :: (shifts n ++ [.retire, .openFile])) := by
  rcases h.all_whole hjobs ⟨s.date, n + 1⟩ with hnone | ⟨data, hdata⟩
  · have hnone : (s.slot (n + 1)).archive = none := hnone
    have hsame : ({ s.slot (n + 1) with archive := none } : Slot ρ) = s.slot (n + 1) := by rw [← hnone]
    have happly : (Op.unlinkGz (n + 1)).apply cfg s = s := by simp only [Op.apply, hsame, hnone, State.setSlot_self]
    rw [happly]
    exact ⟨h, .plain hcount hjobs hnone⟩
  · have hdata : s.slot (n + 1) = ⟨none, some ⟨data, true⟩⟩ := hdata
    have happly : (Op.unlinkGz (n + 1)).apply cfg s =
        { s.setSlot (n + 1) ⟨none, none⟩ with discarded := s.discarded ++ [(s.date, data)] } := by simp only [Op.apply, hdata]
    rw [happly]
    refine ⟨h.discard hcount hjobs (by rw [hdata]; rfl), .plain hcount hjobs ?_⟩
    exact congrArg Slot.archive (s.slot_setSlot (n + 1) ⟨none, none⟩)

theorem apply_unlinkPlain {n : Nat} (h : Sound cfg s) (hcount : cfg.backupCount = n + 1) (hjobs : s.jobs = [])
    (hgone : (s.slot (n + 1)).archive = none) :
    Sound cfg ((Op.unlinkPlain (n + 1)).apply cfg s) ∧
      Shifting cfg ((Op.unlinkPlain (n + 1)).apply cfg s) (shifts n ++ [.retire, .openFile]) := by
  cases hplain : (s.slot (n + 1)).plain with
  | none =>
    have hempty := Slot.eq_empty hplain hgone
    have happly : (Op.unlinkPlain (n + 1)).apply cfg s = s := by
      simp only [Op.apply, hempty]
      rw [← hempty, State.setSlot_self]
    rw [happly]
    exact ⟨h, .shifts (Nat.le_of_eq hcount.symm) hjobs hempty⟩
  | some c =>
    have happly : (Op.unlinkPlain (n + 1)).apply cfg s =
        { s.setSlot (n + 1) ⟨none, none⟩ with discarded := s.discarded ++ [(s.date, c)] } := by
      simp only [Op.apply, hplain, hgone]
    rw [happly]
    refine ⟨h.discard hcount hjobs (by simp [Slot.content, hplain]), .shifts (Nat.le_of_eq hcount.symm) hjobs ?_⟩
    exact s.slot_setSlot (n + 1) ⟨none, none⟩

/-- A backup moves to the next index, which is free. -/
theorem Sound.move {i : Nat} {y : Slot ρ} (h : Sound cfg s) (hi : i + 2 ≤ cfg.backupCount) (hjobs : s.jobs = [])
    (hempty : s.slot (i + 2) = ⟨none, none⟩) (hy : y.Whole) (hcontent : y.content = (s.slot (i + 1)).content) :
    Sound cfg ((s.setSlot (i + 1) ⟨none, none⟩).setSlot (i + 2) y) := by
  refine .idle (h.ordered.move hi rfl rfl rfl ?_) hjobs ?_ ?_
  · rw [hcontent, hempty]
    exact List.append_nil _
  · rw [(move_slots ⟨none, none⟩ y).2.2 0 (by omega) (by omega)]
    exact h.active
  · exact whole_update (whole_update (h.all_whole hjobs) (Or.inl rfl)) hy

theorem apply_shift {n : Nat} (h : Sound cfg s) (hcount : n + 2 ≤ cfg.backupCount) (hjobs : s.jobs = [])
    (hempty : s.slot (n + 2) = ⟨none, none⟩) :
    Sound cfg ((Op.shift (n + 1)).apply cfg s) ∧
      Shifting cfg ((Op.shift (n + 1)).apply cfg s) (shifts n ++ [.retire, .openFile]) := by
  rcases h.all_whole hjobs ⟨s.date, n + 1⟩ with hnone | ⟨data, hdata⟩
  · have hnone : (s.slot (n + 1)).archive = none := hnone
    cases hc : (s.slot (n + 1)).plain with
    | none =>
      rw [shift_nothing hnone hc]
      exact ⟨h, .shifts (Nat.le_of_succ_le hcount) hjobs (Slot.eq_empty hc hnone)⟩
    | some c =>
      rw [shift_plain hnone hc hempty]
      refine ⟨h.move hcount hjobs hempty (Or.inl rfl) ?_, .shifts (Nat.le_of_succ_le hcount) hjobs (move_slots _ _).1⟩
      simp [Slot.content, hc]
  · have hdata : s.slot (n + 1) = ⟨none, some ⟨data, true⟩⟩ := hdata
    rw [shift_archive (a := ⟨data, true⟩) (by rw [hdata]) hempty, hdata]
    refine ⟨h.move hcount hjobs hempty (Or.inr ⟨data, rfl⟩) (by rw [hdata]),
      .shifts (Nat.le_of_succ_le hcount) hjobs (move_slots _ _).1⟩

theorem apply_retire (h : Sound cfg s) (hcount : 1 ≤ cfg.backupCount) (hjobs : s.jobs = [])
    (hempty : s.slot 1 = ⟨none, none⟩) : Sound cfg (Op.retire.apply cfg s) := by
  cases hbase : (s.slot 0).plain with
  | none =>
    have happly : Op.retire.apply cfg s = s := by simp only [Op.apply, hbase]
    rw [happly]
    exact h
  | some c =>
    let t := (s.setSlot 0 ⟨none, none⟩).setSlot 1 ⟨some c, none⟩
    have happly : Op.retire.apply cfg s = t.submit cfg 1 := by simp only [Op.apply, hbase, hempty, h.active, t]
    have hordered : Ordered cfg t := by
      refine h.ordered.move (i := 0) hcount rfl rfl rfl ?_
      simp [Slot.content, hbase, hempty, Slot.archiveData]
    have hactive : (t.slot 0).archive = none := congrArg Slot.archive (move_slots (i := 0) ⟨none, none⟩ ⟨some c, none⟩).1
    have hwhole : ∀ name, (t.dir name).Whole := whole_update (whole_update (h.all_whole hjobs) (Or.inl rfl)) (Or.inl rfl)
    rw [happly]
    refine .submit ⟨s.date, 1⟩ (c := c) (hordered.same (fun name => ?_) ?_ ?_) ?_ (fun name => ?_) ?_ ?_ ?_
    · rw [State.submit_dir]
    · exact State.submit_discarded ..
    · exact State.submit_written ..
    · rw [State.slot, State.submit_dir, State.submit_date]
      exact hactive
    · rw [State.submit_dir]
      exact hwhole name
    · rw [State.submit_eq]
      exact (congrArg (· ++ _) hjobs).trans (List.nil_append _)
    · simp
    · rw [State.submit_dir]
      exact (move_slots (i := 0) ⟨none, none⟩ ⟨some c, none⟩).2.1

theorem apply_switch {today : Nat} (h : Sound cfg s) (hframed : Framed cfg s) (hday : s.date < today) (hjobs : s.jobs = []) :
    Sound cfg ((Op.switch today).apply cfg s) := by
  have hwhole := h.all_whole hjobs
  have hfresh : s.dir ⟨today, 0⟩ = ⟨none, none⟩ := hframed.files ⟨today, 0⟩ (Or.inl hday)
  cases hbase : (s.slot 0).plain with
  | none =>
    have happly : (Op.switch today).apply cfg s = { s with date := today } := by simp [Op.apply, hbase]
    rw [happly]
    exact .idle (h.ordered.same (fun _ => rfl) rfl rfl) hjobs (congrArg Slot.archive hfresh) hwhole
  | some c =>
    have happly : (Op.switch today).apply cfg s = { s.submit cfg 0 with date := today } := by simp [Op.apply, hbase]
    have hfile : s.dir ⟨s.date, 0⟩ = ⟨some c, none⟩ := by
      have hslot : s.slot 0 = ⟨(s.slot 0).plain, (s.slot 0).archive⟩ := rfl
      rw [hbase, h.active] at hslot
      exact hslot
    rw [happly]
    refine .submit ⟨s.date, 0⟩ (c := c) (h.ordered.same (fun name => ?_) ?_ ?_) ?_ (fun name => ?_) ?_ ?_ ?_
    · exact congrArg Slot.content (congrFun (State.submit_dir ..) name)
    · exact State.submit_discarded ..
    · exact State.submit_written ..
    · have hdir : ({ s.submit cfg 0 with date := today } : State ρ).slot 0 = s.dir ⟨today, 0⟩ := congrFun (State.submit_dir ..) _
      rw [hdir, hfresh]
    · have hdir : ({ s.submit cfg 0 with date := today } : State ρ).dir name = s.dir name := congrFun (State.submit_dir ..) _
      rw [hdir]
      exact hwhole name
    · have hnew : (s.submit cfg 0).jobs = if cfg.compress then [⟨⟨s.date, 0⟩, .start⟩] else [] := by
        rw [State.submit_eq, hjobs]
        exact List.nil_append _
      exact hnew
    · exact fun he => Nat.ne_of_lt hday (congrArg Name.date he)
    · exact (congrFun (State.submit_dir ..) _).trans hfile

/-! ### The file of the day -/

theorem Sound.content_zero (h : Sound cfg s) : (s.slot 0).content = (s.slot 0).plainData := by
  simp [Slot.content, Slot.plainData, Slot.archiveData, h.active]

/-- A change of the file of the day. -/
theorem Sound.base {c : List ρ} (h : Sound cfg s) (hordered : Ordered cfg t) (hdir : t.dir = (s.setSlot 0 ⟨some c, none⟩).dir)
    (hdate : t.date = s.date) (hjobs : t.jobs = s.jobs) : Sound cfg t where
  ordered := hordered
  active := by
    rw [State.slot, hdir, hdate]
    exact congrArg Slot.archive (s.slot_setSlot 0 ⟨some c, none⟩)
  one := hjobs ▸ h.one
  away job hjob := by
    obtain ⟨haway, hstage⟩ := h.away job (hjobs ▸ hjob)
    rw [hdate, hdir, State.dir_setSlot_of_ne s 0 _ haway]
    exact ⟨haway, hstage⟩
  whole name hname := by
    rw [hdir]
    by_cases he : name = ⟨s.date, 0⟩
    · subst he
      exact Or.inl (congrArg Slot.archive (s.slot_setSlot 0 ⟨some c, none⟩))
    · rw [State.dir_setSlot_of_ne s 0 _ he]
      exact h.whole name (hjobs ▸ hname)

theorem apply_openFile (h : Sound cfg s) : Sound cfg (Op.openFile.apply cfg s) := by
  have hslot : ({ s.slot 0 with plain := some (s.slot 0).plainData } : Slot ρ) = ⟨some (s.slot 0).plainData, none⟩ := by
    rw [← h.active]
  refine h.base (c := (s.slot 0).plainData) (h.ordered.same (fun name => ?_) rfl rfl) ?_ rfl rfl
  · by_cases he : name = ⟨s.date, 0⟩
    · subst he
      have hnew : (Op.openFile.apply cfg s).dir ⟨s.date, 0⟩ = { s.slot 0 with plain := some (s.slot 0).plainData } :=
        s.slot_touch
      have hold : (s.dir ⟨s.date, 0⟩).content = (s.slot 0).plainData := h.content_zero
      rw [hnew, hold]
      rfl
    · exact congrArg Slot.content (State.dir_setSlot_of_ne s 0 _ he)
  · rw [← hslot]
    rfl

theorem Sound.write (h : Sound cfg s) (record : ρ) : Sound cfg (s.write record) := by
  refine h.base (c := (s.slot 0).plainData ++ [record]) (h.ordered.write h.active record) ?_ rfl rfl
  rw [← h.active]
  rfl

/-- Every operation of a rotation keeps the records in order. -/
theorem Shifting.apply {op : Op} {ops : List Op} (h : Shifting cfg s (op :: ops)) (hframed : Framed cfg s) (hsound : Sound cfg s) :
    Sound cfg (op.apply cfg s) ∧ Shifting cfg (op.apply cfg s) ops := by
  cases h with
  | gz hcount hjobs => exact apply_unlinkGz hsound hcount hjobs
  | plain hcount hjobs hgone => exact apply_unlinkPlain hsound hcount hjobs hgone
  | shift hcount hjobs hempty => exact apply_shift hsound hcount hjobs hempty
  | retire hcount hjobs hempty => exact ⟨apply_retire hsound hcount hjobs hempty, .openFile⟩
  | switch hday hjobs => exact ⟨apply_switch hsound hframed hday hjobs, .openFile⟩
  | openFile => exact ⟨apply_openFile hsound, .done⟩

theorem shifting_rolloverOps {today : Nat} (hcount : cfg.backupCount ≠ 0) (hjobs : s.jobs = []) (hclock : s.date ≤ today) :
    Shifting cfg s (rolloverOps cfg s today) := by
  unfold rolloverOps
  by_cases hday : today = s.date
  · obtain ⟨n, hn⟩ := Nat.exists_eq_succ_of_ne_zero hcount
    have hops : shiftBackups cfg ++ [.openFile] =
        .unlinkGz (n + 1) :: .unlinkPlain (n + 1) :: (shifts n ++ [.retire, .openFile]) := by simp [shiftBackups, hn]
    rw [if_neg (not_not.mpr hday), hops]
    exact .gz hn hjobs
  · rw [if_pos hday]
    exact .switch (Nat.lt_of_le_of_ne hclock (Ne.symm hday)) hjobs

/-! ### Runs -/

/-- What holds in every state of a run whose clock does not go back and whose compressions end clean. -/
structure Orderly (cfg : Config) (s : State ρ) : Prop where
  framed : Framed cfg s
  sound : Sound cfg s
  rolling : ∀ record ops, s.phase = .rolling record ops → Shifting cfg s ops

theorem Orderly.gzip {ok : Bool} (h : Orderly cfg s) (hclean : EndsClean s (.gzip ok))
    (hstep : step cfg bytes s (.gzip ok) = some t) :
    Sound cfg t ∧ ∀ record ops, t.phase = .rolling record ops → Shifting cfg t ops := by
  obtain ⟨job, jobs, hjobs, ht⟩ := step_gzip hstep
  have hnil : jobs = [] := by
    have hone := h.sound.one
    rw [hjobs] at hone
    exact List.eq_nil_of_length_eq_zero (by simpa using hone)
  subst hnil
  obtain ⟨haway, hstage⟩ := h.sound.away job (hjobs ▸ List.mem_cons_self)
  obtain ⟨hcontent, hnext, hdone⟩ := hstage.step (hclean job (by rw [hjobs]; rfl))
  have hself : t.dir job.name = (job.stage.step (s.dir job.name) ok).1 := by
    rw [ht]
    exact Function.update_self ..
  have hother : ∀ name, name ≠ job.name → t.dir name = s.dir name := fun name hne => by
    rw [ht]
    exact Function.update_of_ne hne ..
  have hleft : t.jobs = ((job.stage.step (s.dir job.name) ok).2.map (Job.mk job.name)).toList := by
    rw [ht]
    exact List.append_nil _
  have hdate : t.date = s.date := by rw [ht]
  have hphase : t.phase = s.phase := by rw [ht]
  refine ⟨⟨h.sound.ordered.same (fun name => ?_) (by rw [ht]) (by rw [ht]), ?_, ?_, ?_, ?_⟩, ?_⟩
  · by_cases he : name = job.name
    · rw [he, hself]
      exact hcontent
    · rw [hother name he]
  · rw [State.slot, hdate, hother _ (Ne.symm haway)]
    exact h.sound.active
  · rw [hleft]
    exact Option.length_toList_le
  · intro job' hjob'
    rw [hleft, Option.mem_toList, Option.map_eq_some_iff] at hjob'
    obtain ⟨stage, hmem, rfl⟩ := hjob'
    rw [hdate, hself]
    exact ⟨haway, hnext stage hmem⟩
  · intro name hname
    by_cases he : name = job.name
    · rw [he, hself]
      refine hdone (Option.eq_none_iff_forall_ne_some.mpr fun stage hstage' => ?_)
      exact hname ⟨job.name, stage⟩ (by simp [hleft, hstage']) he.symm
    · rw [hother name he]
      refine h.sound.whole name fun job' hjob' => ?_
      rw [hjobs, List.mem_singleton] at hjob'
      exact hjob' ▸ Ne.symm he
  · intro record ops hrolling
    cases h.rolling record ops (hphase ▸ hrolling) with
    | gz _ hnone => cases hjobs.symm.trans hnone
    | plain _ hnone _ => cases hjobs.symm.trans hnone
    | shift _ hnone _ => cases hjobs.symm.trans hnone
    | retire _ hnone _ => cases hjobs.symm.trans hnone
    | switch _ hnone => cases hjobs.symm.trans hnone
    | openFile => exact .openFile
    | done => exact .done

theorem Orderly.step {a : Action ρ} (hcount : cfg.backupCount ≠ 0) (hallowed : Forward s a ∧ EndsClean s a)
    (hstep : FileLogger.step cfg bytes s a = some t) (h : Orderly cfg s) : Orderly cfg t := by
  obtain ⟨hclock, hclean⟩ := hallowed
  have hframed := h.framed.step hcount hclock hstep
  cases a with
  | emit record today =>
    obtain ⟨-, ⟨counter, -, rfl⟩ | ⟨-, rfl⟩⟩ := step_emit hstep
    · have hcounted : Sound cfg ({ s with currentBytes := counter } : State ρ) := h.sound.congr rfl rfl rfl rfl rfl
      exact ⟨hframed, hcounted.write record, fun _ _ hphase => by cases hphase⟩
    · exact ⟨hframed, h.sound.congr rfl rfl rfl rfl rfl, fun _ _ hphase => by cases hphase⟩
  | rollover today =>
    obtain ⟨hjobs, record, -, rfl⟩ := step_rollover hstep
    refine ⟨hframed, h.sound.congr rfl rfl rfl rfl rfl, ?_⟩
    rintro record' ops ⟨⟩
    exact (shifting_rolloverOps hcount hjobs hclock).congr rfl rfl rfl
  | operate =>
    obtain ⟨record, op, ops, hrolling, rfl⟩ := step_operate hstep
    obtain ⟨hsound, hleft⟩ := (h.rolling record _ hrolling).apply h.framed h.sound
    refine ⟨hframed, hsound.congr rfl rfl rfl rfl rfl, ?_⟩
    rintro record' ops' ⟨⟩
    exact hleft.congr rfl rfl rfl
  | write =>
    obtain ⟨record, -, rfl⟩ := step_write hstep
    exact ⟨hframed, h.sound.write record, fun _ _ hphase => by cases hphase⟩
  | gzip ok =>
    obtain ⟨hsound, hrolling⟩ := h.gzip hclean hstep
    exact ⟨hframed, hsound, hrolling⟩
  | kill today => exact hclean.elim

theorem start_orderly (today : Nat) : Orderly cfg (State.start bytes (fun _ => (⟨none, none⟩ : Slot ρ)) today [] []) := by
  let w : State ρ := ⟨fun _ => ⟨none, none⟩, today, 0, .idle, [], [], []⟩
  have hchain : ∀ n, chain (fun _ => ([] : List ρ)) n = [] := by
    intro n
    induction n with
    | zero => rfl
    | succ n ih => exact ih
  have hempty : Sound cfg w := .idle (fun date => hchain _) rfl rfl fun _ => Or.inl rfl
  exact ⟨start_framed (fun _ _ => rfl) [] [], (apply_openFile hempty).congr rfl rfl rfl rfl rfl, fun _ _ hphase => by cases hphase⟩

/-! ### The records in hand -/

/-- The record that waits for a rotation to be over. -/
def Phase.inHand : Phase ρ → List ρ
  | .idle => []
  | .waiting record => [record]
  | .rolling record _ => [record]

theorem Op.apply_written (cfg : Config) (s : State ρ) (op : Op) : (op.apply cfg s).written = s.written := by
  cases op with
  | unlinkGz i =>
    simp only [Op.apply]
    split <;> rfl
  | unlinkPlain i =>
    simp only [Op.apply]
    split <;> rfl
  | shift i =>
    simp only [Op.apply]
    split <;> rfl
  | retire =>
    simp only [Op.apply]
    split
    · exact State.submit_written ..
    · rfl
  | switch today =>
    simp only [Op.apply]
    split
    · exact State.submit_written ..
    · rfl
  | openFile => rfl

/-- Every record is written once, after those that were given before. -/
theorem step_written {a : Action ρ} (hclean : EndsClean s a) (hstep : FileLogger.step cfg bytes s a = some t) :
    t.written.map (·.2) ++ t.phase.inHand = s.written.map (·.2) ++ s.phase.inHand ++ (emitted [a]).map (·.1) := by
  cases a with
  | emit record today =>
    obtain ⟨hidle, ⟨counter, -, rfl⟩ | ⟨-, rfl⟩⟩ := step_emit hstep
    · simp [State.write, hidle, Phase.inHand, emitted]
    · simp [hidle, Phase.inHand, emitted]
  | rollover today =>
    obtain ⟨-, record, hwaiting, rfl⟩ := step_rollover hstep
    simp [hwaiting, Phase.inHand, emitted]
  | operate =>
    obtain ⟨record, op, ops, hrolling, rfl⟩ := step_operate hstep
    simp [hrolling, Phase.inHand, emitted, Op.apply_written]
  | write =>
    obtain ⟨record, hrolling, rfl⟩ := step_write hstep
    simp [State.write, hrolling, Phase.inHand, emitted]
  | gzip ok =>
    obtain ⟨job, jobs, -, rfl⟩ := step_gzip hstep
    simp [emitted]
  | kill today => exact hclean.elim

theorem run_written {as : List (Action ρ)} (hclean : Runs.Allowed (FileLogger.step cfg bytes) EndsClean s as)
    (h : run cfg bytes s as = some t) :
    t.written.map (·.2) ++ t.phase.inHand = s.written.map (·.2) ++ s.phase.inHand ++ (emitted as).map (·.1) := by
  induction as generalizing s with
  | nil =>
    cases h
    exact (List.append_nil _).symm
  | cons a as ih =>
    obtain ⟨u, hu, hut⟩ := Runs.run_cons.mp h
    have hemitted : emitted (a :: as) = emitted [a] ++ emitted as := emitted_append [a] as
    rw [ih (hclean.2 u hu) hut, step_written hclean.1 hu, hemitted, List.map_append, List.append_assoc]

end Rotation

/-! ### The order of the records -/

/-- While the clock does not go back and each compression leaves only the archive, or only the file when it has
    failed, the files of a day always have the records that were written on it, each once and in order, but for
    those at the beginning whose files were removed at the last index. Each name has a file or a complete
    archive when no compression is under way, and all records that are emitted are written in their order. -/
theorem rotation_keeps_order (cfg : Config) (bytes : ρ → Nat) (hcount : cfg.backupCount ≠ 0) {today : Nat}
    {as : List (Action ρ)} {t : State ρ} (hclock : (today :: as.filterMap Action.clock).Pairwise (· ≤ ·))
    (hclean : Runs.Allowed (step cfg bytes) EndsClean (.start bytes (fun _ => ⟨none, none⟩) today [] []) as)
    (h : run cfg bytes (.start bytes (fun _ => ⟨none, none⟩) today [] []) as = some t) :
    (∀ date, t.discardedOn date ++ t.records cfg.backupCount date = t.writtenOn date) ∧
      (t.jobs = [] → ∀ name, (t.dir name).Whole) ∧
      t.written.map (·.2) ++ t.phase.inHand = (emitted as).map (·.1) := by
  obtain ⟨hfirst, hsorted⟩ := List.pairwise_cons.mp hclock
  have hforward : Runs.Allowed (step cfg bytes) Forward (.start bytes (fun _ => ⟨none, none⟩) today [] []) as :=
    forward_of_sorted hcount hsorted fun day hday => ⟨hfirst day hday, fun _ _ hphase => by cases hphase⟩
  have horderly : Orderly cfg t :=
    Runs.run_inv_at (fun _ _ _ hallowed hstep hs => Orderly.step hcount hallowed hstep hs) (hforward.and hclean) h
      (start_orderly today)
  exact ⟨horderly.sound.ordered, horderly.sound.all_whole, run_written hclean h⟩

/-- The action is no failure of a compression and no kill. -/
def Action.succeeds : Action ρ → Bool
  | .gzip ok => ok
  | .kill _ => false
  | _ => true

theorem allowed_of_succeeds {as : List (Action ρ)} (h : as.all Action.succeeds = true) (s : State ρ) :
    Runs.Allowed (step cfg bytes) EndsClean s as := by
  induction as generalizing s with
  | nil => trivial
  | cons a as ih =>
    obtain ⟨ha, has⟩ := Bool.and_eq_true_iff.mp h
    refine ⟨?_, fun t _ => ih has t⟩
    cases a with
    | gzip ok => exact fun _ _ => Or.inl ha
    | kill today => cases ha
    | emit record today => trivial
    | rollover today => trivial
    | operate => trivial
    | write => trivial

/-- Two records of one day in two files, the first compressed, and one of the next day. -/
theorem rotation_keeps_order_two : ∃ t : State Nat,
    run ⟨2, 1, true⟩ (fun _ => 1) (.start (fun _ => 1) (fun _ => ⟨none, none⟩) 0 [] [])
      ([.emit 5 0, .emit 6 0, .rollover 0, .operate, .operate, .operate, .operate, .write] ++ List.replicate 5 (.gzip true) ++
        [.emit 7 1, .rollover 1, .operate, .operate, .write]) = some t ∧
    (∀ date, t.discardedOn date ++ t.records 1 date = t.writtenOn date) ∧ (t.jobs = [] → ∀ name, (t.dir name).Whole) ∧
    t.written.map (·.2) ++ t.phase.inHand = [5, 6, 7] := by
  have hrun : (run ⟨2, 1, true⟩ (fun _ => 1) (.start (fun _ => 1) (fun _ => ⟨none, none⟩) 0 [] [])
      ([.emit 5 0, .emit 6 0, .rollover 0, .operate, .operate, .operate, .operate, .write] ++ List.replicate 5 (.gzip true) ++
        [.emit 7 1, .rollover 1, .operate, .operate, .write])).isSome = true := rfl
  have h := (Option.some_get hrun).symm
  exact ⟨_, h, rotation_keeps_order ⟨2, 1, true⟩ (fun _ => 1) (by decide) (by decide) (allowed_of_succeeds rfl _) h⟩

end Redgw.FileLogger
