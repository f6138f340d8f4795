import Redgw.FileLogger.Cleanup
import Redgw.Lib.Evict

/-! # The cap on the audit directory

Both passes of the clean-up see the files of the prefix of this process only. The files of other prefixes,
which earlier processes left, are neither counted nor removed. -/

namespace Redgw.FileLogger

/-! ### The patterns take the files of the prefix -/

theorem afterPrefix_some {w : String} {s rest : List Char} : afterPrefix w s = some rest ↔ s = w.toList ++ rest := by
  unfold afterPrefix
  split
  · rename_i h
    obtain ⟨t, rfl⟩ := List.isPrefixOf_iff_prefix.mp h
    simp
  · rename_i h
    simp only [reduceCtorEq, false_iff]
    rintro rfl
    exact h (by simp)

/-- What stands behind the day. -/
def LogName.tail (n : LogName) : List Char := (indexText n.index).toList ++ (gzText n.gz).toList

theorem LogName.text_toList (n : LogName) :
    n.text.toList = n.stem.text.toList ++ '.' :: (n.day.chars ++ (".log".toList ++ n.tail)) := by
  simp [LogName.text, LogName.tail]

/-- The first eight characters are the day. -/
theorem Day.take_append (d : Day) (s : List Char) : (d.chars ++ s).take 8 = d.chars ∧ (d.chars ++ s).drop 8 = s := by
  rw [← d.length]
  exact ⟨List.take_left, List.drop_left⟩

theorem Day.head (d : Day) : ∃ c cs, d.chars = c :: cs ∧ c.isDigit = true := by
  cases h : d.chars with
  | nil =>
    have := d.length
    rw [h] at this
    cases this
  | cons c cs => exact ⟨c, cs, rfl, List.all_eq_true.mp d.digits c (h ▸ List.mem_cons_self)⟩

/-- Of two prefixes, one is followed by a dot and a digit in a name of the other only if they are the same. -/
theorem stem_unique {p q : Stem} {c d : Char} {s t : List Char} (hc : c.isDigit = true) (hd : d.isDigit = true)
    (h : p.text.toList ++ '.' :: c :: s = q.text.toList ++ '.' :: d :: t) : p = q ∧ c :: s = d :: t := by
  have hworker : ∀ pid : Nat, (Stem.worker pid).text.toList = "audit.w".toList ++ Nat.toDigits 10 pid := fun pid => by
    rw [Stem.text, String.toList_append, Text.toString_nat]
  cases p with
  | shared =>
    cases q with
    | shared => exact ⟨rfl, by simpa [Stem.text] using h⟩
    | worker pid =>
      rw [hworker] at h
      have hw : c = 'w' := by
        simp [Stem.text] at h
        exact h.1
      rw [hw] at hc
      cases hc
  | worker pid =>
    cases q with
    | shared =>
      rw [hworker] at h
      have hw : 'w' = d := by
        simp [Stem.text] at h
        exact h.1
      rw [← hw] at hd
      cases hd
    | worker pid' =>
      rw [hworker, hworker, List.append_assoc, List.append_assoc, List.append_cancel_left_eq] at h
      obtain ⟨hpid, hrest⟩ := Text.cut_inj (Text.not_mem_toDigits (by decide)) (Text.not_mem_toDigits (by decide)) h
      exact ⟨congrArg Stem.worker (Text.toDigits_inj hpid), hrest⟩

theorem dayMatch_own (n : LogName) : dayMatch n.stem n.text.toList = some (n.day.chars, n.tail) := by
  have hafter : afterPrefix (n.stem.text ++ ".") n.text.toList = some (n.day.chars ++ (".log".toList ++ n.tail)) :=
    afterPrefix_some.mpr (by simp [n.text_toList])
  obtain ⟨htake, hdrop⟩ := n.day.take_append (".log".toList ++ n.tail)
  have hday : n.day.chars.length = 8 ∧ n.day.chars.all Char.isDigit = true :=
    ⟨n.day.length, n.day.digits⟩
  have hlog : afterPrefix ".log" (".log".toList ++ n.tail) = some n.tail := afterPrefix_some.mpr rfl
  unfold dayMatch
  simp only [hafter, Option.bind_eq_bind, Option.bind_some, htake, hdrop, if_pos hday, hlog]
  rfl

theorem dayMatch_other {stem : Stem} {n : LogName} (h : n.stem ≠ stem) : dayMatch stem n.text.toList = none := by
  refine Option.eq_none_iff_forall_ne_some.mpr fun result hresult => h ?_
  unfold dayMatch at hresult
  obtain ⟨rest, hafter, hresult⟩ := Option.bind_eq_some_iff.mp hresult
  have htext := afterPrefix_some.mp hafter
  dsimp only at hresult
  split at hresult
  · rename_i hday
    cases rest with
    | nil => simp at hday
    | cons c s =>
      have hc : c.isDigit = true := List.all_eq_true.mp hday.2 c (by simp)
      obtain ⟨d, t, hd, hdigit⟩ := n.day.head
      rw [n.text_toList, hd, String.toList_append, List.append_assoc] at htext
      exact (stem_unique hdigit hc htext).1
  · cases hresult

/-- The text of a name ends as an archive does. -/
theorem archiveEnd_tail (n : LogName) : archiveEnd n.tail = true := by
  have hgz : ∀ gz, gzEnd (gzText gz).toList = true := by decide
  have hstop : ∀ gz, (gzText gz).toList.takeWhile Char.isDigit = [] ∧
      (gzText gz).toList.dropWhile Char.isDigit = (gzText gz).toList := by decide
  unfold LogName.tail
  cases n.index with
  | none =>
    have hnone : ∀ gz, archiveEnd ((indexText none).toList ++ (gzText gz).toList) = true := by decide
    exact hnone n.gz
  | some i =>
    have hdot : (indexText (some i)).toList = '.' :: Nat.toDigits 10 i := by
      rw [indexText, String.toList_append, Text.toString_nat]
      rfl
    have hdigits : ∀ c ∈ Nat.toDigits 10 i, c.isDigit = true := fun c => Text.isDigit_of_mem
    obtain ⟨htake, hdrop⟩ := hstop n.gz
    rw [hdot, List.cons_append]
    simp only [archiveEnd, Bool.or_eq_true, Bool.and_eq_true]
    right
    rw [List.takeWhile_append_of_pos hdigits, List.dropWhile_append_of_pos hdigits, htake, hdrop]
    refine ⟨?_, hgz n.gz⟩
    simp

theorem dateRe_text (stem : Stem) (n : LogName) :
    dateRe stem n.text.toList = if n.stem = stem then some n.day.chars else none := by
  unfold dateRe
  split
  · rename_i h
    rw [← h, dayMatch_own]
    rfl
  · rename_i h
    rw [dayMatch_other h]
    rfl

theorem archiveRe_text (stem : Stem) (n : LogName) : archiveRe stem n.text.toList = decide (n.stem = stem) := by
  unfold archiveRe
  by_cases h : n.stem = stem
  · rw [← h, dayMatch_own]
    simp [archiveEnd_tail n]
  · rw [dayMatch_other h]
    simp [h]

/-! ### The loop -/

theorem totalSize_cons (f : File) (files : List File) : totalSize (f :: files) = f.size + totalSize files := rfl

theorem totalSize_append (files more : List File) : totalSize (files ++ more) = totalSize files + totalSize more :=
  Evict.total_append files more

theorem totalSize_perm {files more : List File} (h : files.Perm more) : totalSize files = totalSize more := Evict.total_perm h

/-- The files that the loop may remove. -/
def removable (active : LogName) (files : List File) : List File := files.filter fun f => f.name ≠ active

/-- Removing the first `k` of them is what it takes to come down to the cap, if that can be done. -/
structure Enough (cap total : Nat) (files : List File) (k : Nat) : Prop where
  before : ∀ j < k, cap < total - totalSize (files.take j)
  after : total - totalSize (files.take k) ≤ cap ∨ files.length ≤ k

/-- The loop evicts, the active file being held. -/
theorem purge_eq (cap : Nat) (active : LogName) (total : Nat) (files : List File) :
    purge cap active total files = Evict.evict File.size (fun f => decide (f.name = active)) cap total files := by
  induction files generalizing total with
  | nil => rfl
  | cons f files ih => simp only [purge, Evict.evict, ih, decide_eq_true_eq]

theorem purge_take (cap : Nat) (active : LogName) (total : Nat) (files : List File) :
    ∃ k, purge cap active total files = (removable active files).take k ∧ Enough cap total (removable active files) k := by
  have hremovable : files.filter (fun f => !decide (f.name = active)) = removable active files :=
    List.filter_congr fun f _ => (decide_not ..).symm
  obtain ⟨k, hevict, -, hbefore, hafter⟩ := Evict.evict_shortest File.size (fun f => decide (f.name = active)) cap total files
  rw [hremovable] at hevict hbefore hafter
  refine ⟨k, (purge_eq cap active total files).trans hevict, fun j hj => ?_, ?_⟩
  · have hmore : cap + totalSize ((removable active files).take j) < total := hbefore j hj
    omega
  · rcases hafter with hcap | hall
    · have hless : total ≤ cap + totalSize ((removable active files).take k) := hcap
      exact Or.inl (by omega)
    · exact Or.inr hall.ge

/-- What is left when a part of the files is removed by name. -/
theorem totalSize_remaining {files removed : List File} (h : removed.Sublist files) (hnodup : (files.map (·.name)).Nodup) :
    totalSize (files.filter fun f => !decide (f.name ∈ removed.map (·.name))) + totalSize removed = totalSize files := by
  induction h with
  | slnil => rfl
  | @cons removed files f hsub ih =>
    obtain ⟨hf, hnodup⟩ := List.nodup_cons.mp hnodup
    have hout : f.name ∉ removed.map (·.name) := fun hmem => hf ((hsub.map _).subset hmem)
    rw [List.filter_cons_of_pos (by simpa using hout), totalSize_cons, totalSize_cons, Nat.add_assoc, ih hnodup]
  | @cons_cons removed files f hsub ih =>
    obtain ⟨hf, hnodup⟩ := List.nodup_cons.mp hnodup
    have hsame : files.filter (fun g => !decide (g.name ∈ (f :: removed).map (·.name))) =
        files.filter fun g => !decide (g.name ∈ removed.map (·.name)) := by
      refine List.filter_congr fun g hg => ?_
      have hne : g.name ≠ f.name := fun he => hf (List.mem_map.mpr ⟨g, hg, he⟩)
      simp [hne]
    rw [List.filter_cons_of_neg (by simp), hsame, totalSize_cons, totalSize_cons, ← ih hnodup]
    omega

/-! ### After the start -/

/-- All files together are within the cap or are the active one, and none is too old. -/
structure WithinLimits (cap : Nat) (cutoff : Day) (active : LogName) (dir : LogDir) : Prop where
  size : totalSize dir.files ≤ cap ∨ ∀ f ∈ dir.files, f.name = active
  age : ∀ f ∈ dir.files, ¬f.name.day.chars < cutoff.chars

/-- The files of other prefixes. -/
def LogDir.others (dir : LogDir) (stem : Stem) : List File := dir.files.filter fun f => f.name.stem ≠ stem

/-- The files of a prefix that are not too old, from the oldest on. -/
def LogDir.own (dir : LogDir) (stem : Stem) (cutoff : Day) : List File :=
  (dir.files.filter fun f => f.name.stem = stem ∧ ¬f.name.day.chars < cutoff.chars).mergeSort
    fun f g => decide (f.mtime ≤ g.mtime)

/-- None of the files of other prefixes is too old, and if there are any, the room that the files of this
    prefix leave when the oldest are removed down to the cap is enough for them. -/
structure RoomForOthers (cap : Nat) (cutoff : Day) (active : LogName) (opened : LogDir) : Prop where
  age : ∀ f ∈ opened.others active.stem, ¬f.name.day.chars < cutoff.chars
  size : opened.others active.stem = [] ∨
    ∃ k, (∀ j < k, cap < totalSize (opened.own active.stem cutoff) -
        totalSize ((removable active (opened.own active.stem cutoff)).take j)) ∧
      totalSize (opened.own active.stem cutoff) - totalSize ((removable active (opened.own active.stem cutoff)).take k) +
        totalSize (opened.others active.stem) ≤ cap

section Passes
variable {cap : Nat} {cutoff : Day} {active : LogName} {opened : LogDir}

theorem cleanupOldFiles_files (stem : Stem) (cutoff : Day) (dir : LogDir) :
    (cleanupOldFiles stem cutoff dir).files =
      dir.files.filter fun f => !decide (f.name.stem = stem ∧ f.name.day.chars < cutoff.chars) := by
  unfold cleanupOldFiles LogDir.only
  refine List.filter_congr fun f _ => ?_
  rw [dateRe_text]
  by_cases hstem : f.name.stem = stem
  · simp [hstem]
  · simp [hstem]

/-- The second pass sees the files of the prefix that are not too old. -/
theorem entries_eq (stem : Stem) (cutoff : Day) (dir : LogDir) :
    (cleanupOldFiles stem cutoff dir).files.filter (fun f => archiveRe stem f.name.text.toList) =
      dir.files.filter fun f => f.name.stem = stem ∧ ¬f.name.day.chars < cutoff.chars := by
  rw [cleanupOldFiles_files, List.filter_filter]
  refine List.filter_congr fun f _ => ?_
  rw [archiveRe_text]
  by_cases hstem : f.name.stem = stem
  · simp only [hstem, decide_true, Bool.true_and, true_and, decide_not]
  · simp [hstem]

theorem purge_nil {total : Nat} (h : total ≤ cap) (files : List File) : purge cap active total files = [] := by
  cases files with
  | nil => rfl
  | cons f files => rw [purge, if_pos h]

/-- The files that both passes keep: those of other prefixes, and of the own ones those that the loop does not
    remove. -/
theorem cleanup_files (hcap : cap ≠ 0) :
    (cleanupByTotalSize active.stem cap active (cleanupOldFiles active.stem cutoff opened)).files =
      (cleanupOldFiles active.stem cutoff opened).files.filter fun f => !decide (f.name ∈
        (purge cap active (totalSize (opened.own active.stem cutoff)) (opened.own active.stem cutoff)).map (·.name)) := by
  have htotal : totalSize (opened.own active.stem cutoff) =
      totalSize (opened.files.filter fun f => f.name.stem = active.stem ∧ ¬f.name.day.chars < cutoff.chars) :=
    totalSize_perm (List.mergeSort_perm ..)
  unfold cleanupByTotalSize
  rw [if_neg hcap]
  simp only [entries_eq]
  split
  · rename_i hfits
    rw [purge_nil (by rw [htotal]; exact hfits)]
    simp
  · rw [htotal]
    rfl

theorem mem_own {stem : Stem} {f : File} (h : f ∈ opened.own stem cutoff) :
    f ∈ opened.files ∧ f.name.stem = stem ∧ ¬f.name.day.chars < cutoff.chars := by
  have hf := (List.mergeSort_perm ..).mem_iff.mp h
  simpa only [List.mem_filter, decide_eq_true_eq] using hf

theorem own_nodup (opened : LogDir) (stem : Stem) (cutoff : Day) : ((opened.own stem cutoff).map (·.name)).Nodup :=
  ((List.mergeSort_perm ..).map _).nodup_iff.mpr (opened.nodup.sublist (List.filter_sublist.map _))

theorem totalSize_split (p : File → Bool) (files : List File) :
    totalSize files = totalSize (files.filter p) + totalSize (files.filter fun f => !p f) := by
  rw [← totalSize_append]
  exact totalSize_perm (List.filter_append_perm p files).symm

/-- The files that stay, when the names of the removed ones are of this prefix. -/
theorem cleanup_others (hcap : cap ≠ 0) (cutoff : Day) (active : LogName) (opened : LogDir) :
    (cleanupByTotalSize active.stem cap active (cleanupOldFiles active.stem cutoff opened)).others active.stem =
      opened.others active.stem := by
  obtain ⟨k, hpurge, -⟩ := purge_take cap active (totalSize (opened.own active.stem cutoff)) (opened.own active.stem cutoff)
  unfold LogDir.others
  rw [cleanup_files hcap, cleanupOldFiles_files, List.filter_filter, List.filter_filter, hpurge]
  refine List.filter_congr fun f _ => ?_
  by_cases hstem : f.name.stem = active.stem
  · simp [hstem]
  · have hout : f.name ∉ ((removable active (opened.own active.stem cutoff)).take k).map (·.name) := by
      intro hmem
      obtain ⟨g, hg, he⟩ := List.mem_map.mp hmem
      have hown := mem_own (List.mem_filter.mp (List.mem_of_mem_take hg)).1
      exact hstem (he ▸ hown.2.1)
    simp only [hstem, hout, decide_false, decide_true, Bool.not_false, Bool.and_true, false_and, ne_eq, not_false_eq_true]

theorem cleanup_own (hcap : cap ≠ 0) (cutoff : Day) (active : LogName) (opened : LogDir) :
    ((cleanupByTotalSize active.stem cap active (cleanupOldFiles active.stem cutoff opened)).files.filter
      fun f => f.name.stem = active.stem).Perm
        ((opened.own active.stem cutoff).filter fun f => !decide (f.name ∈
          (purge cap active (totalSize (opened.own active.stem cutoff)) (opened.own active.stem cutoff)).map (·.name))) := by
  have hsort := (List.mergeSort_perm (opened.files.filter fun f => f.name.stem = active.stem ∧ ¬f.name.day.chars < cutoff.chars)
    fun f g => decide (f.mtime ≤ g.mtime)).symm
  rw [cleanup_files hcap, cleanupOldFiles_files, List.filter_filter, List.filter_filter]
  refine List.Perm.trans ?_ (hsort.filter _)
  rw [List.filter_filter]
  refine List.Perm.of_eq (List.filter_congr fun f _ => ?_)
  by_cases hstem : f.name.stem = active.stem
  · simp only [hstem, decide_true, Bool.true_and, true_and, decide_not]
  · simp [hstem]

/-- How large the files are that stay. -/
theorem cleanup_total (hcap : cap ≠ 0) {k : Nat}
    (hpurge : purge cap active (totalSize (opened.own active.stem cutoff)) (opened.own active.stem cutoff) =
      (removable active (opened.own active.stem cutoff)).take k) :
    totalSize (cleanupByTotalSize active.stem cap active (cleanupOldFiles active.stem cutoff opened)).files =
      totalSize (opened.own active.stem cutoff) - totalSize ((removable active (opened.own active.stem cutoff)).take k) +
        totalSize (opened.others active.stem) := by
  have hothers := cleanup_others hcap cutoff active opened
  have hown := totalSize_perm (cleanup_own hcap cutoff active opened)
  rw [hpurge] at hown
  have hsub : ((removable active (opened.own active.stem cutoff)).take k).Sublist (opened.own active.stem cutoff) :=
    (List.take_sublist k _).trans List.filter_sublist
  have hleft := totalSize_remaining hsub (own_nodup opened active.stem cutoff)
  have hsplit := totalSize_split (fun f => f.name.stem = active.stem)
    (cleanupByTotalSize active.stem cap active (cleanupOldFiles active.stem cutoff opened)).files
  have hrest : totalSize ((cleanupByTotalSize active.stem cap active (cleanupOldFiles active.stem cutoff opened)).files.filter
      fun f => !decide (f.name.stem = active.stem)) = totalSize (opened.others active.stem) := by
    rw [← hothers]
    simp [LogDir.others]
  omega

/-- What stays of the own files. -/
theorem mem_cleanup (hcap : cap ≠ 0) {f : File}
    (h : f ∈ (cleanupByTotalSize active.stem cap active (cleanupOldFiles active.stem cutoff opened)).files) :
    f ∈ opened.others active.stem ∨ (f ∈ opened.own active.stem cutoff ∧ f.name ∉
      (purge cap active (totalSize (opened.own active.stem cutoff)) (opened.own active.stem cutoff)).map (·.name)) := by
  by_cases hstem : f.name.stem = active.stem
  · have hf := (cleanup_own hcap cutoff active opened).mem_iff.mp (List.mem_filter.mpr ⟨h, by simpa using hstem⟩)
    exact Or.inr (by simpa using hf)
  · refine Or.inl ?_
    rw [← cleanup_others hcap cutoff active opened]
    exact List.mem_filter.mpr ⟨h, by simpa using hstem⟩

/-- The numbers of files to be removed are the same for everybody. -/
theorem Enough.unique {total : Nat} {files : List File} {k j : Nat} (hk : Enough cap total files k)
    (hbefore : ∀ i < j, cap < total - totalSize (files.take i)) (hafter : total - totalSize (files.take j) ≤ cap) :
    files.take k = files.take j := by
  rcases Nat.lt_trichotomy k j with hlt | rfl | hlt
  · have hover := hbefore k hlt
    rcases hk.after with hunder | hall
    · exact absurd hover (Nat.not_lt.mpr hunder)
    · rw [List.take_of_length_le hall, List.take_of_length_le (Nat.le_trans hall (Nat.le_of_lt hlt))]
  · rfl
  · exact absurd (hk.before j hlt) (Nat.not_lt.mpr hafter)

/-- After both passes the directory is within the limits exactly when there was room for the other files. -/
theorem cleanup_limits_iff (hcap : cap ≠ 0) :
    WithinLimits cap cutoff active (cleanupByTotalSize active.stem cap active (cleanupOldFiles active.stem cutoff opened)) ↔
      RoomForOthers cap cutoff active opened := by
  obtain ⟨k, hpurge, henough⟩ :=
    purge_take cap active (totalSize (opened.own active.stem cutoff)) (opened.own active.stem cutoff)
  have htotal := cleanup_total hcap hpurge
  have hothers := cleanup_others hcap cutoff active opened
  have hin : ∀ f ∈ opened.others active.stem,
      f ∈ (cleanupByTotalSize active.stem cap active (cleanupOldFiles active.stem cutoff opened)).files := fun f hf =>
    (List.mem_filter.mp (hothers ▸ hf)).1
  constructor
  · rintro ⟨hsize, hage⟩
    refine ⟨fun f hf => hage f (hin f hf), ?_⟩
    by_cases hnone : opened.others active.stem = []
    · exact Or.inl hnone
    · obtain ⟨f, hf⟩ := List.exists_mem_of_ne_nil _ hnone
      have hother : f.name.stem ≠ active.stem := by simpa using (List.mem_filter.mp hf).2
      have hfits := hsize.resolve_right fun honly => hother (congrArg LogName.stem (honly f (hin f hf)))
      exact Or.inr ⟨k, henough.before, htotal ▸ hfits⟩
  · rintro ⟨hage, hsize⟩
    refine ⟨?_, fun f hf => ?_⟩
    · rcases hsize with hnone | ⟨j, hbefore, hroom⟩
      · rcases henough.after with hunder | hall
        · left
          rw [htotal, hnone]
          simpa [totalSize] using hunder
        · right
          intro f hf
          rcases mem_cleanup hcap hf with hother | ⟨hown, hkept⟩
          · rw [hnone] at hother
            cases hother
          · by_contra hne
            refine hkept (List.mem_map.mpr ⟨f, ?_, rfl⟩)
            rw [hpurge, List.take_of_length_le hall]
            exact List.mem_filter.mpr ⟨hown, by simpa using hne⟩
      · left
        have hsame := henough.unique hbefore (Nat.le_trans (Nat.le_add_right _ _) hroom)
        rw [htotal, hsame]
        exact hroom
    · rcases mem_cleanup hcap hf with hother | ⟨hown, -⟩
      · exact hage f hother
      · exact (mem_own hown).2.2

end Passes

/-! ### Starting the audit log -/

/-- The cap in bytes. -/
def DirConfig.cap (config : DirConfig) : Nat := config.maxTotalSizeMb * 1024 * 1024

/-- The audit log is off and the directory is within its limits as it is; or there is room for the files of other
    prefixes. -/
def Covered (config : DirConfig) (p : Startup) (dir : LogDir) : Prop :=
  if config.level = 0 then WithinLimits config.cap p.cutoff (activeName config p) dir
  else RoomForOthers config.cap p.cutoff (activeName config p) (dir.open (activeName config p) p.now)

/-- Whatever earlier processes left, after a start the directory is within its limits exactly when the files of
    other prefixes are covered. -/
theorem start_within_limits_iff (config : DirConfig) (hcap : 0 < config.maxTotalSizeMb) (p : Startup) (dir : LogDir) :
    WithinLimits config.cap p.cutoff (activeName config p) (initAuditLogger config p dir) ↔ Covered config p dir := by
  have hpositive : config.cap ≠ 0 := by
    unfold DirConfig.cap
    omega
  unfold initAuditLogger Covered
  by_cases hlevel : config.level = 0
  · rw [if_pos hlevel, if_pos hlevel]
  · rw [if_neg hlevel, if_neg hlevel]
    exact cleanup_limits_iff hpositive

def newYear : Day := ⟨['2', '0', '2', '6', '0', '1', '0', '1'], rfl, rfl⟩
def inFebruary : Day := ⟨['2', '0', '2', '6', '0', '2', '0', '4'], rfl, rfl⟩
def inMarch : Day := ⟨['2', '0', '2', '6', '0', '3', '0', '6'], rfl, rfl⟩

/-- Of the own prefix a file that is too old and one that is larger than the cap, and a small file of another prefix. -/
def threeLogs : LogDir where
  files := [⟨⟨.worker 2, newYear, none, true⟩, 500, 3⟩, ⟨⟨.shared, inMarch, none, false⟩, 1000, 5⟩,
    ⟨⟨.worker 2, inMarch, some 1, true⟩, 2097152, 7⟩]
  nodup := by decide

def workerLog : LogName := ⟨.worker 2, inMarch, none, false⟩

theorem threeLogs_own : (threeLogs.open workerLog 9).own workerLog.stem inFebruary =
    [⟨⟨.worker 2, inMarch, some 1, true⟩, 2097152, 7⟩, ⟨workerLog, 0, 9⟩] := by
  have hyoung : ((threeLogs.open workerLog 9).files.filter fun f => f.name.stem = workerLog.stem ∧ ¬f.name.day.chars < inFebruary.chars) =
      [⟨⟨.worker 2, inMarch, some 1, true⟩, 2097152, 7⟩, ⟨workerLog, 0, 9⟩] := by decide +kernel
  rw [LogDir.own, hyoung]
  exact List.mergeSort_of_pairwise (by decide)

/-- Each pass removes one file. -/
theorem start_within_limits_small :
    (cleanupOldFiles (.worker 2) inFebruary threeLogs).files.length = 2 ∧
    (initAuditLogger ⟨1, true, 1⟩ ⟨2, inMarch, inFebruary, 9⟩ threeLogs).files =
      [⟨⟨.shared, inMarch, none, false⟩, 1000, 5⟩, ⟨workerLog, 0, 9⟩] ∧
    WithinLimits 1048576 inFebruary workerLog (initAuditLogger ⟨1, true, 1⟩ ⟨2, inMarch, inFebruary, 9⟩ threeLogs) := by
  refine ⟨by decide +kernel, ?_, ?_⟩
  · show (cleanupByTotalSize workerLog.stem 1048576 workerLog (cleanupOldFiles workerLog.stem inFebruary
      (threeLogs.open workerLog 9))).files = _
    rw [cleanup_files (by decide), threeLogs_own]
    decide +kernel
  · refine (start_within_limits_iff ⟨1, true, 1⟩ (by decide) ⟨2, inMarch, inFebruary, 9⟩ threeLogs).mpr ⟨by decide +kernel, Or.inr ⟨1, ?_⟩⟩
    show (∀ j < 1, 1048576 < totalSize ((threeLogs.open workerLog 9).own workerLog.stem inFebruary) -
        totalSize ((removable workerLog ((threeLogs.open workerLog 9).own workerLog.stem inFebruary)).take j)) ∧
      totalSize ((threeLogs.open workerLog 9).own workerLog.stem inFebruary) -
        totalSize ((removable workerLog ((threeLogs.open workerLog 9).own workerLog.stem inFebruary)).take 1) +
        totalSize ((threeLogs.open workerLog 9).others workerLog.stem) ≤ 1048576
    rw [threeLogs_own]
    decide +kernel

/-- The file of an earlier process, over a month old and larger than the cap, stays. -/
theorem other_prefix_stays : ∃ (config : DirConfig) (p : Startup) (dir : LogDir), 0 < config.maxTotalSizeMb ∧
    config.level ≠ 0 ∧ config.perWorkerFiles = true ∧
      (initAuditLogger config p dir).files =
        [⟨⟨.worker 1, newYear, none, true⟩, 2097152, 5⟩, ⟨⟨.worker 2, inMarch, none, false⟩, 0, 9⟩] ∧
      ¬WithinLimits config.cap p.cutoff (activeName config p) (initAuditLogger config p dir) := by
  have hfiles : (initAuditLogger ⟨1, true, 1⟩ ⟨2, inMarch, inFebruary, 9⟩
      ⟨[⟨⟨.worker 1, newYear, none, true⟩, 2097152, 5⟩], List.nodup_singleton _⟩).files =
        [⟨⟨.worker 1, newYear, none, true⟩, 2097152, 5⟩, ⟨⟨.worker 2, inMarch, none, false⟩, 0, 9⟩] := by
    decide +kernel
  refine ⟨_, _, _, by decide, by decide, rfl, hfiles, fun h => ?_⟩
  exact h.age _ (hfiles ▸ List.mem_cons_self) (by decide)

end Redgw.FileLogger
