import Redgw.FileLogger.Workers

/-! # The logs of several workers

Workers that share a directory rename, truncate and remove the files of each other. A record is lost only in
certain operations: appending to a file without a name, renaming onto a file, opening an archive that is there,
and removing a file that is not the one that was copied or an archive that another worker has made. Over a run
without these every record that was written is in some file, or in one that a limit has removed. -/

namespace Redgw.FileLogger.Workers
open Inodes

variable {ρ : Type} {cfg : Policy} {bytes : ρ → Nat}

/-! ### Archives -/

@[simp] theorem length_stream (records : List ρ) : (stream records).length = records.length := by
  simp [stream]

theorem stream_take_succ {records : List ρ} {k : Nat} (hk : k < records.length) :
    stream (records.take (k + 1)) = stream (records.take k) ++ [some (records.take (k + 1))] := by
  have hlen : (records.take k).length = k := List.length_take_of_le (Nat.le_of_lt hk)
  have hlen' : (records.take (k + 1)).length = k + 1 := List.length_take_of_le hk
  unfold stream
  rw [hlen, hlen', List.range_succ, List.map_append]
  congr 1
  · refine List.map_congr_left fun j hj => ?_
    rw [List.mem_range] at hj
    rw [List.take_take, List.take_take, Nat.min_eq_left (by omega), Nat.min_eq_left (by omega)]
  · simp

/-- The next piece is written at the end. -/
theorem putAt_stream {records : List ρ} {k : Nat} (hk : k < records.length) :
    putAt (stream (records.take k)) k (some (records.take (k + 1))) = stream (records.take (k + 1)) := by
  have hlen : (stream (records.take k)).length = k := by
    rw [length_stream, List.length_take_of_le (Nat.le_of_lt hk)]
  rw [putAt, if_neg (by omega), hlen, Nat.sub_self, stream_take_succ hk]
  simp

theorem Unpacks.mono {xs ys : List (Piece ρ)} {r : ρ} (h : Unpacks xs r) (hle : xs <+: ys) : Unpacks ys r := by
  obtain ⟨records, hpre, hr⟩ := h
  exact ⟨records, hpre.trans hle, hr⟩

/-- From the stream of some records no others can be read. -/
theorem unpacks_stream {records : List ρ} {r : ρ} : Unpacks (stream records) r ↔ r ∈ records := by
  refine ⟨fun ⟨others, hpre, hr⟩ => ?_, fun hr => ⟨records, List.prefix_rfl, hr⟩⟩
  have hpos : 0 < others.length := List.length_pos_of_mem hr
  have hlast : (stream others)[others.length - 1]? = some (some others) := by
    rw [stream, List.getElem?_map, List.getElem?_range (by omega)]
    simp [Nat.sub_add_cancel hpos]
  have hle := hpre.length_le
  rw [length_stream, length_stream] at hle
  obtain ⟨rest, hrest⟩ := hpre
  have hthere : (stream records)[others.length - 1]? = some (some others) := by
    rw [← hrest, List.getElem?_append_left (by rw [length_stream]; omega), hlast]
  rw [stream, List.getElem?_map, List.getElem?_range (by omega)] at hthere
  have htake : records.take others.length = others := by
    simpa [Nat.sub_add_cancel hpos] using hthere
  rw [← htake] at hr
  exact List.mem_of_mem_take hr

/-! ### What is kept -/

/-- Some file of the directory has the record. -/
def Files.Contains (f : Files ρ) (r : ρ) : Prop :=
  f.logs.Stored (fun records => r ∈ records) ∨ f.archives.Stored fun pieces => Unpacks pieces r

/-- A file of the directory has the record, or a file had it that a limit has removed. -/
def Files.Keeps (f : Files ρ) (r : ρ) : Prop := f.Contains r ∨ ∃ file ∈ f.removed, file.Has r

/-- The file has a name, or a limit has removed it as it is now. -/
def Files.LogKept (f : Files ρ) (i : Nat) : Prop := f.logs.Linked i ∨ .log (f.logs.content i) ∈ f.removed

def Files.ArchiveKept (f : Files ρ) (a : Nat) : Prop := f.archives.Linked a ∨ .archive (f.archives.content a) ∈ f.removed

theorem Files.LogKept.keeps {f : Files ρ} {i : Nat} {r : ρ} (h : f.LogKept i) (hr : r ∈ f.logs.content i) : f.Keeps r := by
  rcases h with hlinked | hremoved
  · exact Or.inl (Or.inl ⟨i, hlinked, hr⟩)
  · exact Or.inr ⟨_, hremoved, hr⟩

theorem Files.ArchiveKept.keeps {f : Files ρ} {a : Nat} {r : ρ} (h : f.ArchiveKept a)
    (hr : Unpacks (f.archives.content a) r) : f.Keeps r := by
  rcases h with hlinked | hremoved
  · exact Or.inl (Or.inr ⟨a, hlinked, hr⟩)
  · exact Or.inr ⟨_, hremoved, hr⟩

/-- The logs only grow, and the archives stay as they are. -/
structure Files.Grows (f g : Files ρ) : Prop where
  logs : f.logs.next ≤ g.logs.next
  records : ∀ i < f.logs.next, f.logs.content i <+: g.logs.content i
  archives : g.archives.content = f.archives.content
  fresh : f.archives.next ≤ g.archives.next

/-- What an operation of a handler does to the files loses nothing. -/
structure Files.Carries (f g : Files ρ) : Prop extends Files.Grows f g where
  keeps : ∀ r, f.Keeps r → g.Keeps r

theorem Files.Grows.refl (f : Files ρ) : f.Grows f := ⟨Nat.le_refl _, fun _ _ => List.prefix_rfl, rfl, Nat.le_refl _⟩

theorem Files.Carries.refl (f : Files ρ) : f.Carries f := ⟨.refl f, fun _ hr => hr⟩

section Carries
variable {f : Files ρ} {name other : Name}

theorem carries_removeLog : f.Carries (f.removeLog name) := by
  refine ⟨⟨Nat.le_refl _, fun _ _ => List.prefix_rfl, rfl, Nat.le_refl _⟩, fun r hr => ?_⟩
  rcases hr with (hlog | harchive) | ⟨file, hfile, hr⟩
  · rcases hlog.unlink (n := name) with hlog | ⟨i, hi, hr⟩
    · exact Or.inl (Or.inl hlog)
    · refine Or.inr ⟨.log (f.logs.content i), ?_, hr⟩
      simp [Files.removeLog, Inodes.read, hi]
  · exact Or.inl (Or.inr harchive)
  · exact Or.inr ⟨file, List.mem_append_left _ hfile, hr⟩

theorem carries_removeArchive : f.Carries (f.removeArchive name) := by
  refine ⟨⟨Nat.le_refl _, fun _ _ => List.prefix_rfl, rfl, Nat.le_refl _⟩, fun r hr => ?_⟩
  rcases hr with (hlog | harchive) | ⟨file, hfile, hr⟩
  · exact Or.inl (Or.inl hlog)
  · rcases harchive.unlink (n := name) with harchive | ⟨a, ha, hr⟩
    · exact Or.inl (Or.inr harchive)
    · refine Or.inr ⟨.archive (f.archives.content a), ?_, hr⟩
      simp [Files.removeArchive, Inodes.read, ha]
  · exact Or.inr ⟨file, List.mem_append_left _ hfile, hr⟩

theorem carries_renameLog {g : Files ρ} (h : f.renameLog name other = some g) (hnone : f.logs.find other = none) :
    f.Carries g := by
  obtain ⟨logs, hlogs, rfl⟩ := Option.map_eq_some_iff.mp h
  have hrenamed := rename_renamed hlogs
  refine ⟨⟨Nat.le_of_eq hrenamed.next.symm, fun i _ => ?_, rfl, Nat.le_refl _⟩, fun r hr => ?_⟩
  · show f.logs.content i <+: logs.content i
    rw [hrenamed.content]
  · exact hr.imp_left (Or.imp_left fun hlog => hlog.rename hrenamed hnone)

theorem carries_renameArchive {g : Files ρ} (h : f.renameArchive name other = some g)
    (hnone : f.archives.find other = none) : f.Carries g := by
  obtain ⟨archives, harchives, rfl⟩ := Option.map_eq_some_iff.mp h
  have hrenamed := rename_renamed harchives
  refine ⟨⟨Nat.le_refl _, fun _ _ => List.prefix_rfl, hrenamed.content, Nat.le_of_eq hrenamed.next.symm⟩, fun r hr => ?_⟩
  exact hr.imp_left (Or.imp_right fun harchive => harchive.rename hrenamed hnone)

theorem carries_openLog : f.Carries (f.openLog name).2 := by
  refine ⟨⟨?_, fun i hi => ?_, rfl, Nat.le_refl _⟩, fun r hr => ?_⟩
  · exact next_openAt_le ..
  · rw [show (f.openLog name).2.logs.content i = f.logs.content i from content_openAt_of_lt hi]
  · exact hr.imp_left (Or.imp_left fun hlog => hlog.openAt name [])

end Carries

/-! ### Safe operations -/

/-- Nothing that has the new name is replaced. -/
def Op.Safe (f : Files ρ) (date : Nat) : Op → Prop
  | .renameGz i => f.archives.find ⟨date, i⟩ = none ∨ f.archives.find ⟨date, i + 1⟩ = none
  | .renamePlain i => f.logs.find ⟨date, i⟩ = none ∨ f.logs.find ⟨date, i + 1⟩ = none
  | .retire => f.logs.find ⟨date, 0⟩ = none ∨ f.logs.find ⟨date, 1⟩ = none
  | _ => True

/-- The archive is not there when it is opened. What is removed is the file that was copied, all of it, with its archive
    kept; or the own archive, with the file that is copied kept. -/
def Stage.Safe (f : Files ρ) (name : Name) : Stage → Prop
  | .start | .copying _ => True
  | .opened _ => f.archives.find name = none
  | .copied c =>
    f.logs.find name = none ∨
      f.logs.find name = some c.source ∧ (f.logs.content c.source).length = c.copied ∧ f.ArchiveKept c.archive
  | .failed c =>
    f.archives.find name = none ∨ ∃ c' ∈ c, f.archives.find name = some c'.archive ∧ f.LogKept c'.source

/-- The operation of a handler that comes next, if it is one on the files. -/
def Phase.next? : Phase ρ → Option Op
  | .rolling _ (op :: _) => some op
  | _ => none

/-- The record that is written next. -/
def Phase.pending? : Phase ρ → Option ρ
  | .rolling record [] => record
  | _ => none

/-- The next operation of the worker is safe: a record goes to a file that has a name, and the rest is as above. -/
def Safe (cfg : Policy) (bytes : ρ → Nat) (s : State ρ) : Action ρ → Prop
  | .emit w record today => ∀ h ∈ s.handlers w, h.shouldRollover cfg bytes record today ≠ none → ∀ i ∈ h.stream,
      s.files.logs.Linked i
  | .write w => ∀ h ∈ s.handlers w, ∀ _ ∈ h.phase.pending?, ∀ i ∈ h.stream, s.files.logs.Linked i
  | .operate w => ∀ h ∈ s.handlers w, ∀ op ∈ h.phase.next?, op.Safe s.files h.date
  | .gzip w ok => ∀ h ∈ s.handlers w, ∀ job ∈ h.running, ok = true → job.2.Safe s.files job.1
  | .start .. | .rollover .. | .retain .. | .evict .. => True

section Decidable
variable [DecidableEq ρ] (f : Files ρ)

instance (i : Nat) : Decidable (f.LogKept i) := inferInstanceAs (Decidable (_ ∨ _))

instance (a : Nat) : Decidable (f.ArchiveKept a) := inferInstanceAs (Decidable (_ ∨ _))

instance (date : Nat) (op : Op) : Decidable (op.Safe f date) := by
  cases op <;> simp only [Op.Safe] <;> infer_instance

instance (name : Name) (stage : Stage) : Decidable (stage.Safe f name) := by
  cases stage <;> simp only [Stage.Safe] <;> infer_instance

instance (s : State ρ) (a : Action ρ) : Decidable (Safe cfg bytes s a) := by
  cases a <;> simp only [Safe] <;> infer_instance

end Decidable

theorem carries_apply {f g : Files ρ} {h h' : Handler ρ} {op : Op} {more : List Op}
    (ho : op.apply cfg bytes f h = some (g, h', more)) (hsafe : op.Safe f h.date) :
    f.Carries g ∧ h'.running = h.running := by
  have hrename : ∀ {m n : Name}, f.logs.find m = none ∨ f.logs.find n = none → f.renameLog m n = some g → f.Carries g :=
    fun hnone hg => by
      rcases hnone with hnone | hnone
      · rw [Files.renameLog, rename_none hnone] at hg
        cases hg
      · exact carries_renameLog hg hnone
  cases op with
  | measure | probeGz i | probePlain i | probeBase | cleanupOldFiles | cleanupByTotalSize =>
    cases ho
    exact ⟨.refl f, rfl⟩
  | unlinkGz i =>
    cases ho
    exact ⟨carries_removeArchive, rfl⟩
  | unlinkPlain i =>
    cases ho
    exact ⟨carries_removeLog, rfl⟩
  | renameGz i =>
    obtain ⟨g', hg, heq⟩ := Option.map_eq_some_iff.mp ho
    cases heq
    rcases hsafe with hnone | hnone
    · rw [Files.renameArchive, rename_none hnone] at hg
      cases hg
    · exact ⟨carries_renameArchive hg hnone, rfl⟩
  | renamePlain i =>
    obtain ⟨g', hg, heq⟩ := Option.map_eq_some_iff.mp ho
    cases heq
    exact ⟨hrename hsafe hg, rfl⟩
  | retire =>
    obtain ⟨g', hg, heq⟩ := Option.map_eq_some_iff.mp ho
    cases heq
    refine ⟨hrename hsafe hg, ?_⟩
    unfold Handler.submit
    split <;> rfl
  | switch today =>
    cases ho
    refine ⟨.refl f, ?_⟩
    unfold Handler.submit
    split
    · split <;> rfl
    · rfl
  | openFile | reopen =>
    cases ho
    exact ⟨carries_openLog, rfl⟩

/-! ### Compressions under way -/

def Stage.copy? : Stage → Option Copy
  | .copying c | .copied c => some c
  | .failed c => c
  | .start | .opened _ => none

/-- The archive has what has been copied of the file. -/
structure CopyOk (f : Files ρ) (c : Copy) : Prop where
  source : c.source < f.logs.next
  archive : c.archive < f.archives.next
  copied : c.copied ≤ (f.logs.content c.source).length
  pieces : f.archives.content c.archive = stream ((f.logs.content c.source).take c.copied)

theorem CopyOk.grow {f g : Files ρ} {c : Copy} (h : CopyOk f c) (hg : f.Grows g) : CopyOk g c := by
  obtain ⟨rest, hrest⟩ := hg.records c.source h.source
  refine ⟨Nat.lt_of_lt_of_le h.source hg.logs, Nat.lt_of_lt_of_le h.archive hg.fresh, ?_, ?_⟩
  · rw [← hrest, List.length_append]
    exact Nat.le_add_right_of_le h.copied
  · rw [hg.archives, h.pieces, ← hrest, List.take_append_of_le_length h.copied]

/-- The file and the stage that the gzip thread of a worker is at. -/
def State.runningOf (s : State ρ) (w : Nat) : Option (Name × Stage) := (s.handlers w).bind (·.running)

theorem runningOf_eq {s : State ρ} {w : Nat} {h : Handler ρ} (hw : s.handlers w = some h) : s.runningOf w = h.running := by
  rw [State.runningOf, hw]
  rfl

theorem runningOf_setHandler {s : State ρ} {w : Nat} {h : Handler ρ} (hrunning : h.running = s.runningOf w) (v : Nat) :
    (s.setHandler w h).runningOf v = s.runningOf v := by
  by_cases hv : v = w
  · subst hv
    rw [← hrunning]
    simp [State.runningOf, State.setHandler]
  · simp [State.runningOf, State.setHandler, Function.update_of_ne hv]

/-- No two copies write to one archive, and what was written is kept. -/
structure Inv (s : State ρ) : Prop where
  opened : ∀ w name i, s.runningOf w = some (name, .opened i) → i < s.files.logs.next
  copies : ∀ w name stage c, s.runningOf w = some (name, stage) → stage.copy? = some c → CopyOk s.files c
  apart : ∀ v w name name' stage stage' c c', s.runningOf v = some (name, stage) → s.runningOf w = some (name', stage') →
    stage.copy? = some c → stage'.copy? = some c' → c.archive = c'.archive → v = w
  kept : ∀ r ∈ s.written, s.files.Keeps r

/-- A step of a handler leaves the gzip threads alone. -/
theorem Inv.carry {s t : State ρ} (h : Inv s) (hrunning : ∀ v, t.runningOf v = s.runningOf v) (hg : s.files.Grows t.files)
    (hkept : ∀ r ∈ t.written, t.files.Keeps r) : Inv t where
  opened w name i hi := Nat.lt_of_lt_of_le (h.opened w name i (hrunning w ▸ hi)) hg.logs
  copies w name stage c hw hc := (h.copies w name stage c (hrunning w ▸ hw) hc).grow hg
  apart v w name name' stage stage' c c' hv hw :=
    h.apart v w name name' stage stage' c c' (hrunning v ▸ hv) (hrunning w ▸ hw)
  kept := hkept

theorem Inv.setHandler {s : State ρ} (h : Inv s) {w : Nat} {hd : Handler ρ} (hrunning : hd.running = s.runningOf w) :
    Inv (s.setHandler w hd) :=
  h.carry (runningOf_setHandler hrunning) (.refl _) h.kept

theorem Inv.setFiles {s : State ρ} (h : Inv s) {files : Files ρ} (hc : s.files.Carries files) :
    Inv { s with files := files } :=
  h.carry (fun _ => rfl) hc.toGrows fun r hr => hc.keeps r (h.kept r hr)

theorem grows_append (s : State ρ) (i : Nat) (record : ρ) : s.files.Grows (s.append i record).files := by
  refine ⟨Nat.le_refl _, fun j _ => ?_, rfl, Nat.le_refl _⟩
  show s.files.logs.content j <+: (s.files.logs.write i (s.files.logs.content i ++ [record])).content j
  by_cases hj : j = i
  · subst hj
    rw [content_write]
    exact List.prefix_append ..
  · rw [content_write_of_ne hj]

/-- A record is appended to a file that has a name. -/
theorem Inv.append {s : State ρ} (h : Inv s) {i : Nat} (hi : s.files.logs.Linked i) (record : ρ) :
    Inv (s.append i record) := by
  refine h.carry (fun _ => rfl) (grows_append s i record) fun r hr => ?_
  rcases List.mem_append.mp hr with hr | hr
  · refine (h.kept r hr).imp_left (Or.imp_left fun hlog => hlog.write fun hmem => ?_)
    exact List.mem_append_left _ hmem
  · refine Or.inl (Or.inl ⟨i, linked_write.mpr hi, ?_⟩)
    show r ∈ (s.files.logs.write i (s.files.logs.content i ++ [record])).content i
    rw [content_write]
    exact List.mem_append_right _ hr

theorem Inv.remove {s : State ρ} (h : Inv s) (name : Name) (gz : Bool) : Inv (s.remove name gz) := by
  refine h.setFiles ?_
  split
  · exact carries_removeArchive
  · exact carries_removeLog

/-! ### Steps of a gzip thread -/

/-- What an operation of a gzip thread keeps for the others, and for its own next one. -/
structure Kept (f g : Files ρ) (stage : Stage) (next : Option Stage) : Prop where
  keeps : ∀ r, f.Keeps r → g.Keeps r
  logs : f.logs.next ≤ g.logs.next
  others : ∀ c, CopyOk f c → (∀ own, stage.copy? = some own → c.archive ≠ own.archive) → CopyOk g c
  opened : ∀ i, next = some (.opened i) → i < g.logs.next
  own : ∀ st c, next = some st → st.copy? = some c →
    CopyOk g c ∧ ((∃ c', stage.copy? = some c' ∧ c.archive = c'.archive) ∨ f.archives.next ≤ c.archive)

theorem Kept.same {f : Files ρ} {stage : Stage} {next : Option Stage} (hopened : ∀ i, next = some (.opened i) → i < f.logs.next)
    (hown : ∀ st c, next = some st → st.copy? = some c → CopyOk f c ∧ stage.copy? = some c) : Kept f f stage next :=
  ⟨fun _ hr => hr, Nat.le_refl _, fun _ hc _ => hc, hopened, fun st c hst hc =>
    (hown st c hst hc).imp_right fun hcopy => Or.inl ⟨c, hcopy, rfl⟩⟩

theorem Kept.last {f g : Files ρ} {stage : Stage} (hkeeps : ∀ r, f.Keeps r → g.Keeps r) (hlogs : f.logs.next ≤ g.logs.next)
    (hothers : ∀ c, CopyOk f c → CopyOk g c) : Kept f g stage none :=
  ⟨hkeeps, hlogs, fun c hc _ => hothers c hc, fun _ h => (by cases h), fun _ _ h _ => (by cases h)⟩

/-- A new archive, which no other copy has. -/
theorem kept_opened {f : Files ρ} {name : Name} {source : Nat} (hnone : f.archives.find name = none)
    (hsource : source < f.logs.next) :
    Kept f (Stage.step f name true (.opened source)).1 (.opened source) (Stage.step f name true (.opened source)).2 := by
  have hopen : f.archives.openAt name [] = (f.archives.next, f.archives.create name []) := by
    unfold openAt
    rw [hnone]
  simp only [Stage.step, if_true, hopen]
  refine ⟨fun r hr => ?_, Nat.le_refl _, fun c hc _ => ?_, fun i hi => (by cases hi), fun st c hst hc => ?_⟩
  · refine hr.imp_left (Or.imp_right fun harchive => (harchive.create hnone).write fun hempty => ?_)
    rwa [content_create] at hempty
  · refine ⟨hc.source, Nat.lt_succ_of_lt hc.archive, hc.copied, ?_⟩
    rw [content_write_of_ne (Nat.ne_of_lt hc.archive), content_create_of_lt hc.archive]
    exact hc.pieces
  · cases hst
    cases hc
    refine ⟨⟨hsource, Nat.lt_succ_self _, Nat.zero_le _, ?_⟩, Or.inr (Nat.le_refl _)⟩
    rw [content_write]
    rfl

theorem kept_copying {f : Files ρ} {name : Name} {c : Copy} (hc : CopyOk f c)
    (hlt : c.copied < (f.logs.content c.source).length) :
    Kept f (Stage.step f name true (.copying c)).1 (.copying c) (Stage.step f name true (.copying c)).2 := by
  simp only [Stage.step, if_true, if_pos hlt, hc.pieces, putAt_stream hlt]
  refine ⟨fun r hr => ?_, Nat.le_refl _, fun c' hc' hne => ?_, fun i hi => (by cases hi), fun st c' hst hc' => ?_⟩
  · refine hr.imp_left (Or.imp_right fun harchive => harchive.write fun hpieces => ?_)
    rw [hc.pieces, unpacks_stream] at hpieces
    exact unpacks_stream.mpr (List.take_subset_take_left _ (Nat.le_succ _) hpieces)
  · refine ⟨hc'.source, hc'.archive, hc'.copied, ?_⟩
    rw [content_write_of_ne (hne c rfl)]
    exact hc'.pieces
  · cases hst
    cases hc'
    refine ⟨⟨hc.source, hc.archive, hlt, ?_⟩, Or.inl ⟨c, rfl, rfl⟩⟩
    rw [content_write]

/-- The file is removed; what it has is in the archive. -/
theorem kept_copied {f : Files ρ} {name : Name} {c : Copy} {ok : Bool}
    (hsafe : ok = true → (Stage.copied c).Safe f name) (hc : CopyOk f c) :
    Kept f (Stage.step f name ok (.copied c)).1 (.copied c) (Stage.step f name ok (.copied c)).2 := by
  cases ok with
  | false => exact .last (fun _ hr => hr) (Nat.le_refl _) fun _ h => h
  | true =>
    refine .last (fun r hr => ?_) (Nat.le_refl _) fun c' hc' => ⟨hc'.source, hc'.archive, hc'.copied, hc'.pieces⟩
    rcases hr with (hlog | harchive) | hremoved
    · rcases hlog.unlink (n := name) with hlog | ⟨i, hi, hr⟩
      · exact Or.inl (Or.inl hlog)
      · rcases hsafe rfl with hnone | ⟨hsource, hlen, harchive⟩
        · cases hi.symm.trans hnone
        · cases hi.symm.trans hsource
          refine Files.ArchiveKept.keeps (f := { f with logs := f.logs.unlink name }) harchive ?_
          show Unpacks (f.archives.content c.archive) r
          rw [hc.pieces, unpacks_stream, ← hlen, List.take_length]
          exact hr
    · exact Or.inl (Or.inr harchive)
    · exact Or.inr hremoved

/-- The archive is removed; what it has is in the file. -/
theorem kept_failed {f : Files ρ} {name : Name} {c : Option Copy} {ok : Bool}
    (hsafe : ok = true → (Stage.failed c).Safe f name) (hc : ∀ c', c = some c' → CopyOk f c') :
    Kept f (Stage.step f name ok (.failed c)).1 (.failed c) (Stage.step f name ok (.failed c)).2 := by
  cases ok with
  | false => exact .last (fun _ hr => hr) (Nat.le_refl _) fun _ h => h
  | true =>
    refine .last (fun r hr => ?_) (Nat.le_refl _) fun c' hc' => ⟨hc'.source, hc'.archive, hc'.copied, hc'.pieces⟩
    rcases hr with (hlog | harchive) | hremoved
    · exact Or.inl (Or.inl hlog)
    · rcases harchive.unlink (n := name) with harchive | ⟨a, ha, hr⟩
      · exact Or.inl (Or.inr harchive)
      · rcases hsafe rfl with hnone | ⟨c', hc', hfound, hlog⟩
        · cases ha.symm.trans hnone
        · cases ha.symm.trans hfound
          rw [(hc c' hc').pieces, unpacks_stream] at hr
          exact Files.LogKept.keeps (f := { f with archives := f.archives.unlink name }) hlog (List.mem_of_mem_take hr)
    · exact Or.inr hremoved

theorem kept_step {f : Files ρ} {name : Name} {stage : Stage} {ok : Bool} (hsafe : ok = true → stage.Safe f name)
    (hopened : ∀ i, stage = .opened i → i < f.logs.next) (hcopy : ∀ c, stage.copy? = some c → CopyOk f c) :
    Kept f (stage.step f name ok).1 stage (stage.step f name ok).2 := by
  cases stage with
  | start =>
    simp only [Stage.step]
    split
    · rename_i _ _ i hi
      refine .same (fun j hj => ?_) (fun st c hst hc => ?_)
      · cases hj
        exact f.logs.bound name i hi
      · cases hst
        cases hc
    · refine .same (fun j hj => by cases hj) (fun st c hst hc => ?_)
      cases hst
      cases hc
  | opened source =>
    cases ok with
    | false =>
      refine .same (fun j hj => by cases hj) (fun st c hst hc => ?_)
      cases hst
      cases hc
    | true => exact kept_opened (hsafe rfl) (hopened source rfl)
  | copying c =>
    have hc := hcopy c rfl
    cases ok with
    | false =>
      refine .same (fun j hj => by cases hj) (fun st c' hst hc' => ?_)
      cases hst
      cases hc'
      exact ⟨hc, rfl⟩
    | true =>
      by_cases hlt : c.copied < (f.logs.content c.source).length
      · exact kept_copying hc hlt
      · simp only [Stage.step, if_true, if_neg hlt]
        refine .same (fun j hj => by cases hj) (fun st c' hst hc' => ?_)
        cases hst
        cases hc'
        exact ⟨hc, rfl⟩
  | copied c => exact kept_copied hsafe (hcopy c rfl)
  | failed c => exact kept_failed hsafe fun c' hc' => hcopy c' hc'

theorem Inv.gzip {s : State ρ} (h : Inv s) {w : Nat} {hd : Handler ρ} (hw : s.handlers w = some hd) {name : Name}
    {stage : Stage} (hrunning : hd.running = some (name, stage)) {ok : Bool} (hsafe : ok = true → stage.Safe s.files name) :
    Inv { s.setHandler w { hd with running := (stage.step s.files name ok).2.map fun stage => (name, stage) } with
      files := (stage.step s.files name ok).1 } := by
  have hat : s.runningOf w = some (name, stage) := (runningOf_eq hw).trans hrunning
  have hk := kept_step hsafe (fun i hi => h.opened w name i (hi ▸ hat)) fun c hc => h.copies w name stage c hat hc
  generalize (stage.step s.files name ok).1 = files at hk ⊢
  generalize (stage.step s.files name ok).2 = next at hk ⊢
  -- The thread of this worker is at the next operation, the others are where they were.
  have hself : ∀ st n, (({ s.setHandler w { hd with running := next.map fun stage => (name, stage) } with
      files := files } : State ρ).runningOf w = some (n, st)) → next = some st := by
    intro st n hst
    simp only [State.runningOf, State.setHandler, Function.update_self, Option.bind_some, Option.map_eq_some_iff,
      Prod.mk.injEq] at hst
    obtain ⟨st', hst', -, rfl⟩ := hst
    exact hst'
  have hother : ∀ v, v ≠ w → ({ s.setHandler w { hd with running := next.map fun stage => (name, stage) } with
      files := files } : State ρ).runningOf v = s.runningOf v := by
    intro v hv
    simp [State.runningOf, State.setHandler, Function.update_of_ne hv]
  have hapart : ∀ v n st c, v ≠ w → s.runningOf v = some (n, st) → st.copy? = some c →
      ∀ own, stage.copy? = some own → c.archive ≠ own.archive :=
    fun v n st c hv hst hc own hown he => hv (h.apart v w n name st stage c own hst hat hc hown he)
  have hfar : ∀ v n st c st' c', v ≠ w → s.runningOf v = some (n, st) → st.copy? = some c → next = some st' →
      st'.copy? = some c' → c.archive ≠ c'.archive := by
    intro v n st c st' c' hv hst hc hst' hc' he
    rcases (hk.own st' c' hst' hc').2 with ⟨own, hown, hsame⟩ | hfresh
    · exact hapart v n st c hv hst hc own hown (he.trans hsame)
    · have := (h.copies v n st c hst hc).archive
      omega
  refine ⟨fun v n i hi => ?_, fun v n st c hst hc => ?_, fun v u n n' st st' c c' hst hst' hc hc' he => ?_, fun r hr =>
    hk.keeps r (h.kept r hr)⟩
  · by_cases hv : v = w
    · subst hv
      exact hk.opened i (hself _ _ hi)
    · rw [hother v hv] at hi
      exact Nat.lt_of_lt_of_le (h.opened v n i hi) hk.logs
  · by_cases hv : v = w
    · subst hv
      exact (hk.own st c (hself _ _ hst) hc).1
    · rw [hother v hv] at hst
      exact hk.others c (h.copies v n st c hst hc) (hapart v n st c hv hst hc)
  · by_cases hv : v = w
    · by_cases hu : u = w
      · exact hv.trans hu.symm
      · subst hv
        rw [hother u hu] at hst'
        exact absurd he.symm (hfar u n' st' c' st c hu hst' hc' (hself _ _ hst) hc)
    · rw [hother v hv] at hst
      by_cases hu : u = w
      · subst hu
        exact absurd he (hfar v n st c st' c' hv hst hc (hself _ _ hst') hc')
      · rw [hother u hu] at hst'
        exact h.apart v u n n' st st' c c' hst hst' hc hc' he

/-- A gzip thread that takes a file has no copy yet. -/
theorem Inv.take {s : State ρ} (h : Inv s) {w : Nat} {hd : Handler ρ} (name : Name) (jobs : List Name) :
    Inv (s.setHandler w { hd with jobs := jobs, running := some (name, .start) }) := by
  have hat : ∀ v, v ≠ w → (s.setHandler w { hd with jobs := jobs, running := some (name, .start) }).runningOf v =
      s.runningOf v := fun v hv => by simp [State.runningOf, State.setHandler, Function.update_of_ne hv]
  have hself : (s.setHandler w { hd with jobs := jobs, running := some (name, .start) }).runningOf w = some (name, .start) := by
    simp [State.runningOf, State.setHandler]
  refine ⟨fun v n i hi => ?_, fun v n st c hst hc => ?_, fun v u n n' st st' c c' hst hst' hc hc' he => ?_, h.kept⟩
  · by_cases hv : v = w
    · subst hv
      cases hself.symm.trans hi
    · exact h.opened v n i (hat v hv ▸ hi)
  · by_cases hv : v = w
    · subst hv
      cases hself.symm.trans hst
      cases hc
    · exact h.copies v n st c (hat v hv ▸ hst) hc
  · by_cases hv : v = w
    · subst hv
      cases hself.symm.trans hst
      cases hc
    · by_cases hu : u = w
      · subst hu
        cases hself.symm.trans hst'
        cases hc'
      · exact h.apart v u n n' st st' c c' (hat v hv ▸ hst) (hat u hu ▸ hst') hc hc' he

/-! ### Runs -/

theorem Inv.step {s t : State ρ} {a : Action ρ} (hsafe : Safe cfg bytes s a) (hstep : step cfg bytes s a = some t)
    (h : Inv s) : Inv t := by
  cases a with
  | start w today =>
    obtain ⟨hnone, hd, hrunning, rfl⟩ := step_start hstep
    have hh : Inv (s.setHandler w hd) := h.setHandler (by rw [hrunning, State.runningOf, hnone]; rfl)
    exact hh.setFiles carries_openLog
  | emit w record today =>
    obtain ⟨hd, hw, -, rfl⟩ := step_emit hstep
    have hrunning := (runningOf_eq hw).symm
    unfold State.emit
    split
    · exact h.setHandler hrunning
    · rename_i counter i hcounter hstream
      have hlinked := hsafe hd hw (by rw [hcounter]; exact Option.some_ne_none counter) i hstream
      have hh : Inv (s.setHandler w { hd with currentBytes := counter }) := h.setHandler hrunning
      exact hh.append hlinked record
    · exact h.setHandler hrunning
  | rollover w today =>
    obtain ⟨hd, record, hw, -, -, -, rfl⟩ := step_rollover hstep
    exact h.setHandler (runningOf_eq hw).symm
  | operate w =>
    obtain ⟨hd, record, op, ops, hw, hphase, rfl⟩ := step_operate hstep
    unfold State.operate
    split
    · exact h.setHandler (runningOf_eq hw).symm
    · rename_i files h' more happly
      obtain ⟨hcarries, hrunning⟩ := carries_apply happly (hsafe hd hw op (by rw [hphase]; rfl))
      have hrunning' : h'.running = s.runningOf w := hrunning.trans (runningOf_eq hw).symm
      have hh : Inv (s.setHandler w { h' with phase := .rolling record (more ++ ops) }) := h.setHandler hrunning'
      exact hh.setFiles hcarries
  | retain w name gz today =>
    rw [step_retain hstep]
    exact h.remove name gz
  | evict w name gz =>
    rw [step_evict hstep]
    exact h.remove name gz
  | write w =>
    obtain ⟨hd, hw, ⟨record, i, hphase, hstream, rfl⟩ | ⟨-, rfl⟩⟩ := step_write hstep
    · have hh : Inv (s.setHandler w { hd with phase := .idle }) := h.setHandler (runningOf_eq hw).symm
      exact hh.append (hsafe hd hw record (by rw [hphase]; rfl) i hstream) record
    · exact h.setHandler (runningOf_eq hw).symm
  | gzip w ok =>
    obtain ⟨hd, hw, ⟨name, jobs, hrunning, -, rfl⟩ | ⟨name, stage, hrunning, rfl⟩⟩ := step_gzip hstep
    · exact h.take name jobs
    · exact h.gzip hw hrunning (hsafe hd hw (name, stage) hrunning)

/-- No worker has started. -/
def State.init (logs : Inodes Name (List ρ)) (archives : Inodes Name (List (Piece ρ))) : State ρ :=
  ⟨⟨logs, archives, []⟩, fun _ => none, []⟩

/-- Two workers start on an empty directory. -/
def bothStart : List (Action Nat) :=
  (List.range 2).flatMap fun w => .start w 0 :: List.replicate 3 (.operate w) ++ [.write w]

/-- They rotate by size one after the other, and the first writes to the backup of the second before that is
    compressed. -/
def twoRotations : List (Action Nat) :=
  bothStart ++ [.emit 0 1 0, .emit 1 2 0, .emit 0 3 0, .rollover 0 0] ++ List.replicate 8 (.operate 0) ++ [.write 0] ++
    List.replicate 7 (.gzip 0 true) ++ [.emit 1 4 0, .rollover 1 0] ++ List.replicate 8 (.operate 1) ++ [.write 1] ++
    [.emit 0 5 0] ++ List.replicate 7 (.gzip 1 true)

end Redgw.FileLogger.Workers
