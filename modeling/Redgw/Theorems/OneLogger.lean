import Redgw.StartupLock

/-! # At most one startup logger

Two workers can both be the startup logger, one of them with the lock of a file that has been unlinked. As
long as no such lock is taken or made, there is at most one. -/

namespace Redgw.StartupLock

variable {ω : Type} [DecidableEq ω] {s t : State ω} {w v : ω}

/-! ### What a step does -/

theorem setWorker_phase (s : State ω) (w v : ω) (phase : Phase) (flag : Bool) :
    ((s.setWorker w phase flag).workers v).phase = if v = w then phase else (s.workers v).phase := by
  unfold State.setWorker
  split <;> simp_all

@[simp] theorem setWorker_holder (s : State ω) (w : ω) (phase : Phase) (flag : Bool) :
    (s.setWorker w phase flag).holder = s.holder := rfl

@[simp] theorem setWorker_path (s : State ω) (w : ω) (phase : Phase) (flag : Bool) :
    (s.setWorker w phase flag).path = s.path := rfl

omit [DecidableEq ω] in
theorem setHolder_holder (s : State ω) (inode i : Nat) (x : Option ω) :
    (s.setHolder inode x).holder i = if i = inode then x else s.holder i := rfl

theorem letGo_workers (s : State ω) (w : ω) (inode : Nat) : (s.letGo w inode).workers = s.workers := by
  unfold State.letGo
  split <;> rfl

theorem letGo_path (s : State ω) (w : ω) (inode : Nat) : (s.letGo w inode).path = s.path := by
  unfold State.letGo
  split <;> rfl

/-- Giving up a lock takes it from nobody else. -/
theorem letGo_holder {inode i : Nat} :
    (s.letGo w inode).holder i = some v ↔ s.holder i = some v ∧ ¬(v = w ∧ i = inode) := by
  unfold State.letGo
  by_cases hw : s.holder inode = some w
  · rw [if_pos hw, setHolder_holder]
    by_cases hi : i = inode
    · subst hi
      rw [if_pos rfl, hw, Option.some.injEq]
      constructor
      · intro h
        cases h
      · rintro ⟨rfl, h⟩
        exact absurd ⟨rfl, rfl⟩ h
    · simp [hi]
  · rw [if_neg hw]
    constructor
    · intro h
      refine ⟨h, ?_⟩
      rintro ⟨rfl, rfl⟩
      exact hw h
    · exact fun h => h.1

theorem step_openFile (h : step s (.openFile w) = some t) : (s.workers w).phase = .idle ∧
    ((∃ inode, s.path = some inode ∧ t = s.setPhase w (.opened inode)) ∨
      s.path = none ∧ t = { s with path := some s.inodes, inodes := s.inodes + 1 }.setPhase w (.opened s.inodes)) := by
  simp only [step] at h
  split at h
  · rename_i inode hp hpath
    cases h
    exact ⟨hp, Or.inl ⟨inode, hpath, rfl⟩⟩
  · rename_i hp hpath
    cases h
    exact ⟨hp, Or.inr ⟨hpath, rfl⟩⟩
  · cases h

theorem step_openFails (h : step s (.openFails w) = some t) :
    (s.workers w).phase = .idle ∧ t = s.setWorker w .idle false := by
  simp only [step] at h
  split at h
  · rename_i hp
    cases h
    exact ⟨hp, rfl⟩
  · cases h

theorem step_flock (h : step s (.flock w) = some t) : ∃ inode, (s.workers w).phase = .opened inode ∧
    (s.holder inode = none ∧ t = (s.setHolder inode (some w)).setPhase w (.locked inode) ∨
      s.holder inode ≠ none ∧ t = s.setPhase w (.refused inode)) := by
  simp only [step] at h
  split at h
  · rename_i inode hp
    split at h
    · rename_i hfree
      cases h
      exact ⟨inode, hp, Or.inl ⟨hfree, rfl⟩⟩
    · rename_i hheld
      cases h
      exact ⟨inode, hp, Or.inr ⟨hheld, rfl⟩⟩
  · cases h

theorem step_write (h : step s (.write w) = some t) :
    ∃ inode, (s.workers w).phase = .locked inode ∧ t = s.setWorker w (.acquired inode) true := by
  simp only [step] at h
  split at h
  · rename_i inode hp
    cases h
    exact ⟨inode, hp, rfl⟩
  · cases h

theorem step_writeFails (h : step s (.writeFails w) = some t) :
    ∃ inode, (s.workers w).phase = .locked inode ∧ t = s.setPhase w (.refused inode) := by
  simp only [step] at h
  split at h
  · rename_i inode hp
    cases h
    exact ⟨inode, hp, rfl⟩
  · cases h

theorem step_close (h : step s (.close w) = some t) :
    ∃ inode, (s.workers w).phase = .refused inode ∧ t = (s.letGo w inode).setWorker w .idle false := by
  simp only [step] at h
  split at h
  · rename_i inode hp
    cases h
    exact ⟨inode, hp, rfl⟩
  · cases h

theorem step_unlock (h : step s (.unlock w) = some t) :
    ∃ inode, (s.workers w).phase = .acquired inode ∧ t = (s.letGo w inode).setPhase w (.unlocked inode) := by
  simp only [step] at h
  split at h
  · rename_i inode hp
    cases h
    exact ⟨inode, hp, rfl⟩
  · cases h

theorem step_closeUnlocked (h : step s (.closeUnlocked w) = some t) :
    ∃ inode, (s.workers w).phase = .unlocked inode ∧ t = s.setPhase w .closed := by
  simp only [step] at h
  split at h
  · rename_i inode hp
    cases h
    exact ⟨inode, hp, rfl⟩
  · cases h

theorem step_unlink (h : step s (.unlink w) = some t) :
    (s.workers w).phase = .closed ∧ t = { s with path := none }.setPhase w .unlinked := by
  simp only [step] at h
  split at h
  · rename_i hp
    cases h
    exact ⟨hp, rfl⟩
  · cases h

theorem step_clear (h : step s (.clear w) = some t) :
    ((s.workers w).phase = .idle ∨ (s.workers w).phase = .unlinked) ∧ t = s.setWorker w .idle false := by
  simp only [step] at h
  split at h
  · rename_i hp
    cases h
    exact ⟨Or.inl hp, rfl⟩
  · rename_i hp
    cases h
    exact ⟨Or.inr hp, rfl⟩
  · cases h

/-! ### Who holds a lock -/

/-- In this phase the worker may have the lock of the inode. -/
inductive Phase.MayHold : Phase → Nat → Prop
  | locked (inode : Nat) : MayHold (.locked inode) inode
  | refused (inode : Nat) : MayHold (.refused inode) inode
  | acquired (inode : Nat) : MayHold (.acquired inode) inode

/-- In this phase the worker has the lock of the inode. -/
inductive Phase.Holds : Phase → Nat → Prop
  | locked (inode : Nat) : Holds (.locked inode) inode
  | acquired (inode : Nat) : Holds (.acquired inode) inode

/-- Only the inode that the path names is locked. -/
structure Inv (s : State ω) : Prop where
  named : ∀ i w, s.holder i = some w → s.path = some i
  mayHold : ∀ i w, s.holder i = some w → (s.workers w).phase.MayHold i
  holds : ∀ i w, (s.workers w).phase.Holds i → s.holder i = some w

theorem inv_init (ω : Type) : Inv (.init ω) where
  named _ _ h := by cases h
  mayHold _ _ h := by cases h
  holds _ _ h := by cases h

/-- A worker moves on without giving up or taking a lock. -/
theorem Inv.setWorker (h : Inv s) {phase : Phase} {flag : Bool}
    (hmay : ∀ i, s.holder i = some w → phase.MayHold i) (hholds : ∀ i, phase.Holds i → s.holder i = some w) :
    Inv (s.setWorker w phase flag) where
  named := h.named
  mayHold i v hv := by
    rw [setWorker_phase]
    split
    · rename_i hvw
      exact hmay i (hvw ▸ hv)
    · exact h.mayHold i v hv
  holds i v hv := by
    rw [setWorker_phase] at hv
    split at hv
    · rename_i hvw
      exact hvw ▸ hholds i hv
    · exact h.holds i v hv

omit [DecidableEq ω] in
/-- In its phase the worker has no lock. -/
theorem Inv.no_lock (h : Inv s) (hp : ∀ i, ¬(s.workers w).phase.MayHold i) (i : Nat) : s.holder i ≠ some w :=
  fun hi => hp i (h.mayHold i w hi)

/-- A worker without a lock moves to a phase in which it has none. -/
theorem Inv.move (h : Inv s) {phase : Phase} {flag : Bool} (hp : ∀ i, ¬(s.workers w).phase.MayHold i)
    (hphase : ∀ i, ¬phase.Holds i) : Inv (s.setWorker w phase flag) :=
  h.setWorker (fun i hi => absurd hi (h.no_lock hp i)) fun i hi => absurd hi (hphase i)

theorem Inv.letGo (h : Inv s) {inode : Nat} (hp : ∀ i, (s.workers w).phase.MayHold i → i = inode) {phase : Phase} {flag : Bool}
    (hphase : ∀ i, ¬phase.Holds i) : Inv ((s.letGo w inode).setWorker w phase flag) where
  named i v hv := by
    rw [setWorker_path, letGo_path]
    exact h.named i v (letGo_holder.mp hv).1
  mayHold i v hv := by
    obtain ⟨hheld, hne⟩ := letGo_holder.mp hv
    rw [setWorker_phase, letGo_workers]
    split
    · rename_i hvw
      subst hvw
      exact absurd ⟨rfl, hp i (h.mayHold i v hheld)⟩ hne
    · exact h.mayHold i v hheld
  holds i v hv := by
    rw [setWorker_phase, letGo_workers] at hv
    rw [setWorker_holder, letGo_holder]
    split at hv
    · exact absurd hv (hphase i)
    · rename_i hvw
      exact ⟨h.holds i v hv, fun he => hvw he.1⟩

/-- The step does not lock an inode that the path does not name, and does not unlink one that is locked. -/
def State.Keeps (s : State ω) : Action ω → Prop
  | .flock w => ∀ inode, (s.workers w).phase = .opened inode → s.holder inode = none → s.path = some inode
  | .unlink _ => ∀ inode, s.path = some inode → s.holder inode = none
  | _ => True

theorem Inv.step (s : State ω) (a : Action ω) (t : State ω) (ha : s.Keeps a) (h : StartupLock.step s a = some t) (hs : Inv s) :
    Inv t := by
  have hnone : ∀ {p : Phase} {w : ω}, (s.workers w).phase = p → (∀ i, ¬p.MayHold i) → ∀ i, ¬(s.workers w).phase.MayHold i := by
    intro p w hp hm
    rw [hp]
    exact hm
  cases a with
  | openFile w =>
    obtain ⟨hp, ⟨inode, hpath, rfl⟩ | ⟨hpath, rfl⟩⟩ := step_openFile h
    · exact hs.move (hnone hp nofun) nofun
    · -- Without a path nobody has a lock, so the new file can have any inode.
      have hfree : ∀ i v, s.holder i ≠ some v := by
        intro i v hv
        have hnamed := hs.named i v hv
        rw [hpath] at hnamed
        cases hnamed
      have hmade : Inv { s with path := some s.inodes, inodes := s.inodes + 1 } :=
        ⟨fun i v hv => absurd hv (hfree i v), hs.mayHold, hs.holds⟩
      exact hmade.move (hnone hp nofun) nofun
  | openFails w =>
    obtain ⟨hp, rfl⟩ := step_openFails h
    exact hs.move (hnone hp nofun) nofun
  | flock w =>
    obtain ⟨inode, hp, ⟨hfree, rfl⟩ | ⟨-, rfl⟩⟩ := step_flock h
    · have hpath := ha inode hp hfree
      have hidle := hnone hp nofun
      -- The lock is the only one: any other would be of the same inode.
      have hothers : ∀ i v, s.holder i ≠ some v := by
        intro i v hv
        have hnamed := hs.named i v hv
        rw [hpath] at hnamed
        cases hnamed
        rw [hfree] at hv
        cases hv
      constructor
      · intro i v hv
        rw [State.setPhase, setWorker_holder, setHolder_holder] at hv
        split at hv
        · rename_i hi
          rw [hi]
          exact hpath
        · exact absurd hv (hothers i v)
      · intro i v hv
        rw [State.setPhase, setWorker_holder, setHolder_holder] at hv
        split at hv
        · rename_i hi
          cases hv
          rw [State.setPhase, setWorker_phase, if_pos rfl, hi]
          exact .locked inode
        · exact absurd hv (hothers i v)
      · intro i v hv
        rw [State.setPhase, setWorker_phase] at hv
        split at hv
        · rename_i hvw
          cases hv
          rw [State.setPhase, setWorker_holder, setHolder_holder, if_pos rfl, hvw]
        · exact absurd (hs.holds i v hv) (hothers i v)
    · exact hs.move (hnone hp nofun) nofun
  | write w =>
    obtain ⟨inode, hp, rfl⟩ := step_write h
    have hheld := hs.holds inode w (hp ▸ .locked inode)
    refine hs.setWorker (fun i hi => ?_) fun i hi => ?_
    · have hmay := hs.mayHold i w hi
      rw [hp] at hmay
      cases hmay
      exact .acquired inode
    · cases hi
      exact hheld
  | writeFails w =>
    obtain ⟨inode, hp, rfl⟩ := step_writeFails h
    refine hs.setWorker (fun i hi => ?_) nofun
    have hmay := hs.mayHold i w hi
    rw [hp] at hmay
    cases hmay
    exact .refused inode
  | close w =>
    obtain ⟨inode, hp, rfl⟩ := step_close h
    refine hs.letGo (fun i hi => ?_) nofun
    rw [hp] at hi
    cases hi
    rfl
  | unlock w =>
    obtain ⟨inode, hp, rfl⟩ := step_unlock h
    refine hs.letGo (fun i hi => ?_) nofun
    rw [hp] at hi
    cases hi
    rfl
  | closeUnlocked w =>
    obtain ⟨inode, hp, rfl⟩ := step_closeUnlocked h
    exact hs.move (hnone hp nofun) nofun
  | unlink w =>
    obtain ⟨hp, rfl⟩ := step_unlink h
    have hfree : ∀ i v, s.holder i ≠ some v := by
      intro i v hv
      rw [ha i (hs.named i v hv)] at hv
      cases hv
    have hgone : Inv { s with path := none } :=
      ⟨fun i v hv => absurd hv (hfree i v), hs.mayHold, hs.holds⟩
    exact hgone.move (hnone hp nofun) nofun
  | clear w =>
    obtain ⟨hp | hp, rfl⟩ := step_clear h
    · exact hs.move (hnone hp nofun) nofun
    · exact hs.move (hnone hp nofun) nofun

/-- At most one worker is the startup logger. -/
def State.OneLogger (s : State ω) : Prop := ∀ w v, s.Logs w → s.Logs v → w = v

omit [DecidableEq ω] in
theorem Inv.oneLogger (h : Inv s) : s.OneLogger := by
  rintro w v ⟨-, i, hw⟩ ⟨-, j, hv⟩
  have hi := h.holds i w (hw ▸ .acquired i)
  have hj := h.holds j v (hv ▸ .acquired j)
  have hij := (h.named i w hi).symm.trans (h.named j v hj)
  cases hij
  exact Option.some.inj (hi.symm.trans hj)

/-- As long as no step locks an inode that the path does not name or unlinks a locked one, at most one worker is
    the startup logger. -/
theorem oneLogger_run {as : List (Action ω)} (h : run (.init ω) as = some s)
    (has : Runs.Allowed step State.Keeps (.init ω) as) : s.OneLogger :=
  (Runs.run_inv_at Inv.step has h (inv_init ω)).oneLogger

/-! ### Three workers -/

/-- One worker logs, stops and unlinks the file, and then another one logs. -/
def inTurn : List (Action Nat) :=
  [.openFile 0, .flock 0, .write 0, .unlock 0, .closeUnlocked 0, .unlink 0, .clear 0, .openFile 1, .flock 1, .write 1]

theorem oneLogger_run_inTurn : ∃ s, run (.init Nat) inTurn = some s ∧ s.Logs 1 ∧ s.OneLogger := by
  have hallowed : Runs.Allowed step State.Keeps (.init Nat) inTurn := by
    refine (Runs.allowed_cons rfl).mpr ⟨trivial, ?_⟩
    refine (Runs.allowed_cons rfl).mpr ⟨?_, ?_⟩
    · intro inode hp _
      cases hp
      rfl
    refine (Runs.allowed_cons rfl).mpr ⟨trivial, (Runs.allowed_cons rfl).mpr ⟨trivial, (Runs.allowed_cons rfl).mpr ⟨trivial, ?_⟩⟩⟩
    refine (Runs.allowed_cons rfl).mpr ⟨?_, ?_⟩
    · intro inode hpath
      cases hpath
      rfl
    refine (Runs.allowed_cons rfl).mpr ⟨trivial, (Runs.allowed_cons rfl).mpr ⟨trivial, ?_⟩⟩
    refine (Runs.allowed_cons rfl).mpr ⟨?_, (Runs.allowed_cons rfl).mpr ⟨trivial, trivial⟩⟩
    intro inode hp _
    cases hp
    rfl
  exact ⟨_, rfl, ⟨rfl, _, rfl⟩, oneLogger_run rfl hallowed⟩

/-- A worker stops after another one has opened the file, which then locks the file that is unlinked; a third one
    makes a new file and locks that. -/
def overlapping : List (Action Nat) :=
  [.openFile 0, .flock 0, .write 0, .openFile 1, .unlock 0, .closeUnlocked 0, .flock 1, .write 1, .unlink 0,
   .openFile 2, .flock 2, .write 2]

/-- Then there are two startup loggers. -/
theorem two_loggers : ∃ s, run (.init Nat) overlapping = some s ∧ s.Logs 1 ∧ s.Logs 2 :=
  ⟨_, rfl, ⟨rfl, _, rfl⟩, ⟨rfl, _, rfl⟩⟩

end Redgw.StartupLock
