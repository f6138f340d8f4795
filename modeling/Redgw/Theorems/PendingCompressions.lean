import Redgw.FileLogger.Compressions

/-! # No backup is moved while it is compressed

A handler finds its own unfinished compressions in the set, since it has put them there before it began the next
rotation. They leave the set only when they are finished. -/

namespace Redgw.FileLogger.Compressions
open Futures

/-- A handler that shifts its backups has waited for all of its jobs, since those that are open are in the set
    or still to be put there by it. -/
structure Inv (s : State) : Prop where
  executor : s.executor.Ok
  adding : ∀ h j, s.place h = .adding j →
    j < s.executor.submitted ∧ s.owner j = h ∧ s.executor.callbacks j = [] ∧ s.discarded j = false
  calling : ∀ h j, s.place h = .calling j → j < s.executor.submitted ∧ s.owner j = h
  tracked : ∀ j, s.executor.Open j → s.place (s.owner j) = .adding j ∨ j ∈ s.pending
  waiting : ∀ h futures, s.place h = .waiting futures → ∀ j, s.executor.Open j → s.owner j = h → j ∈ futures
  clear : ∀ h, s.place h = .shifting ∨ s.place h = .switching → ∀ j, s.executor.Open j → s.owner j ≠ h
  kept : ∀ j ∈ s.pending, j < s.executor.submitted ∧ s.discarded j = false
  settled : ∀ j < s.executor.submitted, s.discarded j = true ∨ s.executor.callbacks j ≠ [] ∨
    s.place (s.owner j) = .adding j ∨ s.place (s.owner j) = .calling j
  unknown : ∀ j, s.executor.submitted ≤ j → s.discarded j = false

theorem inv_init : Inv .init where
  executor := Executor.ok_init
  adding _ _ := nofun
  calling _ _ := nofun
  tracked j hj := absurd (Executor.ok_init.known j hj).1 (Nat.not_lt_zero j)
  waiting _ _ := nofun
  clear _ h := by rcases h with h | h <;> cases h
  kept _ := nofun
  settled j hj := absurd hj (Nat.not_lt_zero j)
  unknown _ _ := rfl

section Steps
variable {s t : State} {h j : Nat} {p : Place}

@[simp] theorem goto_same (s : State) (h : Nat) (p : Place) : (s.goto h p).place h = p := Function.update_self _ _ _

theorem goto_other {i : Nat} (hi : i ≠ h) (s : State) (p : Place) : (s.goto h p).place i = s.place i := Function.update_of_ne hi _ _

/-- A handler that registers nothing moves on. -/
theorem Inv.goto (hs : Inv s) (hold : ∀ j, s.place h ≠ .adding j ∧ (s.place h = .calling j → s.discarded j = true ∨ s.executor.callbacks j ≠ []))
    (hnew : ∀ j, p ≠ .adding j ∧ p ≠ .calling j)
    (hwaiting : ∀ futures, p = .waiting futures → ∀ j, s.executor.Open j → s.owner j = h → j ∈ futures)
    (hclear : p = .shifting ∨ p = .switching → ∀ j, s.executor.Open j → s.owner j ≠ h) : Inv (s.goto h p) := by
  constructor
  · exact hs.executor
  · intro i j hi
    by_cases hih : i = h
    · subst hih
      rw [goto_same] at hi
      exact absurd hi (hnew j).1
    · rw [goto_other hih] at hi
      exact hs.adding i j hi
  · intro i j hi
    by_cases hih : i = h
    · subst hih
      rw [goto_same] at hi
      exact absurd hi (hnew j).2
    · rw [goto_other hih] at hi
      exact hs.calling i j hi
  · intro j hj
    rcases hs.tracked j hj with hadding | hpending
    · by_cases hown : s.owner j = h
      · rw [hown] at hadding
        exact absurd hadding (hold j).1
      · exact Or.inl ((goto_other hown s p).trans hadding)
    · exact Or.inr hpending
  · intro i futures hi
    by_cases hih : i = h
    · subst hih
      rw [goto_same] at hi
      exact hwaiting futures hi
    · rw [goto_other hih] at hi
      exact hs.waiting i futures hi
  · intro i hi
    by_cases hih : i = h
    · subst hih
      rw [goto_same] at hi
      exact hclear hi
    · rw [goto_other hih] at hi
      exact hs.clear i hi
  · exact hs.kept
  · intro j hj
    by_cases hown : s.owner j = h
    · rcases hs.settled j hj with hdone | hhooked | hadding | hcalling
      · exact Or.inl hdone
      · exact Or.inr (Or.inl hhooked)
      · rw [hown] at hadding
        exact absurd hadding (hold j).1
      · rw [hown] at hcalling
        exact ((hold j).2 hcalling).imp_right Or.inl
    · have hsame : (s.goto h p).place (s.owner j) = s.place (s.owner j) := goto_other hown s p
      show s.discarded j = true ∨ s.executor.callbacks j ≠ [] ∨ (s.goto h p).place (s.owner j) = _ ∨ (s.goto h p).place (s.owner j) = _
      rw [hsame]
      exact hs.settled j hj
  · exact hs.unknown

/-- A finished compression leaves the set. -/
theorem Inv.discard (hs : Inv s) (hj : j < s.executor.submitted) (hfinished : s.executor.finished j = true)
    (hadded : ∀ h, s.place h ≠ .adding j) : Inv (s.discard j) := by
  have hne : ∀ i, s.executor.Open i → i ≠ j := by
    rintro i hi rfl
    have hopen := (hs.executor.known i hi).2
    rw [hfinished] at hopen
    cases hopen
  have hdiscarded : ∀ i, i ≠ j → (s.discard j).discarded i = s.discarded i := fun i hi => Function.update_of_ne hi _ _
  constructor
  · exact hs.executor
  · intro i k hi
    obtain ⟨hk, hown, hhooked, hnot⟩ := hs.adding i k hi
    have hkj : k ≠ j := by
      rintro rfl
      exact hadded i hi
    exact ⟨hk, hown, hhooked, (hdiscarded k hkj).trans hnot⟩
  · exact hs.calling
  · intro i hi
    exact (hs.tracked i hi).imp_right fun hmem => List.mem_filter.mpr ⟨hmem, decide_eq_true (hne i hi)⟩
  · exact hs.waiting
  · exact hs.clear
  · intro i hi
    obtain ⟨hmem, hij⟩ := List.mem_filter.mp hi
    exact ⟨(hs.kept i hmem).1, (hdiscarded i (of_decide_eq_true hij)).trans (hs.kept i hmem).2⟩
  · intro i hi
    by_cases hij : i = j
    · subst hij
      exact Or.inl (Function.update_self _ _ _)
    · show (s.discard j).discarded i = true ∨ _
      rw [hdiscarded i hij]
      exact hs.settled i hi
  · intro i hi
    rw [hdiscarded i fun heq => absurd hj (heq ▸ Nat.not_lt.mpr hi)]
    exact hs.unknown i hi

/-- A new job is its handler's to register. -/
theorem Inv.submit (hs : Inv s) (hplace : s.place h = .shifting ∨ s.place h = .switching) :
    Inv { s.goto h (.adding s.executor.submitted) with
      executor := s.executor.submit, owner := Function.update s.owner s.executor.submitted h } := by
  have hopen : ∀ j, s.executor.submit.Open j → s.executor.Open j ∨ j = s.executor.submitted := by
    rintro j (hj | hj)
    · rcases List.mem_append.mp hj with hj | hj
      · exact Or.inl (Or.inl hj)
      · exact Or.inr (List.mem_singleton.mp hj)
    · exact Or.inl (Or.inr hj)
  have hnew : Function.update s.owner s.executor.submitted h s.executor.submitted = h := Function.update_self _ _ _
  have hold : ∀ j < s.executor.submitted, Function.update s.owner s.executor.submitted h j = s.owner j := fun j hj =>
    Function.update_of_ne (Nat.ne_of_lt hj) _ _
  have hlt : ∀ j, s.executor.Open j → j < s.executor.submitted := fun j hj => (hs.executor.known j hj).1
  have hnot : ∀ j, s.place h ≠ .adding j ∧ s.place h ≠ .calling j := fun j => by
    rcases hplace with hp | hp <;> rw [hp] <;> exact ⟨nofun, nofun⟩
  -- The place of a handler with an older job that is still to be registered is unchanged.
  have hkept : ∀ {j : Nat} {p : Place}, s.place (s.owner j) = p → p = .adding j ∨ p = .calling j →
      (s.goto h (.adding s.executor.submitted)).place (s.owner j) = p := by
    intro j p hp hregisters
    have hown : s.owner j ≠ h := by
      intro heq
      rw [heq] at hp
      rcases hregisters with rfl | rfl
      · exact (hnot j).1 hp
      · exact (hnot j).2 hp
    rw [goto_other hown]
    exact hp
  constructor
  · exact hs.executor.submit
  · intro i j hi
    by_cases hih : i = h
    · subst hih
      cases (goto_same s i _).symm.trans hi
      exact ⟨Nat.lt_succ_self _, hnew, (hs.executor.fresh _ (Nat.le_refl _)).1, hs.unknown _ (Nat.le_refl _)⟩
    · obtain ⟨hj, hown, hrest⟩ := hs.adding i j ((goto_other hih s _).symm.trans hi)
      exact ⟨Nat.lt_succ_of_lt hj, (hold j hj).trans hown, hrest⟩
  · intro i j hi
    by_cases hih : i = h
    · subst hih
      cases (goto_same s i _).symm.trans hi
    · obtain ⟨hj, hown⟩ := hs.calling i j ((goto_other hih s _).symm.trans hi)
      exact ⟨Nat.lt_succ_of_lt hj, (hold j hj).trans hown⟩
  · intro j hj
    rcases hopen j hj with hj | rfl
    · refine (hs.tracked j hj).imp_left fun hadding => ?_
      show (s.goto h _).place (Function.update s.owner s.executor.submitted h j) = _
      rw [hold j (hlt j hj)]
      exact hkept hadding (Or.inl rfl)
    · left
      show (s.goto h _).place (Function.update s.owner s.executor.submitted h s.executor.submitted) = _
      rw [hnew, goto_same]
  · intro i futures hi j hj hown
    have hih : i ≠ h := by
      rintro rfl
      cases (goto_same s i _).symm.trans hi
    rcases hopen j hj with hj | rfl
    · exact hs.waiting i futures ((goto_other hih s _).symm.trans hi) j hj ((hold j (hlt j hj)).symm.trans hown)
    · exact absurd (hown.symm.trans hnew) hih
  · intro i hi j hj hown
    have hih : i ≠ h := by
      rintro rfl
      rcases hi with hi | hi <;> cases (goto_same s i _).symm.trans hi
    rcases hopen j hj with hj | rfl
    · exact hs.clear i (hi.imp (goto_other hih s _).symm.trans (goto_other hih s _).symm.trans) j hj ((hold j (hlt j hj)).symm.trans hown)
    · exact hih (hown.symm.trans hnew)
  · exact fun j hj => ⟨Nat.lt_succ_of_lt (hs.kept j hj).1, (hs.kept j hj).2⟩
  · intro j hj
    rcases Nat.lt_succ_iff_lt_or_eq.mp hj with hj | rfl
    · show _ ∨ _ ∨ (s.goto h _).place (Function.update s.owner s.executor.submitted h j) = _ ∨
        (s.goto h _).place (Function.update s.owner s.executor.submitted h j) = _
      rw [hold j hj]
      exact (hs.settled j hj).imp_right fun hrest => hrest.imp_right fun hregisters =>
        hregisters.imp (fun hp => hkept hp (Or.inl rfl)) fun hp => hkept hp (Or.inr rfl)
    · refine Or.inr (Or.inr (Or.inl ?_))
      show (s.goto h _).place (Function.update s.owner s.executor.submitted h s.executor.submitted) = _
      rw [hnew, goto_same]
  · exact fun j hj => hs.unknown j (Nat.le_of_succ_le hj)

/-- The job is put into the set before its callback is added. -/
theorem Inv.add (hs : Inv s) (hplace : s.place h = .adding j) :
    Inv { s.goto h (.calling j) with pending := if j ∈ s.pending then s.pending else s.pending ++ [j] } := by
  obtain ⟨hj, hown, hhooked, hdiscarded⟩ := hs.adding h j hplace
  have hmem : ∀ i, i ∈ (if j ∈ s.pending then s.pending else s.pending ++ [j]) ↔ i ∈ s.pending ∨ i = j := by
    intro i
    split
    · rename_i hin
      exact ⟨Or.inl, fun hi => hi.elim id fun heq => heq ▸ hin⟩
    · simp
  constructor
  · exact hs.executor
  · intro i k hi
    by_cases hih : i = h
    · subst hih
      cases (goto_same s i _).symm.trans hi
    · exact hs.adding i k ((goto_other hih s _).symm.trans hi)
  · intro i k hi
    by_cases hih : i = h
    · subst hih
      cases (goto_same s i _).symm.trans hi
      exact ⟨hj, hown⟩
    · exact hs.calling i k ((goto_other hih s _).symm.trans hi)
  · intro i hi
    by_cases hij : i = j
    · exact Or.inr ((hmem i).mpr (Or.inr hij))
    · rcases hs.tracked i hi with hadding | hpending
      · by_cases howner : s.owner i = h
        · rw [howner, hplace] at hadding
          cases hadding
          exact absurd rfl hij
        · exact Or.inl ((goto_other howner s _).trans hadding)
      · exact Or.inr ((hmem i).mpr (Or.inl hpending))
  · intro i futures hi
    by_cases hih : i = h
    · subst hih
      cases (goto_same s i _).symm.trans hi
    · exact hs.waiting i futures ((goto_other hih s _).symm.trans hi)
  · intro i hi
    by_cases hih : i = h
    · subst hih
      rcases hi with hi | hi <;> cases (goto_same s i _).symm.trans hi
    · exact hs.clear i (hi.imp (goto_other hih s _).symm.trans (goto_other hih s _).symm.trans)
  · intro i hi
    rcases (hmem i).mp hi with hi | rfl
    · exact hs.kept i hi
    · exact ⟨hj, hdiscarded⟩
  · intro i hi
    rcases hs.settled i hi with hdone | hcallbacks | hregisters
    · exact Or.inl hdone
    · exact Or.inr (Or.inl hcallbacks)
    · by_cases howner : s.owner i = h
      · rw [howner, hplace] at hregisters
        rcases hregisters with heq | heq <;> cases heq
        refine Or.inr (Or.inr (Or.inr ?_))
        show (s.goto h _).place (s.owner j) = _
        rw [howner, goto_same]
      · refine Or.inr (Or.inr ?_)
        show (s.goto h _).place (s.owner i) = _ ∨ (s.goto h _).place (s.owner i) = _
        rw [goto_other howner]
        exact hregisters
  · exact hs.unknown

/-- The executor moves on: no job is opened, and a callback that waits goes on waiting or has been run. -/
theorem Inv.advance (hs : Inv s) {x : Executor Unit} (hx : x.Ok) (hopen : ∀ j, x.Open j → s.executor.Open j)
    (hsubmitted : x.submitted = s.executor.submitted)
    (hhooked : ∀ j, s.executor.callbacks j ≠ [] → s.discarded j = true ∨ x.callbacks j ≠ [])
    (hadding : ∀ h j, s.place h = .adding j → x.callbacks j = []) : Inv { s with executor := x } := by
  constructor
  · exact hx
  · intro i j hi
    obtain ⟨hj, hown, -, hdiscarded⟩ := hs.adding i j hi
    exact ⟨hsubmitted.symm ▸ hj, hown, hadding i j hi, hdiscarded⟩
  · exact fun i j hi => ⟨hsubmitted.symm ▸ (hs.calling i j hi).1, (hs.calling i j hi).2⟩
  · exact fun j hj => hs.tracked j (hopen j hj)
  · exact fun i futures hi j hj => hs.waiting i futures hi j (hopen j hj)
  · exact fun i hi j hj => hs.clear i hi j (hopen j hj)
  · exact fun j hj => ⟨hsubmitted.symm ▸ (hs.kept j hj).1, (hs.kept j hj).2⟩
  · intro j hj
    rcases hs.settled j (hsubmitted ▸ hj) with hdone | hcallbacks | hregisters
    · exact Or.inl hdone
    · exact (hhooked j hcallbacks).imp_right Or.inl
    · exact Or.inr (Or.inr hregisters)
  · exact fun j hj => hs.unknown j (hsubmitted ▸ hj)

theorem Inv.take (hs : Inv s) {x : Executor Unit} (hx : s.executor.take = some x) : Inv { s with executor := x } := by
  have hok := hs.executor.take hx
  obtain ⟨j, queue, hworker, hqueue, rfl⟩ := Executor.take_eq_some.mp hx
  refine hs.advance hok ?_ rfl (fun _ => Or.inr) fun i k hi => (hs.adding i k hi).2.2.1
  rintro i (hi | hi)
  · exact Or.inl (hqueue ▸ List.mem_cons_of_mem _ hi)
  · cases hi
    exact Or.inl (hqueue ▸ List.mem_cons_self)

theorem Inv.finish (hs : Inv s) {x : Executor Unit} (hx : s.executor.finish = some x) : Inv { s with executor := x } := by
  have hok := hs.executor.finish hx
  obtain ⟨j, hworker, rfl⟩ := Executor.finish_eq_some.mp hx
  refine hs.advance hok ?_ rfl (fun _ => Or.inr) fun i k hi => (hs.adding i k hi).2.2.1
  rintro i (hi | hi)
  · exact Or.inl hi
  · cases hi

/-- The worker runs the callback of the finished job, if it has one by then. -/
theorem Inv.invoke (hs : Inv s) {callbacks : List Unit} {x : Executor Unit} (hx : s.executor.invoke = some (j, callbacks, x)) :
    Inv (if callbacks.isEmpty then { s with executor := x } else { s with executor := x }.discard j) := by
  have hok := hs.executor.invoke hx
  obtain ⟨hworker, rfl, rfl⟩ := Executor.invoke_eq_some.mp hx
  obtain ⟨hj, hfinished⟩ := hs.executor.calling j hworker
  have hopen : ∀ i, Executor.Open { s.executor with callbacks := Function.update s.executor.callbacks j [], worker := .idle } i →
      s.executor.Open i := by
    rintro i (hi | hi)
    · exact Or.inl hi
    · cases hi
  have hadding : ∀ i k, s.place i = .adding k → Function.update s.executor.callbacks j [] k = [] := by
    intro i k hi
    by_cases hkj : k = j
    · rw [hkj, Function.update_self]
    · rw [Function.update_of_ne hkj]
      exact (hs.adding i k hi).2.2.1
  cases hcallbacks : s.executor.callbacks j with
  | nil =>
    refine hs.advance hok hopen rfl (fun i hi => Or.inr ?_) hadding
    have hij : i ≠ j := by
      rintro rfl
      exact hi hcallbacks
    show Function.update s.executor.callbacks j [] i ≠ []
    rwa [Function.update_of_ne hij]
  | cons c cs =>
    -- The callback runs while it still counts as waiting, and then the executor goes on.
    have hdiscard : Inv (s.discard j) := hs.discard hj hfinished fun i hi => by
      rw [(hs.adding i j hi).2.2.1] at hcallbacks
      cases hcallbacks
    refine hdiscard.advance hok hopen rfl (fun i hi => ?_) hadding
    by_cases hij : i = j
    · exact Or.inl (hij ▸ Function.update_self _ _ _)
    · right
      show Function.update s.executor.callbacks j [] i ≠ []
      rwa [Function.update_of_ne hij]

/-- The callback is added, or run at once if the job is already finished. -/
theorem Inv.addDoneCallback (hs : Inv s) (hplace : s.place h = .calling j) :
    Inv (if (s.executor.addDoneCallback j ()).2 then
      ({ s with executor := (s.executor.addDoneCallback j ()).1 }.goto h .opening).discard j
      else { s with executor := (s.executor.addDoneCallback j ()).1 }.goto h .opening) := by
  obtain ⟨hj, hown⟩ := hs.calling h j hplace
  have hadded : ∀ i, s.place i ≠ .adding j := by
    intro i hi
    rw [← (hs.adding i j hi).2.1, hown, hplace] at hi
    cases hi
  cases hfinished : s.executor.finished j with
  | true =>
    rw [Executor.addDoneCallback_finished hfinished]
    refine (hs.discard hj hfinished hadded).goto (fun i => ?_) (fun i => ⟨nofun, nofun⟩) (fun _ => nofun) fun hp => by
      rcases hp with hp | hp <;> cases hp
    refine ⟨fun hi => ?_, fun hi => Or.inl ?_⟩
    · cases hplace.symm.trans hi
    · cases hplace.symm.trans hi
      exact Function.update_self _ _ _
  | false =>
    have hok := hs.executor.addDoneCallback hj ()
    rw [Executor.addDoneCallback_open hfinished] at hok ⊢
    have hadvanced := hs.advance hok (fun _ => id) rfl (fun i hi => Or.inr ?_) fun i k hi => ?_
    · refine hadvanced.goto (fun i => ?_) (fun i => ⟨nofun, nofun⟩) (fun _ => nofun) fun hp => by
        rcases hp with hp | hp <;> cases hp
      refine ⟨fun hi => ?_, fun hi => Or.inr ?_⟩
      · cases hplace.symm.trans hi
      · cases hplace.symm.trans hi
        show Function.update s.executor.callbacks j (s.executor.callbacks j ++ [()]) j ≠ []
        simp
    · show Function.update s.executor.callbacks j (s.executor.callbacks j ++ [()]) i ≠ []
      by_cases hij : i = j
      · simp [hij]
      · rwa [Function.update_of_ne hij]
    · have hkj : k ≠ j := by
        rintro rfl
        exact hadded i hi
      show Function.update s.executor.callbacks j (s.executor.callbacks j ++ [()]) k = []
      rw [Function.update_of_ne hkj]
      exact (hs.adding i k hi).2.2.1

end Steps

theorem inv_step (s : State) (a : Action) (t : State) (h : step s a = some t) (hs : Inv s) : Inv t := by
  have hquiet : ∀ {h : Nat} {p : Place}, s.place h = p → (∀ j, p ≠ .adding j ∧ p ≠ .calling j) →
      ∀ j, s.place h ≠ .adding j ∧ (s.place h = .calling j → s.discarded j = true ∨ s.executor.callbacks j ≠ []) :=
    fun hp hno j => ⟨hp ▸ (hno j).1, fun hcalling => absurd (hp.symm.trans hcalling) (hno j).2⟩
  cases a with
  | enter i =>
    obtain ⟨hplace, rfl⟩ := Option.ite_some_none_eq_some.mp h
    exact hs.goto (hquiet hplace fun j => ⟨nofun, nofun⟩) (fun j => ⟨nofun, nofun⟩) (fun _ => nofun) (by simp)
  | snapshot i futures =>
    obtain ⟨⟨hplace, hperm⟩, rfl⟩ := Option.ite_some_none_eq_some.mp h
    refine hs.goto (hquiet hplace fun j => ⟨nofun, nofun⟩) (fun j => ⟨nofun, nofun⟩) ?_ (by simp)
    rintro _ ⟨⟩ j hj rfl
    rcases hs.tracked j hj with hadding | hpending
    · cases hplace.symm.trans hadding
    · exact (List.isPerm_iff.mp hperm).mem_iff.mpr hpending
  | result i =>
    unfold step at h
    dsimp only at h
    split at h
    · rename_i future futures hplace
      obtain ⟨hfinished, rfl⟩ := Option.ite_some_none_eq_some.mp h
      refine hs.goto (hquiet hplace fun j => ⟨nofun, nofun⟩) (fun j => ⟨nofun, nofun⟩) ?_ (by simp)
      rintro _ ⟨⟩ j hj hown
      rcases List.mem_cons.mp (hs.waiting i _ hplace j hj hown) with rfl | hmem
      · rw [(hs.executor.known j hj).2] at hfinished
        cases hfinished
      · exact hmem
    · cases h
  | proceed i sameDay =>
    obtain ⟨hplace, rfl⟩ := Option.ite_some_none_eq_some.mp h
    have hclear : ∀ j, s.executor.Open j → s.owner j ≠ i := fun j hj hown =>
      List.not_mem_nil (hs.waiting i [] hplace j hj hown)
    cases sameDay <;>
      exact hs.goto (hquiet hplace fun j => ⟨nofun, nofun⟩) (fun j => ⟨nofun, nofun⟩) (fun _ => nofun) fun _ => hclear
  | shift i =>
    obtain ⟨-, rfl⟩ := Option.ite_some_none_eq_some.mp h
    exact hs
  | submit i =>
    obtain ⟨hplace, rfl⟩ := Option.ite_some_none_eq_some.mp h
    exact hs.submit hplace
  | add i =>
    unfold step at h
    dsimp only at h
    split at h
    · rename_i j hplace
      cases h
      exact hs.add hplace
    · cases h
  | addDoneCallback i =>
    unfold step at h
    dsimp only at h
    split at h
    · rename_i j hplace
      cases h
      exact hs.addDoneCallback hplace
    · cases h
  | leave i =>
    obtain ⟨hplace, rfl⟩ := Option.ite_some_none_eq_some.mp h
    have hno : ∀ j, s.place i ≠ .adding j ∧ s.place i ≠ .calling j := fun j => by
      rcases hplace with hp | hp | hp <;> rw [hp] <;> exact ⟨nofun, nofun⟩
    exact hs.goto (hquiet rfl hno) (fun j => ⟨nofun, nofun⟩) (fun _ => nofun) (by simp)
  | take =>
    obtain ⟨x, hx, rfl⟩ := Option.map_eq_some_iff.mp h
    exact hs.take hx
  | finish =>
    obtain ⟨x, hx, rfl⟩ := Option.map_eq_some_iff.mp h
    exact hs.finish hx
  | invoke =>
    obtain ⟨⟨j, callbacks, x⟩, hx, rfl⟩ := Option.map_eq_some_iff.mp h
    exact hs.invoke hx

/-- After any steps of the handlers and the worker, a handler that moves a backup has no job that is queued or running, and the set is
    empty once all jobs are finished and their callbacks have run. They have run as soon as no one is about to add or to run one. -/
theorem no_backup_moved {as : List Action} {s : State} (hrun : Runs.run step .init as = some s) :
    (∀ h t, step s (.shift h) = some t → ∀ j, s.owner j = h → ¬s.executor.Open j) ∧
    ((∀ j < s.executor.submitted, s.executor.finished j = true ∧ s.discarded j = true) → s.pending = []) ∧
    ((∀ j < s.executor.submitted, s.executor.finished j = true) → s.executor.worker = .idle →
      (∀ h j, s.place h ≠ .adding j ∧ s.place h ≠ .calling j) → ∀ j < s.executor.submitted, s.discarded j = true) := by
  have hs := Runs.run_inv inv_step hrun inv_init
  refine ⟨?_, ?_, ?_⟩
  · intro h t hstep j hown hopen
    obtain ⟨hplace, -⟩ := Option.ite_some_none_eq_some.mp hstep
    exact hs.clear h (Or.inl hplace) j hopen hown
  · intro hdone
    refine List.eq_nil_iff_forall_not_mem.mpr fun j hj => ?_
    obtain ⟨hlt, hnot⟩ := hs.kept j hj
    rw [(hdone j hlt).2] at hnot
    cases hnot
  · intro hfinished hidle hno j hj
    rcases hs.settled j hj with hdiscarded | hcallbacks | hadding | hcalling
    · exact hdiscarded
    · have hworker := hs.executor.waiting j (hfinished j hj) hcallbacks
      rw [hidle] at hworker
      cases hworker
    · exact absurd hadding (hno _ _).1
    · exact absurd hcalling (hno _ _).2

/-- A rotation, a job that is finished before it is in the set, and the next rotation. -/
def twoRotations : List Action :=
  [.enter 0, .snapshot 0 [], .proceed 0 true, .shift 0, .submit 0, .take, .finish, .add 0, .invoke, .addDoneCallback 0, .leave 0,
    .enter 0, .snapshot 0 [], .proceed 0 true]

theorem no_backup_moved_two : ∃ s, Runs.run step .init twoRotations = some s ∧ (step s (.shift 0)).isSome = true ∧
    ¬s.executor.Open 0 ∧ s.pending = [] := by
  have hsome : ∃ s, Runs.run step .init twoRotations = some s ∧ s.place 0 = .shifting ∧ s.executor.submitted = 1 ∧
      s.executor.finished 0 = true ∧ s.discarded 0 = true ∧ s.owner 0 = 0 := ⟨_, rfl, rfl, rfl, rfl, rfl, rfl⟩
  obtain ⟨s, hrun, hplace, hsubmitted, hfinished, hdiscarded, hown⟩ := hsome
  obtain ⟨hmoved, hempty, -⟩ := no_backup_moved hrun
  have hstep : step s (.shift 0) = some s := if_pos hplace
  refine ⟨s, hrun, by rw [hstep]; rfl, hmoved 0 s hstep 0 hown, hempty fun j hj => ?_⟩
  obtain rfl : j = 0 := by omega
  exact ⟨hfinished, hdiscarded⟩

end Redgw.FileLogger.Compressions
