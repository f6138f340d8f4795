import Redgw.WebSocket

/-! # Slots of subscriptions

The counter is the number of handlers that have a slot, and a handler that has taken one gives it back once,
however the handlers take turns and whatever fails. -/

namespace Redgw.WebSocket

/-! ### Handlers -/

/-- Before the counter is looked at, rejected, with a slot, without it again, or at the end. -/
inductive Stage
  | asking
  | rejected
  | inside
  | outside
  | over
deriving DecidableEq

def Place.stage : Place → Stage
  | .entering => .asking
  | .closing | .closingFull => .rejected
  | .accepting | .subscribing | .waiting | .gathering | .leaving .. => .inside
  | .unsubscribing | .closingPubsub | .closingClient => .outside
  | .finished => .over

/-- The slots that a handler has taken and given back are those of its stage. -/
def Handler.Fits (h : Handler) : Prop :=
  match h.place.stage with
  | .asking => h.took = 0 ∧ h.gave = 0 ∧ h.closeCode = none
  | .rejected => h.took = 0 ∧ h.gave = 0
  | .inside => h.took = 1 ∧ h.gave = 0 ∧ h.closeCode = none
  | .outside => h.took = 1 ∧ h.gave = 1 ∧ h.closeCode = none
  | .over => h.took ≤ 1 ∧ h.gave = h.took ∧ (h.closeCode ≠ none → h.took = 0)

/-- The handler has taken a slot and not yet given it back. -/
def Handler.holdsSlot (h : Handler) : Bool := decide (h.gave < h.took)

/-- Only the close of a request beyond the limit is awaited with the lock. -/
def Handler.holdsLock (h : Handler) : Bool := decide (h.place = .closingFull)

theorem fits_start (st : Settings) (c : Connect) : (Handler.start st c).Fits := by
  unfold Handler.start
  split
  · exact ⟨rfl, rfl⟩
  · exact ⟨rfl, rfl, rfl⟩

theorem start_holdsSlot (st : Settings) (c : Connect) : (Handler.start st c).holdsSlot = false := by
  unfold Handler.start
  split <;> rfl

theorem start_holdsLock (st : Settings) (c : Connect) : (Handler.start st c).holdsLock = false := by
  unfold Handler.start
  split <;> rfl

theorem Handler.Fits.holdsSlot {h : Handler} (hf : h.Fits) : h.holdsSlot = decide (h.place.stage = .inside) := by
  unfold Handler.Fits at hf
  unfold Handler.holdsSlot
  split at hf <;> simp_all

/-- What the end of an `await` does: the handler moves on, it is refused, it takes a slot, it is done with a refusal,
    or it gives its slot back. -/
inductive Moves (count : Int) (locked : Bool) (h : Handler) : Int × Bool × Handler → Prop
  | on (p : Place) (hplace : h.place ≠ .closingFull) (hp : p ≠ .closingFull)
    (hstage : p.stage = h.place.stage ∨ p = .finished ∧ (h.place = .closing ∨ h.place.stage = .outside)) :
    Moves count locked h (count, locked, { h with place := p })
  | refused (hplace : h.place = .entering) (hfree : locked = false) (hfull : maxWsConnections ≤ count) :
    Moves count locked h (count, true, { h with place := .closingFull, closeCode := some 4029 })
  | enters (hplace : h.place = .entering) (hfree : locked = false) (hroom : count < maxWsConnections) :
    Moves count locked h (count + 1, false, { h with place := .accepting, took := h.took + 1 })
  | closed (hplace : h.place = .closingFull) : Moves count locked h (count, false, { h with place := .finished })
  | leaves (subClient pubsub : Bool) (hplace : h.place = .leaving subClient pubsub) (hfree : locked = false) :
    Moves count locked h (count - 1, false, { h with place := cleanup subClient pubsub, gave := h.gave + 1 })

theorem resume_moves {count : Int} {locked : Bool} {h : Handler} {o : Outcome} {x : Int × Bool × Handler}
    (hr : h.resume count locked o = some x) : Moves count locked h x := by
  unfold Handler.resume at hr
  cases hp : h.place <;> rw [hp] at hr
  case entering =>
    cases o with
    | returns =>
      dsimp only at hr
      split at hr
      · cases hr
      · rename_i hfree
        split at hr
        · rename_i hfull
          cases hr
          exact .refused hp (Bool.eq_false_iff.mpr hfree) hfull
        · rename_i hroom
          cases hr
          exact .enters hp (Bool.eq_false_iff.mpr hfree) (Int.not_le.mp hroom)
    | raises | fromUrlRaises | pubsubRaises => cases hr
  case leaving subClient pubsub =>
    cases o with
    | returns =>
      dsimp only at hr
      split at hr
      · cases hr
      · rename_i hfree
        cases hr
        exact .leaves subClient pubsub hp (Bool.eq_false_iff.mpr hfree)
    | raises | fromUrlRaises | pubsubRaises => cases hr
  case closingFull =>
    cases o <;> cases hr <;> exact .closed hp
  -- Elsewhere neither the counter nor the lock is touched.
  all_goals
    cases o <;> cases hr <;>
      exact .on _ (by simp [hp]) (by simp) (by simp [hp, Place.stage])

section Moves
variable {count : Int} {locked : Bool} {h : Handler} {x : Int × Bool × Handler}

theorem cleanup_stage (subClient pubsub : Bool) :
    (cleanup subClient pubsub).stage = .outside ∨ (cleanup subClient pubsub).stage = .over := by
  cases subClient <;> cases pubsub <;> simp [cleanup, Place.stage]

theorem cleanup_ne (subClient pubsub : Bool) : cleanup subClient pubsub ≠ .closingFull := by
  cases subClient <;> cases pubsub <;> simp [cleanup]

theorem Moves.fits (hm : Moves count locked h x) (hf : h.Fits) : x.2.2.Fits := by
  unfold Handler.Fits at hf ⊢
  cases hm with
  | on p _ _ hstage =>
    rcases hstage with hstage | ⟨rfl, hplace | hout⟩
    · rw [hstage]
      exact hf
    · rw [hplace] at hf
      obtain ⟨htook, hgave⟩ := hf
      exact ⟨htook ▸ Nat.zero_le 1, hgave.trans htook.symm, fun _ => htook⟩
    · rw [hout] at hf
      obtain ⟨htook, hgave, hcode⟩ := hf
      exact ⟨htook ▸ Nat.le_refl 1, hgave.trans htook.symm, fun hne => absurd hcode hne⟩
  | refused hplace _ _ =>
    rw [hplace] at hf
    exact ⟨hf.1, hf.2.1⟩
  | enters hplace _ _ =>
    rw [hplace] at hf
    obtain ⟨htook, hgave, hcode⟩ := hf
    exact ⟨congrArg (· + 1) htook, hgave, hcode⟩
  | closed hplace =>
    rw [hplace] at hf
    obtain ⟨htook, hgave⟩ := hf
    exact ⟨htook ▸ Nat.zero_le 1, hgave.trans htook.symm, fun _ => htook⟩
  | leaves subClient pubsub hplace _ =>
    rw [hplace] at hf
    obtain ⟨htook, hgave, hcode⟩ := hf
    rcases cleanup_stage subClient pubsub with hstage | hstage
    · rw [hstage]
      exact ⟨htook, congrArg (· + 1) hgave, hcode⟩
    · rw [hstage]
      exact ⟨htook ▸ Nat.le_refl 1, (congrArg (· + 1) hgave).trans htook.symm, fun hne => absurd hcode hne⟩

/-- The counter changes with the slot of the handler. -/
theorem Moves.counter (hm : Moves count locked h x) (hf : h.Fits) :
    x.1 = count - (if h.holdsSlot then 1 else 0) + (if x.2.2.holdsSlot then 1 else 0) := by
  have hover : Place.stage .finished = .over := rfl
  rw [hf.holdsSlot, (hm.fits hf).holdsSlot]
  cases hm with
  | on p _ _ hstage =>
    rcases hstage with hstage | ⟨rfl, hplace | hout⟩
    · simp [hstage]
    · simp [hplace, Place.stage]
    · simp [hout, hover]
  | refused hplace _ _ => simp [hplace, Place.stage]
  | enters hplace _ _ => simp [hplace, Place.stage]
  | closed hplace => simp [hplace, Place.stage]
  | leaves subClient pubsub hplace _ =>
    have hinside : (Place.leaving subClient pubsub).stage = .inside := rfl
    rcases cleanup_stage subClient pubsub with hstage | hstage <;> simp [hplace, hstage, hinside]

/-- The lock changes with the place of the handler. -/
theorem Moves.lock (hm : Moves count locked h x) (hl : h.holdsLock = true → locked = true) :
    x.2.1.toNat = locked.toNat - (if h.holdsLock then 1 else 0) + (if x.2.2.holdsLock then 1 else 0) := by
  unfold Handler.holdsLock at hl ⊢
  cases hm with
  | on p hplace hp _ => simp [hplace, hp]
  | refused hplace hfree _ => simp [hplace, hfree]
  | enters hplace hfree _ => simp [hplace, hfree]
  | closed hplace => simp [hplace, hl]
  | leaves subClient pubsub hplace hfree => simp [hplace, hfree, cleanup_ne]

theorem Moves.bound (hm : Moves count locked h x) (hc : count ≤ maxWsConnections) : x.1 ≤ maxWsConnections := by
  cases hm with
  | on | refused | closed => exact hc
  | enters _ _ hroom => exact hroom
  | leaves => exact Int.le_trans (Int.sub_le_self count (by decide)) hc

end Moves

/-! ### All handlers -/

structure Inv (s : State) : Prop where
  fits : ∀ h ∈ s.handlers, h.Fits
  count : s.wsConnectionCount = (s.handlers.countP Handler.holdsSlot : Nat)
  lock : s.locked.toNat = s.handlers.countP Handler.holdsLock
  bound : s.wsConnectionCount ≤ maxWsConnections

theorem inv_init : Inv .init := ⟨nofun, rfl, rfl, by decide⟩

theorem step_resume {st : Settings} {s t : State} {i : Nat} {o : Outcome} (h : step st s (.resume i o) = some t) :
    ∃ x : Handler, ∃ y : Int × Bool × Handler, s.handlers[i]? = some x ∧
      x.resume s.wsConnectionCount s.locked o = some y ∧ t = ⟨y.1, y.2.1, s.handlers.set i y.2.2⟩ := by
  simp only [step, Option.bind_eq_bind, Option.bind_eq_some_iff] at h
  obtain ⟨x, hx, y, hy, ht⟩ := h
  cases ht
  exact ⟨x, y, hx, hy, rfl⟩

theorem inv_step {st : Settings} (s : State) (a : Action) (t : State) (h : step st s a = some t) (hs : Inv s) : Inv t := by
  cases a with
  | connect c =>
    cases h
    refine ⟨fun x hx => ?_, ?_, ?_, hs.bound⟩
    · rcases List.mem_append.mp hx with hx | hx
      · exact hs.fits x hx
      · rw [List.mem_singleton.mp hx]
        exact fits_start st c
    · rw [List.countP_append, List.countP_singleton, start_holdsSlot]
      exact hs.count
    · rw [List.countP_append, List.countP_singleton, start_holdsLock]
      exact hs.lock
  | resume i o =>
    obtain ⟨x, y, hx, hy, rfl⟩ := step_resume h
    have hm := resume_moves hy
    have hmem := List.mem_of_getElem? hx
    have hfits := hs.fits x hmem
    obtain ⟨hi, hget⟩ := List.getElem?_eq_some_iff.mp hx
    have hlocked : x.holdsLock = true → s.locked = true := by
      intro hl
      have hpos : 0 < s.locked.toNat := by
        rw [hs.lock]
        exact List.countP_pos_iff.mpr ⟨x, hmem, hl⟩
      cases hb : s.locked with
      | true => rfl
      | false =>
        rw [hb] at hpos
        exact absurd hpos (by decide)
    refine ⟨fun z hz => ?_, ?_, ?_, hm.bound hs.bound⟩
    · rcases List.mem_or_eq_of_mem_set hz with hz | rfl
      · exact hs.fits z hz
      · exact hm.fits hfits
    · have hcount := hm.counter hfits
      have hle : x.holdsSlot = true → 0 < s.handlers.countP Handler.holdsSlot := fun hslot =>
        List.countP_pos_iff.mpr ⟨x, hmem, hslot⟩
      show y.1 = ((s.handlers.set i y.2.2).countP Handler.holdsSlot : Nat)
      rw [List.countP_set hi, hget, hcount, hs.count]
      cases hslot : x.holdsSlot with
      | true =>
        have hpos := hle hslot
        cases y.2.2.holdsSlot <;> simp only [↓reduceIte, Bool.false_eq_true] <;> omega
      | false => cases y.2.2.holdsSlot <;> simp
    · show y.2.1.toNat = (s.handlers.set i y.2.2).countP Handler.holdsLock
      rw [List.countP_set hi, hget, hm.lock hlocked, hs.lock]

theorem inv_run {st : Settings} {as : List Action} {s : State} (h : run st .init as = some s) : Inv s :=
  Runs.run_inv inv_step h inv_init

/-! ### Coming to an end -/

/-- How many more times an `await` of the handler can end. -/
def Place.rank : Place → Nat
  | .finished => 0
  | .closing | .closingFull | .closingClient => 1
  | .closingPubsub => 2
  | .unsubscribing => 3
  | .leaving .. => 4
  | .gathering => 5
  | .waiting => 6
  | .subscribing => 7
  | .accepting => 8
  | .entering => 9

/-- A handler that is not at its end goes on when the lock is free. -/
theorem resume_returns {h : Handler} (count : Int) (hp : h.place ≠ .finished) :
    ∃ y, h.resume count false .returns = some y ∧ y.2.2.place.rank < h.place.rank := by
  unfold Handler.resume
  cases hplace : h.place with
  | finished => exact absurd hplace hp
  | entering =>
    dsimp only
    by_cases hfull : maxWsConnections ≤ count
    · refine ⟨(count, true, { h with place := .closingFull, closeCode := some 4029 }), ?_, by simp [Place.rank]⟩
      simp [hfull]
    · refine ⟨(count + 1, false, { h with place := .accepting, took := h.took + 1 }), ?_, by simp [Place.rank]⟩
      simp [hfull]
  | leaving subClient pubsub =>
    refine ⟨_, rfl, ?_⟩
    cases subClient <;> cases pubsub <;> simp [cleanup, Place.rank]
  | closing | closingFull | accepting | subscribing | waiting | gathering | unsubscribing | closingPubsub | closingClient =>
    exact ⟨_, rfl, by simp [Place.rank]⟩

/-- The handler with the lock gives it up when its close has ended. -/
theorem unlocks (st : Settings) {s : State} (hs : Inv s) {i : Nat} {h : Handler} (hi : s.handlers[i]? = some h)
    (hplace : h.place ≠ .closingFull) :
    ∃ as t, run st s as = some t ∧ t.locked = false ∧ t.handlers[i]? = some h := by
  cases hl : s.locked with
  | false => exact ⟨[], s, rfl, hl, hi⟩
  | true =>
    have hpos : 0 < s.handlers.countP Handler.holdsLock := by
      rw [← hs.lock, hl]
      decide
    obtain ⟨x, hx, hlock⟩ := List.countP_pos_iff.mp hpos
    obtain ⟨j, hj⟩ := List.mem_iff_getElem?.mp hx
    have hfull : x.place = .closingFull := of_decide_eq_true hlock
    have hne : j ≠ i := by
      rintro rfl
      rw [hi] at hj
      cases hj
      exact hplace hfull
    refine ⟨[.resume j .returns], ⟨s.wsConnectionCount, false, s.handlers.set j { x with place := .finished }⟩, ?_, rfl, ?_⟩
    · refine Runs.run_cons.mpr ⟨_, ?_, rfl⟩
      simp [step, hj, Handler.resume, hfull]
    · rw [List.getElem?_set_ne hne]
      exact hi

theorem finishes (st : Settings) {s : State} (hs : Inv s) {i : Nat} {h : Handler} (hi : s.handlers[i]? = some h) :
    ∃ as t, ∃ h' : Handler, run st s as = some t ∧ t.handlers[i]? = some h' ∧ h'.place = .finished := by
  induction hn : h.place.rank using Nat.strong_induction_on generalizing s h with
  | _ n ih =>
    by_cases hp : h.place = .finished
    · exact ⟨[], s, h, rfl, hi, hp⟩
    · -- One more `await` of the handler ends, after the lock has been given up if it waits for it.
      obtain ⟨as, u, hu, h', hi', hrank⟩ : ∃ as u, run st s as = some u ∧ ∃ h', u.handlers[i]? = some h' ∧
          h'.place.rank < h.place.rank := by
        by_cases hfull : h.place = .closingFull
        · refine ⟨[.resume i .returns], ⟨s.wsConnectionCount, false, s.handlers.set i { h with place := .finished }⟩, ?_,
            { h with place := .finished }, ?_, by simp [hfull, Place.rank]⟩
          · refine Runs.run_cons.mpr ⟨_, ?_, rfl⟩
            simp [step, hi, Handler.resume, hfull]
          · exact List.getElem?_set_self (List.getElem?_eq_some_iff.mp hi).1
        · obtain ⟨as, t, ht, hfree, hit⟩ := unlocks st hs hi hfull
          obtain ⟨y, hy, hrank⟩ := resume_returns t.wsConnectionCount hp
          refine ⟨as ++ [.resume i .returns], ⟨y.1, y.2.1, t.handlers.set i y.2.2⟩,
            Runs.run_append.mpr ⟨t, ht, Runs.run_cons.mpr ⟨_, ?_, rfl⟩⟩, y.2.2, ?_, hrank⟩
          · simp [step, hit, hfree, hy]
          · exact List.getElem?_set_self (List.getElem?_eq_some_iff.mp hit).1
      obtain ⟨bs, t, h'', ht, hit, hfin⟩ := ih _ (hn ▸ hrank) (Runs.run_inv inv_step hu hs) hi' rfl
      exact ⟨as ++ bs, t, h'', Runs.run_append.mpr ⟨u, hu, ht⟩, hit, hfin⟩

/-- The counter is the number of handlers that have taken a slot and not given it back, and within the limit. A
    handler takes at most one slot and gives back no more than it took; at its end, which it can always come to, it
    has given back what it took. A rejected one has taken none. -/
structure SlotsKept (st : Settings) (s : State) : Prop where
  count : s.wsConnectionCount = (s.handlers.countP Handler.holdsSlot : Nat)
  range : 0 ≤ s.wsConnectionCount ∧ s.wsConnectionCount ≤ maxWsConnections
  once : ∀ h ∈ s.handlers, h.gave ≤ h.took ∧ h.took ≤ 1
  finished : ∀ h ∈ s.handlers, h.place = .finished → h.gave = h.took
  rejected : ∀ h ∈ s.handlers, h.closeCode ≠ none → h.took = 0
  finishes : ∀ (i : Nat) (h : Handler), s.handlers[i]? = some h →
    ∃ as t, ∃ h' : Handler, run st s as = some t ∧ t.handlers[i]? = some h' ∧ h'.place = .finished

theorem Handler.Fits.once {h : Handler} (hf : h.Fits) : h.gave ≤ h.took ∧ h.took ≤ 1 := by
  unfold Handler.Fits at hf
  split at hf <;> omega

theorem Handler.Fits.rejected {h : Handler} (hf : h.Fits) (hc : h.closeCode ≠ none) : h.took = 0 := by
  unfold Handler.Fits at hf
  split at hf
  · exact hf.1
  · exact hf.1
  · exact absurd hf.2.2 hc
  · exact absurd hf.2.2 hc
  · exact hf.2.2 hc

theorem slotsKept_run {st : Settings} {as : List Action} {s : State} (h : run st .init as = some s) : SlotsKept st s where
  count := (inv_run h).count
  range := ⟨(inv_run h).count ▸ Int.natCast_nonneg _, (inv_run h).bound⟩
  once x hx := ((inv_run h).fits x hx).once
  finished x hx hp := by
    have hf := (inv_run h).fits x hx
    unfold Handler.Fits at hf
    rw [hp] at hf
    exact hf.2.1
  rejected x hx := ((inv_run h).fits x hx).rejected
  finishes i x hi := finishes st (inv_run h) hi

/-- Of three clients one has no key, one subscribes and goes away, and for one Redis cannot be reached. -/
def threeClients : List Action :=
  [.connect ⟨"app", "news", none⟩, .connect ⟨"app", "news", some "root"⟩, .connect ⟨"app", "news", some "root"⟩,
   .resume 1 .returns, .resume 0 .raises, .resume 1 .returns, .resume 2 .returns, .resume 2 .returns, .resume 2 .raises,
   .resume 1 .returns, .resume 1 .returns, .resume 2 .returns, .resume 1 .raises, .resume 1 .returns, .resume 1 .raises,
   .resume 1 .returns, .resume 2 .raises]

theorem slotsKept_run_three : ∃ s, run { admin := ⟨"root"⟩ } .init threeClients = some s ∧
    s.handlers.map (fun h => (h.took, h.gave)) = [(0, 0), (1, 1), (1, 1)] ∧ SlotsKept { admin := ⟨"root"⟩ } s := by
  have hrun : run { admin := ⟨"root"⟩ } .init threeClients = some _ := rfl
  exact ⟨_, hrun, by decide +kernel, slotsKept_run hrun⟩

end Redgw.WebSocket
