import Redgw.Lib.Lease
import Redgw.Redis.Lifetimes
import Redgw.Theorems.OutOfReach

/-! # The status leader

Each worker tries for the lock of the status monitor in every round, and logs the status when it gets it. However
their rounds and all requests take turns, two workers that get it do so at least eight minutes apart, and one that is
refused is refused within eight minutes of another that got it. -/

namespace Redgw
open Redis Prog Lease

/-- A round of the monitor as an attempt at the lock; an error of Redis is none. -/
def leaderAttempt (R : Server) (x : Prog.Step Call Nat Store) : Option Attempt :=
  match x.call with
  | .redis (.at k (.set pid (some ttl) true)) =>
    if k = statusLeaderKey then
      match (R.onKey (.set pid (some ttl) true) x.env (x.before k)).1 with
      | .ok v => some ⟨x.env, v.truthy⟩
      | .error _ => none
    else none
  | _ => none

def leaderAttempts (R : Server) (log : List (Prog.Step Call Nat Store)) : List Attempt := log.filterMap (leaderAttempt R)

/-- `_STATUS_LEADER_TTL`, in milliseconds. -/
def leaderTerm : Nat := 480000

/-- The deadline under the lock is that of the last leader. -/
def LeaderInv (R : Server) (t : Store × List (Prog.Step Call Nat Store)) : Prop :=
  ∃ deadline, Lease.Inv leaderTerm (leaderAttempts R t.2) deadline ∧
    (t.1 statusLeaderKey = none ∧ deadline = none ∨ ∃ v d, t.1 statusLeaderKey = some ⟨v, some d⟩ ∧ deadline = some d)

section Leader
variable {st : Settings} {R : Server}

theorem statusLeaderKey_own : Own statusLeaderKey := (OwnWrite.lead "").own

theorem not_internal_leader : ¬Internal statusLeaderKey := by
  have hmetrics : ∀ w, statusLeaderKey ≠ joinKey "redgw" "metrics" w := by
    intro w h
    have hlist := congrArg String.toList h
    simp [statusLeaderKey, joinKey, String.toList_append] at hlist
  have horigin : ∀ w, statusLeaderKey ≠ joinKey "__redgw" "audit" ("origin:" ++ w) := by
    intro w h
    have hlist := congrArg String.toList h
    simp [statusLeaderKey, joinKey, String.toList_append] at hlist
  rintro (⟨w, h⟩ | ⟨w, h⟩)
  · exact hmetrics w h
  · exact horigin w h

theorem leaderAttempt_ne {k : String} {c : KeyCmd} (hk : k ≠ statusLeaderKey) (now : Nat) (s : Store) :
    leaderAttempt R ⟨.redis (.at k c), now, s⟩ = none := by
  cases c with
  | set value ex nx => cases ex <;> cases nx <;> simp [leaderAttempt, hk]
  | _ => rfl

theorem fireMetric_leader (reason : String) (now : Nat) (s : Store) :
    (execStore R (.fireMetric reason) now s).2 statusLeaderKey = s statusLeaderKey := by
  show runCommands R now (recordAuthFailure reason) s statusLeaderKey = _
  exact runCommands_ne recordAuthFailure_internal not_internal_leader

/-- A call that leaves the lock alone. -/
theorem LeaderInv.still {c : Call} {now : Nat} {t : Store × List (Prog.Step Call Nat Store)} (ht : LeaderInv R t)
    (hkey : (execStore R c now t.1).2 statusLeaderKey = t.1 statusLeaderKey)
    (hattempt : leaderAttempt R ⟨c, now, t.1⟩ = none) : LeaderInv R (Pool.logged (execStore R) c now t).2 := by
  obtain ⟨deadline, hinv, hentry⟩ := ht
  refine ⟨deadline, ?_, ?_⟩
  · show Lease.Inv leaderTerm (leaderAttempts R (t.2 ++ [⟨c, now, t.1⟩])) deadline
    rw [leaderAttempts, List.filterMap_append, List.filterMap_cons, hattempt]
    simpa [leaderAttempts] using hinv
  · show (execStore R c now t.1).2 statusLeaderKey = none ∧ _ ∨ ∃ v d, (execStore R c now t.1).2 statusLeaderKey = _ ∧ _
    rw [hkey]
    exact hentry

/-- A round of the monitor: an error of Redis, the lock, or a refusal. -/
theorem LeaderInv.round (hR : R.Locks) {pid : String} {now : Nat} {t : Store × List (Prog.Step Call Nat Store)}
    (ht : LeaderInv R t) :
    LeaderInv R (Pool.logged (execStore R) (.redis (.at statusLeaderKey (.set pid (some statusLeaderTtl) true))) now t).2 := by
  have httl : (0 : Int) < statusLeaderTtl := by decide
  have hattempts : ∀ a, leaderAttempt R ⟨.redis (.at statusLeaderKey (.set pid (some statusLeaderTtl) true)), now, t.1⟩ = some a →
      leaderAttempts R (t.2 ++ [⟨.redis (.at statusLeaderKey (.set pid (some statusLeaderTtl) true)), now, t.1⟩]) =
        leaderAttempts R t.2 ++ [a] := by
    intro a ha
    simp [leaderAttempts, List.filterMap_append, ha]
  have herror : (∃ msg, R.onKey (.set pid (some statusLeaderTtl) true) now (t.1 statusLeaderKey) =
      (.error msg, t.1 statusLeaderKey)) →
      LeaderInv R (Pool.logged (execStore R) (.redis (.at statusLeaderKey (.set pid (some statusLeaderTtl) true))) now t).2 := by
    rintro ⟨msg, h⟩
    refine ht.still ?_ ?_
    · exact (Server.atKey_self _ _ _ _).trans (congrArg Prod.snd h)
    · simp [leaderAttempt, h]
  obtain ⟨deadline, hinv, hentry⟩ := ht
  cases hl : live now (t.1 statusLeaderKey) with
  | none =>
    rcases hR.free pid statusLeaderTtl now (t.1 statusLeaderKey) httl hl with h | h
    · exact herror h
    · refine ⟨some (now + leaderTerm), ?_, Or.inr ⟨.str pid, now + leaderTerm, ?_, rfl⟩⟩
      · show Lease.Inv leaderTerm (leaderAttempts R (t.2 ++ [_])) _
        rw [hattempts ⟨now, true⟩ (by simp [leaderAttempt, h, Json.truthy])]
        refine hinv.won fun d hd => ?_
        rcases hentry with ⟨-, hnone⟩ | ⟨v, d', hkey, hsome⟩
        · rw [hnone] at hd
          cases hd
        · rw [hsome] at hd
          cases hd
          refine Nat.le_of_not_lt fun hlt => ?_
          have halive : live now (t.1 statusLeaderKey) = some ⟨v, some d⟩ := by
            rw [hkey]
            refine live_iff.mpr fun d' hd' => ?_
            cases hd'
            exact hlt
          rw [hl] at halive
          cases halive
      · refine (Server.atKey_self _ _ _ _).trans ((congrArg Prod.snd h).trans ?_)
        have hahead : ahead now statusLeaderTtl = now + leaderTerm := by
          unfold ahead statusLeaderTtl leaderTerm
          omega
        rw [hahead]
  | some x =>
    rcases hR.held pid statusLeaderTtl now (t.1 statusLeaderKey) x httl hl with h | h
    · exact herror h
    · refine ⟨deadline, ?_, ?_⟩
      · show Lease.Inv leaderTerm (leaderAttempts R (t.2 ++ [_])) _
        rw [hattempts ⟨now, false⟩ (by simp [leaderAttempt, h, Json.truthy])]
        refine hinv.refused ?_
        rcases hentry with ⟨hkey, -⟩ | ⟨v, d, hkey, hsome⟩
        · rw [hkey] at hl
          cases hl
        · rw [hkey] at hl
          have hx : x = ⟨v, some d⟩ := (Option.some.inj (Option.filter_eq_some_iff.mp hl).1).symm
          subst hx
          exact ⟨d, hsome, live_iff.mp hl d rfl⟩
      · have hkey : (Pool.logged (execStore R) (.redis (.at statusLeaderKey (.set pid (some statusLeaderTtl) true))) now t).2.1
            statusLeaderKey = t.1 statusLeaderKey := (Server.atKey_self _ _ _ _).trans (congrArg Prod.snd h)
        rw [hkey]
        exact hentry

/-- Every call of a job keeps what the lock tells of the rounds so far. -/
theorem LeaderInv.step (hL : R.Lawful) (hR : R.Locks) {c : Call} (hc : JobCall st False c) (now : Nat)
    {t : Store × List (Prog.Step Call Nat Store)} (ht : LeaderInv R t) : LeaderInv R (Pool.logged (execStore R) c now t).2 := by
  have hadmin : AdminCall st False c → ¬OwnCall c → LeaderInv R (Pool.logged (execStore R) c now t).2 := by
    intro hc hno
    refine ht.still (adminCall_own hL hc hno now t.1 statusLeaderKey_own) ?_
    rcases c with ((⟨k, c⟩ | _ | _ | _ | _ | _) | _ | _)
    case redis.at =>
      refine leaderAttempt_ne ?_ now t.1
      rintro rfl
      rcases hc with ⟨κ, hk, -⟩ | ⟨⟨w, hw⟩, -⟩
      · exact hk.not_own statusLeaderKey_own
      · exact not_internal_leader (hw ▸ internal_origin w)
    all_goals rfl
  rcases hc with hc | hc
  · by_cases hown : OwnCall c
    · cases c with
      | fireMetric reason => exact ht.still (fireMetric_leader reason now t.1) rfl
      | setPendingEvent event code => exact ht.still rfl rfl
      | redis c =>
        cases c with
        | «at» k c =>
          rcases hc with ⟨κ, hk, -⟩ | ⟨⟨w, hw⟩, -⟩
          · exact absurd (OwnWrite.own hown) hk.not_own
          · have hne : k ≠ statusLeaderKey := fun h => not_internal_leader (h ▸ hw ▸ internal_origin w)
            exact ht.still (Server.atKey_ne hne.symm) (leaderAttempt_ne hne now t.1)
        | _ => exact hown.elim
    · exact hadmin hc hown
  · cases c with
    | fireMetric reason => exact ht.still (fireMetric_leader reason now t.1) rfl
    | setPendingEvent event code => exact hc.elim
    | redis c =>
      cases c with
      | «at» k c =>
        cases hc with
        | book hbook =>
          have hne : k ≠ statusLeaderKey := fun h => not_internal_leader (h ▸ hbook.internal)
          exact ht.still (Server.atKey_ne hne.symm) (leaderAttempt_ne hne now t.1)
        | lead pid => exact ht.round hR
      | _ => exact hc.elim

/-- However the rounds of the workers and all requests take turns: the rounds that get the lock are at least eight minutes
    apart, and a round that is refused is less than eight minutes behind one that got the lock before. -/
theorem status_leader (hT : R.Typed) (hL : R.Lawful) (hR : R.Locks) {acts : List (Pool.Act Job Nat)}
    {t : Pool Call Call.Ret Exn (Option Response) (Store × List (Prog.Step Call Nat Store))}
    (h : Runs.run (Pool.step (Pool.logged (execStore R)) (Job.program st)) ⟨(Store.empty, []), []⟩ acts = some t) :
    ((wins (leaderAttempts R t.state.2)).Pairwise fun a b => a + leaderTerm ≤ b) ∧
    ∀ i a, (leaderAttempts R t.state.2)[i]? = some a → a.won = false →
      ∃ w ∈ wins ((leaderAttempts R t.state.2).take i), a.time < w + leaderTerm := by
  have keep : ∀ c, JobCall st False c → ∀ now u, u.1.Typed (KeyType st.engine) ∧ LeaderInv R u →
      (Pool.logged (execStore R) c now u).2.1.Typed (KeyType st.engine) ∧ LeaderInv R (Pool.logged (execStore R) c now u).2 :=
    fun c hc now u hu => ⟨(execStore_typed hT hc.fits now hu.1).2, hu.2.step hL hR hc now⟩
  have good : ∀ c, JobCall st False c → ∀ now u, u.1.Typed (KeyType st.engine) ∧ LeaderInv R u →
      TypeReplies st.engine c (Pool.logged (execStore R) c now u).1 := fun c _ now u hu => typeReplies hT hu.1 c now
  have hinv := Pool.inv_run keep good (fun j _ => j.calls.mono fun c hc => hc.mono False.elim)
    ⟨Store.empty_typed _, none, inv_nil _, Or.inl ⟨rfl, rfl⟩⟩ h
  obtain ⟨deadline, hlease, -⟩ := hinv.state.2
  exact ⟨hlease.spaced, hlease.covered⟩

end Leader

/-- Two workers: the second one gets the lock, and the first one is refused a second later. -/
theorem status_leader_two : ∃ t : Pool Call Call.Ret Exn (Option Response) (Store × List (Prog.Step Call Nat Store)),
    Runs.run (Pool.step (Pool.logged (execStore reference)) (Job.program {})) ⟨(Store.empty, []), []⟩
      [.start (.statusTick "1"), .start (.statusTick "2"), .resume 1 5, .resume 0 1005] = some t ∧
    leaderAttempts reference t.state.2 = [⟨5, true⟩, ⟨1005, false⟩] ∧
    ∃ w ∈ wins ((leaderAttempts reference t.state.2).take 1), 1005 < w + leaderTerm := by
  obtain ⟨t, h, hattempts⟩ : ∃ t : Pool Call Call.Ret Exn (Option Response) (Store × List (Prog.Step Call Nat Store)),
      Runs.run (Pool.step (Pool.logged (execStore reference)) (Job.program {})) ⟨(Store.empty, []), []⟩
        [.start (.statusTick "1"), .start (.statusTick "2"), .resume 1 5, .resume 0 1005] = some t ∧
      leaderAttempts reference t.state.2 = [⟨5, true⟩, ⟨1005, false⟩] := ⟨_, rfl, rfl⟩
  refine ⟨t, h, hattempts, (status_leader reference_typed reference_lawful reference_locks h).2 1 ⟨1005, false⟩ ?_ rfl⟩
  rw [hattempts]
  rfl

end Redgw
