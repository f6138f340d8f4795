import Redgw.Plans
import Redgw.System

/-! # Requests alone

A request that nobody disturbs, and that takes no time, does what its plan says. -/

namespace Redgw
open Redis Prog Fallible

section Run
variable {R : Server} {st : Settings} {ns : String} {now : Nat} {s t : Store} {body : Json}

/-- The handler, alone and at one time. -/
abbrev Alone (R : Server) (now : Nat) {α : Type} (p : Handler α) (s : Store) : Except Exn α × Store :=
  p.run (execStore R) (fun _ => now) s

theorem alone_bind_ok {α β : Type} {p : Handler α} {f : α → Handler β} {b : β} (h : Alone R now (p.bind f) s = (.ok b, t)) :
    ∃ a u, Alone R now p s = (.ok a, u) ∧ Alone R now (f a) u = (.ok b, t) := run_bind_inv h

theorem alone_bind_error {α β : Type} {p : Handler α} {f : α → Handler β} {e : Exn}
    (h : Alone R now (p.bind f) s = (.error e, t)) : Alone R now p s = (.error e, t) ∨
      ∃ a u, Alone R now p s = (.ok a, u) ∧ Alone R now (f a) u = (.error e, t) := run_bind_error h

theorem alone_ofExcept_ok {α : Type} {x : Except Exn α} {a : α} (h : Alone R now (Prog.ofExcept x) s = (.ok a, t)) :
    x = .ok a ∧ t = s := by
  cases x with
  | ok b =>
    cases h
    exact ⟨rfl, rfl⟩
  | error e => cases h

theorem alone_guard_ok {client : ClientInfo} {operation : String} {u : Unit}
    (h : Alone R now (requireAccess client ns operation) s = (.ok u, t)) :
    checkAccess client ns operation = true ∧ t = s := by
  unfold requireAccess at h
  split at h
  · rename_i ha
    cases h
    exact ⟨ha, rfl⟩
  · cases h

/-- The replies of commands that are sent one by one, if none of them is an error. -/
theorem alone_oneByOne (cs : List (String × KeyCmd)) {vs : List Json} (h : Alone R now (sendOneByOne cs) s = (.ok (.ok vs), t)) :
    replies (R.transact now cs s).1 = .ok vs ∧ t = (R.transact now cs s).2 := by
  induction cs generalizing s vs with
  | nil =>
    cases h
    exact ⟨rfl, rfl⟩
  | cons x cs ih =>
    obtain ⟨r, u, hr, hrest⟩ := alone_bind_ok h
    have hru : r = (R.atKey x.1 x.2 now s).1 ∧ u = (R.atKey x.1 x.2 now s).2 := by
      cases hr
      exact ⟨rfl, rfl⟩
    cases hv : r with
    | error msg =>
      rw [hv] at hrest
      cases hrest
    | ok v =>
      rw [hv] at hrest
      obtain ⟨rs, w, hsend, hws⟩ := alone_bind_ok hrest
      cases rs with
      | error msg => cases hws
      | ok ws =>
        cases hws
        obtain ⟨hreplies, rfl⟩ := ih hsend
        rw [hru.2] at hreplies ⊢
        refine ⟨?_, rfl⟩
        show replies ((R.atKey x.1 x.2 now s).1 :: (R.transact now cs (R.atKey x.1 x.2 now s).2).1) = _
        rw [← hru.1, hv, replies, hreplies]
        rfl

/-- The commands of a plan, if none of them is answered with an error. -/
theorem alone_send {p : Plan} {vs : List Json} (h : Alone R now p.send s = (.ok (.ok vs), t)) :
    replies (R.transact now p.commands s).1 = .ok vs ∧ t = (R.transact now p.commands s).2 := by
  unfold Plan.send at h
  cases hsend : p.sending with
  | oneByOne =>
    rw [hsend] at h
    exact alone_oneByOne p.commands h
  | pipeline =>
    rw [hsend] at h
    obtain ⟨rs, u, hrs, hvs⟩ := alone_bind_ok h
    rw [Alone, run_sendAll] at hrs
    cases hrs
    cases hr : replies (R.transact now p.commands s).1 with
    | error msg =>
      rw [hr] at hvs
      cases hvs
    | ok ws =>
      rw [hr] at hvs
      cases hvs
      exact ⟨rfl, rfl⟩
  | transaction =>
    rw [hsend] at h
    obtain ⟨rs, u, hrs, hvs⟩ := alone_bind_ok h
    cases hrs
    cases hr : replies (R.transact now p.commands s).1 with
    | error msg =>
      rw [show replies (execStore R (.redis (.multi p.commands)) now s).1 = .error msg from hr] at hvs
      cases hvs
    | ok ws =>
      rw [show replies (execStore R (.redis (.multi p.commands)) now s).1 = .ok ws from hr] at hvs
      cases hvs
      exact ⟨rfl, rfl⟩

theorem ends_sent (cs : List (String × KeyCmd)) : (sendOneByOne cs).Ends (fun _ _ => True) fun o => ∃ r, o = .ok r := by
  induction cs with
  | nil => exact ⟨_, rfl⟩
  | cons x cs ih =>
    intro r _
    cases r with
    | error msg => exact ⟨_, rfl⟩
    | ok v =>
      show ((sendOneByOne cs).bind fun r => .pure (r.map (v :: ·))).Ends _ _
      refine Ends.bind ih (fun r _ => ⟨_, rfl⟩) fun e he => ?_
      obtain ⟨r, hr⟩ := he
      cases hr

/-- The sending itself never raises. -/
theorem send_total (p : Plan) (s : Store) : ∃ r u, Alone R now p.send s = (.ok r, u) := by
  unfold Plan.send
  cases p.sending with
  | oneByOne =>
    obtain ⟨r, hr⟩ : ∃ r, (Alone R now (sendOneByOne p.commands) s).1 = .ok r := run_ends (ends_sent p.commands) (fun _ => now) s
    exact ⟨r, _, Prod.ext hr rfl⟩
  | pipeline => exact ⟨_, _, run_bind_ok (run_sendAll p.commands now s) _⟩
  | transaction => exact ⟨_, _, rfl⟩

/-- The commands of a plan whose sending ends with an error. All of them have been sent, if they go through
    a pipeline or there is one only. -/
theorem alone_send_error {p : Plan} {msg : String} (h : Alone R now p.send s = (.ok (.error msg), t))
    (hp : p.sending = .pipeline ∨ ∃ x, p.commands = [x]) :
    replies (R.transact now p.commands s).1 = .error msg ∧ t = (R.transact now p.commands s).2 := by
  have hpipeline : Alone R now ((sendAll p.commands).bind fun rs => .pure (replies rs)) s =
      (.ok (replies (R.transact now p.commands s).1), (R.transact now p.commands s).2) :=
    run_bind_ok (run_sendAll p.commands now s) _
  unfold Plan.send at h
  cases hsend : p.sending with
  | pipeline =>
    rw [hsend, hpipeline] at h
    obtain ⟨hr, ht⟩ := Prod.mk.inj h
    exact ⟨Except.ok.inj hr, ht.symm⟩
  | transaction =>
    rw [hsend] at h
    have hmulti : Alone R now ((Prog.ask (Call.redis (.multi p.commands))).bind fun rs => .pure (replies rs)) s =
      (.ok (replies (R.transact now p.commands s).1), (R.transact now p.commands s).2) := rfl
    rw [hmulti] at h
    obtain ⟨hr, ht⟩ := Prod.mk.inj h
    exact ⟨Except.ok.inj hr, ht.symm⟩
  | oneByOne =>
    rw [hsend] at h hp
    rcases hp with hp | ⟨⟨k, c⟩, hcs⟩
    · cases hp
    · rw [hcs] at h ⊢
      obtain ⟨r, u, hask, hrest⟩ := alone_bind_ok h
      have hru : r = (R.atKey k c now s).1 ∧ u = (R.atKey k c now s).2 := by
        cases hask
        exact ⟨rfl, rfl⟩
      show replies [(R.atKey k c now s).1] = _ ∧ t = (R.atKey k c now s).2
      rw [← hru.1, ← hru.2]
      cases r with
      | ok v => cases hrest
      | error msg' =>
        cases hrest
        exact ⟨rfl, rfl⟩

/-- The answer of a plan that succeeds. -/
theorem alone_program {p : Plan} (h : Alone R now (p.program ns) s = (.ok body, t)) :
    ∃ vs d, replies (R.transact now p.commands s).1 = .ok vs ∧ t = (R.transact now p.commands s).2 ∧
      p.data vs = .ok d ∧ body = ok d ns p.key p.type (p.ttl.fill vs) := by
  obtain ⟨r, u, hsend, hanswer⟩ := alone_bind_ok h
  obtain ⟨hanswer, rfl⟩ := alone_ofExcept_ok hanswer
  cases r with
  | error msg => cases hanswer
  | ok vs =>
    obtain ⟨hreplies, ht⟩ := alone_send hsend
    rw [Plan.answer] at hanswer
    cases hd : p.data vs with
    | error e =>
      rw [hd] at hanswer
      cases hanswer
    | ok d =>
      rw [hd] at hanswer
      cases hanswer
      exact ⟨vs, d, hreplies, ht, hd, rfl⟩

theorem alone_endpoint {client : Option ClientInfo} {o : Op} (h : Alone R now (endpoint st client ns o) s = (.ok body, t)) :
    ∃ c, client = some c ∧ o.valid = true ∧ Alone R now (o.handle st c ns) s = (.ok body, t) := by
  cases client with
  | none => cases h
  | some c =>
    cases hv : o.valid with
    | false =>
      rw [endpoint, hv] at h
      cases h
    | true =>
      rw [endpoint, hv] at h
      exact ⟨c, rfl, rfl, h⟩

/-- A request that follows a plan, and that succeeds. -/
theorem alone_planned {client : ClientInfo} {handler : Handler Json} {planned : Planned} (h : Follows client ns handler planned)
    (hsome : planned ≠ none) (hrun : Alone R now handler s = (.ok body, t)) :
    ∃ operation p, planned = some (operation, .ok p) ∧ checkAccess client ns operation = true ∧
      Alone R now (p.program ns) s = (.ok body, t) := by
  obtain ⟨⟨operation, x⟩, hx⟩ := Option.ne_none_iff_exists'.mp hsome
  rw [h operation x hx] at hrun
  obtain ⟨u, v, hguard, hrest⟩ := alone_bind_ok hrun
  obtain ⟨haccess, rfl⟩ := alone_guard_ok hguard
  obtain ⟨p, w, hp, hprogram⟩ := alone_bind_ok hrest
  obtain ⟨rfl, rfl⟩ := alone_ofExcept_ok hp
  exact ⟨operation, p, hx, haccess, hprogram⟩

theorem alone_pipeline {cs : List (String × KeyCmd)} {vs : List Json} (h : Alone R now (pipeline cs) s = (.ok vs, t)) :
    replies (R.transact now cs s).1 = .ok vs ∧ t = (R.transact now cs s).2 := by
  obtain ⟨rs, u, hrs, hvs⟩ := alone_bind_ok h
  rw [Alone, run_sendAll] at hrs
  cases hrs
  obtain ⟨hvs, rfl⟩ := alone_ofExcept_ok hvs
  rw [raiseFirstError_eq] at hvs
  cases hr : replies (R.transact now cs s).1 with
  | error msg =>
    rw [hr] at hvs
    cases hvs
  | ok ws =>
    rw [hr] at hvs
    cases hvs
    exact ⟨rfl, rfl⟩

/-- A program that only reads a key leaves it as it is. -/
theorem alone_reads {α : Type} (hR : R.Lawful) {k : String} {p : Handler α}
    (hp : p.Calls fun c => ∃ c', c = .redis (.at k c') ∧ c'.reads = true) (now : Nat) (s : Store) :
    (Alone R now p s).2 k = s k := by
  refine run_keeps (K := fun s t : Store => t k = s k) (fun _ => rfl) (fun _ _ _ h₁ h₂ => h₂.trans h₁) (fun c hc n s => ?_) hp s
  obtain ⟨c', rfl, hreads⟩ := hc
  show (R.atKey k c' now s).2 k = s k
  rw [Server.atKey_self, hR.reads c' hreads]

theorem alone_except_reads (hR : R.Lawful) {k : String} {c : KeyCmd} (hc : c.reads = true) {h : String → Handler Json}
    (hh : ∀ msg, (h msg).Calls fun _ => False) {v : Json} (hrun : Alone R now (exceptResponseError (redis k c) h) s = (.ok v, t)) :
    t k = s k := by
  have hcalls : (exceptResponseError (redis k c) h).Calls fun c => ∃ c', c = .redis (.at k c') ∧ c'.reads = true := by
    refine Calls.catching (Calls.bind (calls_ask.mpr ⟨c, rfl, hc⟩) fun r => ?_) fun e => ?_
    · cases r <;> trivial
    · cases e with
      | redis msg => exact (hh msg).mono fun _ h => h.elim
      | _ => trivial
  have hread := alone_reads hR hcalls now s
  rw [hrun] at hread
  exact hread

/-- A push that succeeds has not found the list full. -/
theorem alone_push {p : Push} (h : Alone R now (p.program st ns) s = (.ok body, t)) :
    ∃ k result u vs, p.check = .ok () ∧ buildKey st.engine ns queuePrefix p.key = .ok k ∧
      Alone R now (script k p.body) s = (.ok result, u) ∧ result.isInt (-1) = false ∧
      replies (R.transact now [lifetime k p.ttl, (k, .ttl)] u).1 = .ok vs ∧
      t = (R.transact now [lifetime k p.ttl, (k, .ttl)] u).2 ∧
      body = ok (p.data result) ns p.key "list" (normalizedTtl (last vs)) := by
  obtain ⟨checked, v, hchecked, hkeyed⟩ := alone_bind_ok h
  obtain ⟨hcheck, rfl⟩ := alone_ofExcept_ok hchecked
  obtain ⟨k, w, hbuilt, hscripted⟩ := alone_bind_ok hkeyed
  obtain ⟨hk, rfl⟩ := alone_ofExcept_ok hbuilt
  obtain ⟨result, u, hscript, hpushed⟩ := alone_bind_ok hscripted
  cases hfull : result.isInt (-1) with
  | true =>
    rw [hfull] at hpushed
    cases hpushed
  | false =>
    rw [hfull] at hpushed
    obtain ⟨vs, x, hvs, hbody⟩ := alone_bind_ok hpushed
    obtain ⟨hreplies, rfl⟩ := alone_pipeline hvs
    cases hbody
    exact ⟨k, result, u, vs, hcheck, hk, hscript, hfull, hreplies, rfl, rfl⟩

end Run

end Redgw
