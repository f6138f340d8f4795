import Redgw.System
import Redgw.Footprint

/-! # Executions of handlers

What can be said of a handler whatever the others do to the store between its calls. -/

namespace Redgw
open Redis Prog

/-- A call of a handler, with its time and the store that it came to. -/
abbrev CallStep := Step Call Nat Store

/-- No call of the steps is a command to Redis. -/
def Silent (steps : List CallStep) : Prop := ∀ x ∈ steps, ∀ c, x.call ≠ .redis c

section Rules
variable {R : Server} {α : Type} {st : Settings} {client : ClientInfo} {ns : String}

/-- The calls that precede a refusal. -/
theorem silent_refusal {event code reason : String} {x y : Nat} {s t : Store} :
    Silent [⟨.setPendingEvent event code, x, s⟩, ⟨.fireMetric reason, y, t⟩] := by
  intro z hz c hc
  rcases List.mem_pair.mp hz with rfl | rfl
  · cases hc
  · cases hc

theorem sees_guard {operation : String} {f : Unit → Handler α} {Q : List CallStep → Except Exn α → Prop}
    (hdenied : ∀ steps message, Silent steps → Q steps (.error (error "NAMESPACE_DENIED" message 403)))
    (h : checkAccess client ns operation = true → (f ()).Sees (execStore R) Q) :
    ((requireAccess client ns operation).bind f).Sees (execStore R) Q := by
  unfold requireAccess
  split
  · rename_i ha
    exact h ha
  · exact fun _ _ _ _ => hdenied _ _ silent_refusal

theorem sees_admin {f : Unit → Handler α} {Q : List CallStep → Except Exn α → Prop}
    (hdenied : ∀ steps, Silent steps → Q steps (.error (error "ADMIN_REQUIRED" "Admin privileges required" 403)))
    (h : (f ()).Sees (execStore R) Q) : ((requireAdmin client).bind f).Sees (execStore R) Q := by
  unfold requireAdmin
  split
  · exact h
  · exact fun _ _ _ _ => hdenied _ silent_refusal

theorem sees_ofExcept {Q : List CallStep → Except Exn α → Prop} {o : Except Exn α}
    (h : (Prog.ofExcept o : Handler α).Sees (execStore R) Q) : Q [] o := by
  cases o with
  | ok v => exact h
  | error e => exact h

theorem ofExcept_sees {Q : List CallStep → Except Exn α → Prop} {o : Except Exn α} (h : Q [] o) :
    (Prog.ofExcept o : Handler α).Sees (execStore R) Q := by
  cases o with
  | ok v => exact h
  | error e => exact h

theorem sees_endpoint {client : Option ClientInfo} {op : Op} {Q : List CallStep → Except Exn Json → Prop}
    (hauth : ∀ steps, Silent steps → Q steps (.error (error "UNAUTHORIZED" "Invalid API key" 401)))
    (hinvalid : Q [] (.error .unprocessable))
    (h : ∀ c, client = some c → op.valid = true → (op.handle st c ns).Sees (execStore R) Q) :
    (endpoint st client ns op).Sees (execStore R) Q := by
  cases client with
  | none => exact fun _ _ _ _ => hauth _ silent_refusal
  | some c =>
    cases hv : op.valid with
    | false => simpa [endpoint, verifyApiKey, hv, Sees] using hinvalid
    | true => simpa [endpoint, verifyApiKey, hv] using h c rfl hv

/-- A command that is awaited comes to some store, and its error is raised. -/
theorem sees_redis {k : String} {c : KeyCmd} {f : Json → Handler α} {Q : List CallStep → Except Exn α → Prop}
    (herror : ∀ now s msg, (R.onKey c now (s k)).1 = .error msg → Q [⟨.redis (.at k c), now, s⟩] (.error (.redis msg)))
    (hok : ∀ now s v, (R.onKey c now (s k)).1 = .ok v →
      (f v).Sees (execStore R) fun later => Q (⟨.redis (.at k c), now, s⟩ :: later)) :
    ((redis k c).bind f).Sees (execStore R) Q := by
  intro now s
  have hreply : (execStore R (.redis (.at k c)) now s).1 = (R.onKey c now (s k)).1 := rfl
  rw [hreply]
  cases hr : (R.onKey c now (s k)).1 with
  | error msg => exact herror now s msg hr
  | ok v => exact hok now s v hr

/-- A pipeline ends with its replies, or with the error of one of them. -/
theorem ends_pipeline (cs : List (String × KeyCmd)) :
    (pipeline cs).Ends (fun _ _ => True) fun o => ∀ e, o = .error e → ∃ msg, e = .redis msg := by
  have hraise : ∀ rs : List Reply, ∀ e, raiseFirstError rs = .error e → ∃ msg, e = .redis msg := by
    intro rs
    induction rs with
    | nil =>
      intro e he
      cases he
    | cons r rs ih =>
      intro e he
      cases r with
      | error msg =>
        cases he
        exact ⟨msg, rfl⟩
      | ok v =>
        cases hrest : raiseFirstError rs with
        | error e' =>
          rw [raiseFirstError, hrest] at he
          cases he
          exact ih _ hrest
        | ok vs =>
          rw [raiseFirstError, hrest] at he
          cases he
  refine Ends.bind (P := fun o => ∃ rs, o = .ok rs) ?_ (fun rs _ => Ends.ofExcept (hraise rs)) fun e he => ?_
  · induction cs with
    | nil => exact ⟨[], rfl⟩
    | cons x cs ih =>
      intro r _
      show ((sendAll cs).bind fun rs => Prog.pure (r :: rs)).Ends _ _
      refine Ends.bind ih (fun rs _ => ⟨r :: rs, rfl⟩) fun e he => ?_
      obtain ⟨rs, hrs⟩ := he
      cases hrs
  · obtain ⟨rs, hrs⟩ := he
    cases hrs

end Rules

end Redgw
