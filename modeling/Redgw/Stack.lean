import Redgw.MetricsMiddleware

/-! # The middleware stack

What a client receives went through the metrics middleware, the security headers, and Starlette's
outermost middleware, which answers for an application that raised. -/

namespace Redgw

def Behaviour.sends (b : Behaviour) : List Message :=
  b.acts.filterMap fun
    | .send m => some m
    | _ => none

def Message.status? : Message → Option Nat
  | .start status _ => some status
  | .body _ => none

/-! ### Security headers -/

/-- `_SECURITY_HEADERS` -/
def securityHeaderTexts : List (String × String) :=
  [("x-content-type-options", "nosniff"), ("x-frame-options", "DENY"), ("cache-control", "no-store"),
   ("x-xss-protection", "1; mode=block"), ("referrer-policy", "strict-origin-when-cross-origin")]

def securityHeaders : List (Bytes × Bytes) :=
  securityHeaderTexts.map fun (n, v) => (encodeAscii n, encodeAscii v)

def securityHeaderNames : List Bytes := securityHeaders.map (·.1)

/-- `SecurityHeadersMiddleware`: its own values replace those of the route. -/
def secureMessage : Message → Message
  | .start status headers =>
    .start status (headers.filter (fun h => !securityHeaderNames.contains h.1) ++ securityHeaders)
  | m => m

/-! ### The outermost middleware -/

/-- `ServerErrorMiddleware`: an application that raises before it starts a response is answered for. -/
def serverErrorMiddleware (raised : Bool) (sent : List Message) : List Message :=
  if raised && (sent.filterMap Message.status?).isEmpty then sent ++ [.start 500 [], .body false] else sent

/-- The messages that reach the client. -/
def delivered (b : Behaviour) : List Message :=
  serverErrorMiddleware b.raised ((metricsMiddleware b).sent.map secureMessage)

/-- The status that the client receives: that of the first response start. -/
def receivedStatus (b : Behaviour) : Option Nat := ((delivered b).filterMap Message.status?).head?

@[simp] theorem status_secureMessage (m : Message) : (secureMessage m).status? = m.status? := by
  cases m <;> rfl

theorem securityHeaders_filter : ∀ h ∈ securityHeaders, securityHeaders.filter (fun x => x.1 == h.1) = [h] := by
  decide

/-- Each security header stands once in a started response, with the middleware's value. -/
theorem secureMessage_header {h : Bytes × Bytes} (hh : h ∈ securityHeaders) (status : Nat)
    (headers : List (Bytes × Bytes)) :
    ∃ hs, secureMessage (.start status headers) = .start status hs ∧ hs.filter (fun x => x.1 == h.1) = [h] := by
  refine ⟨_, rfl, ?_⟩
  have hname : h.1 ∈ securityHeaderNames := List.mem_map_of_mem hh
  have hroute : (headers.filter fun x => !securityHeaderNames.contains x.1).filter (fun x => x.1 == h.1) = [] := by
    rw [List.filter_eq_nil_iff]
    intro x hx hx'
    obtain ⟨-, hout⟩ := List.mem_filter.mp hx
    rw [beq_iff_eq] at hx'
    rw [hx', List.contains_iff_mem.mpr hname] at hout
    exact absurd hout (by simp)
  rw [List.filter_append, hroute, List.nil_append, securityHeaders_filter h hh]

end Redgw
