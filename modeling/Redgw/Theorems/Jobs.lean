import Redgw.Sends
import Redgw.System
import Redgw.Theorems.Serving

/-! # What the jobs of the gateway send

A job sends commands on storage keys for the types of their prefixes, reads origins of writes, and
writes the gateway's own keys in four ways. -/

namespace Redgw
open Redis Prog

/-! ### The gateway's own keys -/

/-- Counters, origins of writes, and the lock of the status monitor. -/
def Own (k : String) : Prop := Internal k ∨ ∃ w, k = joinKey "__redgw" "status_monitor" w

/-- The writes of the gateway for itself: those of the middlewares, and the one that takes the lock. -/
inductive OwnWrite : String → KeyCmd → Prop
  | book {k : String} {c : KeyCmd} (h : BookWrite k c) : OwnWrite k c
  | lead (pid : String) : OwnWrite statusLeaderKey (.set pid (some statusLeaderTtl) true)

theorem OwnWrite.own {k : String} {c : KeyCmd} (h : OwnWrite k c) : Own k := by
  cases h with
  | book h => exact Or.inl h.internal
  | lead pid => exact Or.inr ⟨"tick", by decide⟩

theorem OwnWrite.kind {k : String} {c : KeyCmd} (h : OwnWrite k c) : c.kind = some .str := by
  cases h with
  | book h => cases h <;> rfl
  | lead pid => rfl

/-- A storage key is not one of the gateway's own. -/
theorem StoredAs.not_own {engine : Engine} {κ : Kind} {k : String} (h : StoredAs engine κ k) : ¬Own k := by
  obtain ⟨ns, p, key, hk, hp⟩ := h
  rintro (hi | ⟨w, rfl⟩)
  · exact Redgw.not_internal (prefixKind_storage hp) hk hi
  · have hown : parseKey engine (joinKey "__redgw" "status_monitor" w) = some ("__redgw", "status_monitor", w) :=
      parseKey_eq_some.mpr ⟨rfl, by decide, by decide⟩
    rw [hown] at hk
    cases hk
    cases hp

/-! ### Calls -/

/-- A write of the gateway for itself. -/
def OwnCall : Call → Prop
  | .redis (.at k c) => OwnWrite k c
  | .fireMetric _ => True
  | _ => False

/-- A call of a job: one of a handler, or a write of the gateway for itself. -/
def JobCall (st : Settings) (checked : Prop) (c : Call) : Prop := AdminCall st checked c ∨ OwnCall c

theorem JobCall.mono {st : Settings} {P Q : Prop} (hPQ : Q → P) {c : Call} (h : JobCall st P c) : JobCall st Q c :=
  h.imp_left (Or.imp_left (Sends.mono fun _ _ hc => ⟨hc.1, fun hQ => hc.2 (hPQ hQ)⟩))

/-- `set_kv_nx` with a value that does not pass the size check. -/
def Job.Oversized (st : Settings) (j : Job) : Prop := ∃ q, j = .data q ∧ q.op.Oversized st

section Calls
variable {st : Settings} {checked : Prop}

theorem observed_calls {α : Type} {G : (c : Call) → c.Ret → Prop} {P : Call → Prop} {p : Handler α} (hp : p.CallsOn G P)
    (pending : Pending) : (observed p pending).CallsOn G P := by
  induction p generalizing pending with
  | pure a => trivial
  | raise e => trivial
  | call c k ih => exact ⟨hp.1, fun r hr => ih r (hp.2 r hr) _⟩

theorem Seen.bookkeeping_bookWrite {v : Seen} {result : Except Exn Json} {pending : Pending} :
    ∀ x ∈ v.bookkeeping st result pending, BookWrite x.1 x.2 := by
  intro x hx
  rcases List.mem_append.mp hx with hx | hx
  · unfold Seen.audit at hx
    split at hx
    · cases hx
    · exact audit_bookWrite x hx
  · exact (metricsCommands_metricsWrite x hx).book

/-- What a handler and the middlewares call, the request calls. -/
theorem served_callsOf {G : (c : Call) → c.Ret → Prop} {P : Call → Prop} {v : Seen} {body : Handler Json}
    (hbody : body.CallsOn G P) (hbook : ∀ result pending, ∀ x ∈ v.bookkeeping st result pending, P (.redis (.at x.1 x.2))) :
    (served st v body).CallsOn G P := by
  refine CallsOn.bind (observed_calls hbody none) fun x => ?_
  exact Calls.on (Calls.bind (calls_sendAll (hbook x.1 x.2)) fun _ => trivial)

theorem served_callsOn {G : (c : Call) → c.Ret → Prop} {P : Call → Prop} {v : Seen} {body : Handler Json}
    (hbody : body.CallsOn G P) (hbook : ∀ k c, BookWrite k c → P (.redis (.at k c))) : (served st v body).CallsOn G P :=
  served_callsOf hbody fun _ _ x hx => hbook x.1 x.2 (Seen.bookkeeping_bookWrite x hx)

theorem served_calls {G : (c : Call) → c.Ret → Prop} {v : Seen} {body : Handler Json}
    (hbody : body.CallsOn G (AdminCall st checked)) : (served st v body).CallsOn G (JobCall st checked) :=
  served_callsOn (hbody.mono fun _ => Or.inl) fun _ _ h => Or.inr (.book h)

theorem adminEndpoint_calls (client : Option ClientInfo) (op : AdminOp) :
    (adminEndpoint st client op).CallsOn (TypeReplies st.engine) (AdminCall st checked) := by
  cases client with
  | none => exact ⟨Or.inl trivial, fun _ _ => ⟨Or.inl trivial, fun _ _ => trivial⟩⟩
  | some c =>
    cases hv : op.valid with
    | false => simp [adminEndpoint, verifyApiKey, hv, CallsOn]
    | true =>
      have hop : (op.handle st c).CallsOn (TypeReplies st.engine) (AdminCall st checked) := op.sends
      simpa [adminEndpoint, verifyApiKey, hv] using hop

theorem dataEndpoint_calls (q : Request) :
    (endpoint st q.client q.ns q.op).CallsOn (TypeReplies st.engine) (AdminCall st (¬(Job.data q).Oversized st)) := by
  have hop : ∀ c, (q.op.handle st c q.ns).Calls (Sends st.engine (Suitable st (¬(Job.data q).Oversized st))) := by
    intro c
    refine (q.op.sends q.ns).mono fun _ => Sends.mono fun κ c hc => ⟨hc.1, fun h => hc.2 fun hover => h ⟨q, rfl, hover⟩⟩
  have hend : (endpoint st q.client q.ns q.op).Calls (Sends st.engine (Suitable st (¬(Job.data q).Oversized st))) :=
    endpoint_calls (fun _ _ => trivial) (fun _ => trivial) fun c _ => hop c
  exact Calls.on (hend.mono fun _ => Or.inl)

theorem Job.calls (j : Job) : (j.program st).CallsOn (TypeReplies st.engine) (JobCall st (¬j.Oversized st)) := by
  cases j with
  | data q => exact CallsOn.bind (served_calls (dataEndpoint_calls q)) fun _ => trivial
  | admin q => exact CallsOn.bind (served_calls (adminEndpoint_calls q.client q.op)) fun _ => trivial
  | statusTick pid => exact ⟨Or.inr (.lead pid), fun _ _ => trivial⟩

end Calls

end Redgw
