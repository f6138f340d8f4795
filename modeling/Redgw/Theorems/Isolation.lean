import Redgw.Lib.Noninterference
import Redgw.Redis.Reference
import Redgw.Theorems.Serving

/-! # Namespace isolation

A client without any permission on a namespace neither sees nor changes it. The observer is the
client; its view of the store is every key outside the namespace, the gateway's own keys apart. -/

namespace Redgw
open Redis Noninterference

def InNs (engine : Engine) (N k : String) : Prop := ∃ typePrefix key, parseKey engine k = some (N, typePrefix, key)

/-- The client holds neither permission on the namespace. -/
structure Denied (c : ClientInfo) (N : String) : Prop where
  read : checkAccess c N "read" = false
  write : checkAccess c N "write" = false

/-- What the client sees of the store. -/
def View (engine : Engine) (N k : String) : Prop := ¬ InNs engine N k ∧ ¬ Internal k

theorem KeyOf.inNs {engine : Engine} {ns k : String} (h : KeyOf engine ns k) : InNs engine ns k := by
  obtain ⟨p, -, key, hk⟩ := h.parse
  exact ⟨p, key, hk⟩

theorem KeyOf.view {engine : Engine} {ns N k : String} (hne : ns ≠ N) (h : KeyOf engine ns k) : View engine N k := by
  refine ⟨?_, h.not_internal⟩
  rintro ⟨p, key, hk⟩
  obtain ⟨p', -, key', hk'⟩ := h.parse
  rw [hk] at hk'
  cases hk'
  exact hne rfl

variable {st : Settings} {R : Server} {c : ClientInfo} {N : String}

/-- The requests of the client, and the requests that stay when the others on the namespace are
    taken out. -/
def own (c : ClientInfo) (q : Request) : Bool := decide (q.client = some c)
def kept (c : ClientInfo) (N : String) (q : Request) : Bool := own c q || decide (q.ns ≠ N)

theorem kept_reaches (hd : Denied c N) {q : Request} (hq : kept c N q = true) :
    (endpoint st q.client q.ns q.op).Calls (Reaches (View st.engine N)) := by
  by_cases hns : q.ns = N
  · have ho : q.client = some c := by simpa [kept, own, hns] using hq
    rw [ho, hns]
    refine (endpoint_denied q.op hd.read hd.write).mono fun call hcall => ?_
    cases call with
    | redis c => exact fun k hk => (hcall k hk).elim
    | setPendingEvent => trivial
    | fireMetric => trivial
  · refine (endpoint_reaches st q.client q.ns q.op).mono fun call hcall => ?_
    cases call with
    | redis c => exact fun k hk => (hcall k hk).view hns
    | setPendingEvent => trivial
    | fireMetric => trivial

theorem removed_silent {q : Request} (hq : kept c N q = false) {s t : Store}
    (hst : Server.Agree (View st.engine N) s t) : Server.Agree (View st.engine N) (serve st R q s).2 t := by
  have hns : q.ns = N := by
    simp only [kept, Bool.or_eq_false_iff, decide_eq_false_iff_not, not_not] at hq
    exact hq.2
  intro k hk
  rw [← hst k hk]
  refine serve_ne (endpoint_reaches st q.client q.ns q.op) (fun h => hk.1 ?_) hk.2
  exact hns ▸ h.inNs

theorem denied_changes_nothing (hd : Denied c N) {q : Request} (hq : q.client = some c) (s : Store) {k : String}
    (hk : InNs st.engine N k) (hi : ¬ Internal k) : (serve st R q s).2 k = s k := by
  have hreach : (endpoint st q.client q.ns q.op).Calls (Reaches (View st.engine N)) :=
    kept_reaches hd (by simp [kept, own, hq])
  exact serve_ne hreach (fun h => h.1 hk) hi

/-- Isolation: taking out the requests of others on the namespace and putting anything under its keys
    changes neither an answer to the client nor a key outside the namespace, and the client changes no
    key of it. The gateway's own keys are left out. -/
theorem namespace_isolation (st : Settings) (R : Server) (c : ClientInfo) (N : String) (hd : Denied c N)
    (qs : List Request) (s t : Store) (hst : ∀ k, ¬ InNs st.engine N k → s k = t k) :
    (outputs (serve st R) qs s).filter (fun x => own c x.1) =
      (outputs (serve st R) (qs.filter (kept c N)) t).filter (fun x => own c x.1) ∧
    (∀ k, ¬ InNs st.engine N k → ¬ Internal k →
      final (serve st R) qs s k = final (serve st R) (qs.filter (kept c N)) t k) ∧
    ∀ q, q.client = some c → ∀ u k, InNs st.engine N k → ¬ Internal k → (serve st R q u).2 k = u k := by
  have hview : Server.Agree (View st.engine N) s t := fun k hk => hst k hk.1
  have own_kept : ∀ q, own c q = true → kept c N q = true := by
    intro q hq
    simp [kept, hq]
  obtain ⟨hout, hfinal⟩ := purge own_kept (fun q s t hq h => removed_silent hq h)
    (fun q s t hq h => (serve_agree (kept_reaches hd hq) (fun k hk => hk.2) h).2)
    (fun q s t hq h => (serve_agree (kept_reaches hd (own_kept q hq)) (fun k hk => hk.2) h).1) qs hview
  refine ⟨hout, fun k hk hi => hfinal k ⟨hk, hi⟩, ?_⟩
  intro q hq u k hk hi
  exact denied_changes_nothing hd hq u hk hi

/-! ### Concrete requests -/

def plainEnv : AuditEnv := ⟨"1970-01-01T00:00:00.000Z", 1, "id", fun _ => "", fun _ => ""⟩

/-- A request without headers and body, handled at time 0. -/
def plainRequest (client : ClientInfo) (ns : String) (op : Op) : Request :=
  ⟨some client, ns, op, [], none, [], fun _ => 0, 0, 1, plainEnv⟩

def appClient : ClientInfo := ⟨"app", "", [("app", ["read", "write"])]⟩

def readOnlyClient : ClientInfo := ⟨"reader", "", [("app", ["read"])]⟩

theorem namespace_isolation_app :
    final (serve {} reference) [plainRequest readOnlyClient "other" (.kv (.deleteKv "x")),
        plainRequest appClient "app" (.kv (.getKv "x"))] Store.empty "app:kv:x" =
      final (serve {} reference) [plainRequest appClient "app" (.kv (.getKv "x"))]
        (Store.empty.set "other:kv:x" (some ⟨.str "1", none⟩)) "app:kv:x" := by
  refine (namespace_isolation {} reference appClient "other" ⟨by decide, by decide⟩ _ _ _ ?_).2.1 "app:kv:x" ?_ ?_
  · intro k hk
    refine (Store.set_ne _ _ ?_).symm
    rintro rfl
    exact hk ⟨"kv", "x", by decide⟩
  · rintro ⟨p, key, h⟩
    have hk : parseKey ({} : Settings).engine "app:kv:x" = some ("app", "kv", "x") := by decide
    rw [hk] at h
    simp at h
  · have hk : parseKey .python "app:kv:x" = some ("app", "kv", "x") := by decide
    exact not_internal (by decide) hk

/-- Any request of a client without a permission on `redgw` raises the counter of all requests, a key
    of that namespace. -/
theorem total_requests_changes :
    Denied appClient "redgw" ∧
    parseKey ({} : Settings).engine "redgw:metrics:total_requests" = some ("redgw", "metrics", "total_requests") ∧
    (serve {} reference (plainRequest appClient "app" (.kv (.getKv "x"))) Store.empty).2
      "redgw:metrics:total_requests" ≠ Store.empty "redgw:metrics:total_requests" := by
  refine ⟨⟨by decide, by decide⟩, by decide, ?_⟩
  decide

end Redgw
