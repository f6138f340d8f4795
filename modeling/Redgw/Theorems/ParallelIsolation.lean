import Redgw.Auth
import Redgw.Lib.Purge
import Redgw.Theorems.Isolation
import Redgw.Theorems.Linearizable
import Redgw.Theorems.Reach

/-! # Isolation of requests that run side by side

Requests on a namespace and requests on others are served in parallel, their commands in any order. All that is done on the
namespace can be taken out, and nobody else can tell: not from an answer, and not from a key. -/

namespace Redgw
open Redis Prog Pool

/-- The namespace of an admin request that is about one key. -/
def AdminOp.keyNs : AdminOp → Option String
  | keyInfo ns _ _ | setTtl ns _ _ _ | deleteKey ns _ _ => some ns
  | _ => none

/-- The request holds no permission on the namespace. -/
def barred (N : String) : Option ClientInfo → Bool
  | some c => !checkAccess c N "read" && !checkAccess c N "write"
  | none => true

/-- The jobs that stay when the namespace is taken out: data requests on other namespaces and those that are refused,
    admin requests about keys of other namespaces, and the rounds of the monitor. -/
def Job.outside (N : String) : Job → Bool
  | .data q => decide (q.ns ≠ N) || barred N q.client
  | .admin q => q.op.keyNs.any fun ns => decide (ns ≠ N)
  | .statusTick _ => true

/-- The job is no deletion in bulk. -/
def Job.single : Job → Bool
  | .admin q => q.op.watches || q.op.keyNs.isSome
  | _ => true

section Calls
variable {R : Server} {st : Settings} {N : String}

/-- What can be seen from outside the namespace. -/
abbrev Outside (st : Settings) (N : String) : Store → Store → Prop := Server.Agree (View st.engine N)

theorem transact_view {cs : List (String × KeyCmd)} (h : ∀ x ∈ cs, Internal x.1) (now : Nat) (s : Store) :
    Outside st N (R.transact now cs s).2 s := fun _ hk => Server.transact_ne fun x hx he => hk.2 (he ▸ h x hx)

theorem fireMetric_view (reason : String) (now : Nat) (s : Store) : Outside st N (execStore R (.fireMetric reason) now s).2 s :=
  transact_view recordAuthFailure_internal now s

theorem fair_of_reaches {c : Call} (hc : Reaches (View st.engine N) c) : Pool.Fair (execStore R) (Outside st N) c := by
  intro now s t hst
  cases c with
  | redis c => exact Server.exec_agree hc hst
  | setPendingEvent event errorCode => exact ⟨rfl, hst⟩
  | fireMetric reason =>
    refine ⟨rfl, fun k hk => ?_⟩
    rw [fireMetric_view reason now s k hk, fireMetric_view reason now t k hk]
    exact hst k hk

theorem silent_of_same {c : Call} (hc : ∀ now s, Outside st N (execStore R c now s).2 s) : Pool.Silent (execStore R) (Outside st N) c :=
  fun now s _ hst k hk => (hc now s k hk).trans (hst k hk)

theorem silent_of_reaches {c : Call} (hc : Reaches (fun k => ¬View st.engine N k) c) : Pool.Silent (execStore R) (Outside st N) c := by
  refine silent_of_same fun now s => ?_
  cases c with
  | redis c => exact fun k hk => Server.exec_ne fun hmem => hc k hmem hk
  | setPendingEvent event errorCode => exact fun _ _ => rfl
  | fireMetric reason => exact fireMetric_view reason now s

theorem silent_of_reads (hR : R.Lawful) {c : Call} (hc : c.Reads) : Pool.Silent (execStore R) (Outside st N) c := by
  refine silent_of_same fun now s => ?_
  cases c with
  | redis c => exact fun k _ => congrFun (exec_reads hR (hc c rfl) now s) k
  | setPendingEvent event errorCode => exact fun _ _ => rfl
  | fireMetric reason => exact fireMetric_view reason now s

theorem KeyOf.not_view {k : String} (h : KeyOf st.engine N k) : ¬View st.engine N k := fun hk => hk.1 h.inNs

/-- A command on one key, whatever is seen of the key. -/
theorem exec_at_agree (k : String) (c : KeyCmd) (now : Nat) {s t : Store} (hst : Outside st N s t) :
    Outside st N (execStore R (.redis (.at k c)) now s).2 (execStore R (.redis (.at k c)) now t).2 := by
  by_cases hk : View st.engine N k
  · exact (Server.exec_agree (fun k' hk' => List.mem_singleton.mp hk' ▸ hk) hst).2
  · intro k' hk'
    have hne : k' ≠ k := fun he => hk (he ▸ hk')
    show (R.atKey k c now s).2 k' = (R.atKey k c now t).2 k'
    rw [Server.atKey_ne hne, Server.atKey_ne hne]
    exact hst k' hk'

end Calls

/-! ### Programs -/

section Programs
variable {R : Server} {st : Settings} {N : String}

theorem respects_observed {α : Type} {p : Handler α} (hp : Pool.Respects (execStore R) (Outside st N) p) (pending : Pending) :
    Pool.Respects (execStore R) (Outside st N) (observed p pending) := by
  induction p generalizing pending with
  | pure a => trivial
  | raise e => trivial
  | call c k ih =>
    refine ⟨fun now s t hst => ?_, fun r => ih r (hp.2 r) _⟩
    obtain ⟨hstate, hk⟩ := hp.1 now s t hst
    exact ⟨hstate, congrArg (observed · (pendingAfter pending c)) hk⟩

/-- Nobody looks at the replies to what the middlewares send. -/
theorem respects_sendAll {α : Type} (cs : List (String × KeyCmd)) {p : Handler α} (hp : Pool.Respects (execStore R) (Outside st N) p) :
    Pool.Respects (execStore R) (Outside st N) ((sendAll cs).bind fun _ => p) := by
  induction cs with
  | nil => exact hp
  | cons x cs ih =>
    have hrest : (fun r => ((sendAll cs).bind fun rs => Prog.pure (r :: rs)).bind fun _ => p) = fun _ => (sendAll cs).bind fun _ => p :=
      funext fun r => bind_assoc _ _ _
    show Respects _ _ (.call (.redis (.at x.1 x.2)) fun r => ((sendAll cs).bind fun rs => Prog.pure (r :: rs)).bind fun _ => p)
    rw [hrest]
    exact respects_blind (fun now s t hst => exec_at_agree x.1 x.2 now hst) ih

theorem respects_served {v : Seen} {p : Handler Json} (hp : Pool.Respects (execStore R) (Outside st N) p) :
    Pool.Respects (execStore R) (Outside st N) ((served st v p).bind fun r => Prog.pure (some r)) := by
  unfold served
  rw [bind_assoc]
  refine (respects_observed hp none).bind fun x => ?_
  rw [bind_assoc]
  exact respects_sendAll _ trivial

theorem silent_served {v : Seen} {p : Handler Json} (hp : p.Calls (Pool.Silent (execStore R) (Outside st N))) :
    ((served st v p).bind fun r => Prog.pure (some r)).CallsOn (fun _ _ => True) (Pool.Silent (execStore R) (Outside st N)) := by
  refine CallsOn.bind (served_callsOn hp.on fun k c hc => silent_of_reaches fun k' hk' hview => ?_) fun _ => trivial
  rw [List.mem_singleton.mp hk'] at hview
  exact hview.2 hc.internal

/-- An admin request about one key reaches keys of its namespace. -/
theorem AdminOp.reaches_keyNs {client : ClientInfo} {o : AdminOp} {ns : String} (h : o.keyNs = some ns) :
    (o.handle st client).Calls (Reaches (KeyOf st.engine ns)) := by
  have hone : ∀ {k : String} {c : KeyCmd}, KeyOf st.engine ns k → (redis k c).Calls (Reaches (KeyOf st.engine ns)) := fun hk =>
    calls_redis fun k' hk' => List.mem_singleton.mp hk' ▸ hk
  have hkey : ∀ {typeName typePrefix key k : String}, resolveTypePrefix typeName = .ok typePrefix →
      buildKey st.engine ns typePrefix key = .ok k → KeyOf st.engine ns k := fun hp hk => ⟨_, resolveTypePrefix_storage hp, _, hk⟩
  cases o with
  | keyInfo ns' typeName key =>
    cases h
    refine calls_guard (fun _ _ => trivial) (fun _ => trivial) fun _ => ?_
    refine Calls.ofExcept_bind fun p hp => Calls.ofExcept_bind fun k hk => Calls.bind (hone (hkey hp hk)) fun keyType => ?_
    dsimp only
    split
    · trivial
    · refine Calls.bind (hone (hkey hp hk)) fun ttl => Calls.bind (hone (hkey hp hk)) fun encoding => Calls.bind ?_ fun _ => trivial
      unfold sizeInfo
      repeat' split
      all_goals first
        | exact Calls.bind (hone (hkey hp hk)) fun _ => trivial
        | trivial
  | setTtl ns' typeName key body =>
    cases h
    refine calls_admin (fun _ _ => trivial) (fun _ => trivial) fun _ => ?_
    refine Calls.ofExcept_bind fun p hp => Calls.ofExcept_bind fun k hk => Calls.bind (hone (hkey hp hk)) fun there => ?_
    dsimp only
    split
    · trivial
    · exact Calls.bind (hone (hkey hp hk)) fun _ => Calls.bind (hone (hkey hp hk)) fun _ => trivial
  | deleteKey ns' typeName key =>
    cases h
    refine calls_admin (fun _ _ => trivial) (fun _ => trivial) fun _ => ?_
    refine Calls.ofExcept_bind fun p hp => Calls.ofExcept_bind fun k hk => Calls.bind (hone (hkey hp hk)) fun deleted => ?_
    dsimp only
    split <;> trivial
  | _ => cases h

/-- A job that stays depends on nothing that is taken out. -/
theorem Job.respects {j : Job} (h : j.outside N = true) : Pool.Respects (execStore R) (Outside st N) (j.program st) := by
  cases j with
  | data q =>
    refine respects_served (respects_of_fair (Calls.mono (fun _ => fair_of_reaches) ?_))
    by_cases hns : q.ns = N
    · have hbarred : barred N q.client = true := by simpa [Job.outside, hns] using h
      cases hclient : q.client with
      | none => exact ⟨trivial, fun _ => ⟨trivial, fun _ => trivial⟩⟩
      | some c =>
        have hdenied : checkAccess c N "read" = false ∧ checkAccess c N "write" = false := by simpa [barred, hclient] using hbarred
        rw [hns]
        exact (endpoint_denied q.op hdenied.1 hdenied.2).mono fun _ hc => Reaches.mono (fun _ => False.elim) hc
    · exact (endpoint_reaches st q.client q.ns q.op).mono fun _ hc => Reaches.mono (fun _ hk => hk.view hns) hc
  | admin q =>
    obtain ⟨ns, hkey, hns⟩ : ∃ ns, q.op.keyNs = some ns ∧ ns ≠ N := by simpa [Job.outside, Option.any_eq_true] using h
    refine respects_served (respects_of_fair (Calls.mono (fun _ => fair_of_reaches) ?_))
    refine adminEndpoint_of (fun _ _ => trivial) (fun _ => trivial) fun c _ => ?_
    exact (AdminOp.reaches_keyNs hkey).mono fun _ hc => Reaches.mono (fun _ hk => hk.view hns) hc
  | statusTick pid => exact respects_blind (fun now s t hst => exec_at_agree _ _ now hst) trivial

/-- A job that is taken out moves nothing outside. -/
theorem Job.silent (hR : R.Lawful) {j : Job} (h : j.outside N = false) (hsingle : j.single = true) :
    (j.program st).CallsOn (fun _ _ => True) (Pool.Silent (execStore R) (Outside st N)) := by
  cases j with
  | data q =>
    obtain ⟨hns, -⟩ : q.ns = N ∧ barred N q.client = false := by simpa [Job.outside] using h
    refine silent_served ((endpoint_reaches st q.client q.ns q.op).mono fun c hc => silent_of_reaches ?_)
    rw [hns] at hc
    exact hc.mono fun _ => KeyOf.not_view
  | admin q =>
    refine silent_served ?_
    cases hwatch : q.op.watches with
    | true => exact (adminEndpoint_reads hwatch).mono fun _ => silent_of_reads hR
    | false =>
      obtain ⟨ns, hkey⟩ : ∃ ns, q.op.keyNs = some ns := Option.isSome_iff_exists.mp (by simpa [Job.single, hwatch] using hsingle)
      obtain rfl : ns = N := by simpa [Job.outside, hkey] using h
      refine (adminEndpoint_of (fun _ _ => trivial) (fun _ => trivial) fun c _ => AdminOp.reaches_keyNs hkey).mono fun c hc => ?_
      exact silent_of_reaches (hc.mono fun _ => KeyOf.not_view)
  | statusTick pid => cases h

end Programs

/-- Isolation of a namespace, whatever is served side by side: take out of a run all that is done on the namespace, and put
    anything under its keys at first. Every other request is where it was, with the same answer if it has ended, and each
    key outside the namespace is the same. The gateway's own keys are left out. -/
theorem parallel_isolation {R : Server} {st : Settings} {N : String} (hR : R.Lawful) {acts : List (Pool.Act Job Nat)}
    (hsingle : ∀ j, .start j ∈ acts → j.single = true) {s s' : Store} (hs : ∀ k, ¬InNs st.engine N k → s k = s' k) {t : Gateway}
    (h : Runs.run (Pool.step (execStore R) (Job.program st)) ⟨s, []⟩ acts = some t) :
    ∃ u, Runs.run (Pool.step (execStore R) (Job.program st)) ⟨s', []⟩ (purge (Job.outside N) [] acts) = some u ∧
      u.programs = Pool.kept ((started acts).map (Job.outside N)) t.programs ∧
      ∀ k, ¬InNs st.engine N k → ¬Internal k → t.state k = u.state k := by
  have hstart : Purged (execStore R) (Outside st N) [] (⟨s, []⟩ : Gateway) ⟨s', []⟩ := purged_nil fun k hk => hs k hk.1
  obtain ⟨u, hu, hpurged⟩ := hstart.run (fun j _ hkeep => Job.respects hkeep)
    (fun j hj hout => Job.silent hR hout (hsingle j hj)) h
  exact ⟨u, hu, hpurged.programs, fun k hk hi => hpurged.state k ⟨hk, hi⟩⟩

/-- Two namespaces count side by side. -/
def counting : List (Pool.Act Job Nat) :=
  [.start (countJob 5), .start (.data (plainRequest readOnlyClient "app" (.kv (.getKv "n")))),
    .start (.data (plainRequest administrator "other" (.kv (.incrKv "n" ⟨3⟩)))), .resume 2 6, .resume 0 7, .resume 1 8]

def startFrom (v : Value) : Store := Store.empty.set "other:kv:n" (some ⟨v, none⟩)

/-- The one goes on alone, with something else under the key of the other. -/
theorem parallel_isolation_counters : ∃ t u : Gateway,
    Runs.run (Pool.step (execStore reference) (Job.program {})) ⟨startFrom (.str "10"), []⟩ counting = some t ∧
    t.state "other:kv:n" = some ⟨.str "13", none⟩ ∧
    Runs.run (Pool.step (execStore reference) (Job.program {})) ⟨startFrom (.list ["x"]), []⟩ (purge (Job.outside "other") [] counting) =
      some u ∧
    u.programs.length = 2 ∧ t.state "app:kv:n" = u.state "app:kv:n" := by
  obtain ⟨t, ht, hother⟩ : ∃ t : Gateway, Runs.run (Pool.step (execStore reference) (Job.program {})) ⟨startFrom (.str "10"), []⟩
      counting = some t ∧ t.state "other:kv:n" = some ⟨.str "13", none⟩ := ⟨_, rfl, by decide⟩
  have hsingle : ∀ j, Pool.Act.start j ∈ counting → j.single = true := by
    intro j hj
    simp only [counting, List.mem_cons, Pool.Act.start.injEq, reduceCtorEq, List.not_mem_nil, or_false] at hj
    rcases hj with rfl | rfl | rfl <;> rfl
  have hsame : ∀ k, ¬InNs ({} : Settings).engine "other" k → startFrom (.str "10") k = startFrom (.list ["x"]) k := by
    intro k hk
    have hne : k ≠ "other:kv:n" := by
      rintro rfl
      exact hk ⟨"kv", "n", by decide⟩
    rw [startFrom, startFrom, Store.set_ne _ _ hne, Store.set_ne _ _ hne]
  obtain ⟨u, hu, hprograms, hkeys⟩ := parallel_isolation reference_lawful hsingle hsame ht
  have hk : parseKey ({} : Settings).engine "app:kv:n" = some ("app", "kv", "n") := by decide
  have hout : ¬InNs ({} : Settings).engine "other" "app:kv:n" := by
    rintro ⟨p, key, h⟩
    rw [hk] at h
    simp at h
  refine ⟨t, u, ht, hother, hu, ?_, hkeys _ hout (not_internal (by decide) hk)⟩
  rw [hprograms]
  cases ht
  rfl

end Redgw
