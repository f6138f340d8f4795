import Redgw.Theorems.Identity
import Redgw.Theorems.KeyCodec
import Redgw.Theorems.Linearizable
import Redgw.Theorems.ReadOnly

/-! # Who may change data

Every request comes with an API key, and the settings say what each key may do. Whatever runs side by side, a stored key
changes only by a request whose API key the settings give that right. -/

namespace Redgw
open Redis Prog Pool

/-! ### What the settings grant -/

/-- The settings give the API key the operation on the namespace. -/
inductive Grants (st : Settings) (N operation x : String) : Prop
  | admin (hset : x ≠ "") (hx : x = st.admin.apiKey)
  | client {id : String} {cfg : ClientConfig} (hcfg : st.clients.items.lookup id = some cfg) (hid : id ≠ "admin") (hset : x ≠ "")
      (hx : cfg.apiKey = x) {pattern : String} (hpattern : pattern = "*" ∨ pattern = N) {operations : List String}
      (hns : cfg.namespaces.items.lookup pattern = some operations) (hop : operation ∈ operations)

/-- The client that sends the request of a job. -/
def Job.client : Job → Option ClientInfo
  | .data q => q.client
  | .admin q => q.client
  | .statusTick _ => none

/-- What a request with the API key may do to an entry of the namespace at a time: a writer and the administrator anything,
    a reader what its consumer groups need. -/
inductive Authorized (st : Settings) (N x : String) (now : Nat) (e e' : Option Entry) : Job → Prop
  | writer {q : Request} (hns : q.ns = N) (h : Grants st N "write" x) : Authorized st N x now e e' (.data q)
  | reader {q : Request} (hns : q.ns = N) (h : Grants st N "read" x) (he : Tame (· = now) e e') : Authorized st N x now e e' (.data q)
  | admin {q : AdminRequest} (hop : q.op.watches = false) (hset : x ≠ "") (hx : x = st.admin.apiKey) :
      Authorized st N x now e e' (.admin q)

section Settings
variable {st : Settings} {N operation x : String} {c : ClientInfo}

theorem checkAccess_lookup (h : checkAccess c N operation = true) :
    ∃ pattern, (pattern = "*" ∨ pattern = N) ∧ ∃ operations, c.namespaces.lookup pattern = some operations ∧ operation ∈ operations := by
  rcases Bool.or_eq_true _ _ ▸ h with h | h
  · cases hlookup : c.namespaces.lookup "*" with
    | none => simp [hlookup] at h
    | some operations => exact ⟨"*", .inl rfl, operations, hlookup, by simpa [hlookup] using h⟩
  · cases hlookup : c.namespaces.lookup N with
    | none => simp [hlookup] at h
    | some operations => exact ⟨N, .inr rfl, operations, hlookup, by simpa [hlookup] using h⟩

theorem Owns.grants (hown : Owns st x c) (h : checkAccess c N operation = true) : Grants st N operation x := by
  cases hown with
  | admin hset hx => exact .admin (hx ▸ hset) hx
  | client hcfg hid hx hset =>
    obtain ⟨pattern, hpattern, operations, hlookup, hop⟩ := checkAccess_lookup h
    exact .client hcfg hid hset hx hpattern hlookup hop

theorem Owns.key_of_admin (hown : Owns st x c) (h : c.clientId = "admin") : x ≠ "" ∧ x = st.admin.apiKey := by
  rw [hown.admin_iff.mp h] at hown
  obtain ⟨hset, rfl⟩ := owns_administrator.mp hown
  exact ⟨hset, rfl⟩

end Settings

/-! ### What handlers without the write permission do -/

section Tame
variable {R : Server} {u : Use} {now : Nat}

theorem Use.operation_read (hu : u ≠ .writes) : u.operation = "read" := by
  cases u with
  | writes => exact absurd rfl hu
  | _ => rfl

theorem onKey_tame (hR : R.Lawful) (hu : u ≠ .writes) {create : Nat → Prop} (hnow : create now) {c : KeyCmd} (hc : u.allows c = true)
    (e : Option Entry) : Tame create e (R.onKey c now e).2 := by
  have hgentle : ∀ {u : Use}, u.gentle → u.allows c = true → Tame create e (R.onKey c now e).2 :=
    fun hu hc => Or.inl (onKey_gentle hR hu hc now e)
  cases u with
  | reads => exact hgentle (Or.inl rfl) hc
  | books => exact hgentle (Or.inr rfl) hc
  | writes => exact absurd rfl hu
  | creates =>
    cases c with
    | xgroupCreate group id mk => simpa [Server.exec, Server.atKey] using exec_create hR hnow (Store.empty.set "" e) "" rfl
    | _ => exact hgentle (Or.inl rfl : Use.reads.gentle) hc

theorem exec_tame (hR : R.Lawful) (hu : u ≠ .writes) {create : Nat → Prop} (hnow : create now) {c : Cmd} (hc : Uses u c) (s : Store)
    (k : String) : Tame create (s k) ((R.exec c now s).2 k) := by
  have hparts : c.Parts fun _ c => u.allows c = true := by
    cases c with
    | del keys => cases u <;> first | exact absurd rfl hu | cases hc
    | gather g keys => trivial
    | publish channel message => trivial
    | _ => exact hc
  have keep : ∀ k c, u.allows c = true → ∀ e, Tame create (s k) e → Tame create (s k) (R.onKey c now e).2 :=
    fun k c hc e he => he.trans (onKey_tame hR hu hnow hc e)
  exact Server.exec_entries keep hparts (fun k => Tame.refl _ (s k)) k

end Tame

/-! ### The calls of a job -/

section Calls
variable {R : Server} {st : Settings} {N : String}

/-- A command of a job is one of the gateway for itself, or one that its client may send. -/
def Job.Sends (st : Settings) (j : Job) : Call → Prop
  | .redis cmd => (∃ k c, cmd = .at k c ∧ OwnWrite k c) ∨ Uses .reads cmd ∨ ∃ client, j.client = some client ∧
      ((∃ q, j = .data q ∧ Within st client q.ns q.op.use (.redis cmd)) ∨
        ∃ q, j = .admin q ∧ q.op.watches = false ∧ client.clientId = "admin")
  | _ => True

theorem adminHandle_asks {o : AdminOp} (h : o.watches = false) {c : ClientInfo} {P : Call → Prop} (hp : ∀ e c, P (.setPendingEvent e c))
    (hf : ∀ r, P (.fireMetric r)) (hr : c.clientId = "admin" → ∀ cmd, P (.redis cmd)) : (o.handle st c).Calls P := by
  have hall : ∀ {α : Type} {p : Handler α}, c.clientId = "admin" → p.Calls P := by
    intro α p hadmin
    induction p with
    | pure a => trivial
    | raise e => trivial
    | call call k ih =>
      refine ⟨?_, ih⟩
      cases call with
      | redis cmd => exact hr hadmin cmd
      | setPendingEvent event errorCode => exact hp _ _
      | fireMetric reason => exact hf _
  cases o with
  | setTtl ns typeName key body => exact calls_admin hp hf hall
  | bulkDeleteKeys ns typeName pattern dryRun scanIter => exact calls_admin hp hf hall
  | deleteKey ns typeName key => exact calls_admin hp hf hall
  | _ => cases h

theorem Job.sends (j : Job) : (j.program st).CallsOn (fun _ _ => True) (j.Sends st) := by
  have hbook : ∀ k c, BookWrite k c → j.Sends st (.redis (.at k c)) := fun k c h => Or.inl ⟨k, c, rfl, .book h⟩
  cases j with
  | data q =>
    refine CallsOn.bind (served_callsOn (Calls.on ?_) hbook) fun _ => trivial
    refine endpoint_calls (fun _ _ => trivial) (fun _ => trivial) fun c hc => ?_
    refine (q.op.within q.ns).mono fun call hcall => ?_
    cases call with
    | redis cmd => exact Or.inr (Or.inr ⟨c, hc, Or.inl ⟨q, rfl, hcall⟩⟩)
    | setPendingEvent event errorCode => trivial
    | fireMetric reason => trivial
  | admin q =>
    refine CallsOn.bind (served_callsOn (Calls.on ?_) hbook) fun _ => trivial
    cases hwatch : q.op.watches with
    | true =>
      refine (adminEndpoint_reads hwatch).mono fun call hcall => ?_
      cases call with
      | redis cmd => exact Or.inr (Or.inl (hcall cmd rfl))
      | setPendingEvent event errorCode => trivial
      | fireMetric reason => trivial
    | false =>
      refine adminEndpoint_of (fun _ _ => trivial) (fun _ => trivial) fun c hc => ?_
      refine adminHandle_asks hwatch (fun _ _ => trivial) (fun _ => trivial) fun hadmin cmd => ?_
      exact Or.inr (Or.inr ⟨c, hc, Or.inr ⟨q, rfl, hwatch, hadmin⟩⟩)
  | statusTick pid => exact ⟨Or.inl ⟨_, _, rfl, .lead pid⟩, fun _ _ => trivial⟩

/-- What a call of a job does to a stored key. -/
theorem Job.Sends.authorized (hR : R.Lawful) {j : Job} {c : Call} (h : j.Sends st c) {x : String}
    (howns : ∀ client, j.client = some client → Owns st x client) {now : Nat} {s : Store} {k : String} (hk : KeyOf st.engine N k)
    (hne : (execStore R c now s).2 k ≠ s k) : Authorized st N x now (s k) ((execStore R c now s).2 k) j := by
  cases c with
  | setPendingEvent event errorCode => exact absurd rfl hne
  | fireMetric reason => exact absurd (agree_fireMetric reason now s k hk.not_own) hne
  | redis cmd =>
    rcases h with ⟨k', c, rfl, hown⟩ | hreads | ⟨client, hclient, ⟨q, rfl, haccess, hkeys, huses⟩ | ⟨q, rfl, hop, hadmin⟩⟩
    · exact absurd (agree_ownWrite hown now s k hk.not_own) hne
    · exact absurd (congrFun (exec_reads hR (c := cmd) hreads now s) k) hne
    · -- the key is one of the command, so that the request is about its namespace
      have hmem : k ∈ cmd.keys := by
        by_contra hnot
        exact hne (Server.exec_ne hnot)
      obtain ⟨p, hp, key, hbuilt⟩ := hk
      obtain ⟨p', hp', key', hbuilt'⟩ := hkeys k hmem
      obtain ⟨rfl, -, -⟩ := built_inj hp hp' hbuilt hbuilt'
      have hgrants := (howns client hclient).grants haccess
      by_cases hw : q.op.use = .writes
      · rw [hw] at hgrants
        exact .writer rfl hgrants
      · rw [Use.operation_read hw] at hgrants
        exact .reader rfl hgrants (exec_tame hR hw (by rfl) huses s k)
    · obtain ⟨hset, hx⟩ := (howns client hclient).key_of_admin hadmin
      exact .admin hop hset hx

end Calls

/-- Whatever is served side by side: with settings that pass the check, and requests whose clients were found by their API
    keys, a step that changes a stored key belongs to a request whose API key the settings authorize. -/
theorem changes_authorized {R : Server} {st : Settings} (hR : R.Lawful) {word : Char → Bool} {environ : Dict String}
    {warnings : List String} (hconfig : validateConfig word environ st = .ok warnings) {acts : List (Pool.Act Job Nat)}
    {apiKey : Job → String} (hkeys : ∀ j, .start j ∈ acts → ∀ c, j.client = some c → resolveClient st (apiKey j) = some c)
    {s : Store} {t u : Gateway} (h : Runs.run (Pool.step (execStore R) (Job.program st)) ⟨s, []⟩ acts = some t) {i now : Nat}
    (hstep : t.resume (execStore R) i now = some u) {N k : String} (hk : KeyOf st.engine N k) (hne : u.state k ≠ t.state k) :
    ∃ j, (started acts)[i]? = some j ∧ Authorized st N (apiKey j) now (t.state k) (u.state k) j := by
  obtain ⟨j, c, hj, hsends, hstate⟩ := resume_calls (fun j _ => Job.sends j) h hstep
  have hstarted : .start j ∈ acts := by
    obtain ⟨a, ha, hstart⟩ := List.mem_filterMap.mp (List.mem_of_getElem? hj)
    cases a with
    | start q =>
      cases hstart
      exact ha
    | resume i x => cases hstart
  have howns : ∀ client, j.client = some client → Owns st (apiKey j) client := fun client hclient =>
    (resolveClient_iff (validateConfig_ok hconfig)).mp (hkeys j hstarted client hclient)
  rw [hstate] at hne ⊢
  exact ⟨j, hj, hsends.authorized hR howns hk hne⟩

/-- A client that writes to its namespace, and one that reads there. -/
def sharedSettings : Settings where
  clients := Dict.ofList [("app", ⟨"k1", "", Dict.ofList [("app", ["read", "write"])]⟩), ("reader", ⟨"k2", "", Dict.ofList [("app", ["read"])]⟩)]
  admin := ⟨"root"⟩

theorem changes_authorized_app : ∃ t u : Gateway,
    Gateway.run sharedSettings reference [.start (countJob 5),
      .start (.data (plainRequest readOnlyClient "app" (.kv (.getKv "n")))), .resume 1 5] = some t ∧
    t.resume (execStore reference) 0 6 = some u ∧ Authorized sharedSettings "app" "k1" 6 (t.state "app:kv:n") (u.state "app:kv:n")
      (countJob 5) := by
  obtain ⟨t, ht⟩ : ∃ t, Gateway.run sharedSettings reference [.start (countJob 5),
      .start (.data (plainRequest readOnlyClient "app" (.kv (.getKv "n")))), .resume 1 5] = some t := ⟨_, rfl⟩
  obtain ⟨u, hu⟩ : ∃ u, t.resume (execStore reference) 0 6 = some u := by
    cases ht
    exact ⟨_, rfl⟩
  obtain ⟨warnings, hconfig⟩ : ∃ warnings, validateConfig Char.isAlphanum .empty sharedSettings = .ok warnings := ⟨_, rfl⟩
  have hkeys : ∀ j, Pool.Act.start j ∈ ([.start (countJob 5),
      .start (.data (plainRequest readOnlyClient "app" (.kv (.getKv "n")))), .resume 1 5] : List (Pool.Act Job Nat)) →
      ∀ c, j.client = some c → resolveClient sharedSettings (if j.client = some appClient then "k1" else "k2") = some c := by
    intro j hj c hc
    simp only [List.mem_cons, Pool.Act.start.injEq, reduceCtorEq, List.not_mem_nil, or_false] at hj
    rcases hj with rfl | rfl <;> cases hc <;> rfl
  have hk : KeyOf sharedSettings.engine "app" "app:kv:n" := ⟨kvPrefix, by decide, "n", by decide⟩
  have hne : u.state "app:kv:n" ≠ t.state "app:kv:n" := by
    cases ht
    cases hu
    decide
  obtain ⟨j, hj, hauthorized⟩ := changes_authorized reference_lawful hconfig hkeys ht hu hk hne
  cases hj
  exact ⟨t, u, ht, hu, hauthorized⟩

end Redgw
