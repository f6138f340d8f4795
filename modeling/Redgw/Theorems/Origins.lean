import Redgw.JsonObject
import Redgw.Plans
import Redgw.Redis.Writes
import Redgw.Routers.Admin
import Redgw.Theorems.AuditStatus
import Redgw.Theorems.Unaudited

/-! # Origins of writes

Beside each data key stands who last wrote to it: the last request that has the key in its path, that the
audit captures and that is answered with success. -/

namespace Redgw
open Redis Prog

/-! ### Keys in paths -/

/-- The parameters of the path are what a path can carry. -/
structure Request.Routed (q : Request) : Prop where
  ns : Route.Plain q.ns
  args : ∀ a ∈ q.op.args, Route.Plain a

/-- The key in Redis that the path names, if the path has a parameter `key`. -/
def Request.dataKey (st : Settings) (q : Request) : Option String := do
  let typePrefix ← q.op.typePrefix
  let key ← q.op.pathKey
  (buildKey st.engine q.ns typePrefix key).toOption

/-- The routes of a type that have a parameter `key` have it behind the name of the type. -/
def KeyedBy (token : String) (routes : List Route) : Prop :=
  ∀ r ∈ routes, Seg.param "key" ∈ r.segs →
    r.segs = [.lit "api", .lit "v1", .lit "ns", .param "ns", .lit token, .param "key"] ++ r.segs.drop 6

instance (token : String) (routes : List Route) : Decidable (KeyedBy token routes) :=
  inferInstanceAs (Decidable (∀ r ∈ routes, _))

theorem pathKey_some {o : Op} {key : String} (h : o.pathKey = some key) :
    Seg.param "key" ∈ o.route.segs ∧ ∃ rest, o.args = key :: rest := by
  unfold Op.pathKey at h
  split at h
  · rename_i hmem
    exact ⟨hmem, List.head?_eq_some_iff.mp h⟩
  · cases h

/-- The name of the type in the path stands for the prefix of the key. -/
theorem keyed_route {o : Op} {key : String} (h : o.pathKey = some key) :
    ∃ token typePrefix, o.typePrefix = some typePrefix ∧ resolveTypePrefix token = .ok typePrefix ∧
      o.route.segs = [.lit "api", .lit "v1", .lit "ns", .param "ns", .lit token, .param "key"] ++ o.route.segs.drop 6 := by
  obtain ⟨hmem, -⟩ := pathKey_some h
  cases o with
  | kv o =>
    have hkeyed : KeyedBy "kv" kvRoutes := by decide
    exact ⟨"kv", kvPrefix, rfl, rfl, hkeyed _ o.route_mem hmem⟩
  | map o =>
    have hkeyed : KeyedBy "map" mapRoutes := by decide
    exact ⟨"map", mapPrefix, rfl, rfl, hkeyed _ o.route_mem hmem⟩
  | queue o =>
    have hkeyed : KeyedBy "queue" queueRoutes := by decide
    exact ⟨"queue", queuePrefix, rfl, rfl, hkeyed _ o.route_mem hmem⟩
  | group o =>
    have hkeyed : KeyedBy "group" groupRoutes := by decide
    exact ⟨"group", groupPrefix, rfl, rfl, hkeyed _ o.route_mem hmem⟩
  | rank o =>
    have hkeyed : KeyedBy "rank" rankRoutes := by decide
    exact ⟨"rank", rankPrefix, rfl, rfl, hkeyed _ o.route_mem hmem⟩
  | event o =>
    have hkeyed : KeyedBy "event" eventRoutes := by decide
    exact ⟨"event", eventPrefix, rfl, rfl, hkeyed _ o.route_mem hmem⟩
  | pubsub o =>
    have hnone : ∀ r ∈ pubsubRoutes, Seg.param "key" ∉ r.segs := by decide
    exact absurd hmem (hnone _ o.route_mem)

theorem route_mem (o : Op) : o.route ∈ dataRoutes ++ pubsubRoutes := by
  unfold dataRoutes
  simp only [List.mem_append]
  cases o with
  | kv o => simp [Op.route, o.route_mem]
  | map o => simp [Op.route, o.route_mem]
  | queue o => simp [Op.route, o.route_mem]
  | group o => simp [Op.route, o.route_mem]
  | rank o => simp [Op.route, o.route_mem]
  | event o => simp [Op.route, o.route_mem]
  | pubsub o => simp [Op.route, o.route_mem]

theorem route_slash (o : Op) (s : String) (h : .lit s ∈ o.route.segs) : '/' ∉ s.toList := by
  have hall : ∀ r ∈ dataRoutes ++ pubsubRoutes, ∀ seg ∈ r.segs, '/' ∉ seg.literal.toList := by decide
  exact hall _ (route_mem o) _ h

section Paths
variable {st : Settings} {q : Request}

theorem path_token {key token : String} (hq : q.Routed) (hkey : q.op.pathKey = some key)
    (hsegs : q.op.route.segs =
      [.lit "api", .lit "v1", .lit "ns", .param "ns", .lit token, .param "key"] ++ q.op.route.segs.drop 6) :
    extractNs q.path = some q.ns ∧ (q.path.toList.splitOn '/')[5]? = some token.toList := by
  obtain ⟨-, more, hargs⟩ := pathKey_some hkey
  have hfill : Route.fillSegs q.op.route.segs (q.ns :: q.op.args) =
      "api" :: "v1" :: "ns" :: q.ns :: token :: key :: Route.fillSegs (q.op.route.segs.drop 6) more := by
    rw [hsegs, hargs]
    rfl
  have hplain : ∀ a ∈ q.ns :: q.op.args, Route.Plain a := by
    intro a ha
    rcases List.mem_cons.mp ha with rfl | ha
    · exact hq.ns
    · exact hq.args a ha
  constructor
  · obtain ⟨rest, hpath⟩ : ∃ rest, q.path.toList = "/api/v1/ns/".toList ++ (q.ns.toList ++ '/' :: rest) := by
      have hlist : q.path.toList = (Route.fillSegs q.op.route.segs (q.ns :: q.op.args)).flatMap fun t => '/' :: t.toList :=
        String.toList_ofList
      rw [hlist, hfill]
      exact ⟨token.toList ++ (key :: Route.fillSegs (q.op.route.segs.drop 6) more).flatMap fun t => '/' :: t.toList, by simp⟩
    have hafter : afterPrefix "/api/v1/ns/" q.path.toList = some (q.ns.toList ++ '/' :: rest) := by
      unfold afterPrefix
      rw [hpath, if_pos (by simp), List.drop_left]
    have hcut : Text.cut '/' (q.ns.toList ++ '/' :: rest) = some (q.ns.toList, rest) :=
      Text.cut_eq_some.mpr ⟨rfl, hq.ns.2⟩
    unfold extractNs nsMatch
    rw [hafter]
    simp [hcut, hq.ns.1]
  · have hsplit := Route.splitOn_fill (route_slash q.op) hplain
    have hpath : q.path = q.op.route.fill (q.ns :: q.op.args) := rfl
    rw [hpath, hsplit, hfill]
    rfl

end Paths

/-! ### What a request stores -/

def originKey (k : String) : String := "__redgw:audit:origin:" ++ k

namespace Request

def requestId (q : Request) : String :=
  validateRequestId (((header "x-request-id" q.headers).map decodeAscii).getD "") q.env.uuid4

/-- The text that is stored for the request. -/
def origin (q : Request) : String := originValue q.env q.requestId (behaviourOf q (.ok .null) none)

end Request

/-- The audit writes a line of the request however it ends. -/
def captured (st : Settings) (q : Request) : Bool :=
  decide (st.audit.level ≠ 0) && !st.audit.excludePaths.contains q.path && decideCapture q.method q.path st.audit.level

section Stored
variable {st : Settings} {q : Request} {result : Except Exn Json} {pending : Pending}

theorem starts_behaviourOf (h : ∀ msg, result ≠ .error (.redis msg)) :
    (behaviourOf q result pending).starts = [(Response.of result).status] := by
  have hstarts : (behaviourOf q result pending).acts.filterMap Act.status? = [(Response.of result).status] := by
    unfold behaviourOf
    cases result with
    | ok body => cases pending <;> rfl
    | error e =>
      cases e with
      | redis msg => exact absurd rfl (h msg)
      | http status code message => cases pending <;> rfl
      | unprocessable => cases pending <;> rfl
  exact hstarts

/-- Of the application a record has the client only. -/
theorem originValue_client {env : AuditEnv} {requestId : String} {b b' : Behaviour} (h : b.clientId = b'.clientId) :
    originValue env requestId b = originValue env requestId b' := by
  unfold originValue
  rw [h]

/-- The command for the key of the path, if the request succeeds. -/
theorem storeOrigin_eq (hcorr : st.audit.correlation = true) (hq : q.Routed) (status : Nat) :
    storeOrigin st q.env q.scope q.requestId (behaviourOf q result pending) status =
      if methodWrites q.method && decide (status < 400) then
        (q.dataKey st).toList.map fun k => (originKey k, .set q.origin (some st.audit.correlationTtlSeconds) false)
      else [] := by
  have hb : (behaviourOf q result pending).pathKey = q.op.pathKey := rfl
  have horigin : originValue q.env q.requestId (behaviourOf q result pending) = q.origin := originValue_client rfl
  have hscope : q.scope.path = q.path ∧ q.scope.method = q.method := ⟨rfl, rfl⟩
  unfold storeOrigin Request.dataKey
  rw [hb, hscope.1, hscope.2]
  cases hkey : q.op.pathKey with
  | none =>
    cases extractNs q.path <;> cases q.op.typePrefix <;> simp
  | some key =>
    obtain ⟨token, typePrefix, hprefix, htoken, hsegs⟩ := keyed_route hkey
    obtain ⟨hns, hpart⟩ := path_token hq hkey hsegs
    obtain ⟨-, more, hargs⟩ := pathKey_some hkey
    have hne : key ≠ "" := (hq.args key (hargs ▸ List.mem_cons_self)).1
    rw [hns, hpart, hprefix]
    dsimp only
    rw [String.ofList_toList, htoken, hcorr]
    simp only [decide_eq_true hq.ns.1, decide_eq_true hne, Bool.true_and, Bool.and_true]
    cases methodWrites q.method && decide (status < 400) with
    | false => rfl
    | true =>
      cases hk : buildKey st.engine q.ns typePrefix key with
      | ok k =>
        have hdata : (buildKey st.engine q.ns typePrefix key).toOption = some k := by
          rw [hk]
          rfl
        have hbuilt : (do
            let typePrefix ← Except.ok typePrefix
            buildKey st.engine q.ns typePrefix key) = Except.ok k := hk
        simp only [Option.bind_eq_bind, Option.bind_some, hdata, Option.toList_some, List.map_cons, List.map_nil]
        rw [if_pos trivial, if_pos trivial, hbuilt, horigin]
        rfl
      | error e =>
        have hdata : (buildKey st.engine q.ns typePrefix key).toOption = none := by
          rw [hk]
          rfl
        have hbuilt : (do
            let typePrefix ← Except.ok typePrefix
            buildKey st.engine q.ns typePrefix key) = Except.error e := hk
        simp only [Option.bind_eq_bind, Option.bind_some, hdata, Option.toList_none, List.map_nil]
        rw [if_pos trivial, if_pos trivial, hbuilt]

theorem auditOf_origin (hcorr : st.audit.correlation = true) (hq : q.Routed) (hraise : ∀ msg, result ≠ .error (.redis msg)) :
    (auditOf st q result pending).origin =
      if captured st q && (methodWrites q.method && decide ((Response.of result).status < 400)) then
        (q.dataKey st).toList.map fun k => (originKey k, .set q.origin (some st.audit.correlationTtlSeconds) false)
      else [] := by
  unfold auditOf captured
  by_cases hlevel : st.audit.level = 0
  · simp [hlevel]
  rw [if_neg hlevel]
  by_cases hex : q.scope.path ∈ st.audit.excludePaths
  · have hex' : st.audit.excludePaths.contains q.path = true := List.contains_iff_mem.mpr hex
    rw [auditMiddleware_uncaptured _ _ _ (Or.inl hex), hex']
    simp
  have hex' : st.audit.excludePaths.contains q.path = false := by
    rw [← Bool.not_eq_true, List.contains_iff_mem]
    exact hex
  cases hc : decideCapture q.scope.method q.scope.path st.audit.level with
  | false =>
    have hc' : decideCapture q.method q.path st.audit.level = false := hc
    rw [auditMiddleware_uncaptured _ _ _ (Or.inr hc), hc']
    simp
  | true =>
    have hc' : decideCapture q.method q.path st.audit.level = true := hc
    rw [(auditMiddleware_captured q.env none (behaviourOf q result pending) hex hc).2, starts_behaviourOf hraise, hex', hc']
    refine (storeOrigin_eq hcorr hq (Response.of result).status).trans ?_
    simp [hlevel]

end Stored

/-! ### One request -/

/-- The request leaves its origin at the data key `k`. -/
def originates (st : Settings) (R : Server) (k : String) (q : Request) (s : Store) : Bool :=
  captured st q && (methodWrites q.method && decide ((serve st R q s).1.status < 400)) && decide (q.dataKey st = some k)

/-- No `ResponseError` of Redis comes through. -/
def Handled (st : Settings) (R : Server) (q : Request) (s : Store) : Prop :=
  ∀ msg, (handleRequest st R q s).1 ≠ .error (.redis msg)

theorem originKey_ne_metrics {k key : String} {c : KeyCmd} (h : MetricsWrite key c) : originKey k ≠ key := by
  have hkey : key.toList.head? = some 'r' := by
    cases h with
    | count w =>
      have hjoin : (joinKey "redgw" "metrics" w).toList = "redgw:metrics:".toList ++ w.toList := by
        simp [joinKey, String.toList_append]
      rw [hjoin]
      rfl
    | latency delta => decide
  have horigin : (originKey k).toList = '_' :: ("_redgw:audit:origin:".toList ++ k.toList) := String.toList_append
  rintro rfl
  rw [horigin] at hkey
  cases hkey

theorem KeyOf.ne_origin {engine : Engine} {ns k : String} (h : KeyOf engine ns k) (k' : String) : originKey k' ≠ k := by
  rintro rfl
  exact h.not_internal (internal_origin k')

section Step
variable {st : Settings} {R : Server} {q : Request} {s : Store} {k : String}

/-- The handler leaves origins alone. -/
theorem handle_origin : (handleRequest st R q s).2.store (originKey k) = s (originKey k) := by
  refine run_keeps (K := fun x y : Ctx => y.store (originKey k) = x.store (originKey k)) (fun _ => rfl)
    (fun _ _ _ h₁ h₂ => h₂.trans h₁) (fun c hc now x => ?_) (endpoint_reaches st q.client q.ns q.op) ⟨s, none⟩
  cases c with
  | redis c =>
    exact Server.exec_ne fun hmem => (hc _ hmem).ne_origin k rfl
  | setPendingEvent e code => rfl
  | fireMetric reason =>
    have hne : runCommands R (q.clock now) (recordAuthFailure reason) x.store (originKey k) = x.store (originKey k) :=
      Server.transact_ne fun y hy => originKey_ne_metrics (recordAuthFailure_metricsWrite y hy)
    exact hne

/-- A request rewrites the origin of one data key, if it leaves its origin there. -/
theorem serve_origin (hcorr : st.audit.correlation = true) (hq : q.Routed) (hh : Handled st R q s) :
    (serve st R q s).2 (originKey k) =
      if originates st R k q s then
        (R.onKey (.set q.origin (some st.audit.correlationTtlSeconds) false) q.later (s (originKey k))).2
      else s (originKey k) := by
  obtain ⟨result, x, hrun⟩ : ∃ result x, handleRequest st R q s = (result, x) := ⟨_, _, rfl⟩
  have hstore : x.store (originKey k) = s (originKey k) := by
    have hkept : (handleRequest st R q s).2.store (originKey k) = s (originKey k) := handle_origin
    rwa [hrun] at hkept
  have hraise : ∀ msg, result ≠ .error (.redis msg) := by
    intro msg
    have hmsg := hh msg
    rwa [hrun] at hmsg
  have hstatus : (serve st R q s).1.status = (Response.of result).status := by
    unfold serve
    rw [hrun]
  have hserve : (serve st R q s).2 (originKey k) = (R.transact q.later (auditOf st q result x.pending).origin x.store).2 (originKey k) := by
    unfold serve
    rw [hrun]
    dsimp only
    unfold runCommands bookkeeping
    rw [Server.transact_append]
    exact Server.transact_ne fun y hy => originKey_ne_metrics (metricsCommands_metricsWrite y hy)
  rw [hserve, auditOf_origin hcorr hq hraise, ← hstore]
  unfold originates
  rw [hstatus]
  cases captured st q && (methodWrites q.method && decide ((Response.of result).status < 400)) with
  | false => rfl
  | true =>
    cases hkey : q.dataKey st with
    | none => rfl
    | some k' =>
      by_cases hk : k' = k
      · subst hk
        rw [if_pos rfl, decide_eq_true rfl]
        exact Server.atKey_self _ _ _ _
      · have hne : originKey k ≠ originKey k' := fun he => hk (String.append_right_inj _ |>.mp he).symm
        rw [if_pos rfl, decide_eq_false fun he => hk (Option.some.inj he)]
        refine Server.transact_ne fun y hy => ?_
        rw [List.mem_singleton.mp hy]
        exact hne

end Step

/-! ### Reading an origin -/

def Request.clientJson (q : Request) : Json :=
  match q.client with
  | some c => .str c.clientId
  | none => .null

/-- The client as the record has it. -/
def Request.clientText (q : Request) : String :=
  match q.client with
  | some c => jsonString c.clientId
  | none => "null"

theorem readValue_client (q : Request) (rest : List Char) :
    readValue (q.clientText.toList ++ rest) = some (q.clientJson, rest) := by
  unfold Request.clientText Request.clientJson
  cases q.client with
  | some c => exact readValue_jsonString c.clientId rest
  | none => exact readValue_null rest

theorem origin_toList (q : Request) : q.origin.toList =
    '{' :: ((jsonString "request_id").toList ++ ':' :: ((jsonString q.requestId).toList ++ ',' ::
      ((jsonString "client_id").toList ++ ':' :: (q.clientText.toList ++ ',' ::
        ((jsonString "ts").toList ++ ':' :: ((jsonString q.env.now).toList ++ ['}'])))))) := by
  have horigin : q.origin = "\x7b\"request_id\":" ++ jsonString q.requestId ++ ",\"client_id\":" ++ q.clientText ++
      ",\"ts\":" ++ jsonString q.env.now ++ "\x7d" := by
    unfold Request.origin Request.clientText originValue behaviourOf
    cases q.client <;> rfl
  have hnames : (jsonString "request_id").toList = "\"request_id\"".toList ∧
      (jsonString "client_id").toList = "\"client_id\"".toList ∧ (jsonString "ts").toList = "\"ts\"".toList := by decide
  rw [horigin, hnames.1, hnames.2.1, hnames.2.2]
  simp [String.toList_append]

/-- The record is read back with its three members. -/
theorem readObject_origin (q : Request) : readObject q.origin =
    some (Dict.ofList [("request_id", .str q.requestId), ("client_id", q.clientJson), ("ts", .str q.env.now)]) := by
  refine readObject_of (n := 3) (origin_toList q) (by simp; omega) fun m => ?_
  rw [readMembers_cons (readValue_jsonString _), readMembers_cons (readValue_client q), readMembers_last (readValue_jsonString _)]
  rfl

/-! ### Runs -/

/-- The last of the requests that leaves its origin at the data key. -/
def lastWriter (st : Settings) (R : Server) (k : String) : List Request → Store → Option Request
  | [], _ => none
  | q :: qs, s => (lastWriter st R k qs (serve st R q s).2).or (if originates st R k q s then some q else none)

/-- What stands at the origin key then, where `e` stood before. -/
def originEntry (st : Settings) (e : Option Entry) : Option Request → Option Entry
  | none => e
  | some q => some ⟨.str q.origin, some (ahead q.later st.audit.correlationTtlSeconds)⟩

/-- The lifetime of the origin of the request fits into 64 bits. -/
def LifetimeFits (st : Settings) (q : Request) : Prop :=
  q.later + st.audit.correlationTtlSeconds * 1000 ≤ 9223372036854775807

instance (st : Settings) (q : Request) : Decidable (LifetimeFits st q) := inferInstanceAs (Decidable (_ ≤ _))

section Runs
variable {st : Settings} {R : Server} {k : String}

theorem lastWriter_mem {qs : List Request} {s : Store} {q : Request} (h : lastWriter st R k qs s = some q) : q ∈ qs := by
  induction qs generalizing s with
  | nil => cases h
  | cons q' qs ih =>
    rw [lastWriter, Option.or_eq_some_iff] at h
    rcases h with h | ⟨-, h⟩
    · exact List.mem_cons_of_mem _ (ih h)
    · split at h
      · cases h
        exact List.mem_cons_self
      · cases h

/-- The origin of the last writer stands at the origin key. -/
theorem final_origin (hS : R.Strings) (hcorr : st.audit.correlation = true)
    (httl : 0 < st.audit.correlationTtlSeconds) {qs : List Request} (hqs : ∀ q ∈ qs, q.Routed)
    (hfit : ∀ q ∈ qs, LifetimeFits st q) {s : Store} (hrun : EachStep (serve st R) (Handled st R) qs s) :
    Noninterference.final (serve st R) qs s (originKey k) =
      originEntry st (s (originKey k)) (lastWriter st R k qs s) := by
  induction qs generalizing s with
  | nil => rfl
  | cons q qs ih =>
    have hstep := serve_origin (k := k) hcorr (hqs q List.mem_cons_self) hrun.1
    rw [hS.setEx _ _ _ _ httl (hfit q List.mem_cons_self)] at hstep
    rw [Noninterference.final_cons, lastWriter,
      ih (fun q' hq' => hqs q' (List.mem_cons_of_mem _ hq')) (fun q' hq' => hfit q' (List.mem_cons_of_mem _ hq')) hrun.2, hstep]
    cases lastWriter st R k qs (serve st R q s).2 with
    | some q' => rfl
    | none =>
      rw [Option.none_or]
      cases originates st R k q s <;> rfl

end Runs

/-! ### Looking it up -/

/-- The answer names the writer, or says that there is none. -/
def Names (answer : Except Exn Json) : Option Request → Prop
  | none => ∃ message, answer = .error (.http 404 "KEY_NOT_FOUND" message)
  | some q => ∃ body, answer = .ok body ∧ body.field "request_id" = .str q.requestId ∧ body.field "client_id" = q.clientJson

/-- `json.loads` reads the texts of flat objects. -/
def LoadsObjects (loads : String → Option (Dict Json)) : Prop := ∀ text d, readObject text = some d → loads text = some d

section Lookup
variable {st : Settings} {R : Server} {client : ClientInfo} {ns typeName key typePrefix k : String}
  {loads : String → Option (Dict Json)} {clock : Nat → Nat} {s : Store}

theorem field_insert {d : Dict Json} {name other : String} {v : Json} (h : name ≠ other) :
    (Json.obj (d.insert other v).items).field name = (Json.obj d.items).field name := by
  unfold Json.field
  dsimp only
  rw [Dict.lookup_insert, if_neg h]

/-- A command that is answered is followed by the rest. -/
theorem run_redis {α : Type} {c : KeyCmd} {f : Json → Handler α} {v : Json} {x : Ctx}
    (h : (R.onKey c (clock 0) (x.store k)).1 = .ok v) :
    ((redis k c).bind f).run (execCall R) clock x =
      (f v).run (execCall R) (fun n => clock (n + 1)) { x with store := x.store.set k (R.onKey c (clock 0) (x.store k)).2 } := by
  have hcall : ((redis k c).bind f).run (execCall R) clock x =
      ((ofReply (R.onKey c (clock 0) (x.store k)).1).bind f).run (execCall R) (fun n => clock (n + 1))
        { x with store := x.store.set k (R.onKey c (clock 0) (x.store k)).2 } := rfl
  rw [hcall, h]
  rfl

theorem lookup_names (hT : R.Lifetimes) (hS : R.Strings) (hadmin : client.clientId = "admin")
    (hp : resolveTypePrefix typeName = .ok typePrefix) (hk : buildKey st.engine ns typePrefix key = .ok k)
    (hloads : LoadsObjects loads) {w : Option Request} (hs : s (originKey k) = originEntry st none w)
    (hclock : ∀ q, w = some q → clock 0 < ahead q.later st.audit.correlationTtlSeconds) :
    Names ((adminAuditOrigin st client ns typeName key loads).run (execCall R) clock ⟨s, none⟩).1 w := by
  unfold adminAuditOrigin requireAdmin
  rw [if_pos hadmin]
  simp only [hp, hk, lift_eq, ofExcept_ok, bind_eq, pure_bind]
  cases w with
  | none =>
    have hget : (R.onKey .get (clock 0) (s (originKey k))).1 = .ok .null := by
      rw [hs]
      exact hS.getMissing _ _ rfl
    rw [run_redis hget]
    exact ⟨_, rfl⟩
  | some q =>
    have hlive : live (clock 0) (s (originKey k)) = some ⟨.str q.origin, some (ahead q.later st.audit.correlationTtlSeconds)⟩ := by
      rw [hs]
      exact live_iff.mpr fun d hd => Option.some.inj hd ▸ hclock q rfl
    have hget : (R.onKey .get (clock 0) (s (originKey k))).1 = .ok (.str q.origin) := hS.get _ _ _ _ hlive
    rw [run_redis hget]
    have httl : (R.onKey .ttl (clock 1) (s.set (originKey k) (R.onKey .get (clock 0) (s (originKey k))).2 (originKey k))).1 =
        .ok (.int (remaining (clock 1) (s.set (originKey k) (R.onKey .get (clock 0) (s (originKey k))).2 (originKey k)))) := by
      rw [hT.ttl]
    have hnot : Json.isNone (.str q.origin) = false := rfl
    rw [hnot, if_neg Bool.false_ne_true, run_redis httl]
    have hd : loads (Json.str q.origin).text =
        some (Dict.ofList [("request_id", .str q.requestId), ("client_id", q.clientJson), ("ts", .str q.env.now)]) :=
      hloads _ _ (readObject_origin q)
    rw [hd]
    refine ⟨_, rfl, ?_, ?_⟩
    · rw [field_insert (by decide), field_insert (by decide)]
      rfl
    · rw [field_insert (by decide), field_insert (by decide)]
      rfl

end Lookup

/-- After every run of requests one after another, the origin of a data key, looked up under any name of its
    type, names the last request that has the key in its path under PUT, POST or DELETE, that the audit
    captures, and that succeeds. -/
theorem origin_names_writer (st : Settings) (R : Server) (hT : R.Lifetimes) (hS : R.Strings)
    (hcorr : st.audit.correlation = true) (httl : 0 < st.audit.correlationTtlSeconds) (qs : List Request)
    (hqs : ∀ q ∈ qs, q.Routed) (hfit : ∀ q ∈ qs, LifetimeFits st q) (s : Store) (hempty : ∀ k, s (originKey k) = none)
    (hrun : EachStep (serve st R) (Handled st R) qs s) (client : ClientInfo) (hadmin : client.clientId = "admin")
    (loads : String → Option (Dict Json)) (hloads : LoadsObjects loads) (clock : Nat → Nat)
    (hclock : ∀ q ∈ qs, clock 0 < ahead q.later st.audit.correlationTtlSeconds) (ns typePrefix key k : String)
    (hk : buildKey st.engine ns typePrefix key = .ok k) (typeName : String)
    (hp : resolveTypePrefix typeName = .ok typePrefix) :
    Names ((adminAuditOrigin st client ns typeName key loads).run (execCall R) clock
      ⟨Noninterference.final (serve st R) qs s, none⟩).1 (lastWriter st R k qs s) := by
  have hfinal := final_origin (k := k) hS hcorr httl hqs hfit hrun
  rw [hempty] at hfinal
  exact lookup_names hT hS hadmin hp hk hloads hfinal fun q hq => hclock q (lastWriter_mem hq)

/-! ### Three requests -/

theorem Handled.of_status {st : Settings} {R : Server} {q : Request} {s : Store} (h : (serve st R q s).1.status ≠ 500) :
    Handled st R q s := by
  intro msg hmsg
  refine h ?_
  unfold serve
  dsimp only
  rw [hmsg]
  rfl

def batchClient : ClientInfo := ⟨"batch", "", [("app", ["read", "write"])]⟩

def touchClient : ClientInfo := ⟨"touch", "", [("app", ["read", "write"])]⟩

def monitorClient : ClientInfo := ⟨"admin", "", []⟩

def writeX : Request := plainRequest appClient "app" (.kv (.setKv "x" ⟨"1", none⟩))

def touchX : Request := plainRequest touchClient "app" (.kv (.touchKv "x" ⟨60⟩))

def batchWriteX : Request := plainRequest batchClient "app" (.kv (.batchSetKv ⟨.ofList [("x", "2")], none⟩))

theorem plainRequest_routed {client : ClientInfo} {ns : String} {o : Op} (hns : Route.Plain ns)
    (hargs : ∀ a ∈ o.args, Route.Plain a) : (plainRequest client ns o).Routed := ⟨hns, hargs⟩

theorem origin_names_writer_touch :
    Names ((adminAuditOrigin correlating monitorClient "app" "string" "x" readObject).run (execCall reference) (fun _ => 0)
      ⟨Noninterference.final (serve correlating reference) [writeX, touchX] .empty, none⟩).1
      (lastWriter correlating reference "app:kv:x" [writeX, touchX] .empty) := by
  refine origin_names_writer correlating reference reference_lifetimes reference_strings rfl (by decide) [writeX, touchX] ?_ ?_
    .empty (fun _ => rfl) ⟨.of_status (by decide +kernel), .of_status (by decide +kernel), trivial⟩ monitorClient rfl readObject
    (fun _ _ h => h) (fun _ => 0) ?_ "app" "kv" "x" "app:kv:x" rfl "string" rfl
  · intro q hq
    rcases List.mem_pair.mp hq with rfl | rfl
    · exact plainRequest_routed ⟨by decide, by decide⟩ (by decide)
    · exact plainRequest_routed ⟨by decide, by decide⟩ (by decide)
  · intro q hq
    rcases List.mem_pair.mp hq with rfl | rfl <;> decide
  · intro q hq
    rcases List.mem_pair.mp hq with rfl | rfl <;> decide

/-- The value after the requests. -/
def valueAfter (qs : List Request) (k : String) : Option Value :=
  (Noninterference.final (serve correlating reference) qs .empty k).map (·.value)

/-- A touch leaves the value as it is and becomes the origin, which a batch that changes the value does not. -/
theorem origin_misses_batch :
    EachStep (serve correlating reference) (Handled correlating reference) [writeX, touchX, batchWriteX] .empty ∧
    valueAfter [writeX, touchX] "app:kv:x" = valueAfter [writeX] "app:kv:x" ∧
    valueAfter [writeX, touchX, batchWriteX] "app:kv:x" ≠ valueAfter [writeX, touchX] "app:kv:x" ∧
    Names ((adminAuditOrigin correlating monitorClient "app" "kv" "x" readObject).run (execCall reference) (fun _ => 0)
      ⟨Noninterference.final (serve correlating reference) [writeX, touchX, batchWriteX] .empty, none⟩).1 (some touchX) ∧
    (touchX.clientJson.text, batchWriteX.clientJson.text) = ("touch", "batch") := by
  refine ⟨⟨.of_status (by decide +kernel), .of_status (by decide +kernel), .of_status (by decide +kernel), trivial⟩,
    by decide +kernel, by decide +kernel, ?_, rfl⟩
  refine lookup_names (k := "app:kv:x") reference_lifetimes reference_strings rfl rfl rfl (fun _ _ h => h) (by decide +kernel) fun q hq => ?_
  cases hq
  decide

end Redgw
