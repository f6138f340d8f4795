import Redgw.Api

/-! # What serving a request touches

The handler touches keys of the namespace of its request, the middlewares touch the gateway's own
keys, and nothing else changes. What a request does depends on nothing else either. -/

namespace Redgw
open Redis Prog

/-! ### The gateway's own keys -/

/-- The counters of requests and the origins of writes. -/
def Internal (k : String) : Prop :=
  (∃ w, k = joinKey "redgw" "metrics" w) ∨ ∃ w, k = joinKey "__redgw" "audit" ("origin:" ++ w)

/-- A key that users store is not one of the gateway's own. -/
theorem not_internal {engine : Engine} {k ns typePrefix key : String} (hp : typePrefix ∈ storagePrefixes)
    (h : parseKey engine k = some (ns, typePrefix, key)) : ¬ Internal k := by
  rintro (⟨w, rfl⟩ | ⟨w, rfl⟩)
  · have hk : parseKey engine (joinKey "redgw" "metrics" w) = some ("redgw", "metrics", w) :=
      parseKey_eq_some.mpr ⟨rfl, by decide, by decide⟩
    rw [hk] at h
    cases h
    exact absurd hp (by decide)
  · have hk : parseKey engine (joinKey "__redgw" "audit" ("origin:" ++ w)) = some ("__redgw", "audit", "origin:" ++ w) :=
      parseKey_eq_some.mpr ⟨rfl, by decide, by decide⟩
    rw [hk] at h
    cases h
    exact absurd hp (by decide)

theorem KeyOf.not_internal {engine : Engine} {ns k : String} (h : KeyOf engine ns k) : ¬ Internal k := by
  obtain ⟨p, hp, key, hk⟩ := h.parse
  exact Redgw.not_internal hp hk

theorem internal_metrics {k : String} (w : String) (h : k.toList = "redgw:metrics:".toList ++ w.toList) :
    Internal k :=
  Or.inl ⟨w, String.toList_inj.mp (by rw [h]; simp [joinKey, String.toList_append])⟩

theorem internal_origin (k : String) : Internal ("__redgw:audit:origin:" ++ k) :=
  Or.inr ⟨k, String.toList_inj.mp (by simp [joinKey, String.toList_append])⟩

/-- The writes of the middlewares: a counter goes up, a duration is added, or an origin is stored. -/
inductive BookWrite : String → KeyCmd → Prop
  | count (w : String) : BookWrite (joinKey "redgw" "metrics" w) (.incrby 1)
  | latency (delta : Score) : BookWrite latencySumKey (.incrbyfloat delta)
  | origin (redisKey value : String) (ttl : Int) :
    BookWrite ("__redgw:audit:origin:" ++ redisKey) (.set value (some ttl) false)

theorem BookWrite.internal {k : String} {c : KeyCmd} (h : BookWrite k c) : Internal k := by
  cases h with
  | count w => exact Or.inl ⟨w, rfl⟩
  | latency delta => exact internal_metrics "latency_sum" (by simp [latencySumKey, metricsPrefix])
  | origin redisKey value ttl => exact internal_origin redisKey

/-- The writes of the metrics. -/
inductive MetricsWrite : String → KeyCmd → Prop
  | count (w : String) : MetricsWrite (joinKey "redgw" "metrics" w) (.incrby 1)
  | latency (delta : Score) : MetricsWrite latencySumKey (.incrbyfloat delta)

theorem MetricsWrite.book {k : String} {c : KeyCmd} (h : MetricsWrite k c) : BookWrite k c := by
  cases h with
  | count w => exact .count w
  | latency delta => exact .latency delta

theorem metricsWrite_count {k : String} (w : String) (h : k.toList = "redgw:metrics:".toList ++ w.toList) :
    MetricsWrite k (.incrby 1) := by
  have hk : k = joinKey "redgw" "metrics" w :=
    String.toList_inj.mp (by rw [h]; simp [joinKey, String.toList_append])
  rw [hk]
  exact .count w

/-- The counters that one request raises. -/
theorem recordRequest_metricsWrite {status : Nat} {durationMs : Rat} {ns clientId : String} :
    ∀ x ∈ recordRequest status durationMs ns clientId, MetricsWrite x.1 x.2 := by
  intro x hx
  simp only [recordRequest, List.mem_append] at hx
  rcases hx with ((hx | hx) | hx) | hx
  · simp only [List.mem_cons, List.not_mem_nil, or_false] at hx
    rcases hx with rfl | rfl
    · exact metricsWrite_count "total_requests" (by decide)
    · exact metricsWrite_count ("status:" ++ toString status) (by simp [incr, statusKey, metricsPrefix, String.toList_append])
  · split at hx
    · rw [List.mem_singleton.mp hx]
      exact metricsWrite_count ("ns:" ++ ns) (by simp [incr, nsReqKey, metricsPrefix, String.toList_append])
    · cases hx
  · split at hx
    · rw [List.mem_singleton.mp hx]
      exact metricsWrite_count ("client:" ++ clientId) (by simp [incr, clientReqKey, metricsPrefix, String.toList_append])
    · cases hx
  · split at hx
    · simp only [List.mem_append, List.mem_cons, List.not_mem_nil, or_false, List.mem_map] at hx
      rcases hx with ((rfl | rfl) | ⟨b, -, rfl⟩) | rfl
      · exact .latency _
      · exact metricsWrite_count "latency_count" (by decide)
      · exact metricsWrite_count ("latency:" ++ toString b)
          (by simp [incr, latencyBucketKey, metricsPrefix, String.toList_append])
      · exact metricsWrite_count "latency:inf" (by decide)
    · cases hx

theorem recordAuthFailure_metricsWrite {reason : String} : ∀ x ∈ recordAuthFailure reason, MetricsWrite x.1 x.2 := by
  intro x hx
  rw [List.mem_singleton.mp hx]
  refine metricsWrite_count ("auth_failures:" ++ reason) ?_
  simp [incr, authFailKey, metricsPrefix, String.toList_append]

theorem recordAuthFailure_internal {reason : String} : ∀ x ∈ recordAuthFailure reason, Internal x.1 :=
  fun x hx => (recordAuthFailure_metricsWrite x hx).book.internal

theorem storeOrigin_bookWrite {st : Settings} {env : AuditEnv} {scope : Scope} {requestId : String} {b : Behaviour}
    {status : Nat} : ∀ x ∈ storeOrigin st env scope requestId b status, BookWrite x.1 x.2 := by
  intro x hx
  unfold storeOrigin at hx
  split at hx
  · split at hx
    · split at hx
      · cases hx
      · dsimp only at hx
        split at hx
        · rw [List.mem_singleton.mp hx]
          exact .origin _ _ _
        · cases hx
    · cases hx
  · cases hx

theorem audit_bookWrite {st : Settings} {env : AuditEnv} {scope : Scope} {pending : Pending} {b : Behaviour} :
    ∀ x ∈ (auditMiddleware st env scope pending b).origin, BookWrite x.1 x.2 := by
  intro x hx
  rcases audit_cases st scope with hex | ⟨hex, hc⟩ | ⟨hex, hc⟩
  · rw [auditMiddleware_excluded hex] at hx
    cases hx
  · rw [auditMiddleware_refused hex hc] at hx
    cases hx
  · rw [auditMiddleware_logged hex hc] at hx
    exact storeOrigin_bookWrite x hx

theorem metricsCommands_metricsWrite {scope : Scope} {durationMs : Rat} {b : Behaviour} :
    ∀ x ∈ metricsCommands scope durationMs b, MetricsWrite x.1 x.2 := by
  intro x hx
  obtain ⟨status, -, hx⟩ := List.mem_flatMap.mp hx
  exact recordRequest_metricsWrite x hx

/-- The middlewares send commands on the gateway's own keys only. -/
theorem bookkeeping_internal {st : Settings} {q : Request} {result : Except Exn Json} {pending : Pending} :
    ∀ x ∈ bookkeeping st q result pending, Internal x.1 := by
  intro x hx
  rcases List.mem_append.mp hx with hx | hx
  · unfold auditOf at hx
    split at hx
    · cases hx
    · exact (audit_bookWrite x hx).internal
  · exact (metricsCommands_metricsWrite x hx).book.internal

/-! ### The handler -/

/-- The commands have keys that satisfy `P` only. -/
def Reaches (P : String → Prop) : Call → Prop
  | .redis c => ∀ k ∈ c.keys, P k
  | _ => True

theorem endpoint_calls {st : Settings} {client : Option ClientInfo} {ns : String} {op : Op} {P : Call → Prop}
    (hp : ∀ e c, P (.setPendingEvent e c)) (hf : ∀ r, P (.fireMetric r))
    (h : ∀ c, client = some c → (op.handle st c ns).Calls P) : (endpoint st client ns op).Calls P := by
  cases client with
  | none => exact ⟨hp _ _, fun _ => ⟨hf _, fun _ => trivial⟩⟩
  | some c =>
    cases hv : op.valid with
    | false => simp [endpoint, verifyApiKey, hv]
    | true => simpa [endpoint, verifyApiKey, hv] using h c rfl

/-- A handler reaches keys of the namespace of its request only. -/
theorem endpoint_reaches (st : Settings) (client : Option ClientInfo) (ns : String) (op : Op) :
    (endpoint st client ns op).Calls (Reaches (KeyOf st.engine ns)) := by
  refine endpoint_calls (fun _ _ => trivial) (fun _ => trivial) fun c _ => ?_
  refine (op.within ns).mono fun call hcall => ?_
  cases call with
  | redis c => exact hcall.2.1
  | setPendingEvent => trivial
  | fireMetric => trivial

/-- Without a permission on the namespace a handler reaches no key. -/
theorem endpoint_denied {st : Settings} {c : ClientInfo} {ns : String} (op : Op)
    (hr : checkAccess c ns "read" = false) (hw : checkAccess c ns "write" = false) :
    (endpoint st (some c) ns op).Calls (Reaches fun _ => False) := by
  have hop : ∀ u : Use, checkAccess c ns u.operation = false := by
    intro u
    cases u <;> simp only [Use.operation] <;> assumption
  refine endpoint_calls (fun _ _ => trivial) (fun _ => trivial) fun c' hc => ?_
  cases hc
  refine (op.within ns).mono fun call hcall => ?_
  cases call with
  | redis c => exact absurd hcall.1 (by simp [hop])
  | setPendingEvent => trivial
  | fireMetric => trivial

variable {R : Server}

theorem runCommands_ne {now : Nat} {cs : List (String × KeyCmd)} {s : Store} {k : String}
    (hcs : ∀ x ∈ cs, Internal x.1) (hk : ¬ Internal k) : runCommands R now cs s k = s k := by
  refine Server.transact_ne fun x hx => ?_
  rintro rfl
  exact hk (hcs x hx)

/-- The two states look alike through the keys that satisfy `V`. -/
def Alike (V : String → Prop) (x y : Ctx) : Prop := Server.Agree V x.store y.store ∧ x.pending = y.pending

theorem execCall_alike {V : String → Prop} {c : Call} {now : Nat} {x y : Ctx} (hc : Reaches V c)
    (hV : ∀ k, V k → ¬ Internal k) (h : Alike V x y) :
    (execCall R c now x).1 = (execCall R c now y).1 ∧ Alike V (execCall R c now x).2 (execCall R c now y).2 := by
  obtain ⟨hs, hp⟩ := h
  cases c with
  | redis c =>
    obtain ⟨hr, hs'⟩ : (R.exec c now x.store).1 = _ ∧ _ := Server.exec_agree hc hs
    exact ⟨hr, hs', hp⟩
  | setPendingEvent e code => exact ⟨rfl, hs, rfl⟩
  | fireMetric reason =>
    refine ⟨rfl, ?_, hp⟩
    intro k hk
    simp only [execCall]
    rw [runCommands_ne recordAuthFailure_internal (hV k hk), runCommands_ne recordAuthFailure_internal (hV k hk)]
    exact hs k hk

/-! ### Serving -/

variable {st : Settings} {q : Request}

/-- What every command of a handler keeps of the entry of a key, serving the request keeps: `T e e'`
    relates the entry to a later one. -/
theorem serve_entry {T : Option Entry → Option Entry → Prop} (refl : ∀ e, T e e)
    (trans : ∀ a b c, T a b → T b c → T a c) {k : String} (hi : ¬ Internal k) {P : Call → Prop}
    (h : (endpoint st q.client q.ns q.op).Calls P)
    (keep : ∀ c, P (.redis c) → ∀ n u, T (u k) ((R.exec c (q.clock n) u).2 k)) (s : Store) :
    T (s k) ((serve st R q s).2 k) := by
  have hcall : ∀ c, P c → ∀ n x, T (x.store k) ((execCall R c (q.clock n) x).2.store k) := by
    intro c hc n x
    cases c with
    | redis c => exact keep c hc n x.store
    | setPendingEvent e code => exact refl _
    | fireMetric reason =>
      have hk : runCommands R (q.clock n) (recordAuthFailure reason) x.store k = x.store k :=
        runCommands_ne recordAuthFailure_internal hi
      simp only [execCall, hk]
      exact refl _
  have hrun : T (s k) ((handleRequest st R q s).2.store k) :=
    run_keeps (K := fun x y : Ctx => T (x.store k) (y.store k)) (fun _ => refl _) (fun _ _ _ => trans _ _ _)
      hcall h ⟨s, none⟩
  have hbook : (serve st R q s).2 k = (handleRequest st R q s).2.store k := runCommands_ne bookkeeping_internal hi
  rw [hbook]
  exact hrun

/-- A request changes no key but the ones that its handler reaches and the gateway's own. -/
theorem serve_ne {P : String → Prop} (h : (endpoint st q.client q.ns q.op).Calls (Reaches P)) {s : Store}
    {k : String} (hk : ¬ P k) (hi : ¬ Internal k) : (serve st R q s).2 k = s k :=
  serve_entry (T := fun e e' => e' = e) (fun _ => rfl) (fun _ _ _ h₁ h₂ => h₂.trans h₁) hi h
    (fun _ hc _ _ => Server.exec_ne fun hmem => hk (hc k hmem)) s

/-- A request is answered alike on stores that agree on the keys it can reach, and leaves them in
    agreement. -/
theorem serve_agree {V : String → Prop} (h : (endpoint st q.client q.ns q.op).Calls (Reaches V))
    (hV : ∀ k, V k → ¬ Internal k) {s t : Store} (hst : Server.Agree V s t) :
    (serve st R q s).1 = (serve st R q t).1 ∧ Server.Agree V (serve st R q s).2 (serve st R q t).2 := by
  have same : ∀ c, Reaches V c → ∀ now x y, Alike V x y →
      (execCall R c now x).1 = (execCall R c now y).1 ∧ Alike V (execCall R c now x).2 (execCall R c now y).2 :=
    fun c hc now x y => execCall_alike hc hV
  have start : Alike V ⟨s, none⟩ ⟨t, none⟩ := ⟨hst, rfl⟩
  obtain ⟨hr, hs, -⟩ := run_related same h q.clock start
  refine ⟨congrArg Response.of hr, ?_⟩
  intro k hk
  have hk' := hV k hk
  calc (serve st R q s).2 k = (handleRequest st R q s).2.store k := runCommands_ne bookkeeping_internal hk'
    _ = (handleRequest st R q t).2.store k := hs k hk
    _ = (serve st R q t).2 k := (runCommands_ne bookkeeping_internal hk').symm

end Redgw
