import Redgw.Theorems.ReadOnly

/-! # Which requests leave an audit line

At level 1 a request that may write leaves a line unless its path looks like a publication, and a
request that does not leaves one only when it was refused. -/

namespace Redgw
open Redis Prog Noninterference

/-! ### One request -/

/-- A refusal is left for the audit line, from before or by the application. -/
def LeavesEvent (pending : Pending) (b : Behaviour) : Prop :=
  pending.isSome = true ∨ ∃ event errorCode, Act.setPendingEvent event errorCode ∈ b.acts

/-- Collecting the body changes nothing else. -/
theorem onReceive_kept (s : AuditState) (chunk : Bytes) : (s.onReceive chunk).pending = s.pending ∧
    (s.onReceive chunk).statusCode = s.statusCode ∧ (s.onReceive chunk).sent = s.sent := by
  unfold AuditState.onReceive
  dsimp only
  split
  · exact ⟨rfl, rfl, rfl⟩
  · split <;> exact ⟨rfl, rfl, rfl⟩

theorem act_pending (requestId : String) (acts : List Act) (s : AuditState) :
    (acts.foldl (AuditState.act requestId) s).pending.isSome = true ↔
      s.pending.isSome = true ∨ ∃ event errorCode, Act.setPendingEvent event errorCode ∈ acts := by
  induction acts generalizing s with
  | nil => simp
  | cons a acts ih =>
    rw [List.foldl_cons, ih]
    cases a with
    | receive chunk => simp [AuditState.act, (onReceive_kept s chunk).1]
    | setPendingEvent event errorCode =>
      refine ⟨fun _ => Or.inr ⟨event, errorCode, List.mem_cons_self⟩, fun _ => Or.inl rfl⟩
    | send m => simp [AuditState.act, AuditState.onSend]

variable {st : Settings} {env : AuditEnv} {scope : Scope} {pending : Pending} {b : Behaviour}

/-- A captured request leaves one line however it ends. -/
theorem lines_captured (hex : scope.path ∉ st.audit.excludePaths)
    (hc : decideCapture scope.method scope.path st.audit.level = true) :
    (auditMiddleware st env scope pending b).lines.length = 1 := by
  rw [auditMiddleware_logged hex hc]
  rfl

/-- Of the requests that are not captured, those that leave a refusal leave a line. -/
theorem lines_uncaptured (hex : scope.path ∉ st.audit.excludePaths)
    (hc : decideCapture scope.method scope.path st.audit.level = false) :
    (auditMiddleware st env scope pending b).lines.length = 1 ↔ LeavesEvent pending b := by
  have hp : (auditEnd env scope pending b).pending.isSome = true ↔ LeavesEvent pending b :=
    act_pending (auditId env scope) b.acts (.init pending)
  rw [auditMiddleware_refused hex hc, List.length_map, ← hp]
  cases (auditEnd env scope pending b).pending with
  | none => simp
  | some event => simp

theorem lines_le_one : (auditMiddleware st env scope pending b).lines.length ≤ 1 := by
  rcases audit_cases st scope with hex | ⟨hex, hc⟩ | ⟨hex, hc⟩
  · rw [auditMiddleware_excluded hex]
    exact Nat.zero_le 1
  · rw [auditMiddleware_refused hex hc, List.length_map]
    exact Option.length_toList_le
  · exact Nat.le_of_eq (lines_captured hex hc)

/-! ### The routes of the data plane -/

theorem dataRoutes_ns {r : Route} (hr : r ∈ dataRoutes) :
    r.segs.take 4 = [.lit "api", .lit "v1", .lit "ns", .param "ns"] := by
  revert r
  decide

/-- A path under `/api/v1/ns` is not one under `/api/v1/admin`. -/
theorem accepts_not_admin {r : Route} (hr : r ∈ dataRoutes) {m : Method} {path : String}
    (hacc : r.accepts m path = true) : "/api/v1/admin/".toList.isPrefixOf path.toList = false := by
  by_contra hadmin
  rw [Bool.not_eq_false, List.isPrefixOf_iff_prefix] at hadmin
  obtain ⟨rest, hrest⟩ := hadmin
  have hsplit : path.toList.splitOn '/' =
      [] :: "api".toList :: "v1".toList :: "admin".toList :: rest.splitOn '/' := by
    have hpath : path.toList =
        [] ++ '/' :: ("api".toList ++ '/' :: ("v1".toList ++ '/' :: ("admin".toList ++ '/' :: rest))) := by
      rw [← hrest]
      rfl
    rw [hpath, List.splitOn_append_cons_self, List.splitOn_append_cons_self, List.splitOn_append_cons_self,
      List.splitOn_append_cons_self]
    rfl
  have hsegs : r.segs = [.lit "api", .lit "v1", .lit "ns", .param "ns"] ++ r.segs.drop 4 := by
    rw [← dataRoutes_ns hr, List.take_append_drop]
  rw [Route.accepts, hsplit, hsegs] at hacc
  simp [Route.matchSegs] at hacc

/-- The path has a segment `publish` that is not its last. -/
def PublishInside (path : String) : Prop :=
  ∃ a b, a ≠ [] ∧ b ≠ [] ∧ path.toList.splitOn '/' = a ++ "publish".toList :: b

theorem decideCapture_write {r : Route} (hr : r ∈ dataRoutes) {m : Method} (hm : m ≠ .GET) {path : String}
    (hacc : r.accepts m path = true) : decideCapture (methodText m) path 1 = true ↔ ¬ PublishInside path := by
  have hw : methodWrites (methodText m) = true := by
    cases m with
    | GET => exact absurd rfl hm
    | _ => decide
  have hsep : '/' ∉ "publish".toList := by decide
  have hocc : Text.occurs "/publish/".toList path.toList = true ↔ PublishInside path := by
    have htext : "/publish/".toList = '/' :: ("publish".toList ++ ['/']) := by decide
    rw [htext]
    exact Text.occurs_between hsep
  unfold decideCapture
  rw [← hocc, if_neg Nat.one_ne_zero]
  dsimp only
  rw [accepts_not_admin hr hacc, hw]
  cases Text.occurs "/publish/".toList path.toList <;> decide

/-- At level 1 a request of the data plane that may write leaves an audit line exactly when no segment of
    its path but the last is `publish`, or a refusal is left. -/
theorem write_leaves_line (st : Settings) (env : AuditEnv) (hlevel : st.audit.level = 1) (r : Route)
    (hr : r ∈ dataRoutes) (scope : Scope) (m : Method) (hm : m ≠ .GET) (hmethod : scope.method = methodText m)
    (hacc : r.accepts m scope.path = true) (hex : scope.path ∉ st.audit.excludePaths) (pending : Pending)
    (b : Behaviour) :
    (auditMiddleware st env scope pending b).lines.length = 1 ↔
      ¬ PublishInside scope.path ∨ LeavesEvent pending b := by
  have hdec := decideCapture_write hr hm hacc
  rw [← hmethod, ← hlevel] at hdec
  cases hc : decideCapture scope.method scope.path st.audit.level with
  | true =>
    have hnot : ¬ PublishInside scope.path := hdec.mp hc
    exact ⟨fun _ => Or.inl hnot, fun _ => lines_captured hex hc⟩
  | false =>
    have hin : ¬ ¬ PublishInside scope.path := fun h => absurd (hdec.mpr h) (by simp [hc])
    rw [lines_uncaptured hex hc]
    exact ⟨Or.inr, fun h => h.resolve_left hin⟩

/-- The response 200 of an application that was authenticated. -/
def plainBehaviour : Behaviour := ⟨[.send (.start 200 []), .send (.body false)], false, some "app", some "x"⟩

theorem write_leaves_line_kv :
    (auditMiddleware {} plainEnv ⟨"PUT", "/api/v1/ns/app/kv/x", [], none⟩ none plainBehaviour).lines.length = 1 ↔
      ¬ PublishInside "/api/v1/ns/app/kv/x" ∨ LeavesEvent none plainBehaviour :=
  write_leaves_line {} plainEnv rfl (.underNs .PUT [.lit "kv", .param "key"]) (by decide)
    ⟨"PUT", "/api/v1/ns/app/kv/x", [], none⟩ .PUT (by decide) rfl (by decide) (by decide) none plainBehaviour

/-- A value written into the namespace `publish` leaves no line. -/
theorem write_into_publish_leaves_none :
    Route.underNs .PUT [.lit "kv", .param "key"] ∈ dataRoutes ∧
    (Route.underNs .PUT [.lit "kv", .param "key"]).accepts .PUT "/api/v1/ns/publish/kv/x" = true ∧
    "/api/v1/ns/publish/kv/x" ∉ ({} : Settings).audit.excludePaths ∧
    (auditMiddleware {} plainEnv ⟨"PUT", "/api/v1/ns/publish/kv/x", [], none⟩ none plainBehaviour).lines.length = 0 := by
  refine ⟨by decide, by decide, by decide, ?_⟩
  decide

end Redgw
