import Redgw.Audit.Receive
import Redgw.Theorems.Capture

/-! # The captured body

The middleware keeps the beginning of the request body, as far as the application receives it. How the server
cut the body into messages makes no difference. -/

namespace Redgw

/-! ### The application inside the middleware -/

/-- The application sees the same, and the middleware has seen what the application did. -/
structure SeenThrough (requestId : String) (pending : Pending) (s : Exchange) (t : Wrapped) : Prop where
  incoming : t.incoming = s.incoming
  received : t.received = s.received
  audit : t.audit = s.acts.foldl (AuditState.act requestId) (.init pending)

theorem receiveWrapper_eq (requestId : String) (s : AuditState) (m : ServerMessage) :
    s.receiveWrapper m = (m, m.acts.foldl (AuditState.act requestId) s) := by
  cases m <;> rfl

theorem seen_answer {requestId : String} {pending : Pending} (c : AppCall) (x : Unit) {s : Exchange} {t : Wrapped}
    (h : SeenThrough requestId pending s t) : (Exchange.answer c x s).1 = (Wrapped.answer requestId c x t).1 ∧
      SeenThrough requestId pending (Exchange.answer c x s).2 (Wrapped.answer requestId c x t).2 := by
  obtain ⟨hincoming, hreceived, haudit⟩ := h
  cases c with
  | receive =>
    simp only [Exchange.answer, Wrapped.answer, receiveWrapper_eq requestId, hincoming]
    refine ⟨rfl, rfl, congrArg (· ++ _) hreceived, ?_⟩
    rw [List.foldl_append, haudit]
  | setPendingEvent event errorCode =>
    refine ⟨rfl, hincoming, hreceived, ?_⟩
    simp only [Exchange.answer, Wrapped.answer, List.foldl_append, ← haudit, List.foldl_cons, List.foldl_nil]
    rfl
  | send m =>
    refine ⟨rfl, hincoming, hreceived, ?_⟩
    simp only [Exchange.answer, Wrapped.answer, List.foldl_append, ← haudit, List.foldl_cons, List.foldl_nil]
    rfl

theorem App.calls (app : App) : app.Calls fun _ => True := by
  induction app with
  | pure a => trivial
  | raise e => trivial
  | call c k ih => exact ⟨trivial, ih⟩

/-- Inside the middleware the application ends as without it. -/
theorem wrapped_simulates (app : App) (requestId : String) (pending : Pending) (msgs : List ServerMessage) :
    (app.exchange msgs).1 = (app.wrapped requestId pending msgs).1 ∧
      SeenThrough requestId pending (app.exchange msgs).2 (app.wrapped requestId pending msgs).2 := by
  exact Prog.run_simulates (fun c _ x s t h => seen_answer c x h) (App.calls app) _ ⟨rfl, rfl, rfl⟩

/-! ### What is collected -/

def Act.chunk : Act → Bytes
  | .receive chunk => chunk
  | _ => []

/-- The first bytes of `body` are collected, and nothing more once they are cut off. -/
structure Collects (s : AuditState) (body : Bytes) : Prop where
  body : s.body = body.take maxCaptureBody
  full : s.truncated = true → s.body.length = maxCaptureBody

/-- As much of the message is collected as there is room for. -/
theorem onReceive_body {s : AuditState} (hfull : s.truncated = true → s.body.length = maxCaptureBody)
    (hle : s.body.length ≤ maxCaptureBody) (chunk : Bytes) :
    (s.onReceive chunk).body = s.body ++ chunk.take (maxCaptureBody - s.body.length) ∧
      ((s.onReceive chunk).truncated = true → (s.onReceive chunk).body.length = maxCaptureBody) := by
  unfold AuditState.onReceive
  split
  · rename_i hskip
    refine ⟨?_, hfull⟩
    rcases Bool.or_eq_true _ _ ▸ hskip with hempty | htruncated
    · rw [List.isEmpty_iff.mp hempty, List.take_nil, List.append_nil]
    · rw [hfull htruncated, Nat.sub_self, List.take_zero, List.append_nil]
  · rename_i hgo
    dsimp only
    split
    · rename_i hroom
      refine ⟨by rw [List.take_of_length_le hroom], fun htruncated => ?_⟩
      exact absurd (Bool.or_eq_true _ _ ▸ Or.inr htruncated) hgo
    · rename_i hover
      refine ⟨rfl, fun _ => ?_⟩
      rw [List.length_append, List.length_take]
      omega

theorem collects_onReceive {s : AuditState} {body : Bytes} (h : Collects s body) (chunk : Bytes) :
    Collects (s.onReceive chunk) (body ++ chunk) := by
  obtain ⟨hbody, hfull⟩ := h
  have hlength : s.body.length = min maxCaptureBody body.length := by rw [hbody, List.length_take]
  have hroom : maxCaptureBody - s.body.length = maxCaptureBody - body.length := by omega
  obtain ⟨hstep, hfull'⟩ := onReceive_body hfull (by omega) chunk
  refine ⟨?_, hfull'⟩
  rw [hstep, hroom, hbody, List.take_append]

theorem collects_act {s : AuditState} {body : Bytes} (h : Collects s body) (requestId : String) (a : Act) :
    Collects (AuditState.act requestId s a) (body ++ a.chunk) := by
  cases a with
  | receive chunk => exact collects_onReceive h chunk
  | setPendingEvent event errorCode => exact ⟨h.body.trans (by simp [Act.chunk]), h.full⟩
  | send m => exact ⟨h.body.trans (by simp [Act.chunk]), h.full⟩

theorem collects_init (pending : Pending) : Collects (.init pending) [] :=
  ⟨rfl, fun h => by cases h⟩

theorem collects_foldl (requestId : String) (acts : List Act) {s : AuditState} {body : Bytes} (h : Collects s body) :
    Collects (acts.foldl (AuditState.act requestId) s) (body ++ acts.flatMap Act.chunk) := by
  induction acts generalizing s body with
  | nil =>
    rw [List.flatMap_nil, List.append_nil]
    exact h
  | cons a acts ih =>
    rw [List.foldl_cons, List.flatMap_cons, ← List.append_assoc]
    exact ih (collects_act h requestId a)

/-- What the application has received so far, message by message. -/
def Exchange.Chunks (s t : Exchange) : Prop :=
  ∃ ms, t.received = s.received ++ ms ∧
    t.acts.flatMap Act.chunk = s.acts.flatMap Act.chunk ++ ms.flatMap ServerMessage.chunk

theorem chunks_answer (c : AppCall) (x : Unit) (s : Exchange) : s.Chunks (Exchange.answer c x s).2 := by
  cases c with
  | receive =>
    refine ⟨[(nextMessage s.incoming).1], rfl, ?_⟩
    simp only [Exchange.answer, List.flatMap_append, List.flatMap_cons, List.flatMap_nil]
    cases (nextMessage s.incoming).1 <;> rfl
  | setPendingEvent event errorCode =>
    exact ⟨[], (List.append_nil _).symm, by simp [Exchange.answer, Act.chunk]⟩
  | send m => exact ⟨[], (List.append_nil _).symm, by simp [Exchange.answer, Act.chunk]⟩

theorem chunks_trans {s t u : Exchange} (h : s.Chunks t) (h' : t.Chunks u) : s.Chunks u := by
  obtain ⟨ms, hreceived, hchunks⟩ := h
  obtain ⟨ms', hreceived', hchunks'⟩ := h'
  refine ⟨ms ++ ms', ?_, ?_⟩
  · rw [hreceived', hreceived, List.append_assoc]
  · rw [hchunks', hchunks, List.flatMap_append, List.append_assoc]

/-- The chunks that the middleware sees are those of the messages that the application received. -/
theorem exchange_chunks (app : App) (msgs : List ServerMessage) :
    (app.exchange msgs).2.acts.flatMap Act.chunk = (app.exchange msgs).2.received.flatMap ServerMessage.chunk := by
  have hrun : Exchange.Chunks ⟨msgs, [], []⟩ (app.exchange msgs).2 := by
    unfold App.exchange
    exact Prog.run_keeps (K := Exchange.Chunks) (fun s => ⟨[], (List.append_nil _).symm, (List.append_nil _).symm⟩) (fun _ _ _ => chunks_trans)
      (fun c _ _ s => chunks_answer c () s) (App.calls app) _
  obtain ⟨ms, hreceived, hchunks⟩ := hrun
  rw [hreceived, hchunks]
  rfl

/-! ### Every way to cut the body -/

/-- The application receives all that the server sent, and nothing after it. -/
def App.ReadsAll (app : App) (msgs : List ServerMessage) : Prop := (app.exchange msgs).2.received = msgs

def bodyOf (msgs : List ServerMessage) : Bytes := msgs.flatMap ServerMessage.chunk

def Record.value (line : Record) : Option Nat × Option String × Option String :=
  (line.valueSize, line.valueHash, line.valueType)

/-- What the line of a request tells of its body. -/
def collected (st : Settings) (scope : Scope) (body : Bytes) : Bytes :=
  if decideCapture scope.method scope.path st.audit.level then body.take maxCaptureBody else []

/-- The value of a line depends on the collected body only. -/
theorem value_line {st : Settings} {env : AuditEnv} {scope : Scope} {pending : Pending} {b : Behaviour} {line : Record}
    (h : line ∈ (auditMiddleware st env scope pending b).lines) : line.value =
      (recordOf st env scope "" ("", none) b 0 (collected st scope (b.acts.flatMap Act.chunk))).value := by
  have hbody := (collects_foldl (auditId env scope) b.acts (collects_init pending)).body
  rw [List.nil_append] at hbody
  unfold collected
  rcases audit_cases st scope with hex | ⟨hex, hc⟩ | ⟨hex, hc⟩
  · rw [auditMiddleware_excluded hex] at h
    cases h
  · rw [auditMiddleware_refused hex hc] at h
    obtain ⟨event, -, rfl⟩ := List.mem_map.mp h
    rw [hc]
    rfl
  · rw [auditMiddleware_logged hex hc] at h
    rw [List.mem_singleton.mp h, if_pos hc, ← hbody]
    rfl

theorem value_congr (st : Settings) {env env' : AuditEnv} (hsha : env'.sha256 = env.sha256) (scope : Scope) (b b' : Behaviour)
    (body : Bytes) : (recordOf st env' scope "" ("", none) b' 0 body).value =
      (recordOf st env scope "" ("", none) b 0 body).value := by
  unfold Record.value recordOf
  rw [hsha]

/-- Inside the middleware an application that reads all of the body gets the messages of the server as they are,
    and its beginning is collected. However the same body is cut otherwise, and whatever reads it, the lines have
    the same value. -/
theorem capture_ignores_cuts (st : Settings) (scope : Scope) (requestId : String) (pending : Pending) (app : App)
    (msgs : List ServerMessage) (hread : app.ReadsAll msgs) :
    (app.wrapped requestId pending msgs).1 = (app.exchange msgs).1 ∧
    (app.wrapped requestId pending msgs).2.received = msgs ∧
    (app.wrapped requestId pending msgs).2.audit.body = (bodyOf msgs).take maxCaptureBody ∧
    ∀ (app' : App) (msgs' : List ServerMessage), app'.ReadsAll msgs' → bodyOf msgs' = bodyOf msgs →
      ∀ (env env' : AuditEnv) (pending' : Pending) (clientId clientId' pathKey pathKey' : Option String),
        env'.sha256 = env.sha256 →
        ∀ line ∈ (auditMiddleware st env scope pending (app.behaviour msgs clientId pathKey)).lines,
          ∀ line' ∈ (auditMiddleware st env' scope pending' (app'.behaviour msgs' clientId' pathKey')).lines,
            line'.value = line.value := by
  obtain ⟨hends, -, hreceived, haudit⟩ := wrapped_simulates app requestId pending msgs
  refine ⟨hends.symm, hreceived.trans hread, ?_, ?_⟩
  · rw [haudit, (collects_foldl requestId _ (collects_init _)).body, List.nil_append,
      exchange_chunks, hread]
    rfl
  · intro app' msgs' hread' hsame env env' pending' clientId clientId' pathKey pathKey' hsha line hline line' hline'
    have hbody : ∀ (app : App) (msgs : List ServerMessage) (clientId pathKey : Option String), app.ReadsAll msgs →
        (app.behaviour msgs clientId pathKey).acts.flatMap Act.chunk = bodyOf msgs := by
      intro app msgs clientId pathKey h
      exact (exchange_chunks app msgs).trans (congrArg bodyOf h)
    rw [value_line hline, value_line hline', hbody app msgs clientId pathKey hread, hbody app' msgs' clientId' pathKey' hread',
      hsame]
    exact value_congr st hsha scope _ _ _

/-- An application that takes two messages and answers. -/
def twoMessages : App :=
  .call .receive fun _ => .call .receive fun _ => .call (.send (.start 200 [])) fun _ => .pure ()

/-- A body that is longer than what is collected, in two cuts, one of them with an empty chunk. -/
def longFirst : List ServerMessage := [.request (some (List.replicate maxCaptureBody 0)) true, .request (some [1, 2]) false]

def longLast : List ServerMessage := [.request (some []) true, .request (some (List.replicate maxCaptureBody 0 ++ [1, 2])) false]

theorem capture_ignores_cuts_two :
    (twoMessages.wrapped "id" none longFirst).2.received = longFirst ∧
    (twoMessages.wrapped "id" none longFirst).2.audit.body = List.replicate maxCaptureBody 0 ∧
    (twoMessages.wrapped "id" none longLast).2.audit.body = List.replicate maxCaptureBody 0 ∧
    ∀ env : AuditEnv,
      ∀ line ∈ (auditMiddleware {} env ⟨"PUT", "/api/v1/ns/app/kv/x", [], none⟩ none (twoMessages.behaviour longFirst none none)).lines,
        ∀ line' ∈ (auditMiddleware {} env ⟨"PUT", "/api/v1/ns/app/kv/x", [], none⟩ none (twoMessages.behaviour longLast none none)).lines,
          line'.value = line.value := by
  have hfirst : bodyOf longFirst = List.replicate maxCaptureBody 0 ++ [1, 2] := by
    simp only [bodyOf, longFirst, List.flatMap_cons, List.flatMap_nil, ServerMessage.chunk, Option.getD_some, List.append_nil]
  have hlast : bodyOf longLast = List.replicate maxCaptureBody 0 ++ [1, 2] := by
    simp only [bodyOf, longLast, List.flatMap_cons, List.flatMap_nil, ServerMessage.chunk, Option.getD_some, List.append_nil,
      List.nil_append]
  have htaken : (List.replicate maxCaptureBody (0 : UInt8) ++ [1, 2]).take maxCaptureBody = List.replicate maxCaptureBody 0 :=
    List.take_left' (List.length_replicate ..)
  obtain ⟨-, hreceived, hbody, hvalues⟩ :=
    capture_ignores_cuts {} ⟨"PUT", "/api/v1/ns/app/kv/x", [], none⟩ "id" none twoMessages longFirst rfl
  obtain ⟨-, -, hbody', -⟩ :=
    capture_ignores_cuts {} ⟨"PUT", "/api/v1/ns/app/kv/x", [], none⟩ "id" none twoMessages longLast rfl
  rw [hfirst, htaken] at hbody
  rw [hlast, htaken] at hbody'
  exact ⟨hreceived, hbody, hbody', fun env =>
    hvalues twoMessages longLast rfl (hlast.trans hfirst.symm) env env none none none none none rfl⟩

end Redgw
