import Redgw.Api
import Redgw.Stack

/-! # When a request is counted

The metrics middleware counts a request at each final body message, with the status of the last
response start before it. -/

namespace Redgw

/-! ### What the wrapper of `send` records -/

/-- The statuses recorded for the messages, when `status` is kept at first. -/
def recordedFrom : Nat → List Message → List Nat
  | _, [] => []
  | _, .start status _ :: ms => recordedFrom status ms
  | status, .body true :: ms => recordedFrom status ms
  | status, .body false :: ms => status :: recordedFrom status ms

/-- The status kept after the messages. -/
def statusAfter (status : Nat) (ms : List Message) : Nat := (ms.filterMap Message.status?).getLastD status

theorem statusAfter_start (status s : Nat) (headers : List (Bytes × Bytes)) (ms : List Message) :
    statusAfter status (.start s headers :: ms) = statusAfter s ms := by
  unfold statusAfter
  rw [List.filterMap_cons_some (show Message.status? (.start s headers) = some s from rfl), List.getLastD_cons]

theorem statusAfter_body (status : Nat) (more : Bool) (ms : List Message) :
    statusAfter status (.body more :: ms) = statusAfter status ms := rfl

theorem foldl_act (acts : List Act) (s : MetricsState) :
    acts.foldl MetricsState.act s =
      (acts.filterMap fun | .send m => some m | _ => none).foldl MetricsState.onSend s := by
  induction acts generalizing s with
  | nil => rfl
  | cons a acts ih => cases a <;> exact ih _

theorem foldl_onSend (ms : List Message) (s : MetricsState) :
    (ms.foldl MetricsState.onSend s).sent = s.sent ++ ms ∧
      (ms.foldl MetricsState.onSend s).recorded = s.recorded ++ recordedFrom s.statusCode ms := by
  induction ms generalizing s with
  | nil => simp [recordedFrom]
  | cons m ms ih =>
    obtain ⟨hsent, hrec⟩ := ih (s.onSend m)
    rw [List.foldl_cons, hsent, hrec]
    cases m with
    | start status headers => simp [MetricsState.onSend, recordedFrom]
    | body more => cases more <;> simp [MetricsState.onSend, recordedFrom]

/-- The middleware passes every message on, in order. -/
theorem metricsMiddleware_sent (b : Behaviour) : (metricsMiddleware b).sent = b.sends := by
  unfold metricsMiddleware
  rw [foldl_act, (foldl_onSend _ _).1]
  rfl

theorem metricsMiddleware_recorded (b : Behaviour) : (metricsMiddleware b).recorded = recordedFrom 500 b.sends := by
  unfold metricsMiddleware
  rw [foldl_act, (foldl_onSend _ _).2]
  rfl

theorem recordedFrom_eq_nil {status : Nat} {ms : List Message} :
    recordedFrom status ms = [] ↔ Message.body false ∉ ms := by
  induction ms generalizing status with
  | nil => simp [recordedFrom]
  | cons m ms ih =>
    cases m with
    | start s headers => simp [recordedFrom, ih]
    | body more => cases more <;> simp [recordedFrom, ih]

/-- One status is recorded when one final body message is sent, namely the status kept there. -/
theorem recordedFrom_eq_singleton {status s : Nat} {ms : List Message} :
    recordedFrom status ms = [s] ↔ ∃ pre post, ms = pre ++ .body false :: post ∧
      .body false ∉ pre ∧ .body false ∉ post ∧ s = statusAfter status pre := by
  induction ms generalizing status with
  | nil => simp [recordedFrom]
  | cons m ms ih =>
    have hskip : ∀ status', recordedFrom status (m :: ms) = recordedFrom status' ms → m ≠ .body false →
        (∀ pre, statusAfter status (m :: pre) = statusAfter status' pre) →
        (recordedFrom status (m :: ms) = [s] ↔ ∃ pre post, m :: ms = pre ++ .body false :: post ∧
          .body false ∉ pre ∧ .body false ∉ post ∧ s = statusAfter status pre) := by
      intro status' hrec hm hafter
      rw [hrec, ih]
      constructor
      · rintro ⟨pre, post, rfl, hpre, hpost, rfl⟩
        refine ⟨m :: pre, post, rfl, ?_, hpost, (hafter pre).symm⟩
        rw [List.mem_cons, not_or]
        exact ⟨Ne.symm hm, hpre⟩
      · rintro ⟨pre, post, heq, hpre, hpost, rfl⟩
        cases pre with
        | nil => exact absurd (List.cons.inj heq).1 hm
        | cons x pre =>
          obtain ⟨rfl, rfl⟩ := List.cons.inj heq
          exact ⟨pre, post, rfl, fun h => hpre (List.mem_cons_of_mem _ h), hpost, hafter pre⟩
    cases m with
    | start s' headers => exact hskip s' rfl (by simp) (statusAfter_start status s' headers)
    | body more =>
      cases more with
      | true => exact hskip status rfl (by simp) (statusAfter_body status true)
      | false =>
        rw [recordedFrom, List.cons.injEq, recordedFrom_eq_nil]
        constructor
        · rintro ⟨rfl, hpost⟩
          exact ⟨[], ms, rfl, List.not_mem_nil, hpost, rfl⟩
        · rintro ⟨pre, post, heq, hpre, hpost, rfl⟩
          cases pre with
          | nil =>
            obtain ⟨-, rfl⟩ := List.cons.inj heq
            exact ⟨rfl, hpost⟩
          | cons x pre =>
            obtain ⟨rfl, -⟩ := List.cons.inj heq
            exact absurd List.mem_cons_self hpre

/-! ### What the client receives -/

theorem receivedStatus_eq (b : Behaviour) :
    receivedStatus b =
      ((b.sends.filterMap Message.status?).head?).or (if b.raised then some 500 else none) := by
  have hstatuses : (b.sends.map secureMessage).filterMap Message.status? = b.sends.filterMap Message.status? := by
    rw [List.filterMap_map]
    exact List.filterMap_congr fun m _ => status_secureMessage m
  unfold receivedStatus delivered serverErrorMiddleware
  rw [metricsMiddleware_sent, hstatuses]
  cases hs : b.sends.filterMap Message.status? with
  | nil => cases b.raised <;> simp [hs, hstatuses, Message.status?]
  | cons s ss => simp [hs, hstatuses]

/-- The request is counted once, with the status that the client receives. -/
def CountedOnce (b : Behaviour) : Prop :=
  ∃ status, (metricsMiddleware b).recorded = [status] ∧ receivedStatus b = some status

/-- One final body message is sent, and the last response start before it carries the status of the
    first one; where none is sent, the application raises after it and the status is 500. -/
def CompletesOnce (b : Behaviour) : Prop :=
  ∃ pre post, b.sends = pre ++ .body false :: post ∧ .body false ∉ pre ∧ .body false ∉ post ∧
    ((b.sends.filterMap Message.status?).head?).or (if b.raised then some 500 else none) =
      some ((pre.filterMap Message.status?).getLastD 500)

theorem counted_iff_completes (b : Behaviour) : CountedOnce b ↔ CompletesOnce b := by
  unfold CountedOnce CompletesOnce
  rw [receivedStatus_eq, metricsMiddleware_recorded]
  constructor
  · rintro ⟨status, hrec, hreceived⟩
    obtain ⟨pre, post, hms, hpre, hpost, rfl⟩ := recordedFrom_eq_singleton.mp hrec
    exact ⟨pre, post, hms, hpre, hpost, hreceived⟩
  · rintro ⟨pre, post, hms, hpre, hpost, hreceived⟩
    exact ⟨_, recordedFrom_eq_singleton.mpr ⟨pre, post, hms, hpre, hpost, rfl⟩, hreceived⟩

/-- Of the applications that start one response and finish it at most once, those that finish it are
    counted. -/
theorem counted_iff_finishes {b : Behaviour} {status : Nat} {headers : List (Bytes × Bytes)} {parts : List Bool}
    (hb : b.sends = .start status headers :: parts.map .body) (hone : parts.count false ≤ 1) :
    CountedOnce b ↔ false ∈ parts := by
  have hstatuses : b.sends.filterMap Message.status? = [status] := by
    rw [hb, List.filterMap_cons_some (show Message.status? (.start status headers) = some status from rfl)]
    have : (parts.map Message.body).filterMap Message.status? = [] := by
      rw [List.filterMap_eq_nil_iff]
      intro m hm
      obtain ⟨more, -, rfl⟩ := List.mem_map.mp hm
      rfl
    rw [this]
  have hfrom : ∀ parts : List Bool, recordedFrom status (parts.map .body) = List.replicate (parts.count false) status := by
    intro parts
    induction parts with
    | nil => rfl
    | cons more parts ih => cases more <;> simp [recordedFrom, ih, List.replicate_succ]
  have hrec : recordedFrom 500 b.sends = List.replicate (parts.count false) status := by
    rw [hb]
    exact hfrom parts
  unfold CountedOnce
  rw [metricsMiddleware_recorded, receivedStatus_eq, hstatuses, hrec, ← List.count_pos_iff]
  constructor
  · rintro ⟨s, hs, -⟩
    have := congrArg List.length hs
    rw [List.length_replicate, List.length_singleton] at this
    omega
  · intro hpos
    have hc : parts.count false = 1 := by omega
    exact ⟨status, by rw [hc]; rfl, rfl⟩

/-- A request of the data plane is counted unless the server failed it. -/
theorem request_counted_iff (q : Request) (result : Except Exn Json) (pending : Pending) :
    CountedOnce (behaviourOf q result pending) ↔ ∀ e, result ≠ .error (.redis e) := by
  by_cases hr : ∃ e, result = .error (.redis e)
  · obtain ⟨e, rfl⟩ := hr
    refine ⟨?_, fun h => absurd rfl (h e)⟩
    rintro ⟨status, hrec, -⟩
    rw [metricsMiddleware_recorded] at hrec
    cases pending <;> exact absurd hrec.symm (List.cons_ne_nil _ _)
  · have hsends : (behaviourOf q result pending).sends = .start (Response.of result).status [] :: [false].map .body := by
      cases result with
      | ok j => cases pending <;> rfl
      | error e =>
        cases e with
        | redis e => exact absurd ⟨e, rfl⟩ hr
        | http _ _ _ => cases pending <;> rfl
        | unprocessable => cases pending <;> rfl
    rw [counted_iff_finishes hsends (by simp)]
    exact ⟨fun _ e he => hr ⟨e, he⟩, fun _ => List.mem_singleton_self _⟩

/-- An application that raises before it sends anything is answered with 500 and counted nowhere. -/
theorem raised_not_counted :
    receivedStatus ⟨[], true, none, none⟩ = some 500 ∧ ¬CountedOnce ⟨[], true, none, none⟩ := by
  refine ⟨rfl, ?_⟩
  rintro ⟨status, hrec, -⟩
  exact absurd hrec.symm (List.cons_ne_nil _ _)

end Redgw
