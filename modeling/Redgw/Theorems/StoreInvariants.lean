import Redgw.Redis.Typing
import Redgw.Theorems.Isolation
import Redgw.Theorems.Jobs

/-! # What every reachable store satisfies

Whatever jobs run side by side, each storage key holds a value of the type of its prefix. The values that
they store pass the size check, unless a request stores one that is not checked. -/

namespace Redgw
open Redis Prog

/-! ### Types -/

/-- Storage keys have the types of their prefixes, and the gateway's own keys hold texts. -/
def KeyType (engine : Engine) (κ : Kind) (k : String) : Prop := StoredAs engine κ k ∨ κ = .str ∧ Own k

theorem keyType_one (engine : Engine) : OneType (KeyType engine) := by
  rintro κ κ' k (h | ⟨rfl, h⟩) (h' | ⟨rfl, h'⟩)
  · exact h.unique h'
  · exact absurd h' h.not_own
  · exact absurd h h'.not_own
  · rfl

/-- At time `now` some command of the call meets a value of another type. -/
def Call.Mistyped (R : Server) (now : Nat) (s : Store) : Call → Prop
  | .redis c => c.Mistyped R now s
  | .fireMetric reason => .error wrongType ∈ (R.transact now (recordAuthFailure reason) s).1
  | .setPendingEvent _ _ => False

/-- The commands of the call are for the types of their keys. -/
def Call.Fits (engine : Engine) : Call → Prop
  | .redis c => c.Fits (KeyType engine)
  | .fireMetric reason => (Cmd.multi (recordAuthFailure reason)).Fits (KeyType engine)
  | .setPendingEvent _ _ => True

section Types
variable {st : Settings} {R : Server}

theorem OwnWrite.fits {engine : Engine} {k : String} {c : KeyCmd} (h : OwnWrite k c) :
    ∃ κ, KeyType engine κ k ∧ c.For κ := ⟨.str, Or.inr ⟨rfl, h.own⟩, Or.inr h.kind⟩

theorem fits_fireMetric {engine : Engine} (reason : String) : (Call.fireMetric reason).Fits engine :=
  fun x hx => (OwnWrite.book (recordAuthFailure_metricsWrite x hx).book).fits

theorem fits_of_sends {engine : Engine} {checked : Prop} {c : Call} (h : Sends engine (Suitable st checked) c) :
    c.Fits engine := by
  have hfor : ∀ {κ : Kind} {c : KeyCmd}, Suitable st checked κ c → c.For κ := fun h => KeyCmd.suits_kind h.1
  cases c with
  | redis c =>
    cases c with
    | «at» k c =>
      obtain ⟨κ, hk, hc⟩ := h
      exact ⟨κ, Or.inl hk, hfor hc⟩
    | eval k body =>
      obtain ⟨κ, hk, hb⟩ := h
      exact ⟨κ, Or.inl hk, hb.mono fun _ => hfor⟩
    | gather g ks => exact fun k hk => Or.inl (h k hk)
    | del ks =>
      intro k hk
      obtain ⟨κ, hκ, -⟩ := h k hk
      exact ⟨κ, Or.inl hκ⟩
    | publish channel message => trivial
    | multi cs =>
      intro x hx
      obtain ⟨κ, hk, hc⟩ := h x hx
      exact ⟨κ, Or.inl hk, hfor hc⟩
  | setPendingEvent event errorCode => trivial
  | fireMetric reason => exact fits_fireMetric reason

theorem JobCall.fits {checked : Prop} {c : Call} (h : JobCall st checked c) : c.Fits st.engine := by
  rcases h with (h | h) | h
  · exact fits_of_sends h
  · rcases c with ((⟨k, c⟩ | _ | _ | _ | _ | _) | _ | _)
    case redis.at =>
      obtain ⟨⟨w, rfl⟩, hc⟩ := h
      refine ⟨.str, Or.inr ⟨rfl, Or.inl (internal_origin w)⟩, ?_⟩
      rcases hc with rfl | rfl
      · exact Or.inr rfl
      · exact Or.inl rfl
    all_goals exact h.elim
  · rcases c with ((⟨k, c⟩ | _ | _ | _ | _ | _) | _ | reason)
    case redis.at => exact OwnWrite.fits h
    case fireMetric => exact fits_fireMetric reason
    all_goals exact h.elim

theorem execStore_typed (hR : R.Typed) {c : Call} (hc : c.Fits st.engine) (now : Nat) {s : Store}
    (hs : s.Typed (KeyType st.engine)) :
    ¬c.Mistyped R now s ∧ (execStore R c now s).2.Typed (KeyType st.engine) := by
  cases c with
  | redis c => exact ⟨hR.not_mistyped (keyType_one _) hc hs, hR.exec_keeps (keyType_one _) hc hs⟩
  | setPendingEvent event errorCode => exact ⟨id, hs⟩
  | fireMetric reason => exact hR.transact_keeps (keyType_one _) hc hs

theorem typeReplies (hR : R.Typed) {s : Store} (hs : s.Typed (KeyType st.engine)) (c : Call) (now : Nat) :
    TypeReplies st.engine c (execStore R c now s).1 := by
  rcases c with ((⟨k, c⟩ | _ | _ | _ | _ | _) | _ | _)
  case redis.at =>
    cases c
    case type => exact fun κ hκ => hR.type κ now (s k) (hs κ k (Or.inl hκ))
    all_goals trivial
  all_goals trivial

/-- In every reachable store the keys are typed, and the jobs issue calls of jobs. -/
theorem gateway_inv (hR : R.Typed) {acts : List (Pool.Act Job Nat)} {t : Gateway} (h : Gateway.run st R acts = some t) :
    t.Inv (TypeReplies st.engine) (JobCall st False) (Store.Typed (KeyType st.engine)) := by
  have keep : ∀ c, JobCall st False c → ∀ now s, s.Typed (KeyType st.engine) →
      (execStore R c now s).2.Typed (KeyType st.engine) := fun c hc now s hs => (execStore_typed hR hc.fits now hs).2
  have good : ∀ c, JobCall st False c → ∀ now s, s.Typed (KeyType st.engine) →
      TypeReplies st.engine c (execStore R c now s).1 := fun c _ now s hs => typeReplies hR hs c now
  exact Pool.inv_run keep good (fun j _ => j.calls.mono fun c hc => hc.mono False.elim) (Store.empty_typed _) h

theorem jobCall_of_run (hR : R.Typed) {acts : List (Pool.Act Job Nat)} {t : Gateway} (h : Gateway.run st R acts = some t)
    {i : Nat} {c : Call} {k : c.Ret → Handler (Option Response)} (hi : t.programs[i]? = some (.call c k)) :
    JobCall st False c := ((gateway_inv hR h).programs _ (List.mem_of_getElem? hi)).1

/-- In every reachable store the storage keys hold values of the types of their prefixes, and no command
    that a job has yet to send meets a value of another type. -/
theorem keys_typed (hR : R.Typed) {acts : List (Pool.Act Job Nat)} {t : Gateway} (h : Gateway.run st R acts = some t) :
    (∀ κ k, StoredAs st.engine κ k → HasKind κ (t.state k)) ∧
    ∀ (i : Nat) (c : Call) (k : c.Ret → Handler (Option Response)), t.programs[i]? = some (.call c k) →
      ∀ now, ¬c.Mistyped R now t.state := by
  have hstate := (gateway_inv hR h).state
  refine ⟨fun κ k hk => hstate κ k (Or.inl hk), fun i c k hi now => ?_⟩
  exact (execStore_typed hR (jobCall_of_run hR h hi).fits now hstate).1

end Types

def pushJob : Job := .data (plainRequest appClient "app" (.queue (.pushQueue "jobs" ⟨"job", .right, none⟩)))

theorem keys_typed_push : ∃ t, Gateway.run {} reference [.start pushJob, .resume 0 0] = some t ∧
    (∀ κ k, StoredAs .python κ k → HasKind κ (t.state k)) ∧
    ∀ (i : Nat) (c : Call) (k : c.Ret → Handler (Option Response)), t.programs[i]? = some (.call c k) →
      ∀ now, ¬c.Mistyped reference now t.state := by
  obtain ⟨t, h⟩ : ∃ t, Gateway.run {} reference [.start pushJob, .resume 0 0] = some t := ⟨_, rfl⟩
  exact ⟨t, h, keys_typed reference_typed h⟩

/-! ### Sizes -/

/-- The texts of the origin that the request would leave pass the size check. -/
def Seen.OriginFits (st : Settings) (v : Seen) : Prop :=
  ∀ result pending, ∀ x ∈ (v.audit st (v.behaviour result pending)).origin, ∀ t ∈ x.2.texts, SizeOk st t

/-- What the gateway would store for itself with the job, but for integers and the sum of the latencies, passes the
    size check: the origin of a write, or the process id in the lock of the status monitor. -/
def Job.RecordFits (st : Settings) : Job → Prop
  | .data q => q.seen.OriginFits st
  | .admin q => q.seen.OriginFits st
  | .statusTick pid => SizeOk st pid

section Sizes
variable {st : Settings} {R : Server}

/-- The texts under the key pass the size check; the sum of the latencies is a number that Redis renders. -/
def Sized (st : Settings) (k : String) (e : Option Entry) : Prop := k ≠ latencySumKey → ∀ t ∈ textsOf e, SizeOk st t

/-- The command brings texts of allowed sizes to a key whose texts count. -/
def BringsSized (st : Settings) (k : String) (c : KeyCmd) : Prop :=
  k ≠ latencySumKey → (∀ delta, c ≠ .incrbyfloat delta) ∧ ∀ t ∈ c.texts, SizeOk st t

theorem utf8_ascii {s : List Char} (h : ∀ c ∈ s, c.utf8Size = 1) : (s.flatMap String.utf8EncodeChar).length = s.length := by
  induction s with
  | nil => rfl
  | cons c s ih =>
    rw [List.flatMap_cons, List.length_append, String.length_utf8EncodeChar, h c List.mem_cons_self,
      ih fun x hx => h x (List.mem_cons_of_mem _ hx), List.length_cons]
    omega

theorem digit_utf8Size {c : Char} (h : c.isDigit = true) : c.utf8Size = 1 := by
  simp only [Char.isDigit, ge_iff_le, Bool.and_eq_true, decide_eq_true_eq] at h
  exact Char.utf8Size_eq_one_iff.mpr (UInt32.le_trans h.2 (by decide))

/-- A 64-bit integer has at most 20 characters. -/
theorem utf8_toString {n : Int} (h : int64 n = true) : (utf8 (toString n)).length ≤ 20 := by
  have hdigits : ∀ m : Nat, ∀ c ∈ Nat.toDigits 10 m, c.utf8Size = 1 := fun m c hc =>
    digit_utf8Size (Text.isDigit_of_mem hc)
  have hlength : ∀ m : Nat, m ≤ 9223372036854775808 → (Nat.toDigits 10 m).length ≤ 19 := fun m hm =>
    (Nat.length_toDigits_le_iff (by decide) (by decide)).mpr (hm.trans_lt (by decide))
  simp only [int64, decide_eq_true_eq] at h
  unfold utf8
  cases n with
  | ofNat m =>
    rw [Text.toString_ofNat, utf8_ascii (hdigits m)]
    have hm : m ≤ 9223372036854775808 := by
      have hint : ((m : Nat) : Int) ≤ 9223372036854775807 := h.2
      omega
    exact (hlength m hm).trans (by decide)
  | negSucc m =>
    have hascii : ∀ c ∈ '-' :: Nat.toDigits 10 (m + 1), c.utf8Size = 1 := by
      intro c hc
      rcases List.mem_cons.mp hc with rfl | hc
      · decide
      · exact hdigits _ c hc
    rw [Text.toString_negSucc, utf8_ascii hascii, List.length_cons]
    have hm : m + 1 ≤ 9223372036854775808 := by omega
    have := hlength (m + 1) hm
    omega

theorem onKey_sized (hR : R.Stores) (hM : 20 ≤ st.defaults.maxValueSize) {now : Nat} (k : String) (c : KeyCmd)
    (hc : BringsSized st k c) (e : Option Entry) (he : Sized st k e) : Sized st k (R.onKey c now e).2 := by
  intro hk t ht
  obtain ⟨hsum, htexts⟩ := hc hk
  rcases hR.texts c now e hsum t ht with h | h | ⟨n, hn, rfl⟩
  · exact he hk t h
  · exact htexts t h
  · exact (utf8_toString hn).trans hM

theorem brings_of_suitable {κ : Kind} {c : KeyCmd} (h : Suitable st True κ c) (k : String) : BringsSized st k c :=
  fun _ => ⟨KeyCmd.suits_sum h.1, h.2 trivial⟩

theorem MetricsWrite.brings {k : String} {c : KeyCmd} (h : MetricsWrite k c) : BringsSized st k c := by
  intro hk
  cases h with
  | count w => exact ⟨fun delta hd => (by cases hd), fun t ht => (by cases ht)⟩
  | latency delta => exact absurd rfl hk

/-- An origin is one text. -/
theorem storeOrigin_texts {env : AuditEnv} {scope : Scope} {requestId : String} {b : Behaviour} {status : Nat} :
    ∀ x ∈ storeOrigin st env scope requestId b status,
      (∀ delta, x.2 ≠ .incrbyfloat delta) ∧ ∀ t ∈ x.2.texts, t = originValue env requestId b := by
  intro x hx
  unfold storeOrigin at hx
  split at hx
  · split at hx
    · split at hx
      · cases hx
      · dsimp only at hx
        split at hx
        · rw [List.mem_singleton.mp hx]
          exact ⟨by simp, fun t ht => List.mem_singleton.mp ht⟩
        · cases hx
    · cases hx
  · cases hx

theorem Seen.origin_texts {v : Seen} {b : Behaviour} : ∀ x ∈ (v.audit st b).origin,
    (∀ delta, x.2 ≠ .incrbyfloat delta) ∧ ∀ t ∈ x.2.texts, t = originValue v.env (auditId v.env v.scope) b := by
  intro x hx
  unfold Seen.audit at hx
  split at hx
  · cases hx
  · rcases audit_cases st v.scope with hex | ⟨hex, hc⟩ | ⟨hex, hc⟩
    · rw [auditMiddleware_excluded hex] at hx
      cases hx
    · rw [auditMiddleware_refused hex hc] at hx
      cases hx
    · rw [auditMiddleware_logged hex hc] at hx
      exact storeOrigin_texts x hx

/-- The text of an origin does not depend on how the request ends. -/
theorem Seen.originFits {v : Seen} (h : SizeOk st (originValue v.env (auditId v.env v.scope) (v.behaviour (.ok .null) none))) :
    v.OriginFits st := by
  intro result pending x hx t ht
  rw [(Seen.origin_texts x hx).2 t ht]
  exact h

theorem Seen.bookkeeping_brings {v : Seen} (hv : v.OriginFits st) (result : Except Exn Json) (pending : Pending) :
    ∀ x ∈ v.bookkeeping st result pending, BringsSized st x.1 x.2 := by
  intro x hx
  rcases List.mem_append.mp hx with hx | hx
  · exact fun _ => ⟨(Seen.origin_texts x hx).1, hv result pending x hx⟩
  · exact (metricsCommands_metricsWrite x hx).brings

def Call.BringsSized (st : Settings) : Call → Prop
  | .redis c => c.Parts (Redgw.BringsSized st)
  | _ => True

theorem AdminCall.brings {c : Call} (h : AdminCall st True c) : c.BringsSized st := by
  rcases h with h | h
  · rcases c with (c | _ | _)
    case redis =>
      cases c with
      | «at» k c =>
        obtain ⟨κ, -, hc⟩ := h
        exact brings_of_suitable hc k
      | eval k body =>
        obtain ⟨κ, -, hb⟩ := h
        exact hb.mono fun c hc => brings_of_suitable hc k
      | gather g ks => trivial
      | del ks =>
        intro k hk
        obtain ⟨κ, -, hc⟩ := h k hk
        exact brings_of_suitable hc k
      | publish channel message => trivial
      | multi cs =>
        intro x hx
        obtain ⟨κ, -, hc⟩ := h x hx
        exact brings_of_suitable hc x.1
    all_goals trivial
  · rcases c with ((⟨k, c⟩ | _ | _ | _ | _ | _) | _ | _)
    case redis.at =>
      rcases h.2 with rfl | rfl
      · exact fun _ => ⟨by simp, fun t ht => (by cases ht)⟩
      · exact fun _ => ⟨by simp, fun t ht => (by cases ht)⟩
    all_goals exact h.elim

/-- A call for the type of its key, with texts of allowed sizes. -/
def SizedCall (st : Settings) (c : Call) : Prop := c.Fits st.engine ∧ c.BringsSized st

theorem AdminCall.sized {c : Call} (h : AdminCall st True c) : SizedCall st c := ⟨JobCall.fits (Or.inl h), h.brings⟩

theorem served_sized {v : Seen} (hv : v.OriginFits st) {body : Handler Json}
    (hbody : body.CallsOn (TypeReplies st.engine) (AdminCall st True)) :
    (served st v body).CallsOn (TypeReplies st.engine) (SizedCall st) :=
  served_callsOf (hbody.mono fun _ => AdminCall.sized) fun result pending x hx =>
    ⟨OwnWrite.fits (.book (Seen.bookkeeping_bookWrite x hx)), Seen.bookkeeping_brings hv result pending x hx⟩

theorem Job.sized {j : Job} (hvalue : ¬j.Oversized st) (hrecord : j.RecordFits st) :
    (j.program st).CallsOn (TypeReplies st.engine) (SizedCall st) := by
  cases j with
  | data q =>
    refine CallsOn.bind (served_sized hrecord ((dataEndpoint_calls q).mono fun c hc => ?_)) fun _ => trivial
    exact hc.imp_left (Sends.mono fun _ _ hs => ⟨hs.1, fun _ => hs.2 hvalue⟩)
  | admin q => exact CallsOn.bind (served_sized hrecord (adminEndpoint_calls q.client q.op)) fun _ => trivial
  | statusTick pid =>
    refine ⟨⟨OwnWrite.fits (.lead pid), fun _ => ⟨by simp, fun t ht => ?_⟩⟩, fun _ _ => trivial⟩
    rw [List.mem_singleton.mp ht]
    exact hrecord

theorem execStore_sized (hR : R.Stores) (hM : 20 ≤ st.defaults.maxValueSize) {c : Call} (hc : c.BringsSized st)
    (now : Nat) {s : Store} (hs : ∀ k, Sized st k (s k)) : ∀ k, Sized st k ((execStore R c now s).2 k) := by
  cases c with
  | redis c => exact Server.exec_entries (onKey_sized hR hM) hc hs
  | setPendingEvent event errorCode => exact hs
  | fireMetric reason =>
    exact Server.transact_entries (onKey_sized hR hM) (fun x hx => (recordAuthFailure_metricsWrite x hx).brings) hs

/-- As long as no `set_kv_nx` brings a value that does not pass the size check, and no origin of a write and no process
    id is too long, every text that is stored in a reachable store passes it, but for the sum of the latencies. -/
theorem values_sized (hT : R.Typed) (hR : R.Stores) (hM : 20 ≤ st.defaults.maxValueSize)
    {acts : List (Pool.Act Job Nat)} (hacts : ∀ j, .start j ∈ acts → ¬j.Oversized st ∧ j.RecordFits st) {t : Gateway}
    (h : Gateway.run st R acts = some t) : ∀ k ≠ latencySumKey, ∀ x ∈ textsOf (t.state k), SizeOk st x := by
  have keep : ∀ c, SizedCall st c → ∀ now s, s.Typed (KeyType st.engine) ∧ (∀ k, Sized st k (s k)) →
      (execStore R c now s).2.Typed (KeyType st.engine) ∧ ∀ k, Sized st k ((execStore R c now s).2 k) :=
    fun c hc now s hs => ⟨(execStore_typed hT hc.1 now hs.1).2, execStore_sized hR hM hc.2 now hs.2⟩
  have good : ∀ c, SizedCall st c → ∀ now s, s.Typed (KeyType st.engine) ∧ (∀ k, Sized st k (s k)) →
      TypeReplies st.engine c (execStore R c now s).1 := fun c _ now s hs => typeReplies hT hs.1 c now
  have hbody : ∀ j, Pool.Act.start j ∈ acts → (j.program st).CallsOn (TypeReplies st.engine) (SizedCall st) :=
    fun j hj => Job.sized (hacts j hj).1 (hacts j hj).2
  have hinv := Pool.inv_run keep good hbody ⟨Store.empty_typed _, fun k _ x hx => by cases hx⟩ h
  exact hinv.state.2

end Sizes

/-- The gateway with the smallest limit, and a value that is too long for it. -/
def tight : Settings := { defaults := { maxValueSize := 20 } }

def setNxJob (value : String) : Job := .data (plainRequest appClient "app" (.kv (.setKvNx "lock" ⟨value, none⟩)))

/-- A gateway that keeps origins. -/
def roomy : Settings := { defaults := { maxValueSize := 100 }, audit := { correlation := true } }

theorem plain_fits (op : Op) : (Job.data (plainRequest appClient "app" op)).RecordFits roomy := by
  have htext : (utf8 (originValue plainEnv "id" ⟨[], false, some "app", none⟩)).length ≤ 100 := by decide +kernel
  exact Seen.originFits htext

/-- Two writes side by side. -/
def writes : List (Pool.Act Job Nat) :=
  [.start pushJob, .start (setNxJob "me"), .resume 1 0, .resume 0 0, .resume 1 0, .resume 0 0, .resume 0 0, .resume 0 0]

theorem writes_origins :
    (Gateway.run roomy reference writes).map (fun t => ((t.state "__redgw:audit:origin:app:q:jobs").isSome,
      (t.state "__redgw:audit:origin:app:kv:lock").isSome)) = some (true, true) := by decide +kernel

theorem values_sized_writes : ∃ t, Gateway.run roomy reference writes = some t ∧
    (t.state "__redgw:audit:origin:app:q:jobs").isSome = true ∧ (t.state "__redgw:audit:origin:app:kv:lock").isSome = true ∧
    ∀ k ≠ latencySumKey, ∀ x ∈ textsOf (t.state k), SizeOk roomy x := by
  obtain ⟨t, h, horigins⟩ := Option.map_eq_some_iff.mp writes_origins
  obtain ⟨hpush, hset⟩ := Prod.mk.inj horigins
  refine ⟨t, h, hpush, hset, values_sized reference_typed reference_stores (by decide) (fun j hj => ?_) h⟩
  simp only [writes, List.mem_cons, Pool.Act.start.injEq, reduceCtorEq, List.not_mem_nil, or_false] at hj
  rcases hj with rfl | rfl
  · refine ⟨?_, plain_fits _⟩
    rintro ⟨q, hq, o, ho, -⟩
    cases hq
    cases ho
  · refine ⟨?_, plain_fits _⟩
    rintro ⟨q, hq, o, ho, key, body, rfl, hlong⟩
    cases hq
    cases ho
    exact hlong (by unfold SizeOk; decide)

def tightOrigins : Settings := { tight with audit := { correlation := true } }

theorem long_origin : (Gateway.run tightOrigins reference (.start pushJob :: List.replicate 4 (.resume 0 0))).map
    (fun t => (textsOf (t.state "__redgw:audit:origin:app:q:jobs")).map fun x => (utf8 x).length) = some [69] := by decide +kernel

/-- `set_kv_nx` stores a value of 21 bytes where 20 are allowed, and the origin of any write is longer. -/
theorem oversized_stored :
    (∃ t, Gateway.run tight reference [.start (setNxJob "aaaaaaaaaaaaaaaaaaaaa"), .resume 0 0] = some t ∧
      ∃ x ∈ textsOf (t.state "app:kv:lock"), ¬SizeOk tight x) ∧
    ∃ t, Gateway.run tightOrigins reference (.start pushJob :: List.replicate 4 (.resume 0 0)) = some t ∧
      ∃ x ∈ textsOf (t.state "__redgw:audit:origin:app:q:jobs"), ¬SizeOk tightOrigins x := by
  constructor
  · refine ⟨_, rfl, "aaaaaaaaaaaaaaaaaaaaa", ?_, ?_⟩
    · exact List.mem_singleton.mpr rfl
    · unfold SizeOk
      decide
  · obtain ⟨t, h, hlong⟩ := Option.map_eq_some_iff.mp long_origin
    obtain ⟨x, hx, hlength⟩ := List.mem_map.mp (hlong ▸ List.mem_singleton_self 69)
    refine ⟨t, h, x, hx, ?_⟩
    unfold SizeOk
    rw [hlength]
    decide

end Redgw
