import Redgw.Delivery
import Redgw.Theorems.Integers
import Redgw.Theorems.Jobs

/-! # What is published

The message of a publishing request goes out at most once, and exactly once when the request is answered with success.
Nothing else goes out. -/

namespace Redgw
open Redis Prog Pool

/-- The message of a publishing request whose client may write the namespace and whose names are valid. -/
def Op.publishes (client : ClientInfo) (ns : String) : Op → Option (String × String)
  | .pubsub (.publishMessage channel body) =>
    if checkAccess client ns "write" && nsRe ns.toList && keyRe channel.toList then some (s!"{ns}:{channel}", body.message)
    else none
  | _ => none

def Job.publishes : Job → Option (String × String)
  | .data q => q.client.bind fun client => q.op.publishes client q.ns
  | _ => none

/-- The message that a publishing request asks for. -/
def Job.message : Job → Option (String × String)
  | .data q => match q.op with
    | .pubsub (.publishMessage channel body) => some (s!"{q.ns}:{channel}", body.message)
    | _ => none
  | _ => none

/-- A request has this to send, if a publishing one is granted its own message, and no other request has anything. -/
structure Op.Speaks (client : ClientInfo) (ns : String) (o : Op) (left : Option (String × String)) : Prop where
  granted : ∀ x, o.publishes client ns = some x → left = some x
  mute : (∀ channel body, o ≠ .pubsub (.publishMessage channel body)) → left = none

def Job.Speaks (left : Option (String × String)) : Job → Prop
  | .data q => ∀ client, q.client = some client → q.op.Speaks client q.ns left
  | .admin _ | .statusTick _ => left = none

theorem Job.speaks_publishes (j : Job) : j.Speaks j.publishes := by
  cases j with
  | data q =>
    intro client hclient
    rw [Job.publishes, hclient, Option.bind_some]
    refine ⟨fun _ h => h, fun hmute => ?_⟩
    unfold Op.publishes
    split
    · rename_i channel body hop
      exact absurd hop (hmute channel body)
    · rfl
  | _ => rfl

theorem Job.speaks_message (j : Job) : j.Speaks j.message := by
  cases j with
  | data q =>
    refine fun client _ => ⟨fun x h => ?_, fun hmute => ?_⟩
    · unfold Op.publishes at h
      split at h
      · rename_i channel body hop
        simp only [Job.message, hop]
        split at h
        · exact h
        · cases h
      · cases h
    · unfold Job.message
      dsimp only
      split
      · rename_i channel body hop
        exact absurd hop (hmute channel body)
      · rfl
  | _ => rfl

/-- The job has come to a success. -/
def Fulfilled (x : Except Exn (Option Response)) : Prop := ∃ r, x = .ok (some r) ∧ r.status = 200

/-- The number of receivers is the one that Redis counts. -/
def CountsReceivers (R : Server) : (c : Call) → c.Ret → Prop
  | .redis (.publish channel message), r => r = R.publish channel message
  | _, _ => True

section Mute
variable {R : Server} {st : Settings}

/-! ### Requests that publish nothing -/

def Mute (R : Server) (c : Call) : Prop := publication R c = none

theorem mute_program {ns : String} (p : Plan) : (p.program ns).Calls (Mute R) :=
  (calls_program (P := Mute R) (fun _ => ⟨fun _ _ _ => rfl, fun _ => rfl⟩) p).mpr fun _ _ => rfl

theorem mute_guard {client : ClientInfo} {ns operation : String} {f : Unit → Handler Json} (h : (f ()).Calls (Mute R)) :
    ((requireAccess client ns operation).bind f).Calls (Mute R) := calls_guard (fun _ _ => rfl) (fun _ => rfl) fun _ => h

theorem mute_redis (k : String) (c : KeyCmd) : (redis k c).Calls (Mute R) := calls_redis rfl

theorem mute_push {client : ClientInfo} {ns : String} (p : Push) :
    ((requireWrite client ns).bind fun _ => p.program st ns).Calls (Mute R) := by
  refine mute_guard (Calls.ofExcept_bind fun _ _ => Calls.ofExcept_bind fun k _ => Calls.bind (calls_script rfl) fun result => ?_)
  dsimp only
  split
  · trivial
  · exact Calls.bind (calls_pipeline fun _ _ => rfl) fun _ => trivial

theorem mute_setOp {client : ClientInfo} {ns : String} (op : SetOp) (keys : List String) :
    (setOp st client op ns keys).Calls (Mute R) :=
  mute_guard (Calls.ofExcept_bind fun _ _ => Calls.bind (calls_gather rfl) fun _ => trivial)

theorem Op.mute {client : ClientInfo} {ns : String} {o : Op} (ho : ∀ channel body, o ≠ .pubsub (.publishMessage channel body)) :
    (o.handle st client ns).Calls (Mute R) := by
  by_cases hsome : o.plan st ns = none
  · cases o with
    | kv o =>
      cases o with
      | batchGetKv body => exact mute_guard (Calls.ofExcept_bind fun _ _ => Calls.bind (calls_gather rfl) fun _ => trivial)
      | _ => cases hsome
    | queue o =>
      cases o with
      | batchPushQueue key body | pushQueue key body =>
        rw [show Op.handle st client ns (.queue _) = _ from QueueOp.pushes rfl]
        exact mute_push _
      | _ => cases hsome
    | group o =>
      cases o with
      | interGroups body => exact mute_setOp .inter body.keys
      | unionGroups body => exact mute_setOp .union body.keys
      | diffGroups body => exact mute_setOp .diff body.keys
      | _ => cases hsome
    | event o =>
      cases o with
      | streamInfo key =>
        refine mute_guard (Calls.ofExcept_bind fun k _ => ?_)
        refine Calls.bind (calls_exceptResponseError (mute_redis _ _) fun _ => trivial) fun info => ?_
        exact Calls.bind (calls_exceptResponseError (mute_redis _ _) fun _ => trivial) fun _ => trivial
      | _ => cases hsome
    | pubsub o =>
      cases o with
      | publishMessage channel body => exact absurd rfl (ho channel body)
    | map o => cases o <;> cases hsome
    | rank o => cases o <;> cases hsome
  · obtain ⟨⟨operation, x⟩, hx⟩ := Option.ne_none_iff_exists'.mp hsome
    rw [o.follows operation x hx]
    exact mute_guard (Calls.ofExcept_bind fun p _ => mute_program p)

theorem mute_deleteBatches (bs : List (List String)) (deleted : Int) : (deleteBatches bs deleted).Calls (Mute R) := by
  induction bs generalizing deleted with
  | nil => trivial
  | cons batch bs ih => exact Calls.bind (Calls.bind (calls_ask.mpr rfl) fun _ => calls_ofReply _) fun _ => ih _

theorem AdminOp.mute {client : ClientInfo} (o : AdminOp) : (o.handle st client).Calls (Mute R) := by
  have hadmin : ∀ {f : Unit → Handler Json}, (f ()).Calls (Mute R) → ((requireAdmin client).bind f).Calls (Mute R) := fun hf =>
    calls_admin (fun _ _ => rfl) (fun _ => rfl) fun _ => hf
  cases o with
  | listKeys ns typeName pattern scan =>
    show (Redgw.listKeys st client ns typeName pattern scan).Calls _
    unfold Redgw.listKeys
    cases filterOr ns with
    | none => exact Calls.ofExcept_bind fun _ _ => (calls_pure _ _)
    | some ns => exact Calls.ofExcept_bind fun _ _ => mute_guard (Calls.ofExcept_bind fun _ _ => calls_pure _ _)
  | keyInfo ns typeName key =>
    refine mute_guard (Calls.ofExcept_bind fun _ _ => Calls.ofExcept_bind fun k _ => Calls.bind (mute_redis _ _) fun keyType => ?_)
    dsimp only
    split
    · trivial
    · refine Calls.bind (mute_redis _ _) fun ttl => Calls.bind (mute_redis _ _) fun encoding => Calls.bind ?_ fun _ => trivial
      unfold sizeInfo
      repeat' split
      all_goals first
        | exact Calls.bind (mute_redis _ _) fun _ => trivial
        | trivial
  | setTtl ns typeName key body =>
    refine hadmin (Calls.ofExcept_bind fun _ _ => Calls.ofExcept_bind fun k _ => Calls.bind (mute_redis _ _) fun there => ?_)
    dsimp only
    split
    · trivial
    · exact Calls.bind (mute_redis _ _) fun _ => Calls.bind (mute_redis _ _) fun _ => trivial
  | bulkDeleteKeys ns typeName pattern dryRun scanIter =>
    refine hadmin (Calls.ofExcept_bind fun _ _ => Calls.ofExcept_bind fun glob _ => ?_)
    dsimp only
    split
    · trivial
    · exact Calls.bind (mute_deleteBatches _ _) fun _ => trivial
  | deleteKey ns typeName key =>
    refine hadmin (Calls.ofExcept_bind fun _ _ => Calls.ofExcept_bind fun k _ => Calls.bind (mute_redis _ _) fun deleted => ?_)
    dsimp only
    split <;> trivial
  | getStats limit memory keys => trivial
  | adminAuditOrigin ns typeName key loads =>
    refine hadmin (Calls.ofExcept_bind fun _ _ => Calls.ofExcept_bind fun k _ => Calls.bind (mute_redis _ _) fun raw => ?_)
    dsimp only
    split
    · trivial
    · exact Calls.bind (mute_redis _ _) fun _ => trivial

end Mute

/-! ### Requests that publish -/

section Publish
variable {R : Server} {st : Settings}

/-- The handler has come to a success. -/
def Granted (x : Except Exn Json) : Prop := (Response.of x).status = 200

theorem not_granted {status : Nat} {code message : String} (h : status ≠ 200) : ¬Granted (.error (.http status code message)) := h

theorem validateNs_refusal {engine : Engine} {ns : String} {e : Exn} (h : validateNs engine ns = .error e) : ¬Granted (.error e) := by
  unfold validateNs pyValidateNs at h
  repeat' split at h
  all_goals cases h
  all_goals exact not_granted (by decide)

theorem validateKey_refusal {engine : Engine} {key : String} {e : Exn} (h : validateKey engine key = .error e) : ¬Granted (.error e) := by
  unfold validateKey pyValidateKey at h
  repeat' split at h
  all_goals cases h
  all_goals exact not_granted (by decide)

theorem checkValueSize_refusal {value label : String} {e : Exn} (h : checkValueSize st value label = .error e) : ¬Granted (.error e) := by
  unfold checkValueSize at h
  split at h
  · cases h
    exact not_granted (by decide)
  · cases h

theorem emits_publish {ns channel message : String} :
    ((publish s!"{ns}:{channel}" message).bind fun receivers =>
      .pure (ok (.obj [("channel", .str s!"{ns}:{channel}"), ("receivers", receivers)]) ns channel "pubsub")).Emits
      (publication R) (CountsReceivers R) Granted (some (s!"{ns}:{channel}", message)) := by
  cases hreply : R.publish s!"{ns}:{channel}" message with
  | ok v =>
    refine Or.inr ⟨nofun, by simp [publication, hreply], fun r hr => ?_⟩
    cases (hr : r = _).trans hreply
    exact fun _ => rfl
  | error msg =>
    refine Or.inl ⟨by simp [publication, hreply], fun r hr => ?_⟩
    cases (hr : r = _).trans hreply
    exact fun hstatus => absurd (show (500 : Nat) = 200 from hstatus) (by decide)

theorem emits_publishMessage {client : ClientInfo} {ns channel : String} {body : PublishRequest} {left : Option (String × String)}
    (hleft : ∀ x, Op.publishes client ns (.pubsub (.publishMessage channel body)) = some x → left = some x) :
    (publishMessage st client ns channel body).Emits (publication R) (CountsReceivers R) Granted left := by
  show ((requireAccess client ns "write").bind _).Emits _ _ _ _
  by_cases ha : checkAccess client ns "write" = true
  · rw [requireAccess, if_pos ha]
    refine Emits.ofExcept_bind (fun n hn => ?_) fun e he => validateNs_refusal he
    refine Emits.ofExcept_bind (fun k hk => ?_) fun e he => validateKey_refusal he
    refine Emits.ofExcept_bind (fun _ _ => ?_) fun e he => checkValueSize_refusal he
    have hown : Op.publishes client ns (.pubsub (.publishMessage channel body)) = some (s!"{ns}:{channel}", body.message) := by
      simp [Op.publishes, ha, validateNs_nsRe hn, validateKey_keyRe hk]
    rw [hleft _ hown]
    exact emits_publish
  · rw [requireAccess, if_neg ha]
    exact Or.inl ⟨rfl, fun _ _ => Or.inl ⟨rfl, fun _ _ hgranted => absurd hgranted (not_granted (by decide))⟩⟩

/-! ### Jobs -/

theorem mute_sendAll {α : Type} {cs : List (String × KeyCmd)} {f : List Reply → Handler α} (hf : ∀ rs, (f rs).Calls (Mute R)) :
    ((sendAll cs).bind f).Calls (Mute R) := (calls_sendAll_iff hf).mpr fun _ _ => rfl

theorem ends_after_sendAll {α : Type} {G : (c : Call) → c.Ret → Prop} {Q : Except Exn α → Prop} {cs : List (String × KeyCmd)}
    {f : List Reply → Handler α} (hf : ∀ rs, (f rs).Ends G Q) : ((sendAll cs).bind f).Ends G Q := by
  induction cs generalizing f with
  | nil => exact hf _
  | cons x cs ih =>
    intro r _
    show (((sendAll cs).bind fun rs => .pure (r :: rs)).bind f).Ends G Q
    rw [bind_assoc]
    exact ih fun rs => hf (r :: rs)

theorem emits_observed {p : Handler Json} {left : Option (String × String)} (pending : Pending)
    (h : p.Emits (publication R) (CountsReceivers R) Granted left) :
    (observed p pending).Emits (publication R) (CountsReceivers R) (fun x => ∃ r pending', x = .ok (r, pending') ∧ Granted r) left := by
  induction p generalizing left pending with
  | pure a =>
    rintro ⟨r, pending', hr, hgood⟩
    cases hr
    exact h hgood
  | raise e =>
    rintro ⟨r, pending', hr, hgood⟩
    cases hr
    exact h hgood
  | call c k ih =>
    rcases h with ⟨hnone, hk⟩ | ⟨hleft, hsome, hk⟩
    · exact Or.inl ⟨hnone, fun r hr => ih r _ (hk r hr)⟩
    · exact Or.inr ⟨hleft, hsome, fun r hr => ih r _ (hk r hr)⟩

/-- The middlewares send nothing to a channel. -/
theorem emits_served {v : Seen} {body : Handler Json} {left : Option (String × String)}
    (h : body.Emits (publication R) (CountsReceivers R) Granted left) :
    ((served st v body).bind fun r => .pure (some r)).Emits (publication R) (CountsReceivers R) Fulfilled left := by
  unfold served
  rw [bind_assoc]
  refine (emits_observed none h).bind (fun x => ?_) (fun x => ?_) fun e he => ?_
  · rw [bind_assoc]
    exact Calls.on (mute_sendAll fun _ => trivial)
  · rw [bind_assoc]
    refine ends_after_sendAll fun _ hgood => ?_
    obtain ⟨r, hr, hstatus⟩ := hgood
    cases hr
    exact ⟨x.1, x.2, rfl, hstatus⟩
  · obtain ⟨r, hr, -⟩ := he
    cases hr

theorem emits_mute {p : Handler Json} (hp : p.Calls (Mute R)) :
    p.Emits (publication R) (CountsReceivers R) Granted none := Emits.of_calls (Calls.on hp) (Ends.any (fun _ _ => rfl) _)

theorem Op.emits {client : ClientInfo} {ns : String} {o : Op} {left : Option (String × String)} (h : o.Speaks client ns left) :
    (o.handle st client ns).Emits (publication R) (CountsReceivers R) Granted left := by
  by_cases hmute : ∀ channel body, o ≠ .pubsub (.publishMessage channel body)
  · rw [h.mute hmute]
    exact emits_mute (Op.mute hmute)
  · simp only [not_forall, Classical.not_not] at hmute
    obtain ⟨channel, body, rfl⟩ := hmute
    exact emits_publishMessage h.granted

theorem Job.emits {j : Job} {left : Option (String × String)} (h : j.Speaks left) :
    (j.program st).Emits (publication R) (CountsReceivers R) Fulfilled left := by
  cases j with
  | data q =>
    refine emits_served ?_
    cases hclient : q.client with
    | none =>
      exact Or.inl ⟨rfl, fun _ _ => Or.inl ⟨rfl, fun _ _ hgranted => absurd hgranted (not_granted (by decide))⟩⟩
    | some client =>
      cases hv : q.op.valid with
      | false =>
        rw [endpoint, hv]
        exact fun hstatus => absurd (show (422 : Nat) = 200 from hstatus) (by decide)
      | true =>
        rw [endpoint, hv]
        show (q.op.handle st client q.ns).Emits _ _ _ _
        exact Op.emits (h client hclient)
  | admin q =>
    obtain rfl : left = none := h
    refine emits_served (emits_mute ?_)
    cases q.client with
    | none => exact ⟨rfl, fun _ => ⟨rfl, fun _ => trivial⟩⟩
    | some client =>
      cases hv : q.op.valid with
      | false =>
        rw [adminEndpoint, hv]
        trivial
      | true =>
        rw [adminEndpoint, hv]
        exact q.op.mute
  | statusTick pid =>
    obtain rfl : left = none := h
    exact Or.inl ⟨rfl, fun _ _ _ => rfl⟩

theorem publications_emitted {acts : List (Pool.Act Job Nat)} {t : LoggedGateway}
    (h : Runs.run (Pool.step (Pool.logged (execStore R)) (Job.program st)) ⟨(Store.empty, []), []⟩ acts = some t) :
    ∃ outs, t.Emitted (publication R) Fulfilled Job.publishes (started acts) outs ∧
      t.Emitted (publication R) Fulfilled Job.message (started acts) outs := by
  have hG : ∀ (c : Call) (now : Nat) (s : Store), CountsReceivers R c (execStore R c now s).1 := by
    intro c now s
    cases c with
    | redis c => cases c <;> first | rfl | trivial
    | _ => trivial
  have hstart : Pool.Shares (execStore R) (Job.program st) [] ⟨(Store.empty, []), []⟩ := ⟨.nil, .nil⟩
  obtain ⟨own, hown, hshares⟩ := shares_run h hstart
  rw [List.map_nil, List.nil_append] at hown
  rw [← hown]
  exact ⟨_, hshares.emitted hG fun j => Job.emits j.speaks_publishes, hshares.emitted hG fun j => Job.emits j.speaks_message⟩

/-- Whatever is served side by side: what goes out is what the publishing requests send, each its own message or nothing; one that may
    not publish sends nothing, and one that is answered with success has sent its message, once. -/
theorem published_once {acts : List (Pool.Act Job Nat)} {t : LoggedGateway}
    (h : Runs.run (Pool.step (Pool.logged (execStore R)) (Job.program st)) ⟨(Store.empty, []), []⟩ acts = some t) :
    ∃ outs : List (List (String × String)), outs.length = (started acts).length ∧ (publications R t.state.2).Perm outs.flatten ∧
      ∀ (i : Nat) (j : Job) (out : List (String × String)), (started acts)[i]? = some j → outs[i]? = some out →
        out.Sublist j.publishes.toList ∧
        ∀ r : Response, t.programs[i]? = some (.pure (some r)) → r.status = 200 →
          out = j.publishes.toList ∧ j.publishes = j.message := by
  obtain ⟨outs, hpublishes, hmessage⟩ := publications_emitted h
  refine ⟨outs, hpublishes.length, hpublishes.all, fun i j out hj hout => ⟨hpublishes.own i j out hj hout, fun r hr hstatus => ?_⟩⟩
  have hsent := hpublishes.ended i j out _ hj hout hr ⟨r, rfl, hstatus⟩
  have hasked := hmessage.ended i j out _ hj hout hr ⟨r, rfl, hstatus⟩
  refine ⟨hsent, ?_⟩
  rw [← Option.head?_toList (o := j.publishes), ← Option.head?_toList (o := j.message), ← hsent, ← hasked]

end Publish

def publishJob (client : ClientInfo) (message : String) : Job :=
  .data (plainRequest client "app" (.pubsub (.publishMessage "news" ⟨message⟩)))

/-- A client that may not write, and one that may, both to the end. -/
def twoPublishers : List (Pool.Act Job Nat) :=
  [.start (publishJob readOnlyClient "no"), .start (publishJob appClient "hi"), .resume 0 5] ++ List.replicate 17 (.resume 1 6) ++
    List.replicate 17 (.resume 0 7)

theorem published_once_two : ∃ (t : LoggedGateway) (outs : List (List (String × String))),
    Runs.run (Pool.step (Pool.logged (execStore reference)) (Job.program {})) ⟨(Store.empty, []), []⟩ twoPublishers = some t ∧
    (publications reference t.state.2).Perm outs.flatten ∧ outs = [[], [("app:news", "hi")]] := by
  obtain ⟨t, h, hanswers⟩ : ∃ t : LoggedGateway, Runs.run (Pool.step (Pool.logged (execStore reference)) (Job.program {}))
      ⟨(Store.empty, []), []⟩ twoPublishers = some t ∧
      ∃ r r', t.programs = [.pure (some r'), .pure (some r)] ∧ r.status = 200 := ⟨_, rfl, _, _, rfl, rfl⟩
  obtain ⟨r, r', hprograms, hstatus⟩ := hanswers
  obtain ⟨outs, hlength, hperm, hown⟩ := published_once h
  refine ⟨t, outs, h, hperm, ?_⟩
  match outs, hlength with
  | [first, second], _ =>
    have hrefused : (publishJob readOnlyClient "no").publishes = none := by decide
    have hgranted : (publishJob appClient "hi").publishes = some ("app:news", "hi") := by decide
    have hfirst := (hown 0 _ first rfl rfl).1
    rw [hrefused] at hfirst
    have hsecond := ((hown 1 _ second rfl rfl).2 r (by rw [hprograms]; rfl) hstatus).1
    rw [hgranted] at hsecond
    rw [List.sublist_nil.mp hfirst, hsecond]
    rfl

end Redgw
