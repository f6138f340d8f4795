import Mathlib.Data.List.Perm.Subperm
import Redgw.Lib.Linear
import Redgw.Theorems.KeyCodec
import Redgw.Theorems.Publishing
import Redgw.Theorems.Subscriptions

/-! # Deliveries

What a subscriber is sent are messages of its channel in the order in which they were published, none twice, and each
of them comes from a request of a client that may write the namespace. As long as the connection to Redis lasts and
sending does not fail, none is left out. -/

namespace Redgw
open Redis Pool Topics

namespace WebSocket

/-! ### One feed -/

/-- The pump has sent what it has taken, up to the message that it is at; a message whose sending failed is its last. -/
structure Feed.Fits (log : List (String × String)) (c : Connection String String) (f : Feed) : Prop where
  topic : f.history.topic = f.request.fullChannel
  follows : f.history.Follows log c
  idle : f.ended = true → f.sending = none
  sent : ∃ ms : List String, f.sent = ms.map f.request.frame ∧ ms <+: f.history.taken ∧
    (f.ended = false → f.history.taken = ms ++ f.sending.toList)

section Feed
variable {log : List (String × String)} {c c' : Connection String String} {f f' : Feed}

theorem fits_start_feed (request : Connect) : (Feed.start request).Fits log ⟨none, []⟩ where
  topic := rfl
  follows := follows_init _ log
  idle h := by cases h
  sent := ⟨[], rfl, List.nil_prefix, fun _ => rfl⟩

/-- The connection changes, and what has been taken stays. -/
theorem Feed.Fits.reconnect {log' : List (String × String)} (h : f.Fits log c) {history : History String String}
    (hhistory : history.Follows log' c') (htopic : history.topic = f.history.topic) (htaken : history.taken = f.history.taken) :
    ({ f with history := history } : Feed).Fits log' c' where
  topic := htopic.trans h.topic
  follows := hhistory
  idle := h.idle
  sent := by
    obtain ⟨ms, hsent, hpre, htook⟩ := h.sent
    exact ⟨ms, hsent, htaken ▸ hpre, fun hend => htaken.trans (htook hend)⟩

/-- An `await` of the pump takes the connection from `c` to `c'`. -/
def Got (c c' : Connection String String) (msg : Option String) : Pump → Prop
  | .gets => msg.elim (c' = c) fun m => c = { c' with inbox := m :: c'.inbox }
  | _ => c' = c

theorem Feed.Fits.pump (h : f.Fits log c) {p : Pump} {msg : Option String} (hp : f.pump msg p = some f') (hgot : Got c c' msg p) :
    f'.Fits log c' ∧ f'.request = f.request ∧ f'.history.since = f.history.since := by
  obtain ⟨ms, hsent, hpre, htook⟩ := h.sent
  cases p with
  | gets =>
    unfold Feed.pump at hp
    dsimp only at hp
    split at hp
    · cases hp
    · rename_i hidle
      rw [Bool.or_eq_true, not_or, Bool.not_eq_true, Option.not_isSome_iff_eq_none] at hidle
      cases msg with
      | none =>
        cases hp
        obtain rfl : c' = c := hgot
        exact ⟨h, rfl, rfl⟩
      | some m =>
        cases hp
        obtain rfl : c = { c' with inbox := m :: c'.inbox } := hgot
        have hall : f.history.taken = ms := by rw [htook hidle.1, hidle.2, Option.toList_none, List.append_nil]
        refine ⟨⟨h.topic, h.follows.get, fun hend => ?_, ms, hsent, ?_, fun _ => ?_⟩, rfl, rfl⟩
        · rw [hidle.1] at hend
          cases hend
        · exact hpre.trans (List.prefix_append _ _)
        · show f.history.taken ++ [m] = ms ++ [m]
          rw [hall]
  | getRaises =>
    obtain rfl : c' = c := hgot
    unfold Feed.pump at hp
    dsimp only at hp
    split at hp
    · cases hp
    · rename_i hidle
      rw [Bool.or_eq_true, not_or, Bool.not_eq_true, Option.not_isSome_iff_eq_none] at hidle
      cases hp
      exact ⟨⟨h.topic, h.follows, fun _ => hidle.2, ms, hsent, hpre, fun hend => by cases hend⟩, rfl, rfl⟩
  | sends =>
    obtain rfl : c' = c := hgot
    obtain ⟨m, hm, rfl⟩ := Option.map_eq_some_iff.mp hp
    have hrun : f.ended = false := by
      refine Bool.eq_false_iff.mpr fun hend => ?_
      rw [h.idle hend] at hm
      cases hm
    have htaken : f.history.taken = ms ++ [m] := by rw [htook hrun, hm, Option.toList_some]
    refine ⟨⟨h.topic, h.follows, fun _ => rfl, ms ++ [m], ?_, ?_, fun _ => ?_⟩, rfl, rfl⟩
    · show f.sent ++ [f.request.frame m] = _
      rw [hsent, List.map_append, List.map_singleton]
    · exact htaken ▸ List.prefix_rfl
    · rw [Option.toList_none, List.append_nil]
      exact htaken
  | sendRaises =>
    obtain rfl : c' = c := hgot
    obtain ⟨m, hm, rfl⟩ := Option.map_eq_some_iff.mp hp
    exact ⟨⟨h.topic, h.follows, fun _ => rfl, ms, hsent, hpre, fun hend => by cases hend⟩, rfl, rfl⟩

end Feed

/-! ### Handlers -/

/-- A handler that goes on has a request that may go on. -/
def Handler.Allowed (st : Settings) (c : Connect) (h : Handler) : Prop :=
  rejection st c = none ∨ h.place = .closing ∨ h.place = .finished

section Handler
variable {st : Settings} {c : Connect} {h : Handler}

theorem allowed_start : (Handler.start st c).Allowed st c := by
  unfold Handler.start Handler.Allowed
  cases rejection st c with
  | none => exact Or.inl rfl
  | some x => exact Or.inr (Or.inl rfl)

theorem Moves.allowed {count : Int} {locked : Bool} {x : Int × Bool × Handler} (hm : Moves count locked h x)
    (ha : h.Allowed st c) : x.2.2.Allowed st c := by
  rcases ha with hnone | hplace | hplace
  · exact Or.inl hnone
  · cases hm with
    | on p _ hp hstage =>
      rcases hstage with hstage | ⟨rfl, -⟩
      · rw [hplace] at hstage
        cases p <;> first | cases hstage; done | exact Or.inr (Or.inl rfl) | exact absurd rfl hp
      · exact Or.inr (Or.inr rfl)
    | refused hentering | enters hentering | leaves _ _ hentering | closed hentering =>
      rw [hplace] at hentering
      cases hentering
  · cases hm with
    | on p _ hp hstage =>
      rcases hstage with hstage | ⟨rfl, -⟩
      · rw [hplace] at hstage
        cases p <;> first | cases hstage; done | exact Or.inr (Or.inr rfl)
      · exact Or.inr (Or.inr rfl)
    | refused hentering | enters hentering | leaves _ _ hentering | closed hentering =>
      rw [hplace] at hentering
      cases hentering

theorem Handler.Allowed.subscribed (ha : h.Allowed st c) (hp : h.place.subscribed = true) : rejection st c = none := by
  rcases ha with hnone | hplace | hplace
  · exact hnone
  all_goals
    rw [hplace] at hp
    cases hp

end Handler

/-! ### The hub -/

variable {B : Broker String String}

namespace Hub

structure Fits (st : Settings) (R : Server) (h : Hub B) : Prop where
  length : h.feeds.length = h.sockets.handlers.length
  feeds : ∀ (i : Nat) (f : Feed), h.feeds[i]? = some f → f.Fits (h.published R) (B.connection h.broker i)
  /-- No handler has this connection yet. -/
  unused : ∀ i, h.feeds.length ≤ i → B.connection h.broker i = ⟨none, []⟩
  allowed : ∀ (i : Nat) (x : Handler) (f : Feed), h.sockets.handlers[i]? = some x → h.feeds[i]? = some f → x.Allowed st f.request
  since : ∀ f ∈ h.feeds, f.history.since ≠ none → rejection st f.request = none

variable {st : Settings} {R : Server} {h h' : Hub B}

theorem fits_init (hB : B.Lawful) : (init B).Fits st R where
  length := rfl
  feeds i f hf := by cases hf
  unused i _ := hB.init i
  allowed i x f hx := by cases hx
  since f hf := by cases hf

/-- One feed has moved on, and at most its connection has changed. -/
theorem Fits.set (hf : h.Fits st R) {i : Nat} {f f' : Feed} {broker : B.State} (hi : h.feeds[i]? = some f)
    (hfits : f'.Fits (h.published R) (B.connection broker i))
    (hother : ∀ j, j ≠ i → B.connection broker j = B.connection h.broker j) (hrequest : f'.request = f.request)
    (hsince : f'.history.since ≠ none → rejection st f.request = none) :
    ({ h with feeds := h.feeds.set i f', broker := broker } : Hub B).Fits st R where
  length := by rw [List.length_set, hf.length]
  feeds j g hg := by
    rcases getElem?_set_cases hg with ⟨rfl, rfl⟩ | ⟨hj, hg⟩
    · exact hfits
    · show g.Fits (h.published R) (B.connection broker j)
      rw [hother j hj]
      exact hf.feeds j g hg
  unused j hj := by
    rw [List.length_set] at hj
    have hne : j ≠ i := by
      have hlt := (List.getElem?_eq_some_iff.mp hi).1
      omega
    exact (hother j hne).trans (hf.unused j hj)
  allowed j x g hx hg := by
    rcases getElem?_set_cases hg with ⟨rfl, rfl⟩ | ⟨-, hg⟩
    · rw [hrequest]
      exact hf.allowed j x f hx hi
    · exact hf.allowed j x g hx hg
  since g hg hne := by
    rcases List.mem_or_eq_of_mem_set hg with hg | rfl
    · exact hf.since g hg hne
    · rw [hrequest]
      exact hsince hne

/-- A step of the gateway publishes what its call does. -/
theorem published_step {a : Pool.Act Job Nat} {t : LoggedGateway}
    (ht : Pool.step (Pool.logged (execStore R)) (Job.program st) h.gateway a = some t) :
    publications R t.state.2 = h.published R ++ (h.fresh R a).toList := by
  cases a with
  | start q =>
    cases ht
    exact (List.append_nil _).symm
  | resume i x =>
    obtain ⟨c, k, hi, hstate, -⟩ := resume_eq_some.mp ht
    rw [← hstate]
    show Prog.emissions (publication R) (h.gateway.state.2 ++ [⟨c, x, h.gateway.state.1⟩]) = _
    rw [Prog.emissions_append, Prog.emissions_cons]
    simp [fresh, hi, published, publications, Prog.emissions]

theorem Fits.http (hB : B.Lawful) (hf : h.Fits st R) {a : Pool.Act Job Nat} {t : LoggedGateway}
    (ht : Pool.step (Pool.logged (execStore R)) (Job.program st) h.gateway a = some t) :
    ({ h with gateway := t, broker := publish h.broker (h.fresh R a) } : Hub B).Fits st R := by
  have hlog := published_step ht
  cases hx : h.fresh R a with
  | none =>
    rw [hx, Option.toList_none, List.append_nil] at hlog
    refine ⟨hf.length, fun i f hi => ?_, hf.unused, hf.allowed, hf.since⟩
    show f.Fits (publications R t.state.2) (B.connection h.broker i)
    exact hlog ▸ hf.feeds i f hi
  | some x =>
    rw [hx, Option.toList_some] at hlog
    refine ⟨hf.length, fun i f hi => ?_, fun i hi => ?_, hf.allowed, hf.since⟩
    · show f.Fits (publications R t.state.2) (B.connection (B.publish x h.broker) i)
      rw [hlog, hB.publish]
      exact (hf.feeds i f hi).reconnect ((hf.feeds i f hi).follows.publish x) rfl rfl
    · show B.connection (B.publish x h.broker) i = _
      rw [hB.publish, hf.unused i hi]
      rfl

theorem Fits.socket (hf : h.Fits st R) {a : Action} {s : State} (hs : WebSocket.step st h.sockets a = some s) :
    ({ h with sockets := s, feeds := join h.feeds a } : Hub B).Fits st R := by
  cases a with
  | connect c =>
    cases hs
    refine ⟨by simp [join, hf.length], fun i f hi => ?_, fun i hi => ?_, fun i x f hx hi => ?_, fun f hmem hne => ?_⟩
    · by_cases hlt : i < h.feeds.length
      · rw [join, List.getElem?_append_left hlt] at hi
        exact hf.feeds i f hi
      · rw [join, List.getElem?_append_right (Nat.le_of_not_lt hlt), List.getElem?_singleton] at hi
        split at hi
        · cases hi
          show (Feed.start c).Fits _ (B.connection h.broker i)
          rw [hf.unused i (Nat.le_of_not_lt hlt)]
          exact fits_start_feed c
        · cases hi
    · rw [join, List.length_append] at hi
      exact hf.unused i (by omega)
    · by_cases hlt : i < h.feeds.length
      · rw [join, List.getElem?_append_left hlt] at hi
        rw [List.getElem?_append_left (hf.length ▸ hlt)] at hx
        exact hf.allowed i x f hx hi
      · rw [join, List.getElem?_append_right (Nat.le_of_not_lt hlt), List.getElem?_singleton] at hi
        rw [List.getElem?_append_right (hf.length ▸ Nat.le_of_not_lt hlt), List.getElem?_singleton] at hx
        split at hx
        · split at hi
          · cases hx
            cases hi
            exact allowed_start
          · cases hi
        · cases hx
    · rcases List.mem_append.mp hmem with hmem | hmem
      · exact hf.since f hmem hne
      · rw [List.mem_singleton.mp hmem] at hne
        exact absurd rfl hne
  | resume i o =>
    obtain ⟨x, y, hx, hy, rfl⟩ := step_resume hs
    refine ⟨by simp [join, hf.length], hf.feeds, hf.unused, fun j z f hz hj => ?_, hf.since⟩
    rcases getElem?_set_cases hz with ⟨rfl, rfl⟩ | ⟨-, hz⟩
    · exact (resume_moves hy).allowed (hf.allowed j x f hx hj)
    · exact hf.allowed j z f hz hj

theorem receive_got (hB : B.Lawful) (s : B.State) (i : Nat) (p : Pump) :
    Got (B.connection s i) (B.connection (receive s i p).2 i) (receive s i p).1 p := by
  cases p with
  | gets =>
    cases hget : B.getMessage i s with
    | mk msg s' =>
      show Got _ (B.connection (B.getMessage i s).2 i) (B.getMessage i s).1 .gets
      rw [hget]
      cases msg with
      | none => exact hB.getNone i s s' hget
      | some m => exact hB.getSome i s m s' hget
  | getRaises | sends | sendRaises => rfl

theorem receive_other (hB : B.Lawful) (s : B.State) {i j : Nat} (hj : j ≠ i) (p : Pump) :
    B.connection (receive s i p).2 j = B.connection s j := by
  cases p with
  | gets => exact hB.getOther i s j hj
  | getRaises | sends | sendRaises => rfl

theorem Fits.step (hB : B.Lawful) (hf : h.Fits st R) {e : Event} (he : step st R h e = some h') : h'.Fits st R := by
  cases e with
  | http a =>
    obtain ⟨t, ht, hsame⟩ := Option.bind_eq_some_iff.mp he
    cases hsame
    exact hf.http hB ht
  | socket a =>
    obtain ⟨s, hs, hsame⟩ := Option.bind_eq_some_iff.mp he
    cases hsame
    exact hf.socket hs
  | attach i =>
    obtain ⟨x, hx, he⟩ := Option.bind_eq_some_iff.mp he
    obtain ⟨f, hi, he⟩ := Option.bind_eq_some_iff.mp he
    split at he
    · rename_i hplace
      cases he
      have hfits := hf.feeds i f hi
      refine hf.set hi (hfits.reconnect ?_ (History.attach_topic _ _) (History.attach_taken _ _))
        (fun j hj => hB.subscribeOther i _ _ j hj) rfl fun _ => (hf.allowed i x f hx hi).subscribed hplace
      rw [hB.subscribe, ← hfits.topic]
      exact hfits.follows.subscribe
    · cases he
  | lose i =>
    obtain ⟨f, hi, he⟩ := Option.bind_eq_some_iff.mp he
    cases he
    obtain ⟨hlt, rfl⟩ := List.getElem?_eq_some_iff.mp hi
    obtain ⟨inbox, hinbox, hlost⟩ := hB.lose i h.broker
    have hfits := hf.feeds i _ hi
    have hset := hf.set hi (hfits.reconnect (hlost ▸ hfits.follows.lose hinbox) rfl rfl) (fun j hj => hB.loseOther i _ j hj) rfl
      (hf.since _ (List.getElem_mem hlt))
    rw [List.set_getElem_self hlt] at hset
    exact hset
  | pump i p =>
    obtain ⟨x, hx, he⟩ := Option.bind_eq_some_iff.mp he
    obtain ⟨f, hi, he⟩ := Option.bind_eq_some_iff.mp he
    split at he
    · obtain ⟨f', hp, hsame⟩ := Option.bind_eq_some_iff.mp he
      cases hsame
      obtain ⟨hfits, hrequest, hsince⟩ := (hf.feeds i f hi).pump hp (receive_got hB h.broker i p)
      exact hf.set hi hfits (fun j hj => receive_other hB h.broker hj p) hrequest
        fun hne => hf.since f (List.mem_of_getElem? hi) (hsince ▸ hne)
    · cases he

theorem fits_run (hB : B.Lawful) {es : List Event} {t : Hub B} (h : run st R (init B) es = some t) : t.Fits st R :=
  Runs.run_inv (fun _ _ _ he hf => hf.step hB he) h (fits_init hB)

/-! ### The gateway of a hub -/

/-- What the gateway does in a run. -/
def https (es : List Event) : List (Pool.Act Job Nat) :=
  es.filterMap fun
    | .http a => some a
    | _ => none

theorem step_gateway {e : Event} (hno : ∀ a, e ≠ .http a) (he : step st R h e = some h') : h'.gateway = h.gateway := by
  cases e with
  | http a => exact absurd rfl (hno a)
  | socket a =>
    obtain ⟨s, -, hsame⟩ := Option.bind_eq_some_iff.mp he
    cases hsame
    rfl
  | attach i =>
    obtain ⟨x, -, he⟩ := Option.bind_eq_some_iff.mp he
    obtain ⟨f, -, he⟩ := Option.bind_eq_some_iff.mp he
    split at he
    · cases he
      rfl
    · cases he
  | lose i =>
    obtain ⟨f, -, he⟩ := Option.bind_eq_some_iff.mp he
    cases he
    rfl
  | pump i p =>
    obtain ⟨x, -, he⟩ := Option.bind_eq_some_iff.mp he
    obtain ⟨f, -, he⟩ := Option.bind_eq_some_iff.mp he
    split at he
    · obtain ⟨f', -, hsame⟩ := Option.bind_eq_some_iff.mp he
      cases hsame
      rfl
    · cases he

theorem gateway_run {es : List Event} {t : Hub B} (h' : run st R h es = some t) :
    Runs.run (Pool.step (Pool.logged (execStore R)) (Job.program st)) h.gateway (https es) = some t.gateway := by
  induction es generalizing h with
  | nil =>
    cases h'
    rfl
  | cons e es ih =>
    obtain ⟨u, hu, hut⟩ := Runs.run_cons.mp h'
    cases e with
    | http a =>
      obtain ⟨g, hg, hsame⟩ := Option.bind_eq_some_iff.mp hu
      cases hsame
      exact Runs.run_cons.mpr ⟨g, hg, ih hut⟩
    | socket a | attach i | lose i | pump i p =>
      rw [← step_gateway (fun a h => by cases h) hu]
      exact ih hut

end Hub

end WebSocket

/-! ### Publishers -/

/-- The message of a request that publishes to the channel of a subscription, if its client may write the namespace. -/
def Op.messageTo (c : WebSocket.Connect) (client : ClientInfo) (ns : String) : Op → Option String
  | .pubsub (.publishMessage channel body) =>
    if checkAccess client ns "write" && decide (ns = c.ns ∧ channel = c.channel) then some body.message else none
  | _ => none

def Job.messageTo (c : WebSocket.Connect) : Job → Option String
  | .data q => q.client.bind fun client => q.op.messageTo c client q.ns
  | _ => none

namespace WebSocket

section Publishers
variable {st : Settings} {c : Connect}

theorem messageTo_of_publishes (hc : rejection st c = none) {j : Job} {message : String}
    (h : j.publishes = some (c.fullChannel, message)) : j.messageTo c = some message := by
  cases j with
  | data q =>
    obtain ⟨client, hclient, h⟩ := Option.bind_eq_some_iff.mp h
    unfold Op.publishes at h
    split at h
    · rename_i channel body hop
      split at h
      · rename_i hguard
        simp only [Bool.and_eq_true] at hguard
        obtain ⟨hname, hmessage⟩ := Prod.mk.inj (Option.some.inj h)
        obtain ⟨hns, hchannel⟩ := channel_inj hguard.1.2 (accepted_valid hc).1 hname
        rw [Job.messageTo, hclient, Option.bind_some, hop, Op.messageTo, hguard.1.1, ← hmessage]
        simp [hns, hchannel]
      · cases h
    · cases h
  | admin q => cases h
  | statusTick pid => cases h

/-- The messages of a channel are those of the requests that publish to it. -/
theorem on_publishes (hc : rejection st c = none) (js : List Job) :
    (on c.fullChannel (js.filterMap Job.publishes)).Sublist (js.filterMap (Job.messageTo c)) := by
  induction js with
  | nil => exact List.Sublist.refl _
  | cons j js ih =>
    have hgrow : (js.filterMap (Job.messageTo c)).Sublist ((j :: js).filterMap (Job.messageTo c)) :=
      (List.sublist_cons_self j js).filterMap _
    cases hj : j.publishes with
    | none =>
      rw [List.filterMap_cons_none hj]
      exact ih.trans hgrow
    | some x =>
      rw [List.filterMap_cons_some hj]
      by_cases hx : x.1 = c.fullChannel
      · have hmessage : j.messageTo c = some x.2 := messageTo_of_publishes hc (hx ▸ hj)
        rw [List.filterMap_cons_some hmessage]
        have hon : on c.fullChannel (x :: js.filterMap Job.publishes) = x.2 :: on c.fullChannel (js.filterMap Job.publishes) := by
          simp [on, hx]
        rw [hon]
        exact ih.cons_cons _
      · have hon : on c.fullChannel (x :: js.filterMap Job.publishes) = on c.fullChannel (js.filterMap Job.publishes) := by
          simp [on, hx]
        rw [hon]
        exact ih.trans hgrow

theorem on_subperm {t : String} {log log' : List (String × String)} (h : log.Subperm log') : (on t log).Subperm (on t log') := by
  obtain ⟨middle, hperm, hsub⟩ := h
  exact ⟨on t middle, (hperm.filter _).map _, (hsub.filter _).map _⟩

end Publishers

/-- However requests and subscriptions are served side by side, whatever connections are lost and whichever sending fails: the
    frames of a subscription carry messages of its channel, in the order in which they were published, and each comes from
    a request of its own, by a client that may write the namespace that the subscriber may read. While the connection
    lasts, none of those published since is left out, and a pump that has nothing to do has sent them all. -/
theorem deliveries (hB : B.Lawful) {st : Settings} {R : Server} {es : List Event} {t : Hub B}
    (h : Hub.run st R (.init B) es = some t) {i : Nat} {f : Feed} (hf : t.feeds[i]? = some f) :
    ∃ ms : List String, f.sent = ms.map f.request.frame ∧
      ms.Sublist (on f.request.fullChannel (t.published R)) ∧
      ms.Subperm ((started (Hub.https es)).filterMap (Job.messageTo f.request)) ∧ (ms ≠ [] → rejection st f.request = none) ∧
      ∀ n, f.history.since = some n → f.history.gaps = false →
        ms <+: on f.request.fullChannel ((t.published R).drop n) ∧
        ((B.connection t.broker i).topic ≠ none → (B.connection t.broker i).inbox = [] → f.sending = none → f.ended = false →
          ms = on f.request.fullChannel ((t.published R).drop n)) := by
  have hfits := Hub.fits_run hB h
  obtain ⟨htopic, hfollows, -, ms, hsent, hpre, htook⟩ := hfits.feeds i f hf
  rw [← htopic]
  have htaken : f.history.taken <+: f.history.taken ++ (B.connection t.broker i).inbox := List.prefix_append _ _
  have hsub : ms.Sublist (on f.history.topic (t.published R)) := (hpre.trans htaken).sublist.trans hfollows.order
  have haccepted : ms ≠ [] → rejection st f.request = none := by
    intro hne
    refine hfits.since f (List.mem_of_getElem? hf) fun hnone => hne ?_
    rw [(hfollows.started hnone).2] at hpre
    exact List.prefix_nil.mp hpre
  refine ⟨ms, hsent, hsub, ?_, haccepted, fun n hn hg => ⟨(hpre.trans htaken).trans (hfollows.whole n hn hg), ?_⟩⟩
  · by_cases hne : ms = []
    · rw [hne]
      exact List.nil_subperm
    · obtain ⟨outs, houts, -⟩ := publications_emitted (Hub.gateway_run h)
      have hchannel := on_subperm (t := f.history.topic) houts.subperm
      rw [htopic] at hchannel hsub
      exact hsub.subperm.trans (hchannel.trans (on_publishes (haccepted hne) _).subperm)
  · intro hattached hinbox hidle hrun
    have hall := hfollows.current n hn hg hattached
    rw [hinbox, List.append_nil, htook hrun, hidle, Option.toList_none, List.append_nil] at hall
    exact hall

def subscriberSettings : Settings := { clients := Dict.ofList [("app", ⟨"k1", "", Dict.ofList [("app", ["read"])]⟩)] }

def publishing (i : Nat) (message : String) : List Event := [.http (.start (publishJob appClient message)), .http (.resume i i)]

/-- A handler that gets to the place where its pump runs. -/
def subscribing (i : Nat) : List Event :=
  [.socket (.resume i .returns), .socket (.resume i .returns), .attach i, .socket (.resume i .returns)]

/-- Two subscribers, of which the second loses its connection for a while, and one that is rejected. -/
def subscribers : List Event :=
  publishing 0 "early" ++
    [.socket (.connect ⟨"app", "news", some "k1"⟩), .socket (.connect ⟨"app", "news", some "k1"⟩),
      .socket (.connect ⟨"app", "news", none⟩)] ++
    subscribing 0 ++ subscribing 1 ++ publishing 1 "one" ++ [.pump 0 .gets, .pump 1 .gets, .pump 1 .sends, .lose 1] ++
    publishing 2 "two" ++ [.attach 1] ++ publishing 3 "three" ++
    [.pump 0 .sends, .pump 0 .gets, .pump 0 .sends, .pump 1 .gets, .pump 0 .gets, .pump 1 .sends, .pump 0 .sends]

theorem deliveries_two : ∃ (t : Hub (simple String String)) (f g : Feed) (ms ms' : List String),
    Hub.run subscriberSettings reference (.init _) subscribers = some t ∧ t.feeds[0]? = some f ∧ t.feeds[1]? = some g ∧
    (f.sent = ["one", "two", "three"].map f.request.frame ∧ f.sent = ms.map f.request.frame ∧
      ms = on f.request.fullChannel ((t.published reference).drop 1) ∧
      ms.Subperm ((started (Hub.https subscribers)).filterMap (Job.messageTo f.request)) ∧
      rejection subscriberSettings f.request = none) ∧
    g.sent = ["one", "three"].map g.request.frame ∧ g.sent = ms'.map g.request.frame ∧
    ms'.Sublist (on g.request.fullChannel (t.published reference)) := by
  obtain ⟨t, f, g, h, hf, hg, hsent, hsent', hidle⟩ : ∃ (t : Hub (simple String String)) (f g : Feed),
      Hub.run subscriberSettings reference (.init _) subscribers = some t ∧ t.feeds[0]? = some f ∧ t.feeds[1]? = some g ∧
      f.sent = ["one", "two", "three"].map f.request.frame ∧ g.sent = ["one", "three"].map g.request.frame ∧
      f.history.since = some 1 ∧ f.history.gaps = false ∧ ((simple String String).connection t.broker 0).topic ≠ none ∧
      ((simple String String).connection t.broker 0).inbox = [] ∧ f.sending = none ∧ f.ended = false :=
    ⟨_, _, _, rfl, rfl, rfl, rfl, rfl, rfl, rfl, Option.some_ne_none _, rfl, rfl, rfl⟩
  obtain ⟨hsince, hgaps, htopic, hinbox, hsending, hended⟩ := hidle
  obtain ⟨ms, hms, -, hperm, haccepted, hwhole⟩ := deliveries simple_lawful h hf
  obtain ⟨ms', hms', hsub', -⟩ := deliveries simple_lawful h hg
  have hne : ms ≠ [] := by
    rintro rfl
    cases hms.symm.trans hsent
  exact ⟨t, f, g, ms, ms', h, hf, hg,
    ⟨hsent, hms, (hwhole 1 hsince hgaps).2 htopic hinbox hsending hended, hperm, haccepted hne⟩, hsent', hms', hsub'⟩

end WebSocket

end Redgw
