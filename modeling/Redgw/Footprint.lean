import Redgw.Handler

/-! # What handlers send

Every handler first asks for a permission on its namespace and then sends commands on keys of that
namespace. `Within` says so of one call; the rules below carry it over the pieces that handlers are
made of. -/

namespace Redgw
open Redis Prog

/-! ### The calls of the pieces -/

section Pieces
variable {P : Call → Prop} {α : Type}

theorem calls_ofReply (r : Reply) : (ofReply r).Calls P := by
  cases r <;> trivial

theorem calls_redis {k : String} {c : KeyCmd} (h : P (.redis (.at k c))) : (redis k c).Calls P := ⟨h, calls_ofReply⟩

theorem calls_script {k : String} {body : Script} (h : P (.redis (.eval k body))) : (script k body).Calls P :=
  ⟨h, calls_ofReply⟩

theorem calls_gather {g : GatherCmd} {ks : List String} (h : P (.redis (.gather g ks))) : (gather g ks).Calls P :=
  ⟨h, calls_ofReply⟩

theorem calls_publish {channel message : String} (h : P (.redis (.publish channel message))) :
    (publish channel message).Calls P := ⟨h, calls_ofReply⟩

theorem calls_sendAll {cs : List (String × KeyCmd)} (h : ∀ x ∈ cs, P (.redis (.at x.1 x.2))) : (sendAll cs).Calls P := by
  induction cs with
  | nil => trivial
  | cons x cs ih =>
    refine ⟨h x List.mem_cons_self, fun r => ?_⟩
    have hrest := ih fun y hy => h y (List.mem_cons_of_mem _ hy)
    exact Calls.bind (p := sendAll cs) hrest fun _ => trivial

theorem calls_pipeline {cs : List (String × KeyCmd)} (h : ∀ x ∈ cs, P (.redis (.at x.1 x.2))) : (pipeline cs).Calls P :=
  Calls.bind (calls_sendAll h) fun _ => calls_ofExcept _ _

theorem calls_transaction {cs : List (String × KeyCmd)} (h : P (.redis (.multi cs))) : (transaction cs).Calls P :=
  ⟨h, fun _ => calls_ofExcept _ _⟩

theorem calls_exceptResponseError {body : Handler α} {handler : String → Handler α} (hb : body.Calls P)
    (hh : ∀ msg, (handler msg).Calls P) : (exceptResponseError body handler).Calls P := by
  refine Calls.catching hb fun e => ?_
  cases e with
  | http status code message => trivial
  | unprocessable => trivial
  | redis msg => exact hh msg

/-- A permission check sends no command. -/
theorem calls_guard {client : ClientInfo} {ns operation : String} {f : Unit → Handler α}
    (hp : ∀ e c, P (.setPendingEvent e c)) (hf : ∀ r, P (.fireMetric r))
    (h : checkAccess client ns operation = true → (f ()).Calls P) :
    ((requireAccess client ns operation).bind f).Calls P := by
  unfold requireAccess
  split
  · rename_i ha
    exact h ha
  · exact ⟨hp _ _, fun _ => ⟨hf _, fun _ => trivial⟩⟩

theorem calls_admin {client : ClientInfo} {f : Unit → Handler α} (hp : ∀ e c, P (.setPendingEvent e c))
    (hf : ∀ r, P (.fireMetric r)) (h : client.clientId = "admin" → (f ()).Calls P) :
    ((requireAdmin client).bind f).Calls P := by
  unfold requireAdmin
  split
  · rename_i ha
    exact h ha
  · exact ⟨hp _ _, fun _ => ⟨hf _, fun _ => trivial⟩⟩

/-- The commands that a batch queues are those of its items, each on the key that is built for it. -/
theorem mem_queueItems {β : Type} {st : Settings} {ns typePrefix : String} {items : List (String × β)}
    {queue : String → β → List (String × KeyCmd)} {cs : List (String × KeyCmd)}
    (h : queueItems st ns typePrefix items queue = .ok cs) {x : String × KeyCmd} (hx : x ∈ cs) :
    ∃ item ∈ items, ∃ k, buildKey st.engine ns typePrefix item.1 = .ok k ∧ x ∈ queue k item.2 := by
  unfold queueItems at h
  obtain ⟨queued, hqueued, h⟩ := Fallible.bind_ok.mp h
  cases h
  obtain ⟨ys, hys, hx⟩ := List.mem_flatten.mp hx
  obtain ⟨item, hitem, hy⟩ := Fallible.mapM_ok hqueued ys hys
  obtain ⟨k, hk, hy⟩ := Fallible.bind_ok.mp hy
  cases hy
  exact ⟨item, hitem, k, hk, hx⟩

end Pieces

/-! ### Uses -/

/-- How a handler uses the store: it reads, it also keeps the books of consumer groups, it may also
    create a group, or it writes. -/
inductive Use
  | reads
  | books
  | creates
  | writes
deriving DecidableEq

namespace Use

/-- The permission that the handler asks for. -/
def operation : Use → String
  | .writes => "write"
  | _ => "read"

def allows : Use → KeyCmd → Bool
  | .reads, c => c.reads
  | .books, c => c.reads || c.books
  | .creates, .xgroupCreate .. => true
  | .creates, c => c.reads
  | .writes, _ => true

end Use

/-- The keys that users store in a namespace. -/
def KeyOf (engine : Engine) (ns k : String) : Prop :=
  ∃ typePrefix ∈ storagePrefixes, ∃ key, buildKey engine ns typePrefix key = .ok k

theorem KeyOf.parse {engine : Engine} {ns k : String} (h : KeyOf engine ns k) :
    ∃ typePrefix ∈ storagePrefixes, ∃ key, parseKey engine k = some (ns, typePrefix, key) := by
  obtain ⟨p, hp, key, hk⟩ := h
  obtain ⟨rfl, hns⟩ := buildKey_ok hk
  exact ⟨p, hp, key, parseKey_eq_some.mpr ⟨rfl, hns, storagePrefixes_colon hp⟩⟩

def Uses (u : Use) : Cmd → Prop
  | .at _ c => u.allows c = true
  | .eval _ body => body.Calls fun c => u.allows c = true
  | .del _ => u.allows .del = true
  | .multi cs => ∀ x ∈ cs, u.allows x.2 = true
  | .gather _ _ => True
  | .publish _ _ => True

variable (st : Settings) (client : ClientInfo) (ns : String) (u : Use)

/-- The client holds the permission when a command is sent, and the command fits the use and has keys
    of the namespace only. -/
def Within : Call → Prop
  | .redis c => checkAccess client ns u.operation = true ∧ (∀ k ∈ c.keys, KeyOf st.engine ns k) ∧ Uses u c
  | _ => True

variable {st : Settings} {client : ClientInfo} {ns : String} {u : Use} {α : Type}

/-! ### Permission checks -/

theorem within_guard {f : Unit → Handler α}
    (h : checkAccess client ns u.operation = true → (f ()).Calls (Within st client ns u)) :
    ((requireAccess client ns u.operation).bind f).Calls (Within st client ns u) :=
  calls_guard (fun _ _ => trivial) (fun _ => trivial) h

/-! ### Keys -/

theorem within_key {f : String → Handler α} {typePrefix key : String} (hp : typePrefix ∈ storagePrefixes)
    (h : ∀ k, KeyOf st.engine ns k → (f k).Calls (Within st client ns u)) :
    ((ofExcept (buildKey st.engine ns typePrefix key)).bind f).Calls (Within st client ns u) :=
  Calls.ofExcept_bind fun k hk => h k ⟨typePrefix, hp, key, hk⟩

theorem within_keys {f : List String → Handler α} {typePrefix : String} {keys : List String}
    (hp : typePrefix ∈ storagePrefixes)
    (h : ∀ ks, (∀ k ∈ ks, KeyOf st.engine ns k) → (f ks).Calls (Within st client ns u)) :
    ((ofExcept (buildKeys st ns typePrefix keys)).bind f).Calls (Within st client ns u) := by
  refine Calls.ofExcept_bind fun ks hks => h ks fun k hk => ?_
  obtain ⟨key, -, hkey⟩ := Fallible.mapM_ok hks k hk
  exact ⟨typePrefix, hp, key, hkey⟩

/-! ### Commands -/

/-- A list of commands on keys of the namespace that fit the use. -/
def Fits (st : Settings) (ns : String) (u : Use) (cs : List (String × KeyCmd)) : Prop :=
  ∀ x ∈ cs, KeyOf st.engine ns x.1 ∧ u.allows x.2 = true

/-- A command on one key of the namespace. -/
theorem within_at {k : String} {c : KeyCmd} (ha : checkAccess client ns u.operation = true) (hk : KeyOf st.engine ns k)
    (hc : u.allows c = true) : Within st client ns u (.redis (.at k c)) := by
  refine ⟨ha, ?_, hc⟩
  intro k' hk'
  rw [List.mem_singleton.mp hk']
  exact hk

theorem within_redis {k : String} {c : KeyCmd} (ha : checkAccess client ns u.operation = true)
    (hk : KeyOf st.engine ns k) (hc : u.allows c = true) : (redis k c).Calls (Within st client ns u) :=
  calls_redis (within_at ha hk hc)

theorem within_script {k : String} {body : Script} (ha : checkAccess client ns u.operation = true)
    (hk : KeyOf st.engine ns k) (hb : body.Calls fun c => u.allows c = true) :
    (script k body).Calls (Within st client ns u) := by
  refine calls_script ⟨ha, ?_, hb⟩
  intro k' hk'
  rw [List.mem_singleton.mp hk']
  exact hk

theorem within_gather {g : GatherCmd} {ks : List String} (ha : checkAccess client ns u.operation = true)
    (hks : ∀ k ∈ ks, KeyOf st.engine ns k) : (gather g ks).Calls (Within st client ns u) :=
  calls_gather ⟨ha, hks, trivial⟩

theorem within_publish {channel message : String} (ha : checkAccess client ns u.operation = true) :
    (publish channel message).Calls (Within st client ns u) := by
  refine calls_publish ⟨ha, ?_, trivial⟩
  intro k hk
  cases hk

theorem within_pipeline {cs : List (String × KeyCmd)} (ha : checkAccess client ns u.operation = true)
    (hcs : Fits st ns u cs) : (pipeline cs).Calls (Within st client ns u) := by
  refine calls_pipeline fun x hx => ?_
  obtain ⟨hk, hc⟩ := hcs x hx
  exact within_at ha hk hc

theorem within_transaction {cs : List (String × KeyCmd)} (ha : checkAccess client ns u.operation = true)
    (hcs : Fits st ns u cs) : (transaction cs).Calls (Within st client ns u) := by
  refine calls_transaction ⟨ha, ?_, fun x hx => (hcs x hx).2⟩
  intro k hk
  obtain ⟨x, hx, rfl⟩ := List.mem_map.mp hk
  exact (hcs x hx).1

/-- Commands that are all on one key. -/
theorem fits_single {k : String} {cs : List (String × KeyCmd)} (hk : KeyOf st.engine ns k)
    (hcs : ∀ x ∈ cs, x.1 = k ∧ u.allows x.2 = true) : Fits st ns u cs := by
  intro x hx
  obtain ⟨rfl, hc⟩ := hcs x hx
  exact ⟨hk, hc⟩

/-- One command on each of several keys. -/
theorem fits_map {c : KeyCmd} {ks : List String} (hks : ∀ k ∈ ks, KeyOf st.engine ns k) (hc : u.allows c = true) :
    Fits st ns u (ks.map fun k => (k, c)) := by
  intro x hx
  obtain ⟨k, hk, rfl⟩ := List.mem_map.mp hx
  exact ⟨hks k hk, hc⟩

theorem within_queue {β : Type} {f : List (String × KeyCmd) → Handler α} {typePrefix : String}
    {items : List (String × β)} {queue : String → β → List (String × KeyCmd)} (hp : typePrefix ∈ storagePrefixes)
    (hq : ∀ k v, ∀ x ∈ queue k v, x.1 = k ∧ u.allows x.2 = true)
    (h : ∀ cs, Fits st ns u cs → (f cs).Calls (Within st client ns u)) :
    ((ofExcept (queueItems st ns typePrefix items queue)).bind f).Calls (Within st client ns u) := by
  refine Calls.ofExcept_bind fun cs hcs => h cs fun x hx => ?_
  obtain ⟨item, -, k, hk, hx⟩ := mem_queueItems hcs hx
  obtain ⟨hx₁, hx₂⟩ := hq k item.2 x hx
  exact ⟨⟨typePrefix, hp, item.1, hx₁ ▸ hk⟩, hx₂⟩

theorem within_exceptResponseError {body : Handler α} {handler : String → Handler α}
    (hb : body.Calls (Within st client ns u)) (hh : ∀ msg, (handler msg).Calls (Within st client ns u)) :
    (exceptResponseError body handler).Calls (Within st client ns u) :=
  calls_exceptResponseError hb hh

/-! ### The bodies that routers share -/

theorem within_deleteKey {typePrefix key typeName : String} (hp : typePrefix ∈ storagePrefixes)
    (ha : checkAccess client ns "write" = true) :
    (deleteKey st ns typePrefix key typeName).Calls (Within st client ns .writes) := by
  refine within_key hp fun k hk => ?_
  refine Calls.bind (within_redis ha hk rfl) fun deleted => ?_
  split <;> trivial

theorem within_touchKey {k key typeName : String} {ttl : Int} (ha : checkAccess client ns "write" = true)
    (hk : KeyOf st.engine ns k) : (touchKey k ttl ns key typeName).Calls (Within st client ns .writes) := by
  refine Calls.bind (within_pipeline ha (fits_single hk ?_)) fun results => ?_
  · intro x hx
    simp only [List.mem_cons, List.not_mem_nil, or_false] at hx
    rcases hx with rfl | rfl | rfl <;> exact ⟨rfl, rfl⟩
  · split <;> trivial

end Redgw
