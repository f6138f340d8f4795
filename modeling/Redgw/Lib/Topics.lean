import Mathlib.Data.List.Basic
import Mathlib.Data.List.Infix

/-! # Topics

A broker hands every message of a topic to the connections that are subscribed to it at this moment. Each connection
hands its messages out one by one. One that is lost may come back later; what was published between does not. -/

namespace Topics

variable {T M : Type}

/-- The messages of a topic. -/
def on [DecidableEq T] (t : T) (log : List (T × M)) : List M := (log.filter fun x => x.1 = t).map Prod.snd

/-- What a connection is subscribed to, and what it has yet to hand out. -/
structure Connection (T M : Type) where
  topic : Option T
  inbox : List M

/-- A broker with its connections, which are numbered. `getMessage` may come back without a message. -/
structure Broker (T M : Type) where
  State : Type
  init : State
  publish : T × M → State → State
  subscribe : Nat → T → State → State
  lose : Nat → State → State
  getMessage : Nat → State → Option M × State
  connection : State → Nat → Connection T M

/-- What the documentation of a broker promises: a message goes to the connections that are subscribed when it is
    published, behind those that came before it; a connection hands its messages out in this order; and one that is
    lost hands out no more than it had. -/
structure Broker.Lawful [DecidableEq T] (B : Broker T M) : Prop where
  init : ∀ i, B.connection B.init i = ⟨none, []⟩
  publish : ∀ x s i, B.connection (B.publish x s) i =
    if (B.connection s i).topic = some x.1 then { B.connection s i with inbox := (B.connection s i).inbox ++ [x.2] }
    else B.connection s i
  subscribe : ∀ i t s, B.connection (B.subscribe i t s) i = { B.connection s i with topic := some t }
  lose : ∀ i s, ∃ inbox, inbox <+: (B.connection s i).inbox ∧ B.connection (B.lose i s) i = ⟨none, inbox⟩
  getSome : ∀ i s m s', B.getMessage i s = (some m, s') →
    B.connection s i = { B.connection s' i with inbox := m :: (B.connection s' i).inbox }
  getNone : ∀ i s s', B.getMessage i s = (none, s') → B.connection s' i = B.connection s i
  subscribeOther : ∀ i t s j, j ≠ i → B.connection (B.subscribe i t s) j = B.connection s j
  loseOther : ∀ i s j, j ≠ i → B.connection (B.lose i s) j = B.connection s j
  getOther : ∀ i s j, j ≠ i → B.connection (B.getMessage i s).2 j = B.connection s j

/-! ### One connection -/

/-- A connection as its user knows it: the place in the log where its subscription began, whether it has come back
    since, and what it has handed out. -/
structure History (T M : Type) where
  topic : T
  since : Option Nat
  gaps : Bool
  taken : List M

namespace History

def init (t : T) : History T M := ⟨t, none, false, []⟩

/-- The subscription begins, or begins again, when this much has been published. -/
def attach (n : Nat) (h : History T M) : History T M :=
  match h.since with
  | none => { h with since := some n }
  | some _ => { h with gaps := true }

def take (m : M) (h : History T M) : History T M := { h with taken := h.taken ++ [m] }

@[simp] theorem attach_topic (n : Nat) (h : History T M) : (h.attach n).topic = h.topic := by
  unfold attach
  split <;> rfl

@[simp] theorem attach_taken (n : Nat) (h : History T M) : (h.attach n).taken = h.taken := by
  unfold attach
  split <;> rfl

end History

/-- What has been handed out, and what is to come, are messages of the topic in their order. Without a gap none is left
    out, up to its end. -/
structure History.Follows [DecidableEq T] (log : List (T × M)) (c : Connection T M) (h : History T M) : Prop where
  topic : ∀ t, c.topic = some t → t = h.topic
  started : h.since = none → c = ⟨none, []⟩ ∧ h.taken = []
  within : ∀ n, h.since = some n → n ≤ log.length
  order : (h.taken ++ c.inbox).Sublist (on h.topic log)
  whole : ∀ n, h.since = some n → h.gaps = false → h.taken ++ c.inbox <+: on h.topic (log.drop n)
  current : ∀ n, h.since = some n → h.gaps = false → c.topic ≠ none → h.taken ++ c.inbox = on h.topic (log.drop n)

section Follows
variable [DecidableEq T] {log : List (T × M)} {c : Connection T M} {h : History T M}

theorem on_append (t : T) (log log' : List (T × M)) : on t (log ++ log') = on t log ++ on t log' := by
  simp [on]

theorem on_single (t : T) (x : T × M) : on t [x] = if x.1 = t then [x.2] else [] := by
  by_cases h : x.1 = t <;> simp [on, h]

theorem follows_init (t : T) (log : List (T × M)) : (History.init t : History T M).Follows log ⟨none, []⟩ where
  topic t' h := by cases h
  started _ := ⟨rfl, rfl⟩
  within n h := by cases h
  order := List.nil_sublist _
  whole n h := by cases h
  current n h := by cases h

theorem History.Follows.publish (hf : h.Follows log c) (x : T × M) :
    h.Follows (log ++ [x]) (if c.topic = some x.1 then { c with inbox := c.inbox ++ [x.2] } else c) := by
  have hgrow : ∀ n, h.since = some n → on h.topic ((log ++ [x]).drop n) = on h.topic (log.drop n) ++ on h.topic [x] := by
    intro n hn
    rw [List.drop_append_of_le_length (hf.within n hn), on_append]
  have hwithin : ∀ n, h.since = some n → n ≤ (log ++ [x]).length := by
    intro n hn
    have hle := hf.within n hn
    rw [List.length_append]
    omega
  split
  · rename_i hto
    have hnew : on h.topic [x] = [x.2] := by rw [on_single, if_pos (hf.topic _ hto)]
    have htopic : c.topic ≠ none := by
      rw [hto]
      exact Option.some_ne_none _
    refine ⟨hf.topic, fun hs => ?_, hwithin, ?_, fun n hn hg => ?_, fun n hn hg _ => ?_⟩
    · rw [(hf.started hs).1] at hto
      cases hto
    · show (h.taken ++ (c.inbox ++ [x.2])).Sublist (on h.topic (log ++ [x]))
      rw [← List.append_assoc, on_append, hnew]
      exact hf.order.append (List.Sublist.refl _)
    · show h.taken ++ (c.inbox ++ [x.2]) <+: on h.topic ((log ++ [x]).drop n)
      rw [← List.append_assoc, hgrow n hn, hf.current n hn hg htopic, hnew]
    · show h.taken ++ (c.inbox ++ [x.2]) = on h.topic ((log ++ [x]).drop n)
      rw [← List.append_assoc, hgrow n hn, hf.current n hn hg htopic, hnew]
  · rename_i hto
    refine ⟨hf.topic, hf.started, hwithin, ?_, fun n hn hg => ?_, fun n hn hg ha => ?_⟩
    · rw [on_append]
      exact hf.order.trans (List.sublist_append_left _ _)
    · rw [hgrow n hn]
      exact (hf.whole n hn hg).trans (List.prefix_append _ _)
    · obtain ⟨t, ht⟩ := Option.ne_none_iff_exists'.mp ha
      have hother : on h.topic [x] = [] := by
        rw [on_single, if_neg fun heq => hto ?_]
        rw [ht, hf.topic t ht, heq]
      rw [hgrow n hn, hother, List.append_nil]
      exact hf.current n hn hg ha

theorem History.Follows.subscribe (hf : h.Follows log c) :
    (h.attach log.length).Follows log { c with topic := some h.topic } := by
  have htopic : ∀ t, some h.topic = some t → t = h.topic := fun t ht => (Option.some.inj ht).symm
  unfold History.attach
  split
  · rename_i hs
    obtain ⟨rfl, htaken⟩ := hf.started hs
    refine ⟨htopic, fun hnone => (by cases hnone), fun n hn => ?_, hf.order, fun n hn _ => ?_, fun n hn _ _ => ?_⟩
    · cases hn
      exact Nat.le_refl _
    · rw [htaken]
      exact List.nil_prefix
    · cases hn
      rw [htaken, List.drop_length]
      rfl
  · rename_i n hs
    refine ⟨htopic, fun hnone => ?_, hf.within, hf.order, fun _ _ hg => (by cases hg), fun _ _ hg => by cases hg⟩
    rw [hs] at hnone
    cases hnone

theorem History.Follows.lose (hf : h.Follows log c) {inbox : List M} (hinbox : inbox <+: c.inbox) :
    h.Follows log ⟨none, inbox⟩ where
  topic t ht := by cases ht
  started hs := by
    obtain ⟨rfl, htaken⟩ := hf.started hs
    rw [List.prefix_nil.mp hinbox]
    exact ⟨rfl, htaken⟩
  within := hf.within
  order := ((List.prefix_append_right_inj _).mpr hinbox).sublist.trans hf.order
  whole n hn hg := ((List.prefix_append_right_inj _).mpr hinbox).trans (hf.whole n hn hg)
  current n hn hg ha := absurd rfl ha

theorem History.Follows.get {m : M} (hf : h.Follows log { c with inbox := m :: c.inbox }) : (h.take m).Follows log c := by
  have hsame : h.taken ++ [m] ++ c.inbox = h.taken ++ m :: c.inbox := by
    rw [List.append_assoc, List.singleton_append]
  refine ⟨hf.topic, fun hs => ?_, hf.within, ?_, fun n hn hg => ?_, fun n hn hg ha => ?_⟩
  · have hnone := congrArg Connection.inbox (hf.started hs).1
    cases hnone
  · exact hsame ▸ hf.order
  · exact hsame ▸ hf.whole n hn hg
  · exact hsame ▸ hf.current n hn hg ha

end Follows

/-! ### A broker that loses nothing by itself -/

/-- Each connection has its queue, and a lost one loses it. -/
def simple (T M : Type) [DecidableEq T] : Broker T M where
  State := Nat → Connection T M
  init := fun _ => ⟨none, []⟩
  publish x s i := if (s i).topic = some x.1 then { s i with inbox := (s i).inbox ++ [x.2] } else s i
  subscribe i t s := Function.update s i { s i with topic := some t }
  lose i s := Function.update s i ⟨none, []⟩
  getMessage i s := ((s i).inbox.head?, Function.update s i { s i with inbox := (s i).inbox.tail })
  connection s i := s i

section Simple
variable {s : Nat → Connection T M} {i : Nat}

theorem connection_head {m : M} (hm : (s i).inbox.head? = some m) :
    s i = { Function.update s i { s i with inbox := (s i).inbox.tail } i with
      inbox := m :: (Function.update s i { s i with inbox := (s i).inbox.tail } i).inbox } := by
  obtain ⟨inbox, hinbox⟩ := List.head?_eq_some_iff.mp hm
  rw [Function.update_self]
  exact congrArg (Connection.mk (s i).topic) (by rw [hinbox, List.tail_cons])

theorem connection_empty (hinbox : (s i).inbox = []) :
    Function.update s i { s i with inbox := (s i).inbox.tail } i = s i := by
  rw [Function.update_self]
  exact congrArg (Connection.mk (s i).topic) (by rw [hinbox, List.tail_nil])

end Simple

theorem simple_lawful [DecidableEq T] : (simple T M).Lawful where
  init i := rfl
  publish x s i := rfl
  subscribe i t s := Function.update_self ..
  lose i s := ⟨[], List.nil_prefix, Function.update_self ..⟩
  getSome i s m s' h := by
    obtain ⟨hm, rfl⟩ := Prod.mk.inj h
    exact connection_head hm
  getNone i s s' h := by
    obtain ⟨hm, rfl⟩ := Prod.mk.inj h
    exact connection_empty (List.head?_eq_none_iff.mp hm)
  subscribeOther i t s j hj := Function.update_of_ne hj ..
  loseOther i s j hj := Function.update_of_ne hj ..
  getOther i s j hj := Function.update_of_ne hj ..

end Topics
