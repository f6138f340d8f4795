import Redgw.Plans
import Redgw.Redis.Writes

/-! # Setting lifetimes

Requests that write send the write, EXPIRE or PERSIST, and TTL. -/

namespace Redgw
open Redis Prog

section Lifetimes
variable {R : Server} {k : String} {ttl : Int} {now : Nat}

/-- The command for the lifetime is refused, finds no key, or gives the key its deadline. -/
theorem onKey_lifetime (hT : R.Lifetimes) (k : String) (ttl : Int) (now : Nat) (e : Option Entry) :
    (∃ msg, R.onKey (lifetime k ttl).2 now e = (.error msg, e)) ∨
    (live now e = none ∧ ∃ b, R.onKey (lifetime k ttl).2 now e = (.ok (.bool b), e)) ∨
    ∃ x b, live now e = some x ∧
      R.onKey (lifetime k ttl).2 now e = (.ok (.bool b), some { x with deadline := deadlineFor now ttl }) := by
  unfold lifetime deadlineFor
  dsimp only
  by_cases httl : 0 < ttl
  · rw [if_pos httl, if_pos httl]
    rcases hT.expire ttl now httl with h | ⟨msg, h⟩
    · rw [h, expired]
      cases hl : live now e with
      | none => exact Or.inr (Or.inl ⟨rfl, _, rfl⟩)
      | some x => exact Or.inr (Or.inr ⟨x, _, rfl, rfl⟩)
    · exact Or.inl ⟨msg, h e⟩
  · rw [if_neg httl, if_neg httl]
    cases hl : live now e with
    | none => exact Or.inr (Or.inl ⟨rfl, _, hT.persistMissing now e hl⟩)
    | some x =>
      obtain ⟨b, h⟩ := hT.persist now e x hl
      exact Or.inr (Or.inr ⟨x, b, rfl, h⟩)

/-- The command for the lifetime gives a key that is there its deadline, if it is not refused. -/
theorem lifetime_gives (hT : R.Lifetimes) {e : Option Entry} {x : Entry} {w : Json} (hl : live now e = some x)
    (hw : (R.onKey (lifetime k ttl).2 now e).1 = .ok w) :
    (R.onKey (lifetime k ttl).2 now e).2 = some { x with deadline := deadlineFor now ttl } := by
  rcases onKey_lifetime hT k ttl now e with ⟨msg, hmsg⟩ | ⟨hnone, -⟩ | ⟨y, b, hy, hset⟩
  · rw [hmsg] at hw
    cases hw
  · rw [hl] at hnone
    cases hnone
  · rw [hl] at hy
    cases hy
    rw [hset]

theorem replies_cons {r : Reply} {rs : List Reply} {vs : List Json} (h : replies (r :: rs) = .ok vs) :
    ∃ v ws, r = .ok v ∧ replies rs = .ok ws ∧ vs = v :: ws := by
  cases r with
  | error msg => cases h
  | ok v =>
    rw [replies] at h
    cases hrs : replies rs with
    | error msg =>
      rw [hrs] at h
      cases h
    | ok ws =>
      rw [hrs] at h
      cases h
      exact ⟨v, ws, rfl, rfl, rfl⟩

/-- A part of the commands is answered if all of them are. -/
theorem replies_append {cs ds : List (String × KeyCmd)} {s : Store} {vs : List Json}
    (h : replies (R.transact now (cs ++ ds) s).1 = .ok vs) : ∃ us ws, replies (R.transact now cs s).1 = .ok us ∧
      replies (R.transact now ds (R.transact now cs s).2).1 = .ok ws := by
  induction cs generalizing s vs with
  | nil => exact ⟨[], vs, rfl, h⟩
  | cons x cs ih =>
    obtain ⟨v, ws, hv, hws, -⟩ := replies_cons h
    obtain ⟨us, ys, hus, hys⟩ := ih hws
    have hv' : (R.atKey x.1 x.2 now s).1 = .ok v := hv
    have hus' : replies (R.transact now cs (R.atKey x.1 x.2 now s).2).1 = .ok us := hus
    refine ⟨v :: us, ys, ?_, hys⟩
    show replies ((R.atKey x.1 x.2 now s).1 :: (R.transact now cs (R.atKey x.1 x.2 now s).2).1) = _
    rw [hv', replies, hus']
    rfl

/-- A write, the command for the lifetime and TTL, at one time and without an error: if the write leaves the
    key there, the key gets its deadline, and its TTL is the last reply. -/
theorem transact_lifetime (hT : R.Lifetimes) {c : KeyCmd} {s : Store} {vs : List Json}
    (h : replies (R.transact now [(k, c), lifetime k ttl, (k, .ttl)] s).1 = .ok vs) :
    ∃ v, (R.onKey c now (s k)).1 = .ok v ∧ ∀ x, live now (R.onKey c now (s k)).2 = some x →
      (R.transact now [(k, c), lifetime k ttl, (k, .ttl)] s).2 k = some { x with deadline := deadlineFor now ttl } ∧
      last vs = .int (remaining now (some { x with deadline := deadlineFor now ttl })) := by
  obtain ⟨v, ws, hv, hws, rfl⟩ := replies_cons h
  obtain ⟨w, us, hw, hus, rfl⟩ := replies_cons hws
  obtain ⟨u, ts, hu, hts, rfl⟩ := replies_cons hus
  cases hts
  refine ⟨v, hv, fun x hx => ?_⟩
  have hset : R.onKey (lifetime k ttl).2 now (R.onKey c now (s k)).2 =
      (.ok w, some { x with deadline := deadlineFor now ttl }) := by
    have hw' : (R.onKey (lifetime k ttl).2 now ((R.atKey k c now s).2 k)).1 = .ok w := hw
    rw [Server.atKey_self] at hw'
    exact Prod.ext hw' (lifetime_gives hT hx hw')
  have hafter : (R.atKey k (lifetime k ttl).2 now (R.atKey k c now s).2).2 k = some { x with deadline := deadlineFor now ttl } := by
    rw [Server.atKey_self, Server.atKey_self, hset]
  have hlast : R.onKey .ttl now ((R.atKey k (lifetime k ttl).2 now (R.atKey k c now s).2).2 k) =
      (.ok (.int (remaining now (some { x with deadline := deadlineFor now ttl }))),
        some { x with deadline := deadlineFor now ttl }) := by
    rw [hafter, hT.ttl]
  constructor
  · show (R.atKey k .ttl now (R.atKey k (lifetime k ttl).2 now (R.atKey k c now s).2).2).2 k = _
    rw [Server.atKey_self, hlast]
  · have hu' : (R.onKey .ttl now ((R.atKey k (lifetime k ttl).2 now (R.atKey k c now s).2).2 k)).1 = .ok u := hu
    rw [hlast] at hu'
    cases hu'
    rfl

/-- The command that stores a text with a lifetime, or without one. -/
def storing (ttl : Int) (value : String) : KeyCmd := if 0 < ttl then .setex ttl value else .set value none false

/-- The same for a key that is not there. -/
def storingNx (ttl : Int) (value : String) : KeyCmd := if 0 < ttl then .set value (some ttl) true else .set value none true

theorem storing_stores (hW : R.Writes) {value : String} {e : Option Entry} {v : Json}
    (h : (R.onKey (storing ttl value) now e).1 = .ok v) :
    (R.onKey (storing ttl value) now e).2 = some ⟨.str value, deadlineFor now ttl⟩ := by
  unfold storing deadlineFor at *
  by_cases httl : 0 < ttl
  · rw [if_pos httl] at h ⊢
    rw [if_pos httl]
    rcases hW.setex ttl now httl with hset | ⟨msg, hmsg⟩
    · rw [hset]
    · rw [hmsg] at h
      cases h
  · rw [if_neg httl, if_neg httl, hW.set]

theorem storingNx_stores (hW : R.Writes) {value : String} {e : Option Entry} {v : Json}
    (h : (R.onKey (storingNx ttl value) now e).1 = .ok v) (hv : v.truthy = true) :
    (R.onKey (storingNx ttl value) now e).2 = some ⟨.str value, deadlineFor now ttl⟩ := by
  have hset : ∀ ex : Option Int, (∀ t, ex = some t → 0 < t) → (R.onKey (.set value ex true) now e).1 = .ok v →
      (R.onKey (.set value ex true) now e).2 = some ⟨.str value, ex.map (ahead now)⟩ := by
    intro ex hex hr
    cases hl : live now e with
    | none =>
      rcases hW.setNx value ex now e hl hex with hset | ⟨msg, hmsg⟩
      · rw [hset]
      · rw [hmsg] at hr
        cases hr
    | some x =>
      rcases hW.setNxThere value ex now e (by rw [hl]; rfl) with hset | ⟨msg, hmsg⟩
      · rw [hset] at hr
        cases hr
        cases hv
      · rw [hmsg] at hr
        cases hr
  unfold storingNx deadlineFor at *
  by_cases httl : 0 < ttl
  · rw [if_pos httl] at h ⊢
    rw [if_pos httl]
    refine hset (some ttl) (fun t ht => ?_) h
    cases ht
    exact httl
  · rw [if_neg httl] at h ⊢
    rw [if_neg httl]
    exact hset none (fun t ht => by cases ht) h

end Lifetimes

end Redgw
