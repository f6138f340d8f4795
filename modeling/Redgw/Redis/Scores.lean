import Redgw.Redis.Kinds
import Redgw.Redis.Writes

/-! # Scores

The scores that a sorted set holds come from ZADD, and from the sums of ZINCRBY. -/

namespace Redgw.Redis

def Value.scores : Value → List Score
  | .zset members => members.map (·.2)
  | _ => []

def scoresOf (e : Option Entry) : List Score :=
  match e with
  | some x => x.value.scores
  | none => []

/-- What ZINCRBY adds to: the score of the member, or 0. A value of another type is refused. -/
def scoreAt (now : Nat) (e : Option Entry) (member : String) : Option Score :=
  match live now e with
  | none => some (.fin 0)
  | some ⟨.zset members, _⟩ => some ((members.lookup member).getD (.fin 0))
  | some _ => none

/-- The scores that a command brings. -/
def KeyCmd.scores : KeyCmd → List Score
  | .zadd members => members.map (·.2)
  | _ => []

/-- A score that the command may leave under a key that held `e`. -/
def Scored (c : KeyCmd) (now : Nat) (e : Option Entry) (x : Score) : Prop :=
  x ∈ scoresOf e ∨ x ∈ c.scores ∨
    ∃ delta member y, c = .zincrby delta member ∧ scoreAt now e member = some y ∧ x = y.add delta

/-- What the documentation promises of scores. -/
structure Server.Scores (R : Server) : Prop where
  /-- A command leaves the scores that it brings, scores that were there, and the sum of ZINCRBY. -/
  scored : ∀ c now e, ∀ x ∈ scoresOf (R.onKey c now e).2, Scored c now e x
  /-- ZINCRBY refuses nan only. -/
  sums : ∀ delta member now e x, scoreAt now e member = some x → x.add delta ≠ .nan →
    x.add delta ∈ scoresOf (R.onKey (.zincrby delta member) now e).2

/-! ### The reference server -/

section Touches
variable {α : Type} {κ : Kind} {get : Value → Option α} {put : α → Option Value} {empty : α} {now : Nat} {e : Option Entry}

theorem touches_writing (h : Access κ get put) (f : α → Except String (Json × α)) :
    (writing get empty put now e f).2 = e ∨ HasKind κ (writing get empty put now e f).2 := by
  have hcases := writing_cases get empty put now e f
  generalize writing get empty put now e f = w at hcases ⊢
  cases hcases with
  | wrote a b r ha hfa hput =>
    refine .inr fun y hy => ?_
    obtain ⟨v, hv, rfl⟩ := Option.map_eq_some_iff.mp hy
    exact h.put b v hv
  | _ => exact .inl rfl

theorem touches_set {value : String} {ex : Option Int} {nx : Bool} :
    (setCmd now value ex nx e).2 = e ∨ HasKind .str (setCmd now value ex nx e).2 := by
  rcases setCmd_cases now value ex nx e with h | ⟨d, h⟩ | h
  · exact .inl (by rw [h])
  · refine .inr fun y hy => ?_
    rw [h] at hy
    cases hy
    rfl
  · exact .inl (by rw [h])

theorem touches_setex {ttl : Int} {value : String} : (setex now ttl value e).2 = e ∨ HasKind .str (setex now ttl value e).2 := by
  unfold setex
  split
  · refine .inr fun y hy => ?_
    cases hy
    rfl
  · exact .inl rfl

theorem touches_xgroupCreate {group id : String} {mk : Bool} :
    (xgroupCreate group id mk now e).2 = e ∨ HasKind .stream (xgroupCreate group id mk now e).2 := by
  unfold xgroupCreate
  split
  · exact .inl rfl
  · split
    · exact .inr hasKind_stream
    · exact .inl rfl
  · split
    · exact .inl rfl
    · exact .inr hasKind_stream
  · exact .inl rfl

theorem touches_xreadgroup {group consumer : String} {count : Int} :
    (xreadgroup group consumer count now e).2 = e ∨ HasKind .stream (xreadgroup group consumer count now e).2 := by
  unfold xreadgroup
  split
  · exact .inl rfl
  · split
    · exact .inl rfl
    · exact .inr hasKind_stream
  · exact .inl rfl

theorem touches_xack {group : String} {ids : List String} :
    (xack group ids now e).2 = e ∨ HasKind .stream (xack group ids now e).2 := by
  unfold xack
  split
  · exact .inl rfl
  · exact .inl rfl
  · exact .inr hasKind_stream
  · exact .inl rfl

end Touches

/-- A command for values of another type leaves a key as it is, or with a value of that type. -/
theorem onKey_touches {c : KeyCmd} {κ : Kind} (hc : c.kind = some κ) (hκ : κ ≠ .zset) (now : Nat) (e : Option Entry) :
    (onKey c now e).2 = e ∨ HasKind κ (onKey c now e).2 := by
  by_cases hreads : c.reads = true
  · exact .inl (onKey_reads hreads now e)
  cases c with
  | set value ex nx => cases hc; exact touches_set
  | setex ttl value => cases hc; exact touches_setex
  | incrby delta | incrbyfloat delta => cases hc; exact touches_writing access_str _
  | hset fields | hdel field => cases hc; exact touches_writing access_hash _
  | lpush value | rpush value | lpop | rpop | ltrim start stop => cases hc; exact touches_writing access_list _
  | sadd members | srem member => cases hc; exact touches_writing access_set _
  | xadd fields maxlen => cases hc; exact touches_writing access_stream _
  | xgroupCreate group id mk => cases hc; exact touches_xgroupCreate
  | xreadgroup group consumer count => cases hc; exact touches_xreadgroup
  | xack group ids => cases hc; exact touches_xack
  | zadd members | zrem member | zincrby delta member | zpop max => cases hc; exact absurd rfl hκ
  | del | expire ttl | persist => cases hc
  | _ => exact absurd rfl hreads

theorem scores_of_kind {κ : Kind} (hκ : κ ≠ .zset) {e : Option Entry} (he : HasKind κ e) : scoresOf e = [] := by
  cases e with
  | none => rfl
  | some x =>
    obtain ⟨v, d⟩ := x
    cases v with
    | zset members => exact absurd (he _ rfl).symm hκ
    | _ => rfl

theorem scores_of_value {e : Option Entry} {x y : Entry} (hy : e = some y) (hxy : x.value = y.value) :
    scoresOf (some x) = scoresOf e := by
  rw [hy]
  exact congrArg Value.scores hxy

theorem scores_putZset {members : List (String × Score)} {d : Option Nat} {x : Score}
    (hx : x ∈ scoresOf ((putZset members).map fun v => ⟨v, d⟩)) : x ∈ members.map (·.2) := by
  unfold putZset at hx
  split at hx
  · cases hx
  · exact hx

/-- What a sorted set is found to hold. -/
theorem found_scores {now : Nat} {e : Option Entry} {members : List (String × Score)}
    (h : Found Value.zset? [] now e members) :
    (∀ x ∈ members.map (·.2), x ∈ scoresOf e) ∧
      ∀ member, scoreAt now e member = some ((members.lookup member).getD (.fin 0)) := by
  rcases h with ⟨hl, rfl⟩ | ⟨x, hl, hget⟩
  · refine ⟨fun x hx => (by cases hx), fun member => ?_⟩
    unfold scoreAt
    rw [hl]
    rfl
  · obtain ⟨v, d⟩ := x
    cases v with
    | zset ms =>
      cases hget
      refine ⟨fun x hx => ?_, fun member => ?_⟩
      · rw [live_eq_some hl]
        exact hx
      · unfold scoreAt
        rw [hl]
    | _ => cases hget

theorem scoreAt_found {now : Nat} {e : Option Entry} {member : String} {x : Score} (h : scoreAt now e member = some x) :
    ∃ members, Found Value.zset? [] now e members ∧ x = (members.lookup member).getD (.fin 0) := by
  unfold scoreAt at h
  split at h
  · rename_i hl
    cases h
    exact ⟨[], .inl ⟨hl, rfl⟩, rfl⟩
  · rename_i members d hl
    cases h
    exact ⟨members, .inr ⟨_, hl, rfl⟩, rfl⟩
  · cases h

/-- A write to a sorted set leaves scores only by what it makes of the members that it found. -/
theorem scored_writing {c : KeyCmd} {now : Nat} {e : Option Entry}
    {f : List (String × Score) → Except String (Json × List (String × Score))}
    (hf : ∀ a r b, Found Value.zset? [] now e a → f a = .ok (r, b) → ∀ x ∈ b, x ∈ a ∨ x.2 ∈ c.scores ∨
      ∃ delta member y, c = .zincrby delta member ∧ scoreAt now e member = some y ∧ x.2 = y.add delta)
    {x : Score} (hx : x ∈ scoresOf (writing Value.zset? [] putZset now e f).2) : Scored c now e x := by
  have hcases := writing_cases Value.zset? [] putZset now e f
  generalize writing Value.zset? [] putZset now e f = w at hcases hx
  cases hcases with
  | wrote a b r ha hfa hput =>
    obtain ⟨y, hy, rfl⟩ := List.mem_map.mp (scores_putZset hx)
    rcases hf a r b ha hfa y hy with h | h
    · exact .inl ((found_scores ha).1 _ (List.mem_map_of_mem h))
    · exact .inr h
  | _ => exact .inl hx

theorem onKey_scored {c : KeyCmd} {now : Nat} {e : Option Entry} {x : Score} (hx : x ∈ scoresOf (onKey c now e).2) :
    Scored c now e x := by
  cases hkind : c.kind with
  | none =>
    obtain ⟨-, hvalue⟩ := onKey_general hkind now e
    generalize (onKey c now e).2 = e' at hvalue hx
    cases e' with
    | none => cases hx
    | some y =>
      obtain ⟨z, hz, hyz⟩ := hvalue y rfl
      rw [scores_of_value hz hyz] at hx
      exact .inl hx
  | some κ =>
    by_cases hκ : κ = .zset
    · subst hκ
      by_cases hreads : c.reads = true
      · rw [onKey_reads hreads] at hx
        exact .inl hx
      cases c with
      | zadd members =>
        refine scored_writing (fun a r b _ hab y hy => ?_) hx
        unfold zadd at hab
        split at hab
        · cases hab
        · cases hab
          exact (mem_putFields hy).imp_right fun h => .inl (List.mem_map_of_mem h)
      | zrem member =>
        refine scored_writing (fun a r b _ hab y hy => ?_) hx
        cases hab
        exact .inl (List.mem_of_mem_filter hy)
      | zincrby delta member =>
        refine scored_writing (fun a r b ha hab y hy => ?_) hx
        unfold zincrby at hab
        dsimp only at hab
        split at hab
        · cases hab
        · cases hab
          refine (mem_putField hy).imp_right fun h => .inr ⟨delta, member, _, rfl, (found_scores ha).2 member, ?_⟩
          rw [h]
      | zpop max =>
        refine scored_writing (fun a r b _ hab y hy => ?_) hx
        injection hab with hab
        unfold zpop at hab
        split at hab
        · cases hab
          exact .inl hy
        · cases hab
          exact .inl (List.mem_of_mem_filter hy)
      | _ => first | exact absurd rfl hreads | cases hkind
    · rcases onKey_touches hkind hκ now e with h | h
      · rw [h] at hx
        exact .inl hx
      · rw [scores_of_kind hκ h] at hx
        cases hx

theorem mem_putField_self {β : Type} (fs : List (String × β)) (f : String × β) : f ∈ putField fs f := by
  obtain ⟨l₁, l₂, h, -⟩ := List.lookup_eq_some_iff.mp (lookup_putField_self fs f)
  rw [h]
  exact List.mem_append_right _ List.mem_cons_self

theorem onKey_sums {delta : Score} {member : String} {now : Nat} {e : Option Entry} {x : Score}
    (hx : scoreAt now e member = some x) (hsum : x.add delta ≠ .nan) :
    x.add delta ∈ scoresOf (onKey (.zincrby delta member) now e).2 := by
  obtain ⟨members, hfound, rfl⟩ := scoreAt_found hx
  have hwrite : zincrby delta member members = .ok (.float (((members.lookup member).getD (.fin 0)).add delta),
      putField members (member, ((members.lookup member).getD (.fin 0)).add delta)) := by
    unfold zincrby
    exact if_neg hsum
  have hput := mem_putField_self members (member, ((members.lookup member).getD (.fin 0)).add delta)
  have hsome : putZset (putField members (member, ((members.lookup member).getD (.fin 0)).add delta)) =
      some (.zset (putField members (member, ((members.lookup member).getD (.fin 0)).add delta))) :=
    if_neg fun hempty => putField_ne_nil members _ (List.isEmpty_iff.mp hempty)
  have hafter : ∃ d, (onKey (.zincrby delta member) now e).2 =
      some ⟨.zset (putField members (member, ((members.lookup member).getD (.fin 0)).add delta)), d⟩ := by
    rcases hfound with ⟨hl, rfl⟩ | ⟨y, hl, hget⟩
    · refine ⟨none, ?_⟩
      simp only [onKey, writing, hl, hwrite, hsome]
      rfl
    · refine ⟨y.deadline, ?_⟩
      simp only [onKey]
      rw [writing_live hl hget hwrite, hsome]
      rfl
  obtain ⟨d, hd⟩ := hafter
  rw [hd]
  exact List.mem_map.mpr ⟨_, hput, rfl⟩

theorem reference_scores : reference.Scores where
  scored _ _ _ _ hx := onKey_scored hx
  sums _ _ _ _ _ hx hsum := onKey_sums hx hsum

end Redgw.Redis
