import Redgw.Redis.Lists

/-! # Writes

What the commands that write do to the lifetime of a key, and that what they add is there. -/

namespace Redgw.Redis

namespace KeyCmd

/-- The commands that leave the lifetime of a key as it is. -/
def keepsTtl : KeyCmd → Bool
  | .set .. | .setex .. | .del | .expire _ | .persist => false
  | _ => true

/-- The commands that leave a key there, with its lifetime. -/
def leavesKey : KeyCmd → Bool
  | .incrby _ | .incrbyfloat _ | .zincrby .. | .xadd .. => true
  | _ => false

/-- The command adds something, and nothing twice. -/
def Adds : KeyCmd → Prop
  | .hset fields => fields ≠ [] ∧ (fields.map (·.1)).Nodup
  | .sadd members => members ≠ []
  | .zadd members => members ≠ [] ∧ (members.map (·.1)).Nodup
  | .lpush _ | .rpush _ => True
  | _ => False

/-- What the command adds is in the value. -/
def Added : KeyCmd → Value → Prop
  | .hset fields, .hash fs => ∀ f ∈ fields, fs.lookup f.1 = some f.2
  | .sadd members, .set ms => ∀ m ∈ members, m ∈ ms
  | .zadd members, .zset ms => ∀ m ∈ members, ms.lookup m.1 = some m.2
  | .lpush value, .list xs | .rpush value, .list xs => value ∈ xs
  | _, _ => False

end KeyCmd

/-- The commands that push an element to a list. -/
def KeyCmd.isPush : KeyCmd → Bool
  | .lpush _ | .rpush _ => true
  | _ => false

/-- What the documentation of Redis promises of writes. -/
structure Server.Writes (R : Server) : Prop where
  /-- A lifetime that does not fit is refused whatever the key holds. -/
  setex : ∀ ttl now, 0 < ttl →
    (∀ value e, R.onKey (.setex ttl value) now e = (.ok (.bool true), some ⟨.str value, some (ahead now ttl)⟩)) ∨
    ∃ msg, ∀ value e, R.onKey (.setex ttl value) now e = (.error msg, e)
  set : ∀ value now e, R.onKey (.set value none false) now e = (.ok (.bool true), some ⟨.str value, none⟩)
  setNxThere : ∀ value ex now e, (live now e).isSome → R.onKey (.set value ex true) now e = (.ok .null, e) ∨
    ∃ msg, R.onKey (.set value ex true) now e = (.error msg, e)
  setNx : ∀ value ex now e, live now e = none → (∀ ttl, ex = some ttl → 0 < ttl) →
    R.onKey (.set value ex true) now e = (.ok (.bool true), some ⟨.str value, ex.map (ahead now)⟩) ∨
    ∃ msg, R.onKey (.set value ex true) now e = (.error msg, e)
  keeps : ∀ c now e, c.keepsTtl = true →
    live now (R.onKey c now e).2 = none ∨ deadlineOf now (R.onKey c now e).2 = deadlineOf now e
  leaves : ∀ c now e, c.leavesKey = true → deadlineOf now (R.onKey c now e).2 = deadlineOf now e
  adds : ∀ c now e v, c.Adds → (R.onKey c now e).1 = .ok v → ∃ x, live now (R.onKey c now e).2 = some x ∧ c.Added x.value
  /-- A push leaves the other elements where they are. -/
  pushes : ∀ c now e, c.isPush = true → ∀ w ∈ found now e, w ∈ found now (R.onKey c now e).2

/-- What it promises of strings with a lifetime that fits. -/
structure Server.Strings (R : Server) : Prop where
  setEx : ∀ value (ttl : Int) (now : Nat) e, 0 < ttl → now + ttl * 1000 ≤ 9223372036854775807 →
    R.onKey (.set value (some ttl) false) now e = (.ok (.bool true), some ⟨.str value, some (ahead now ttl)⟩)
  get : ∀ value d now e, live now e = some ⟨.str value, d⟩ → (R.onKey .get now e).1 = .ok (.str value)
  getMissing : ∀ now e, live now e = none → (R.onKey .get now e).1 = .ok .null

/-! ### The reference server -/

section Fields
variable {β : Type}

theorem lookup_cons_ne {fs : List (String × β)} {g : String × β} {k : String} (h : k ≠ g.1) :
    (g :: fs).lookup k = fs.lookup k := by
  rw [List.lookup_cons, beq_eq_false_iff_ne.mpr h]

theorem lookup_putField_ne {fs : List (String × β)} {f : String × β} {k : String} (h : k ≠ f.1) :
    (putField fs f).lookup k = fs.lookup k := by
  unfold putField
  split
  · clear * - h
    induction fs with
    | nil => rfl
    | cons g fs ih =>
      rw [List.map_cons]
      split
      · rename_i hg
        rw [lookup_cons_ne h, ih, lookup_cons_ne (beq_iff_eq.mp hg ▸ h)]
      · rw [List.lookup_cons, List.lookup_cons, ih]
  · rw [List.lookup_append, lookup_cons_ne h]
    simp

theorem lookup_putField_self (fs : List (String × β)) (f : String × β) : (putField fs f).lookup f.1 = some f.2 := by
  unfold putField
  split
  · rename_i hany
    induction fs with
    | nil => cases hany
    | cons g fs ih =>
      rw [List.map_cons]
      split
      · exact List.lookup_cons_self
      · rename_i hg
        have hne : f.1 ≠ g.1 := fun h => hg (beq_iff_eq.mpr h.symm)
        rw [lookup_cons_ne hne]
        refine ih ?_
        rw [List.any_cons, Bool.or_eq_true] at hany
        exact hany.resolve_left hg
  · rename_i hany
    have hnone : fs.lookup f.1 = none := by
      rw [List.lookup_eq_none_iff]
      intro g hg
      rw [bne_iff_ne]
      exact fun h => hany (List.any_eq_true.mpr ⟨g, hg, beq_iff_eq.mpr h.symm⟩)
    rw [List.lookup_append, hnone, List.lookup_cons_self]
    rfl

/-- Fields with different names are all there once they are put. -/
theorem lookup_putFields {new : List (String × β)} (hnew : (new.map (·.1)).Nodup) (fs : List (String × β)) :
    (∀ f ∈ new, (new.foldl putField fs).lookup f.1 = some f.2) ∧
    ∀ k, k ∉ new.map (·.1) → (new.foldl putField fs).lookup k = fs.lookup k := by
  induction new generalizing fs with
  | nil => exact ⟨fun _ hf => (by cases hf), fun _ _ => rfl⟩
  | cons g new ih =>
    rw [List.map_cons, List.nodup_cons] at hnew
    obtain ⟨hin, hout⟩ := ih hnew.2 (putField fs g)
    refine ⟨fun f hf => ?_, fun k hk => ?_⟩
    · rcases List.mem_cons.mp hf with rfl | hf
      · rw [List.foldl_cons, hout _ hnew.1, lookup_putField_self]
      · exact hin f hf
    · rw [List.map_cons, List.mem_cons, not_or] at hk
      rw [List.foldl_cons, hout k hk.2, lookup_putField_ne hk.1]

theorem putField_ne_nil (fs : List (String × β)) (f : String × β) : putField fs f ≠ [] := by
  intro h
  have hlookup := lookup_putField_self fs f
  rw [h] at hlookup
  cases hlookup

theorem putFields_ne_nil {new fs : List (String × β)} (hnew : new ≠ []) : new.foldl putField fs ≠ [] := by
  rcases List.eq_nil_or_concat' new with rfl | ⟨new, f, rfl⟩
  · exact absurd rfl hnew
  · rw [List.foldl_append]
    exact putField_ne_nil _ f

end Fields

theorem mem_sadd_new {new ms : List String} : ∀ m ∈ new ++ ms, m ∈ (sadd new ms).2 := by
  unfold sadd
  dsimp only
  induction new generalizing ms with
  | nil => exact fun m hm => hm
  | cons n new ih =>
    intro m hm
    rw [List.foldl_cons]
    refine ih m ?_
    rcases List.mem_cons.mp hm with rfl | hm
    · split
      · rename_i hmem
        exact List.mem_append_right _ (List.contains_iff_mem.mp hmem)
      · exact List.mem_append_right _ (List.mem_append_right _ (List.mem_singleton.mpr rfl))
    · rcases List.mem_append.mp hm with hm | hm
      · exact List.mem_append_left _ hm
      · split
        · exact List.mem_append_right _ hm
        · exact List.mem_append_right _ (List.mem_append_left _ hm)

section Writing
variable {α : Type} {get : Value → Option α} {empty : α} {put : α → Option Value} {now : Nat} {e : Option Entry}

theorem writing_keeps (f : α → Except String (Json × α)) :
    live now (writing get empty put now e f).2 = none ∨ deadlineOf now (writing get empty put now e f).2 = deadlineOf now e := by
  have hcases := writing_cases get empty put now e f
  generalize writing get empty put now e f = w at hcases
  cases hcases with
  | wrongType x hl hget => exact Or.inr rfl
  | failed a msg ha hf => exact Or.inr rfl
  | nothing b r hl hf hput => exact Or.inr rfl
  | wrote a b r ha hf hput =>
    cases put b with
    | none => exact Or.inl rfl
    | some v => exact Or.inr (deadlineOf_some now e v)

/-- A write that always leaves a value. -/
theorem writing_leaves {f : α → Except String (Json × α)} (hf : ∀ a r b, f a = .ok (r, b) → put b ≠ none) :
    deadlineOf now (writing get empty put now e f).2 = deadlineOf now e := by
  have hcases := writing_cases get empty put now e f
  generalize writing get empty put now e f = w at hcases
  cases hcases with
  | wrongType x hl hget => rfl
  | failed a msg ha hf' => rfl
  | nothing b r hl hf' hput => rfl
  | wrote a b r ha hf' hput =>
    obtain ⟨v, hv⟩ := Option.ne_none_iff_exists'.mp (hf a r b hf')
    rw [hv]
    exact deadlineOf_some now e v

/-- A write that always leaves a value of which `Q` holds, and that succeeds, leaves the key with it. -/
theorem writing_adds {f : α → Except String (Json × α)} {Q : Value → Prop}
    (hf : ∀ a r b, f a = .ok (r, b) → ∃ v, put b = some v ∧ Q v) {r : Json} (h : (writing get empty put now e f).1 = .ok r) :
    ∃ x, live now (writing get empty put now e f).2 = some x ∧ Q x.value := by
  have hcases := writing_cases get empty put now e f
  generalize writing get empty put now e f = w at hcases h
  cases hcases with
  | wrongType x hl hget => cases h
  | failed a msg ha hf' => cases h
  | nothing b r' hl hf' hput =>
    obtain ⟨v, hv, -⟩ := hf empty r' b hf'
    rw [hput] at hv
    cases hv
  | wrote a b r' ha hf' hput =>
    obtain ⟨v, hv, hq⟩ := hf a r' b hf'
    rw [hv]
    exact ⟨_, live_deadlineOf now e v, hq⟩

end Writing

theorem reference_keeps {c : KeyCmd} (hc : c.keepsTtl = true) (now : Nat) (e : Option Entry) :
    live now (onKey c now e).2 = none ∨ deadlineOf now (onKey c now e).2 = deadlineOf now e := by
  have hlive : ∀ {x : Entry}, live now e = some x → ∀ v, deadlineOf now (some ⟨v, x.deadline⟩) = deadlineOf now e := by
    intro x hl v
    have hd : deadlineOf now e = x.deadline := by rw [deadlineOf, hl]; rfl
    rw [← hd]
    exact deadlineOf_some now e v
  cases c <;> cases hc
  case incrby => exact writing_keeps _
  case incrbyfloat => exact writing_keeps _
  case hset => exact writing_keeps _
  case hdel => exact writing_keeps _
  case lpush => exact writing_keeps _
  case rpush => exact writing_keeps _
  case lpop => exact writing_keeps _
  case rpop => exact writing_keeps _
  case ltrim => exact writing_keeps _
  case sadd => exact writing_keeps _
  case srem => exact writing_keeps _
  case zadd => exact writing_keeps _
  case zrem => exact writing_keeps _
  case zincrby => exact writing_keeps _
  case zpop => exact writing_keeps _
  case xadd => exact writing_keeps _
  case xgroupCreate =>
    simp only [onKey, xgroupCreate]
    split
    · exact Or.inr rfl
    · rename_i hl _
      split
      · refine Or.inr ?_
        rw [deadlineOf, live_forever, deadlineOf, hl]
        rfl
      · exact Or.inr rfl
    · rename_i hl _
      split
      · exact Or.inr rfl
      · exact Or.inr (hlive hl _)
    · exact Or.inr rfl
  case xreadgroup =>
    simp only [onKey, xreadgroup]
    split
    · exact Or.inr rfl
    · rename_i hl
      split
      · exact Or.inr rfl
      · exact Or.inr (hlive hl _)
    · exact Or.inr rfl
  case xack =>
    simp only [onKey, xack]
    split
    · exact Or.inr rfl
    · exact Or.inr rfl
    · rename_i hl
      exact Or.inr (hlive hl _)
    · exact Or.inr rfl
  all_goals exact Or.inr rfl

theorem reference_leaves {c : KeyCmd} (hc : c.leavesKey = true) (now : Nat) (e : Option Entry) :
    deadlineOf now (onKey c now e).2 = deadlineOf now e := by
  cases c <;> cases hc
  case incrby => exact writing_leaves fun _ _ _ _ => Option.some_ne_none _
  case incrbyfloat => exact writing_leaves fun _ _ _ _ => Option.some_ne_none _
  case xadd => exact writing_leaves fun _ _ _ _ => Option.some_ne_none _
  case zincrby delta member =>
    refine writing_leaves fun ms r b hf => ?_
    unfold zincrby at hf
    dsimp only at hf
    split at hf
    · cases hf
    · cases hf
      rw [putZset, if_neg (by simpa using putField_ne_nil _ _)]
      exact Option.some_ne_none _

theorem reference_adds {c : KeyCmd} (hc : c.Adds) (now : Nat) (e : Option Entry) {r : Json}
    (h : (onKey c now e).1 = .ok r) : ∃ x, live now (onKey c now e).2 = some x ∧ c.Added x.value := by
  have hput : ∀ {β : Type} {b : List β} {g : List β → Value}, b ≠ [] →
      (if b.isEmpty then none else some (g b) : Option Value) = some (g b) := fun hb => if_neg (by simpa using hb)
  cases c <;> try exact hc.elim
  case hset fields =>
    refine writing_adds (fun fs r b hf => ?_) h
    cases hf
    exact ⟨_, hput (putFields_ne_nil hc.1), (lookup_putFields hc.2 _).1⟩
  case sadd members =>
    refine writing_adds (fun ms r b hf => ?_) h
    cases hf
    have hmem : ∀ m ∈ members, m ∈ (sadd members ms).2 := fun m hm => mem_sadd_new m (List.mem_append_left _ hm)
    have hne : (sadd members ms).2 ≠ [] := by
      obtain ⟨m, hm⟩ := List.exists_mem_of_ne_nil members hc
      exact List.ne_nil_of_mem (hmem m hm)
    exact ⟨_, hput hne, hmem⟩
  case zadd members =>
    refine writing_adds (fun ms r b hf => ?_) h
    unfold zadd at hf
    split at hf
    · cases hf
    · cases hf
      exact ⟨_, hput (putFields_ne_nil hc.1), (lookup_putFields hc.2 _).1⟩
  case lpush value =>
    refine writing_adds (fun xs r b hf => ?_) h
    cases hf
    exact ⟨_, hput (List.cons_ne_nil _ _), List.mem_cons_self⟩
  case rpush value =>
    refine writing_adds (fun xs r b hf => ?_) h
    cases hf
    have hmem : value ∈ xs ++ [value] := List.mem_append_right _ (List.mem_singleton_self _)
    exact ⟨_, hput (List.ne_nil_of_mem hmem), hmem⟩

/-- A write to a list that keeps its elements. -/
theorem writing_elements {now : Nat} {e : Option Entry} {w : String} {f : List String → Json × List String}
    (hf : ∀ xs, w ∈ xs → w ∈ (f xs).2) (hw : w ∈ found now e) :
    w ∈ found now (writing Value.list? [] putList now e fun xs => .ok (f xs)).2 := by
  have hcases := writing_cases Value.list? [] putList now e fun xs => .ok (f xs)
  generalize writing Value.list? [] putList now e (fun xs => .ok (f xs)) = y at hcases
  have hlist : ∀ a, Found Value.list? [] now e a → w ∈ a := by
    rintro a (⟨hl, rfl⟩ | ⟨x, hl, hx⟩)
    · rw [found, hl] at hw
      cases hw
    · obtain ⟨v, d⟩ := x
      rw [found, hl] at hw
      cases v <;> cases hx
      exact hw
  cases hcases with
  | wrongType x hl hget => exact hw
  | failed a msg ha hf' => cases hf'
  | nothing b r hl hf' hput => exact hw
  | wrote a b r ha hf' hput =>
    obtain rfl : (f a).2 = b := congrArg Prod.snd (Except.ok.inj hf')
    have hmem := hf a (hlist a ha)
    have hlive : putList (f a).2 = some (.list (f a).2) := if_neg (by simpa using List.ne_nil_of_mem hmem)
    rw [hlive]
    show w ∈ elements (live now (some ⟨.list (f a).2, deadlineOf now e⟩))
    rw [live_deadlineOf]
    exact hmem

theorem reference_pushes {c : KeyCmd} (hc : c.isPush = true) (now : Nat) (e : Option Entry) :
    ∀ w ∈ found now e, w ∈ found now (onKey c now e).2 := by
  intro w hw
  cases c <;> cases hc
  case lpush value => exact writing_elements (fun xs hxs => List.mem_cons_of_mem _ hxs) hw
  case rpush value => exact writing_elements (fun xs hxs => List.mem_append_left _ hxs) hw

theorem reference_writes : reference.Writes where
  setex ttl now httl := by
    have hsetex : ∀ value e, reference.onKey (.setex ttl value) now e = Redis.setex now ttl value e := fun _ _ => rfl
    cases hd : deadlineAt now ttl with
    | none =>
      refine Or.inr ⟨"ERR invalid expire time in 'setex' command", fun value e => ?_⟩
      rw [hsetex, Redis.setex, hd]
    | some d =>
      refine Or.inl fun value e => ?_
      rw [hsetex, Redis.setex, hd, deadlineAt_eq hd]
  set value now e := rfl
  setNxThere value ex now e hl := by
    have hset : reference.onKey (.set value ex true) now e = setCmd now value ex true e := rfl
    rw [hset]
    unfold setCmd
    dsimp only
    rw [hl]
    cases ex with
    | none => exact Or.inl rfl
    | some ttl =>
      dsimp only
      cases deadlineAt now ttl with
      | none => exact Or.inr ⟨_, rfl⟩
      | some d => exact Or.inl rfl
  setNx value ex now e hl httl := by
    have hset : reference.onKey (.set value ex true) now e = setCmd now value ex true e := rfl
    rw [hset]
    unfold setCmd
    dsimp only
    rw [hl]
    cases ex with
    | none => exact Or.inl rfl
    | some ttl =>
      dsimp only
      cases hd : deadlineAt now ttl with
      | none => exact Or.inr ⟨_, rfl⟩
      | some d =>
        rw [deadlineAt_eq hd]
        exact Or.inl rfl
  keeps c now e hc := reference_keeps hc now e
  leaves c now e hc := reference_leaves hc now e
  adds c now e v hc h := reference_adds hc now e h
  pushes c now e hc := reference_pushes hc now e

theorem reference_strings : reference.Strings where
  setEx value ttl now e httl hfit := by
    have hset : reference.onKey (.set value (some ttl) false) now e = setCmd now value (some ttl) false e := rfl
    have hd : deadlineAt now ttl = some (ahead now ttl) := by
      refine if_pos ⟨httl, ?_, ?_⟩
      · simp only [int64, decide_eq_true_eq]
        omega
      · simp only [int64, decide_eq_true_eq]
        omega
    rw [hset]
    unfold setCmd
    dsimp only
    rw [hd]
    rfl
  get value d now e hl := by simp only [reference, onKey, hl]
  getMissing now e hl := by simp only [reference, onKey, hl]

end Redgw.Redis
