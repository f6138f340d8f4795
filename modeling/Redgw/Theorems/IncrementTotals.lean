import Mathlib.Algebra.Ring.Int.Defs
import Redgw.Redis.Counters
import Redgw.Theorems.Linearizable

/-! # Parallel increments

However increments of one counter and requests that only read are served side by side, the counter is the sum of the
increments that took place, and each of them is answered with the sum up to its own. -/

namespace Redgw
open Redis Prog Pool

/-- The delta of a request that increments the key. -/
def Job.increment (ns key : String) : Job → Option Int
  | .data q =>
    match q.op with
    | .kv (.incrKv key' body) => if q.ns = ns ∧ key' = key then some body.delta else none
    | _ => none
  | _ => none

/-- A counter without a lifetime; a missing one counts as zero. -/
def HoldsSum (e : Option Entry) (sum : Int) : Prop :=
  int64 sum = true ∧ (e = none ∧ sum = 0 ∨ e = some ⟨.str (toString sum), none⟩)

/-- What an increment answers that has led to this sum. -/
def sumBody (ns key : String) (sum : Int) (ttl : Json) : Json := ok (.obj [("value", .str (toString sum))]) ns key "string" ttl

section Increment
variable {R : Server} {st : Settings} {ns key k : String}

theorem increment_eq_some {j : Job} {delta : Int} (h : j.increment ns key = some delta) :
    ∃ q : Request, j = .data q ∧ q.ns = ns ∧ q.op = .kv (.incrKv key ⟨delta⟩) := by
  cases j with
  | data q =>
    unfold Job.increment at h
    dsimp only at h
    split at h
    · rename_i key' body hop
      split at h
      · rename_i hsame
        cases h
        exact ⟨q, rfl, hsame.1, by rw [hop, hsame.2]⟩
      · cases h
    · cases h
  | admin q => cases h
  | statusTick pid => cases h

/-- The outcome of an increment, alone: it took place, or it is refused and the counter is as it was. -/
inductive Added (ns key k : String) (sum delta : Int) : Except Exn Json × Store → Prop
  | took (ttl : Json) {s : Store} (h : HoldsSum (s k) (sum + delta)) : Added ns key k sum delta (.ok (sumBody ns key (sum + delta) ttl), s)
  | refused {e : Exn} {s : Store} (he : (Response.of (.error e)).status ≠ 200) (h : HoldsSum (s k) sum) :
    Added ns key k sum delta (.error e, s)

theorem incrby_sums (hR : R.Sums) {e : Option Entry} {sum delta : Int} (he : HoldsSum e sum) (hd : int64 delta = true) (now : Nat) :
    R.onKey (.incrby delta) now e = (.ok (.int (sum + delta)), some ⟨.str (toString (sum + delta)), none⟩) ∧ int64 (sum + delta) = true ∨
      ∃ msg, R.onKey (.incrby delta) now e = (.error msg, e) := by
  obtain ⟨hsum, ⟨rfl, rfl⟩ | rfl⟩ := he
  · rw [Int.zero_add]
    exact Or.inl ⟨hR.absent delta now hd, hd⟩
  · cases hfits : int64 (sum + delta) with
    | true => exact Or.inl ⟨hR.fits delta now sum hsum hfits, rfl⟩
    | false => exact Or.inr (hR.overflows delta now sum hsum hfits)

/-- Refused by its permission. -/
theorem added_refused {event code reason c msg : String} {status : Nat} (hstatus : status ≠ 200) (hk : ¬Own k) {sum delta : Int}
    {s : Store} (hs : HoldsSum (s k) sum) (now : Nat) : Added ns key k sum delta
      (Alone R now (.call (.setPendingEvent event code) fun _ => .call (.fireMetric reason) fun _ => .raise (error c msg status)) s) := by
  rw [alone_refused]
  refine .refused hstatus ?_
  rw [agree_fireMetric reason now s k hk]
  exact hs

theorem increment_alone (hL : R.Lifetimes) (hR : R.Sums) (hk : buildKey st.engine ns kvPrefix key = .ok k)
    {client : Option ClientInfo} {delta sum : Int} {s : Store} (hs : HoldsSum (s k) sum) (now : Nat) :
    Added ns key k sum delta (Alone R now (endpoint st client ns (.kv (.incrKv key ⟨delta⟩))) s) := by
  have hown : ¬Own k := KeyOf.not_own ⟨kvPrefix, by decide, key, hk⟩
  cases client with
  | none => exact added_refused (by decide) hown hs now
  | some c =>
    cases hv : (Op.kv (.incrKv key ⟨delta⟩)).valid with
    | false =>
      rw [endpoint, hv]
      exact .refused (e := .unprocessable) (by decide) hs
    | true =>
      have hd : int64 delta = true := hv
      rw [endpoint, hv]
      show Added ns key k sum delta (Alone R now ((Op.kv (.incrKv key ⟨delta⟩)).handle st c ns) s)
      rw [Op.follows (.kv (.incrKv key ⟨delta⟩)) "write" _ rfl, hk]
      by_cases ha : checkAccess c ns "write" = true
      · rw [requireAccess, if_pos ha]
        show Added ns key k sum delta (Alone R now (Plan.program ns {
          sending := .pipeline, commands := [(k, .incrby delta), (k, .ttl)], key := key, type := "string", ttl := .normalized
          onError := fun _ => error "INVALID_VALUE" "Existing value is not an integer or the increment is out of int64 range"
          data := fun vs => .ok (.obj [("value", .str (first vs).pyStr)]) }) s)
        rw [alone_two rfl rfl, hL.atTtl]
        rcases incrby_sums hR hs hd now with ⟨h, hfits⟩ | ⟨msg, h⟩
        · rw [Server.atKey, h]
          refine .took _ ⟨hfits, Or.inr ?_⟩
          exact Store.set_self _ _ _
        · rw [Server.atKey, h]
          refine .refused (fun hstatus => absurd (show (400 : Nat) = 200 from hstatus) (by decide)) ?_
          show HoldsSum (s.set k (s k) k) sum
          rw [Store.set_same]
          exact hs
      · rw [requireAccess, if_neg ha]
        exact added_refused (by decide) hown hs now

end Increment

/-! ### The increments of a run -/

/-- The counter of the key, which increments move. -/
def totalAt (ns key k : String) : Object Nat Store Job (Except Exn Json) Int Int where
  apply sum delta := sum + delta
  Holds sum s := HoldsSum (s k) sum
  Moves e delta sum x := e.request.increment ns key = some delta ∧ ∃ ttl, x = .ok (sumBody ns key (sum + delta) ttl)
  Idle e x := ∀ delta, e.request.increment ns key = some delta → ∃ error, x = .error error ∧ (Response.of (.error error)).status ≠ 200

section Run
variable {R : Server} {st : Settings} {ns key k : String} {order : List (Turn Nat Job)}

theorem totalAt_after (moves : List (Nat × Int)) : (totalAt ns key k).after 0 moves = (moves.map Prod.snd).sum :=
  List.sum_eq_foldl.symm

theorem totalAt_increment (hL : R.Lifetimes) (hS : R.Sums) (hk : buildKey st.engine ns kvPrefix key = .ok k) {e : Turn Nat Job}
    {delta : Int} (hdelta : e.request.increment ns key = some delta) : (totalAt ns key k).Turns (gatewaySpec R st) e := by
  intro sum s hs
  obtain ⟨q, hq, hns, hop⟩ := increment_eq_some hdelta
  have halone : Added ns key k sum delta ((gatewaySpec R st).apply e.request e.env s) := by
    have hat : (gatewaySpec R st).apply e.request e.env s = Alone R e.env (endpoint st q.client ns (.kv (.incrKv key ⟨delta⟩))) s := by
      rw [hq, ← hns, ← hop]
      rfl
    rw [hat]
    exact increment_alone hL hS hk hs e.env
  generalize (gatewaySpec R st).apply e.request e.env s = y at halone ⊢
  cases halone with
  | took ttl h => exact Or.inl ⟨delta, ⟨hdelta, ttl, rfl⟩, h⟩
  | refused he h => exact Or.inr ⟨fun _ _ => ⟨_, rfl, he⟩, h⟩

theorem totalAt_watches (hR : R.Lawful) (hk : ¬Own k) {e : Turn Nat Job} (hwatch : e.request.watches = true) :
    (totalAt ns key k).Turns (gatewaySpec R st) e := by
  intro sum s hs
  refine Or.inr ⟨fun delta hdelta => ?_, ?_⟩
  · obtain ⟨q, hq, -, hop⟩ := increment_eq_some hdelta
    rw [hq, Job.watches, hop] at hwatch
    cases hwatch
  · have hsame : s k = ((gatewaySpec R st).apply e.request e.env s).2 k := atOnce_watches hR hwatch e.env s k hk
    show HoldsSum (((gatewaySpec R st).apply e.request e.env s).2 k) sum
    rw [← hsame]
    exact hs

theorem sameButTtl_sum {x : Except Exn Json} {sum : Int} {ttl : Json} (h : SameButTtl x (.ok (sumBody ns key sum ttl))) :
    ∃ ttl', x = .ok (sumBody ns key sum ttl') := by
  rcases h with rfl | ⟨data, ns', key', type, ttl', ttl'', rfl, hbody⟩
  · exact ⟨ttl, rfl⟩
  · simp only [sumBody, ok, Except.ok.injEq, Json.obj.injEq, List.cons.injEq, Prod.mk.injEq, Json.str.injEq, true_and,
      and_true] at hbody
    obtain ⟨rfl, rfl, rfl, rfl, -⟩ := hbody
    exact ⟨ttl', rfl⟩

/-- Whatever increments of one counter and requests that only read are served side by side: some of the increments have
    taken place, in an order of which the counter is the sum. Each of these that has ended is answered with the sum up to
    its own, and any other that has ended is refused. -/
theorem increments_total (hR : R.Lawful) (hL : R.Lifetimes) (hS : R.Sums) (hk : buildKey st.engine ns kvPrefix key = .ok k)
    {acts : List (Pool.Act Job Nat)}
    (hjobs : ∀ j, .start j ∈ acts → (∃ delta, j.increment ns key = some delta) ∨ j.watches = true)
    {t : Gateway} (h : Gateway.run st R acts = some t) : ∃ counted : List (Nat × Int),
    (counted.map Prod.fst).Nodup ∧
    (∀ x ∈ counted, ∃ j, (started acts)[x.1]? = some j ∧ j.increment ns key = some x.2) ∧
    HoldsSum (t.state k) (counted.map Prod.snd).sum ∧
    ∀ i j delta p, (started acts)[i]? = some j → j.increment ns key = some delta → t.programs[i]? = some p → Ended p →
      ∃ r, p = .pure (some r) ∧
        ((∃ before after ttl, counted = before ++ (i, delta) :: after ∧
          r = ⟨200, sumBody ns key ((before.map Prod.snd).sum + delta) ttl⟩) ∨
        i ∉ counted.map Prod.fst ∧ r.status ≠ 200) := by
  have hone : ∀ j, Pool.Act.start j ∈ acts → j.oneStep st = true ∨ j.watches = true := by
    intro j hj
    refine (hjobs j hj).imp_left ?_
    rintro ⟨delta, hdelta⟩
    obtain ⟨q, rfl, -, hop⟩ := increment_eq_some hdelta
    simp [Job.oneStep, hop, Op.oneStep, KvOp.oneStep]
  have hrun : Gateway.run st R (acts ++ []) = some t := by rwa [List.append_nil]
  obtain ⟨u, order, -, hu, hexplained, -⟩ := ordered hR hL (by simpa using hone) hrun
  obtain rfl : u = t := Option.some.inj (hu.symm.trans h)
  have hkey : ¬Own k := KeyOf.not_own ⟨kvPrefix, by decide, key, hk⟩
  have hstart : (totalAt ns key k).Moved (gatewaySpec R st) 0 Store.empty [] [] := Object.moved_nil ⟨by decide, Or.inl ⟨rfl, rfl⟩⟩
  obtain ⟨counted, hcounted⟩ := hstart.more (by simpa using hexplained.once) fun e he => by
    rcases hjobs _ (turns_started hexplained he) with ⟨delta, hdelta⟩ | hwatch
    · exact totalAt_increment hL hS hk hdelta
    · exact totalAt_watches hR hkey hwatch
  rw [List.nil_append, List.nil_append] at hcounted
  have hsum : HoldsSum ((gatewaySpec R st).sequence Store.empty order k) ((totalAt ns key k).after 0 counted) := hcounted.holds
  rw [totalAt_after] at hsum
  refine ⟨counted, hexplained.once.sublist hcounted.sublist, fun x hx => ?_, ?_, fun i j delta p hj hdelta hp hend => ?_⟩
  · obtain ⟨e, he, hprogram, -, -, hdelta, -⟩ := hcounted.own x hx
    exact ⟨e.request, hprogram ▸ hexplained.own e he, hdelta⟩
  · rw [hexplained.data k hkey]
    exact hsum
  · obtain ⟨q, rfl, -, hop⟩ := increment_eq_some hdelta
    have hstep : (Job.data q).oneStep st = true := by simp [Job.oneStep, hop, Op.oneStep, KvOp.oneStep]
    obtain ⟨x, y, now, rfl, hx, hmoved⟩ := hexplained.moved hcounted hj hstep hp hend
    refine ⟨_, rfl, ?_⟩
    rcases hmoved with ⟨before, delta', after, hsplit, hdelta', ttl, hat⟩ | ⟨hout, hidle⟩
    · rw [hdelta] at hdelta'
      cases hdelta'
      rw [totalAt_after] at hat
      obtain ⟨ttl', rfl⟩ := sameButTtl_sum (hat ▸ hx)
      exact Or.inl ⟨before, after, ttl', hsplit, rfl⟩
    · obtain ⟨error, hat, hstatus⟩ := hidle delta hdelta
      have herror : x = .error error := sameButTtl_error (hat ▸ hx)
      rw [herror]
      exact Or.inr ⟨hout, hstatus⟩

end Run

/-- Two increments, of which the second comes first. -/
theorem increments_total_eight : ∃ (t : Gateway) (counted : List (Nat × Int)),
    Gateway.run {} reference [.start (countJob 5), .start (countJob 3), .resume 1 7, .resume 0 8] = some t ∧
    t.state "app:kv:n" = some ⟨.str "8", none⟩ ∧ (counted.map Prod.fst).Nodup ∧
    HoldsSum (t.state "app:kv:n") (counted.map Prod.snd).sum := by
  obtain ⟨t, ht, hstate⟩ : ∃ t, Gateway.run {} reference [.start (countJob 5), .start (countJob 3), .resume 1 7, .resume 0 8] =
      some t ∧ t.state "app:kv:n" = some ⟨.str "8", none⟩ := ⟨_, rfl, by decide +kernel⟩
  have hjobs : ∀ j, Pool.Act.start j ∈ ([.start (countJob 5), .start (countJob 3), .resume 1 7, .resume 0 8] :
      List (Pool.Act Job Nat)) → (∃ delta, j.increment "app" "n" = some delta) ∨ j.watches = true := by
    intro j hj
    simp only [List.mem_cons, Pool.Act.start.injEq, reduceCtorEq, List.not_mem_nil, or_false] at hj
    rcases hj with rfl | rfl
    · exact Or.inl ⟨5, rfl⟩
    · exact Or.inl ⟨3, rfl⟩
  have hk : buildKey ({} : Settings).engine "app" kvPrefix "n" = .ok "app:kv:n" := rfl
  obtain ⟨counted, hnodup, -, hsum, -⟩ := increments_total reference_lawful reference_lifetimes reference_sums hk hjobs ht
  exact ⟨t, counted, ht, hstate, hnodup, hsum⟩

end Redgw
