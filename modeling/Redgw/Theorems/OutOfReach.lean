import Redgw.MetricsPage
import Redgw.Theorems.Jobs
import Redgw.Theorems.KeySelection
import Redgw.Theorems.StoreInvariants

/-! # The gateway's own keys are out of reach

Requests change no key of the gateway's own, but for the writes that the gateway makes for itself, and
these change no storage key. Such keys are neither listed nor counted. -/

namespace Redgw
open Redis Prog

theorem Own.not_storage {engine : Engine} {k : String} (h : Own k) : isStorageKey engine k = false := by
  cases hstore : isStorageKey engine k with
  | false => rfl
  | true =>
    obtain ⟨κ, hκ⟩ := storedAs_storage hstore
    exact absurd h hκ.not_own

theorem storage_not_own {engine : Engine} {k : String} (h : isStorageKey engine k = true) : ¬Own k := by
  intro hown
  rw [hown.not_storage] at h
  cases h

/-! ### Writing -/

section Writing
variable {st : Settings} {R : Server}

/-- A call of a handler leaves the gateway's own keys as they are. -/
theorem adminCall_own (hR : R.Lawful) {c : Call} (hc : AdminCall st False c) (hno : ¬OwnCall c) (now : Nat) (s : Store)
    {k : String} (hk : Own k) : (execStore R c now s).2 k = s k := by
  rcases hc with hc | hc
  · rcases c with (c | _ | _)
    case redis =>
      refine Server.exec_ne fun hmem => ?_
      have hstored : ∃ κ, StoredAs st.engine κ k := by
        cases c with
        | «at» key c =>
          obtain ⟨κ, hκ, -⟩ := hc
          exact ⟨κ, List.mem_singleton.mp hmem ▸ hκ⟩
        | eval key body =>
          obtain ⟨κ, hκ, -⟩ := hc
          exact ⟨κ, List.mem_singleton.mp hmem ▸ hκ⟩
        | gather g ks => exact ⟨g.kind, hc k hmem⟩
        | del ks =>
          obtain ⟨κ, hκ, -⟩ := hc k hmem
          exact ⟨κ, hκ⟩
        | publish channel message => cases hmem
        | multi cs =>
          obtain ⟨x, hx, rfl⟩ := List.mem_map.mp hmem
          obtain ⟨κ, hκ, -⟩ := hc x hx
          exact ⟨κ, hκ⟩
      obtain ⟨κ, hκ⟩ := hstored
      exact hκ.not_own hk
    case setPendingEvent => rfl
    case fireMetric => exact absurd trivial hno
  · rcases c with ((⟨key, c⟩ | _ | _ | _ | _ | _) | _ | _)
    case redis.at =>
      obtain ⟨-, hread⟩ := hc
      have hsame : (R.onKey c now (s key)).2 = s key := by
        rcases hread with rfl | rfl
        · exact hR.reads .get rfl now _
        · exact hR.reads .ttl rfl now _
      show s.set key (R.onKey c now (s key)).2 k = s k
      rw [hsame, Store.set_same]
    all_goals exact hc.elim

/-- A write of the gateway for itself leaves the storage keys as they are. -/
theorem ownCall_stored {c : Call} (hc : OwnCall c) (now : Nat) (s : Store) {engine : Engine} {κ : Kind} {k : String}
    (hk : StoredAs engine κ k) : (execStore R c now s).2 k = s k := by
  rcases c with ((⟨key, c⟩ | _ | _ | _ | _ | _) | _ | reason)
  case redis.at =>
    refine Server.atKey_ne ?_
    rintro rfl
    exact hk.not_own (OwnWrite.own hc)
  case fireMetric =>
    exact runCommands_ne recordAuthFailure_internal fun hi => hk.not_own (Or.inl hi)
  all_goals exact hc.elim

end Writing

/-! ### Listing and counting -/

section Reading
variable {st : Settings}

/-- The keys of a page are storage keys. -/
theorem listKeys_storage (client : ClientInfo) (ns typeName : Option String) (pattern : String)
    (scan : String → Nat × List String) :
    (listKeys st client ns typeName pattern scan).Ends (fun _ _ => True) fun o =>
      ∀ k ∈ listed o, isStorageKey st.engine k = true := by
  have hpage : ∀ glob : String, (Prog.pure (okSimple (.obj [("keys", sortedKeys ((scan glob).2.filter (isStorageKey st.engine))),
      ("count", .int ((scan glob).2.filter (isStorageKey st.engine)).length), ("cursor", .int (scan glob).1),
      ("has_more", .bool ((scan glob).1 ≠ 0))])) : Handler Json).Ends (fun _ _ => True) fun o =>
        ∀ k ∈ listed o, isStorageKey st.engine k = true := by
    intro glob k hk
    exact (List.mem_filter.mp (mem_sortedKeys.mp hk)).2
  have hraised : ∀ e : Exn, ∀ k ∈ listed (.error e), isStorageKey st.engine k = true := fun _ _ hk => by cases hk
  have hglob : ∀ x : Except Exn String, ((Prog.ofExcept x).bind fun glob => Prog.pure (okSimple (.obj
      [("keys", sortedKeys ((scan glob).2.filter (isStorageKey st.engine))),
        ("count", .int ((scan glob).2.filter (isStorageKey st.engine)).length), ("cursor", .int (scan glob).1),
        ("has_more", .bool ((scan glob).1 ≠ 0))])) : Handler Json).Ends (fun _ _ => True) fun o =>
        ∀ k ∈ listed o, isStorageKey st.engine k = true := fun x =>
    Ends.bind (Ends.any (fun _ => trivial) (Q := fun _ => True) _) (fun glob _ => hpage glob) fun e _ => hraised e
  unfold listKeys
  cases filterOr ns with
  | none => exact hglob _
  | some ns =>
    refine Ends.bind (Ends.any (fun _ => trivial) (Q := fun _ => True) _) (fun _ _ => ?_) fun e _ => hraised e
    exact Ends.bind (Ends.any (fun _ => trivial) (Q := fun _ => True) _) (fun _ _ => hglob _) fun e _ => hraised e

theorem foldl_filter_of {α β : Type} {f : β → α → β} {p : α → Bool} (h : ∀ b a, p a = false → f b a = b) (xs : List α) (b : β) :
    (xs.filter p).foldl f b = xs.foldl f b := by
  induction xs generalizing b with
  | nil => rfl
  | cons x xs ih =>
    cases hx : p x with
    | true =>
      rw [List.filter_cons_of_pos hx]
      exact ih (f b x)
    | false =>
      rw [List.filter_cons_of_neg (by simp [hx]), List.foldl_cons, h b x hx]
      exact ih b

theorem countStats_other {engine : Engine} (d : Dict NsStats) (k : String) (h : isStorageKey engine k = false) :
    countStats engine d k = d := by
  unfold isStorageKey at h
  unfold countStats
  split
  · rename_i ns typePrefix key hparse
    rw [hparse] at h
    dsimp only at h
    rw [h]
    rfl
  · rfl

theorem countNs_other {engine : Engine} (d : Dict Int) (k : String) (h : isStorageKey engine k = false) :
    countNs engine d k = d := by
  unfold isStorageKey at h
  unfold countNs
  split
  · rename_i ns typePrefix key hparse
    rw [hparse] at h
    dsimp only at h
    rw [h]
    rfl
  · rfl

/-- The loop counts the first keys, up to the limit. -/
theorem scanStats_take {engine : Engine} {limit : Nat} (keys : List String) (scanned : Nat) (d : Dict NsStats)
    (h : scanned < limit) :
    (scanStats engine limit keys scanned d).2 = (keys.take (limit - scanned)).foldl (countStats engine) d := by
  induction keys generalizing scanned d with
  | nil =>
    rw [List.take_nil]
    rfl
  | cons key keys ih =>
    obtain ⟨n, hn⟩ : ∃ n, limit - scanned = n + 1 := ⟨limit - scanned - 1, by omega⟩
    rw [hn, List.take_succ_cons, List.foldl_cons]
    unfold scanStats
    dsimp only
    split
    · obtain rfl : n = 0 := by omega
      rw [List.take_zero]
      rfl
    · have hrest : limit - (scanned + 1) = n := by omega
      rw [ih _ _ (by omega), hrest]

/-- The namespaces of the answer of `get_stats`. -/
def shownNamespaces (result : Except Exn Json) : Json :=
  match result with
  | .ok body => (body.field "data").field "namespaces"
  | .error _ => .null

/-- The statistics of namespaces count storage keys only. -/
theorem getStats_storage {limit : Nat} (hlimit : 1 ≤ limit) (memory : String × String) (keys : List String) :
    (getStats st limit memory keys).Ends (fun _ _ => True) fun o =>
      shownNamespaces o = statsJson (((keys.take limit).filter (isStorageKey st.engine)).foldl (countStats st.engine) .empty) := by
  rw [foldl_filter_of countStats_other]
  have htake : (scanStats st.engine limit keys 0 .empty).2 = (keys.take (limit - 0)).foldl (countStats st.engine) .empty :=
    scanStats_take keys 0 .empty hlimit
  rw [Nat.sub_zero] at htake
  rw [← htake]
  rfl

theorem nsCounts_storage (engine : Engine) (keys : List String) :
    nsCounts engine keys = ((keys.take 5000).filter (isStorageKey engine)).foldl (countNs engine) .empty :=
  (foldl_filter_of countNs_other _ _).symm

end Reading

/-- In every run, the gateway's own keys change by the writes of the gateway for itself only, and these
    writes change no storage key. The keys that are listed and counted are storage keys, and no key of the
    gateway's own is one. -/
theorem own_keys_out_of_reach {st : Settings} {R : Server} (hT : R.Typed) (hR : R.Lawful) :
    (∀ (acts : List (Pool.Act Job Nat)) (t u : Gateway) (a : Pool.Act Job Nat), Gateway.run st R acts = some t →
      Pool.step (execStore R) (Job.program st) t a = some u →
      (∀ k, Own k → u.state k ≠ t.state k → ∃ (i now : Nat) (c : Call) (next : c.Ret → Handler (Option Response)),
        a = .resume i now ∧ t.programs[i]? = some (.call c next) ∧ OwnCall c) ∧
      ∀ (i now : Nat) (c : Call) (next : c.Ret → Handler (Option Response)), a = .resume i now →
        t.programs[i]? = some (.call c next) → OwnCall c → ∀ κ k, StoredAs st.engine κ k → u.state k = t.state k) ∧
    (∀ (client : ClientInfo) (ns typeName : Option String) (pattern : String) (scan : String → Nat × List String),
      (listKeys st client ns typeName pattern scan).Ends (fun _ _ => True) fun o => ∀ k ∈ listed o, ¬Own k) ∧
    (∀ (limit : Nat) (memory : String × String) (keys : List String), 1 ≤ limit →
      (getStats st limit memory keys).Ends (fun _ _ => True) fun o => shownNamespaces o =
        statsJson (((keys.take limit).filter (isStorageKey st.engine)).foldl (countStats st.engine) .empty)) ∧
    (∀ keys : List String,
      nsCounts st.engine keys = ((keys.take 5000).filter (isStorageKey st.engine)).foldl (countNs st.engine) .empty) ∧
    ∀ k, Own k → isStorageKey st.engine k = false := by
  refine ⟨fun acts t u a hrun hstep => ⟨fun k hk hchanged => ?_, fun i now c next ha hi hc κ k hk => ?_⟩,
    fun client ns typeName pattern scan => ?_, fun limit memory keys hlimit => getStats_storage hlimit memory keys,
    nsCounts_storage st.engine, fun k hk => hk.not_storage⟩
  · cases a with
    | start j =>
      cases hstep
      exact absurd rfl hchanged
    | resume i now =>
      obtain ⟨c, next, hi, hstate, -⟩ := Pool.resume_eq_some.mp hstep
      refine ⟨i, now, c, next, rfl, hi, ?_⟩
      by_contra hno
      rcases jobCall_of_run hT hrun hi with hcall | hcall
      · rw [← hstate] at hchanged
        exact hchanged (adminCall_own hR hcall hno now t.state hk)
      · exact hno hcall
  · subst ha
    obtain ⟨c', next', hi', hstate, -⟩ := Pool.resume_eq_some.mp hstep
    rw [hi] at hi'
    cases hi'
    rw [← hstate]
    exact ownCall_stored hc now t.state hk
  · exact (listKeys_storage client ns typeName pattern scan).mono fun o ho k hk => storage_not_own (ho k hk)

/-- A write to a namespace that has the name of the gateway's own keys, and its origin. -/
def tracedWrite : Job := .data (plainRequest monitor "__redgw" (.kv (.setKv "x" ⟨"1", none⟩)))

/-- A bulk deletion that finds the key and the origin. -/
def sweep : Job := .admin ⟨some monitor,
  .bulkDeleteKeys "__redgw" none "*" false fun _ => ["__redgw:audit:origin:__redgw:kv:x", "__redgw:kv:x"], [], none, [], 1, plainEnv⟩

theorem own_keys_out_of_reach_sweep : ∃ t u : Gateway,
    Gateway.run roomy reference [.start tracedWrite, .resume 0 0, .resume 0 0, .start sweep] = some t ∧
    Pool.step (execStore reference) (Job.program roomy) t (.resume 1 0) = some u ∧
    (t.state "__redgw:kv:x").isSome = true ∧ u.state "__redgw:kv:x" = none ∧
    (t.state "__redgw:audit:origin:__redgw:kv:x").isSome = true ∧
    u.state "__redgw:audit:origin:__redgw:kv:x" = t.state "__redgw:audit:origin:__redgw:kv:x" := by
  obtain ⟨t, h, ⟨next, hcall⟩, hkv, hdeleted, horigin⟩ : ∃ t : Gateway,
      Gateway.run roomy reference [.start tracedWrite, .resume 0 0, .resume 0 0, .start sweep] = some t ∧
      (∃ next, t.programs[1]? = some (.call (.redis (.del ["__redgw:kv:x"])) next)) ∧
      (t.state "__redgw:kv:x").isSome = true ∧
      (execStore reference (.redis (.del ["__redgw:kv:x"])) 0 t.state).2 "__redgw:kv:x" = none ∧
      (t.state "__redgw:audit:origin:__redgw:kv:x").isSome = true := ⟨_, rfl, ⟨_, rfl⟩, rfl, rfl, rfl⟩
  obtain ⟨u, hu, hstate⟩ : ∃ u, Pool.step (execStore reference) (Job.program roomy) t (.resume 1 0) = some u ∧
      (execStore reference (.redis (.del ["__redgw:kv:x"])) 0 t.state).2 = u.state :=
    ⟨⟨_, _⟩, Pool.resume_eq_some.mpr ⟨_, next, hcall, rfl, rfl⟩, rfl⟩
  refine ⟨t, u, h, hu, hkv, hstate ▸ hdeleted, horigin, ?_⟩
  by_contra hchanged
  obtain ⟨hown, -⟩ := (own_keys_out_of_reach reference_typed reference_lawful).1 _ t u _ h hu
  obtain ⟨i, now, c, k, hact, hi, hc⟩ := hown _ (Or.inl (internal_origin "__redgw:kv:x")) hchanged
  cases hact
  rw [hcall] at hi
  cases hi
  exact hc

end Redgw
