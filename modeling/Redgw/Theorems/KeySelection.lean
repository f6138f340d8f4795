import Redgw.Redis.Reference
import Redgw.Theorems.KeyPatterns

/-! # Listing and deleting keys by pattern

The two endpoints select the wanted keys and the stray ones, so that they are exact on the stores
without stray keys. -/

namespace Redgw
open Redis Prog

/-! ### Batches -/

theorem flatMap_take_drop (size n : Nat) (xs : List String) :
    ((List.range n).flatMap fun i => (xs.drop (size * i)).take size) = xs.take (size * n) := by
  induction n with
  | zero => simp
  | succ n ih => rw [List.range_succ, List.flatMap_append, ih, List.flatMap_singleton, Nat.mul_succ, List.take_add]

theorem batches_flatten {size : Nat} (hsize : 0 < size) (xs : List String) : (batches size xs).flatten = xs := by
  have hcover : xs.length ≤ size * ((xs.length + size - 1) / size) := by
    have hdiv := Nat.div_add_mod (xs.length + size - 1) size
    have hmod := Nat.mod_lt (xs.length + size - 1) hsize
    omega
  unfold batches
  rw [← List.flatMap_def, flatMap_take_drop, List.take_of_length_le hcover]

theorem batch_length_le {size : Nat} {xs batch : List String} (h : batch ∈ batches size xs) : batch.length ≤ size := by
  unfold batches at h
  obtain ⟨i, -, rfl⟩ := List.mem_map.mp h
  exact List.length_take_le _ _

theorem mem_batches {size : Nat} (hsize : 0 < size) {xs : List String} {x : String} :
    (∃ batch ∈ batches size xs, x ∈ batch) ↔ x ∈ xs := by
  rw [← List.mem_flatten, batches_flatten hsize]

/-- The keys of users that the scan has, in its order. -/
def selectedKeys (engine : Engine) (keys : List String) : List String := keys.filter (isStorageKey engine)

/-- The loop takes the first stored keys, and the flag tells whether there are more. -/
theorem collectKeys_take {engine : Engine} (keys : List String) {taken : List String} (h : taken.length ≤ 10000) :
    collectKeys engine keys taken = ((taken ++ keys.filter (isStorageKey engine)).take 10000,
      decide (10000 < (taken ++ keys.filter (isStorageKey engine)).length)) := by
  induction keys generalizing taken with
  | nil =>
    have hfits : ¬10000 < taken.length := by omega
    simp [collectKeys, List.take_of_length_le h, hfits]
  | cons key keys ih =>
    unfold collectKeys
    cases hkey : isStorageKey engine key with
    | false =>
      rw [List.filter_cons_of_neg (by simp [hkey])]
      exact ih h
    | true =>
      rw [List.filter_cons_of_pos hkey]
      by_cases hfull : 10000 ≤ taken.length
      · have htake : (taken ++ key :: keys.filter (isStorageKey engine)).take 10000 = taken := by
          rw [List.take_append_of_le_length hfull]
          exact List.take_of_length_le h
        have hmore : 10000 < (taken ++ key :: keys.filter (isStorageKey engine)).length := by
          rw [List.length_append, List.length_cons]
          omega
        rw [htake, decide_eq_true hmore, if_pos hfull]
        rfl
      · have hroom : (taken ++ [key]).length ≤ 10000 := by
          rw [List.length_append, List.length_singleton]
          omega
        have hstep := ih hroom
        rw [List.append_assoc] at hstep
        rw [if_neg hfull]
        exact hstep

/-! ### Deleting -/

/-- `DEL` leaves no key behind. -/
def Deletes (R : Server) : Prop := ∀ now e, (R.onKey .del now e).2 = none

theorem reference_deletes : Deletes reference := fun _ _ => rfl

variable {R : Server}

theorem delete_store (hR : Deletes R) (now : Nat) (keys : List String) (s : Store) (k : String) :
    (R.delete now keys s).2 k = if k ∈ keys then none else s k := by
  show (R.transact now (keys.map fun k => (k, .del)) s).2 k = _
  induction keys generalizing s with
  | nil => rfl
  | cons key keys ih =>
    have hstep : (R.transact now ((key :: keys).map fun k => (k, KeyCmd.del)) s).2 =
        (R.transact now (keys.map fun k => (k, .del)) (R.atKey key .del now s).2).2 := rfl
    rw [hstep, ih]
    by_cases hk : k = key
    · subst hk
      rw [Server.atKey_self, hR]
      simp
    · rw [Server.atKey_ne hk]
      simp [hk]

/-- The batches are deleted, and nothing else. -/
theorem deleteBatches_run (hR : Deletes R) (bs : List (List String)) (deleted : Int) (clock : Nat → Nat) (x : Ctx) :
    ∃ n, ((deleteBatches bs deleted).run (execCall R) clock x).1 = .ok n ∧
      ∀ k, ((deleteBatches bs deleted).run (execCall R) clock x).2.store k =
        if ∃ batch ∈ bs, k ∈ batch then none else x.store k := by
  induction bs generalizing deleted clock x with
  | nil => exact ⟨deleted, rfl, fun k => by simp [deleteBatches]⟩
  | cons batch bs ih =>
    obtain ⟨n, hn, hstore⟩ := ih _ (fun i => clock (i + 1)) { x with store := (R.delete (clock 0) batch x.store).2 }
    refine ⟨n, hn, fun k => (hstore k).trans ?_⟩
    have hbatch := delete_store hR (clock 0) batch x.store k
    dsimp only
    rw [hbatch]
    by_cases hk : k ∈ batch
    · simp [hk]
    · simp [hk]

/-! ### The endpoints -/

section Endpoints
variable {st : Settings} {q : Query} {glob : String} {s : Store} {now : Nat}

def listed (result : Except Exn Json) : List String :=
  match result with
  | .ok body => ((body.field "data").field "keys").items.map Json.text
  | .error _ => []

theorem sortedKeys_perm {keys : List String} : ((sortedKeys keys).items.map Json.text).Perm keys := by
  have htexts : (Json.arr (keys.map .str)).items.map Json.text = keys := by
    show (keys.map Json.str).map Json.text = keys
    rw [List.map_map]
    exact List.map_id _
  have hsorted : (sortedKeys keys).items.map Json.text = keys.mergeSort fun a b => decide (a ≤ b) := by
    show (((((Json.arr (keys.map .str)).items.map Json.text).mergeSort fun a b => decide (a ≤ b)).map Json.str).map
      Json.text) = _
    rw [htexts, List.map_map]
    exact List.map_id _
  rw [hsorted]
  exact List.mergeSort_perm _ _

theorem mem_sortedKeys {keys : List String} {k : String} : k ∈ (sortedKeys keys).items.map Json.text ↔ k ∈ keys :=
  sortedKeys_perm.mem_iff

theorem listKeys_run {client : ClientInfo} (h : q.Accepted st.engine glob)
    (hread : ∀ n, filterOr q.ns = some n → checkAccess client n "read" = true) (scan : String → Nat × List String)
    (clock : Nat → Nat) (x : Ctx) {k : String} :
    k ∈ listed ((listKeys st client q.ns q.typeName q.pattern scan).run (execCall R) clock x).1 ↔
      k ∈ (scan glob).2 ∧ isStorageKey st.engine k = true := by
  have hrun : (listKeys st client q.ns q.typeName q.pattern scan).run (execCall R) clock x =
      (.ok (okSimple (.obj [("keys", sortedKeys ((scan glob).2.filter (isStorageKey st.engine))),
        ("count", .int ((scan glob).2.filter (isStorageKey st.engine)).length), ("cursor", .int (scan glob).1),
        ("has_more", .bool ((scan glob).1 ≠ 0))])), x) := by
    unfold listKeys
    cases hf : filterOr q.ns with
    | none =>
      rw [h.glob]
      rfl
    | some n =>
      rw [h.glob]
      dsimp only
      rw [h.ns n hf, requireRead, requireAccess, if_pos (hread n hf)]
      rfl
  rw [hrun]
  show k ∈ (sortedKeys ((scan glob).2.filter (isStorageKey st.engine))).items.map Json.text ↔ _
  rw [mem_sortedKeys, List.mem_filter]

/-- What is deleted are the first stored keys that the scan has. -/
theorem bulkDeleteKeys_eq {client : ClientInfo} {n pattern : String} {typeName : Option String} (hadmin : client.clientId = "admin")
    (hns : validateNs st.engine n = .ok n)
    (hglob : buildScanPattern (some n) typeName pattern = .ok glob) (dryRun : Bool) (scanIter : String → List String) :
    bulkDeleteKeys st client n typeName pattern dryRun scanIter =
      if dryRun then .pure (okSimple (.obj [("keys", sortedKeys ((selectedKeys st.engine (scanIter glob)).take 10000)),
        ("count", .int ((selectedKeys st.engine (scanIter glob)).take 10000).length),
        ("truncated", .bool (decide (10000 < (selectedKeys st.engine (scanIter glob)).length))), ("dry_run", .bool true)]))
      else (deleteBatches (batches 100 ((selectedKeys st.engine (scanIter glob)).take 10000)) 0).bind fun deleted =>
        .pure (okSimple (.obj [("deleted", .int deleted),
          ("truncated", .bool (decide (10000 < (selectedKeys st.engine (scanIter glob)).length))), ("dry_run", .bool false)])) := by
  have hcollect : collectKeys st.engine (scanIter glob) [] = ((selectedKeys st.engine (scanIter glob)).take 10000,
      decide (10000 < (selectedKeys st.engine (scanIter glob)).length)) := collectKeys_take (scanIter glob) (Nat.zero_le _)
  unfold bulkDeleteKeys
  rw [requireAdmin, if_pos hadmin, hns, hglob]
  simp only [lift_eq, ofExcept_ok, bind_eq, pure_bind, hcollect]
  cases dryRun <;> rfl

/-- A bulk deletion below the cap is complete, and deletes the stored keys that the scan has. -/
theorem bulkDeleteKeys_run (hR : Deletes R) {client : ClientInfo} (hadmin : client.clientId = "admin") {n : String}
    (hns : filterOr q.ns = some n) (h : q.Accepted st.engine glob) (scanIter : String → List String)
    (hfew : (selectedKeys st.engine (scanIter glob)).length ≤ 10000) (clock : Nat → Nat) (x : Ctx) :
    (∃ deleted : Int, ((bulkDeleteKeys st client n q.typeName q.pattern false scanIter).run (execCall R) clock x).1 =
      .ok (okSimple (.obj [("deleted", .int deleted), ("truncated", .bool false), ("dry_run", .bool false)]))) ∧
    ∀ k, ((bulkDeleteKeys st client n q.typeName q.pattern false scanIter).run (execCall R) clock x).2.store k =
      if k ∈ scanIter glob ∧ isStorageKey st.engine k = true then none else x.store k := by
  have hq : q.ns = some n := (Option.filter_eq_some_iff.mp hns).1
  have hglob : buildScanPattern (some n) q.typeName q.pattern = .ok glob := hq ▸ h.glob
  have hprog : bulkDeleteKeys st client n q.typeName q.pattern false scanIter =
      (deleteBatches (batches 100 (selectedKeys st.engine (scanIter glob))) 0).bind fun deleted => .pure (okSimple (.obj
        [("deleted", .int deleted), ("truncated", .bool false), ("dry_run", .bool false)])) := by
    rw [bulkDeleteKeys_eq hadmin (h.ns n hns) hglob, List.take_of_length_le hfew, decide_eq_false (Nat.not_lt.mpr hfew)]
    rfl
  obtain ⟨deleted, hdeleted, hstore⟩ := deleteBatches_run hR (batches 100 (selectedKeys st.engine (scanIter glob))) 0 clock x
  rw [hprog, run_map]
  refine ⟨⟨deleted, ?_⟩, fun k => (hstore k).trans ?_⟩
  · rw [hdeleted]
    rfl
  · simp only [mem_batches (show 0 < 100 by decide), selectedKeys, List.mem_filter]

/-! ### Exactness -/

/-- The keys of all the pages of a listing. -/
def traversal (R : Server) (st : Settings) (client : ClientInfo) (q : Query) (glob : String) (clock : Nat → Nat)
    (scan : Scan s now) : List String :=
  (List.range (scan.pages glob).length).flatMap fun i =>
    listed ((listKeys st client q.ns q.typeName q.pattern fun pattern => (scan.pages pattern)[i]?.getD (0, [])).run
      (execCall R) clock ⟨s, none⟩).1

/-- A listing to its last page returns the wanted keys. -/
def ListExact (R : Server) (st : Settings) (client : ClientInfo) (q : Query) (glob : String) (clock : Nat → Nat)
    (scan : Scan s now) : Prop :=
  ∀ k, k ∈ traversal R st client q glob clock scan ↔ (live now (s k)).isSome = true ∧ Wanted st.engine q k

/-- A bulk deletion of no more keys than the cap says that it is complete, and deletes the wanted keys and no others. -/
def BulkExact (R : Server) (st : Settings) (client : ClientInfo) (q : Query) (glob : String) (clock : Nat → Nat) (scan : Scan s now) :
    Prop :=
  ∀ n, filterOr q.ns = some n → (selectedKeys st.engine (scan.keys glob)).length ≤ 10000 →
    (∃ deleted : Int, ((bulkDeleteKeys st client n q.typeName q.pattern false scan.keys).run (execCall R) clock ⟨s, none⟩).1 =
      .ok (okSimple (.obj [("deleted", .int deleted), ("truncated", .bool false), ("dry_run", .bool false)]))) ∧
    ∀ k, (live now (s k)).isSome = true →
      (((bulkDeleteKeys st client n q.typeName q.pattern false scan.keys).run (execCall R) clock ⟨s, none⟩).2.store k =
        none ↔ Wanted st.engine q k)

theorem mem_selected (h : q.Accepted st.engine glob) {scan : Scan s now} {k : String} :
    (k ∈ scan.keys glob ∧ isStorageKey st.engine k = true) ↔
      (live now (s k)).isSome = true ∧ (Wanted st.engine q k ∨ Stray st.engine q k) := by
  rw [scan.mem_keys, and_assoc, and_comm (a := Glob.matches? _ _ = true), selected_iff h]

/-- A listing returns the wanted keys and the stray ones. -/
theorem mem_traversal {client : ClientInfo} (h : q.Accepted st.engine glob)
    (hread : ∀ n, filterOr q.ns = some n → checkAccess client n "read" = true) (clock : Nat → Nat) (scan : Scan s now)
    {k : String} : k ∈ traversal R st client q glob clock scan ↔
      (live now (s k)).isSome = true ∧ (Wanted st.engine q k ∨ Stray st.engine q k) := by
  have hpage : k ∈ traversal R st client q glob clock scan ↔
      k ∈ scan.keys glob ∧ isStorageKey st.engine k = true := by
    unfold traversal Scan.keys
    simp only [List.mem_flatMap, List.mem_range, listKeys_run h hread]
    constructor
    · rintro ⟨i, hi, hk, hstorage⟩
      rw [List.getElem?_eq_getElem hi] at hk
      exact ⟨⟨_, List.getElem_mem hi, hk⟩, hstorage⟩
    · rintro ⟨⟨page, hpage, hk⟩, hstorage⟩
      obtain ⟨i, hi, rfl⟩ := List.mem_iff_getElem.mp hpage
      refine ⟨i, hi, ?_, hstorage⟩
      rw [List.getElem?_eq_getElem hi]
      exact hk
  rw [hpage, mem_selected h]

/-- Where no key is stray, a bulk deletion is exact. -/
theorem bulkExact_of_clean (hR : Deletes R) {client : ClientInfo} (hadmin : client.clientId = "admin")
    (h : q.Accepted st.engine glob) (clock : Nat → Nat) (scan : Scan s now)
    (hclean : ∀ k, (live now (s k)).isSome = true → ¬Stray st.engine q k) : BulkExact R st client q glob clock scan := by
  intro n hns hfew
  obtain ⟨hanswer, hstore⟩ := bulkDeleteKeys_run hR hadmin hns h scan.keys hfew clock ⟨s, none⟩
  refine ⟨hanswer, fun k hlive => ?_⟩
  rw [hstore k]
  have hsome : s k ≠ none := by
    intro hnone
    rw [hnone] at hlive
    cases hlive
  constructor
  · intro hnone
    by_contra hnot
    rw [if_neg fun hsel => ((mem_selected h).mp hsel).2.elim hnot (hclean k hlive)] at hnone
    exact hsome hnone
  · intro hwanted
    exact if_pos ((mem_selected h).mpr ⟨hlive, Or.inl hwanted⟩)

/-- Both endpoints are exact on a store exactly when none of its keys is stray. -/
theorem exact_iff_clean (hR : Deletes R) {reader admin : ClientInfo} (h : q.Accepted st.engine glob)
    (hread : ∀ n, filterOr q.ns = some n → checkAccess reader n "read" = true) (hadmin : admin.clientId = "admin")
    (clock : Nat → Nat) (scan : Scan s now) :
    (ListExact R st reader q glob clock scan ∧ BulkExact R st admin q glob clock scan) ↔
      ∀ k, (live now (s k)).isSome = true → ¬Stray st.engine q k := by
  constructor
  · rintro ⟨hlist, -⟩ k hlive hstray
    have hmem : k ∈ traversal R st reader q glob clock scan := (mem_traversal h hread clock scan).mpr ⟨hlive, Or.inr hstray⟩
    exact hstray.not_wanted ((hlist k).mp hmem).2
  · intro hclean
    refine ⟨fun k => ?_, bulkExact_of_clean hR hadmin h clock scan hclean⟩
    rw [mem_traversal h hread]
    constructor
    · rintro ⟨hlive, hwanted | hstray⟩
      · exact ⟨hlive, hwanted⟩
      · exact absurd hstray (hclean k hlive)
    · rintro ⟨hlive, hwanted⟩
      exact ⟨hlive, Or.inl hwanted⟩

/-- A store with one key. -/
def single (k : String) : Store := Store.empty.set k (some ⟨.str "v", none⟩)

theorem live_single {k k' : String} : (live now (single k k')).isSome = true ↔ k' = k := by
  unfold single
  by_cases hk : k' = k
  · subst hk
    simp [live, Entry.alive]
  · rw [Store.set_ne _ _ hk]
    simp [Store.empty, live, hk]

def single.scan (k : String) (now : Nat) : Scan (single k) now :=
  .ofKeys [k] fun _ hk => List.mem_singleton.mpr (live_single.mp hk)

/-- Both endpoints are exact on a store exactly when none of its keys is stray, and on every store exactly
    for the plain queries. -/
theorem selection_exact_iff (hR : Deletes R) {reader admin : ClientInfo} (h : q.Accepted st.engine glob)
    (hread : ∀ n, filterOr q.ns = some n → checkAccess reader n "read" = true) (hadmin : admin.clientId = "admin") :
    (∀ (s : Store) (now : Nat) (clock : Nat → Nat) (scan : Scan s now),
      (ListExact R st reader q glob clock scan ∧ BulkExact R st admin q glob clock scan) ↔
        ∀ k, (live now (s k)).isSome = true → ¬Stray st.engine q k) ∧
    ((∀ (s : Store) (now : Nat) (clock : Nat → Nat) (scan : Scan s now),
      ListExact R st reader q glob clock scan ∧ BulkExact R st admin q glob clock scan) ↔ q.Plain) := by
  have hstore : ∀ (s : Store) (now : Nat) (clock : Nat → Nat) (scan : Scan s now),
      (ListExact R st reader q glob clock scan ∧ BulkExact R st admin q glob clock scan) ↔
        ∀ k, (live now (s k)).isSome = true → ¬Stray st.engine q k :=
    fun _ _ clock scan => exact_iff_clean hR h hread hadmin clock scan
  refine ⟨hstore, ?_⟩
  rw [plain_iff h]
  constructor
  · intro hall k
    have hclean := (hstore (single k) 0 (fun _ => 0) (single.scan k 0)).mp (hall _ _ _ _)
    exact hclean k (live_single.mpr rfl)
  · intro hclean s now clock scan
    exact (hstore s now clock scan).mpr fun k _ => hclean k

end Endpoints

/-! ### A pattern inside one namespace -/

def wholeQuery : Query := ⟨some "app", none, "x"⟩

def monitor : ClientInfo := ⟨"admin", "", [("*", ["read", "write"])]⟩

theorem wholeQuery_accepted : wholeQuery.Accepted .python "app:*:x" where
  ns n hn := by
    cases hn
    rfl
  glob := rfl

theorem selection_exact_iff_whole :
    (∀ (s : Store) (now : Nat) (clock : Nat → Nat) (scan : Scan s now),
      (ListExact reference {} monitor wholeQuery "app:*:x" clock scan ∧
        BulkExact reference {} monitor wholeQuery "app:*:x" clock scan) ↔
        ∀ k, (live now (s k)).isSome = true → ¬Stray .python wholeQuery k) ∧
    ((∀ (s : Store) (now : Nat) (clock : Nat → Nat) (scan : Scan s now),
      ListExact reference {} monitor wholeQuery "app:*:x" clock scan ∧
        BulkExact reference {} monitor wholeQuery "app:*:x" clock scan) ↔ wholeQuery.Plain) :=
  selection_exact_iff reference_deletes wholeQuery_accepted (fun _ _ => rfl) rfl

/-- The key "foo:x" is deleted for the pattern "x". -/
theorem other_key_deleted :
    Glob.matches? wholeQuery.pattern.toList "foo:x".toList = false ∧
    ¬BulkExact reference {} monitor wholeQuery "app:*:x" (fun _ => 0) (single.scan "app:kv:foo:x" 0) := by
  refine ⟨by decide, fun hexact => ?_⟩
  have hparse : parseKey .python "app:kv:foo:x" = some ("app", "kv", "foo:x") :=
    parseKey_eq_some.mpr ⟨rfl, by decide, by decide⟩
  have hgone := ((hexact "app" rfl (by decide)).2 "app:kv:foo:x" (live_single.mpr rfl)).mp rfl
  obtain ⟨ns, typePrefix, key, hparts, -, hfit⟩ := hgone
  rw [hparse] at hparts
  cases hparts
  exact absurd hfit.key (by decide)

end Redgw
