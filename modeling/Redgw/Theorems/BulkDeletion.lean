import Redgw.Redis.Lifetimes
import Redgw.System
import Redgw.Theorems.KeySelection

/-! # Deleting keys in bulk

A run deletes the first keys that the scan has, up to the cap, and each run of the operator leaves that many
keys fewer to the next one. -/

namespace Redgw
open Redis Prog

/-- The store without the keys. -/
def Redis.Store.without (s : Store) (keys : List String) : Store := fun k => if k ∈ keys then none else s k

/-! ### Deleting keys that are there -/

section Deleting
variable {R : Server}

theorem deletes_of_lifetimes (hL : R.Lifetimes) : Deletes R := fun now e => congrArg Prod.snd (hL.del now e)

/-- `DEL` of keys that are there counts all of them. -/
theorem delete_reply (hL : R.Lifetimes) {now : Nat} {keys : List String} {s : Store} (hnodup : keys.Nodup)
    (hlive : ∀ k ∈ keys, (live now (s k)).isSome = true) : (R.delete now keys s).1 = .ok (.int keys.length) := by
  have hcount : ∀ (count : Int → Reply → Int) (n : Int), (∀ n m, count n (.ok (.int m)) = n + m) →
      (R.transact now (keys.map fun k => (k, .del)) s).1.foldl count n = n + keys.length := by
    intro count n hone
    induction keys generalizing s n with
    | nil => exact (Int.add_zero n).symm
    | cons key keys ih =>
      obtain ⟨hkey, hnodup⟩ := List.nodup_cons.mp hnodup
      have hthere : ∀ k ∈ keys, (live now ((R.atKey key .del now s).2 k)).isSome = true := by
        intro k hk
        have hne : k ≠ key := fun heq => hkey (heq ▸ hk)
        rw [Server.atKey_ne hne]
        exact hlive k (List.mem_cons_of_mem _ hk)
      have hdeleted : (R.atKey key .del now s).1 = .ok (.int 1) := by
        show (R.onKey .del now (s key)).1 = _
        rw [hL.del, hlive key List.mem_cons_self]
        rfl
      show (R.transact now (keys.map fun k => (k, KeyCmd.del)) (R.atKey key .del now s).2).1.foldl count
        (count n (R.atKey key .del now s).1) = _
      rw [hdeleted, hone, ih hnodup hthere, List.length_cons]
      omega
  refine congrArg (fun n => (Except.ok (Json.int n) : Reply)) ((hcount _ 0 ?_).trans (Int.zero_add _))
  exact fun _ _ => rfl

/-- The batches are deleted one by one, and every key of theirs is counted. -/
theorem deleteBatches_exact (hL : R.Lifetimes) {bs : List (List String)} (deleted : Int) {clock : Nat → Nat} {s : Store}
    (hnodup : bs.flatten.Nodup) (hlive : ∀ k ∈ bs.flatten, ∀ i, (live (clock i) (s k)).isSome = true) :
    (deleteBatches bs deleted).run (execStore R) clock s = (.ok (deleted + bs.flatten.length), s.without bs.flatten) ∧
      ((deleteBatches bs deleted).trace (execStore R) clock s).map (·.call) = bs.map fun batch => .redis (.del batch) := by
  induction bs generalizing deleted clock s with
  | nil =>
    refine ⟨?_, rfl⟩
    show (Except.ok deleted, s) = (Except.ok (deleted + 0), s.without [])
    rw [Int.add_zero]
    rfl
  | cons batch bs ih =>
    rw [List.flatten_cons] at hnodup hlive
    obtain ⟨hbatch, hrest, hdisjoint⟩ := List.nodup_append.mp hnodup
    have hreply : (R.delete (clock 0) batch s).1 = .ok (.int batch.length) :=
      delete_reply hL hbatch fun k hk => hlive k (List.mem_append_left _ hk) 0
    have hstore : (R.delete (clock 0) batch s).2 = s.without batch :=
      funext fun k => delete_store (deletes_of_lifetimes hL) (clock 0) batch s k
    have hlater : ∀ k ∈ bs.flatten, ∀ i, (live (clock (i + 1)) (s.without batch k)).isSome = true := by
      intro k hk i
      have hout : k ∉ batch := fun hin => hdisjoint k hin k hk rfl
      rw [Store.without, if_neg hout]
      exact hlive k (List.mem_append_right _ hk) (i + 1)
    obtain ⟨hrun, htrace⟩ := ih (deleted + batch.length) hrest hlater
    have hwithout : (s.without batch).without bs.flatten = s.without (batch ++ bs.flatten) := by
      funext k
      unfold Store.without
      by_cases hb : k ∈ batch <;> by_cases hr : k ∈ bs.flatten <;> simp [hb]
    have hexec : execStore R (.redis (.del batch)) (clock 0) s = (.ok (.int batch.length), s.without batch) := Prod.ext hreply hstore
    constructor
    · show Prog.run (execStore R) (.call (.redis (.del batch)) _) clock s = _
      rw [run_call, hexec, List.flatten_cons, List.length_append, ← hwithout]
      refine hrun.trans ?_
      rw [Int.natCast_add, Int.add_assoc]
    · show (Prog.trace (execStore R) (.call (.redis (.del batch)) _) clock s).map (·.call) = _
      rw [trace, hexec, List.map_cons, List.map_cons]
      exact congrArg (List.cons _) htrace

end Deleting

/-! ### One run -/

/-- What a run of the operator meets: the scan has each key once, and the keys that it has are there until the
    run is done. -/
structure Round (glob : String) (s : Store) where
  now : Nat
  scan : Scan s now
  clock : Nat → Nat
  once : (scan.keys glob).Nodup
  lasting : ∀ k ∈ scan.keys glob, ∀ i, (live (clock i) (s k)).isSome = true

/-- The keys of users that match, in the order of the scan. -/
def Round.selected {glob : String} {s : Store} (r : Round glob s) (engine : Engine) : List String :=
  selectedKeys engine (r.scan.keys glob)

/-- The answer names these keys and no others. -/
structure Previews (data : Json) (keys : List String) (truncated : Bool) : Prop where
  named : ((data.field "keys").items.map Json.text).Perm keys
  count : data.field "count" = .int keys.length
  truncated : data.field "truncated" = .bool truncated

/-- The keys are deleted, each in one `DEL` of at most 100. -/
def DeletesOnce (calls : List Call) (keys : List String) : Prop :=
  ∃ bs : List (List String), calls = bs.map (fun batch => .redis (.del batch)) ∧ bs.flatten = keys ∧ ∀ batch ∈ bs, batch.length ≤ 100

section Runs
variable {R : Server} {st : Settings} {client : ClientInfo} {n glob pattern : String} {typeName : Option String} {s : Store}

/-- A dry run names the keys that a real one deletes, and changes nothing. -/
theorem dry_run (hadmin : client.clientId = "admin") (hns : validateNs st.engine n = .ok n)
    (hglob : buildScanPattern (some n) typeName pattern = .ok glob) (r : Round glob s) :
    ∃ data, (bulkDeleteKeys st client n typeName pattern true r.scan.keys).run (execStore R) r.clock s = (.ok (okSimple data), s) ∧
      Previews data ((r.selected st.engine).take 10000) (decide (10000 < (r.selected st.engine).length)) := by
  rw [bulkDeleteKeys_eq hadmin hns hglob]
  refine ⟨_, rfl, ?_, rfl, rfl⟩
  exact sortedKeys_perm

/-- A real run deletes these keys, and counts them. -/
theorem real_run (hL : R.Lifetimes) (hadmin : client.clientId = "admin") (hns : validateNs st.engine n = .ok n)
    (hglob : buildScanPattern (some n) typeName pattern = .ok glob) (r : Round glob s) :
    ∃ data, (bulkDeleteKeys st client n typeName pattern false r.scan.keys).run (execStore R) r.clock s =
        (.ok (okSimple data), s.without ((r.selected st.engine).take 10000)) ∧
      data.field "deleted" = .int ((r.selected st.engine).take 10000).length ∧
      data.field "truncated" = .bool (decide (10000 < (r.selected st.engine).length)) ∧
      DeletesOnce (((bulkDeleteKeys st client n typeName pattern false r.scan.keys).trace (execStore R) r.clock s).map (·.call))
        ((r.selected st.engine).take 10000) := by
  have hflatten := batches_flatten (show 0 < 100 by decide) ((r.selected st.engine).take 10000)
  have hnodup : ((r.selected st.engine).take 10000).Nodup := (r.once.filter _).sublist (List.take_sublist _ _)
  have hlive : ∀ k ∈ (r.selected st.engine).take 10000, ∀ i, (live (r.clock i) (s k)).isSome = true := fun k hk =>
    r.lasting k (List.mem_of_mem_filter (List.mem_of_mem_take hk))
  rw [← hflatten] at hnodup hlive
  obtain ⟨hrun, htrace⟩ := deleteBatches_exact hL 0 hnodup hlive
  rw [hflatten, Int.zero_add] at hrun
  have hprog : bulkDeleteKeys st client n typeName pattern false r.scan.keys =
      (deleteBatches (batches 100 ((r.selected st.engine).take 10000)) 0).bind fun deleted =>
        .pure (okSimple (.obj [("deleted", .int deleted), ("truncated", .bool (decide (10000 < (r.selected st.engine).length))),
          ("dry_run", .bool false)])) := bulkDeleteKeys_eq hadmin hns hglob false r.scan.keys
  rw [hprog, run_map, trace_map, hrun]
  exact ⟨_, rfl, rfl, rfl, _, htrace, hflatten, fun batch => batch_length_le⟩

end Runs

/-! ### Run after run -/

section Repeated
variable {engine : Engine} {glob : String} {s₀ s t : Store} {r₀ : Round glob s₀} {r : Round glob s} {r' : Round glob t}

theorem selected_nodup (r : Round glob s) (engine : Engine) : (r.selected engine).Nodup := r.once.filter _

theorem mem_selectedKeys {k : String} : k ∈ r.selected engine ↔
    ((live r.now (s k)).isSome = true ∧ Glob.matches? glob.toList k.toList = true) ∧ isStorageKey engine k = true := by
  rw [← r.scan.mem_keys]
  exact List.mem_filter

theorem mem_drop_iff {keys : List String} (hnodup : keys.Nodup) (n : Nat) {k : String} :
    k ∈ keys.drop n ↔ k ∈ keys ∧ k ∉ keys.take n := by
  rw [← List.take_append_drop n keys] at hnodup
  obtain ⟨-, -, hdisjoint⟩ := List.nodup_append.mp hnodup
  constructor
  · intro hk
    exact ⟨List.mem_of_mem_drop hk, fun htake => hdisjoint k htake k hk rfl⟩
  · rintro ⟨hk, hnot⟩
    rw [← List.take_append_drop n keys, List.mem_append] at hk
    exact hk.resolve_left hnot

/-- The next run meets the keys beyond the cap. -/
theorem selected_next (ht : t = s.without ((r.selected engine).take 10000))
    (hsteady : ∀ k, (live r'.now (t k)).isSome = (live r.now (t k)).isSome) :
    (r'.selected engine).Perm ((r.selected engine).drop 10000) := by
  refine (List.perm_ext_iff_of_nodup (selected_nodup r' engine)
    ((selected_nodup r engine).sublist (List.drop_sublist _ _))).mpr fun k => ?_
  rw [mem_drop_iff (selected_nodup r engine), mem_selectedKeys, mem_selectedKeys, hsteady k, ht, Store.without]
  by_cases hk : k ∈ (r.selected engine).take 10000
  · simp [hk, live]
  · simp [hk]

/-- What `i` runs have left of the keys of the first one. -/
structure Left (engine : Engine) (r₀ : Round glob s₀) (r : Round glob s) (i : Nat) : Prop where
  length : (r.selected engine).length = (r₀.selected engine).length - 10000 * i
  subset : ∀ k ∈ r.selected engine, k ∈ r₀.selected engine
  store : ∀ k, s k = if k ∈ r₀.selected engine ∧ k ∉ r.selected engine then none else s₀ k

theorem left_refl : Left engine r₀ r₀ 0 where
  length := rfl
  subset k hk := hk
  store k := by simp

theorem Left.next {i : Nat} (h : Left engine r₀ r i) (ht : t = s.without ((r.selected engine).take 10000))
    (hsteady : ∀ k, (live r'.now (t k)).isSome = (live r.now (t k)).isSome) : Left engine r₀ r' (i + 1) := by
  have hnext := selected_next ht hsteady
  have hmem : ∀ k, k ∈ r'.selected engine ↔ k ∈ r.selected engine ∧ k ∉ (r.selected engine).take 10000 := fun k =>
    hnext.mem_iff.trans (mem_drop_iff (selected_nodup r engine) 10000)
  constructor
  · rw [hnext.length_eq, List.length_drop, h.length]
    omega
  · intro k hk
    exact h.subset k ((hmem k).mp hk).1
  · intro k
    have htk : t k = s.without ((r.selected engine).take 10000) k := by rw [ht]
    rw [htk, Store.without, h.store k]
    by_cases htake : k ∈ (r.selected engine).take 10000
    · have hk := h.subset k (List.mem_of_mem_take htake)
      simp [hmem, hk, htake]
    · simp [hmem, htake]

/-- The last run leaves none. -/
theorem Left.last {i : Nat} (h : Left engine r₀ r i) (hfew : (r.selected engine).length ≤ 10000) :
    s.without ((r.selected engine).take 10000) = s₀.without (r₀.selected engine) := by
  funext k
  rw [List.take_of_length_le hfew, Store.without, Store.without, h.store k]
  by_cases hk : k ∈ r.selected engine
  · simp [hk, h.subset k hk]
  · simp [hk]

end Repeated

/-- A dry run previews what a real one deletes, which is the first keys up to the cap; the flag tells whether there are more; and runs
    that are repeated until it is unset leave none of the keys, after one run for each 10000 of them. -/
theorem bulk_delete_exact {R : Server} {st : Settings} {client : ClientInfo} {n glob pattern : String} {typeName : Option String}
    (hL : R.Lifetimes) (hadmin : client.clientId = "admin") (hns : validateNs st.engine n = .ok n)
    (hglob : buildScanPattern (some n) typeName pattern = .ok glob) :
    (∀ (s : Store) (r : Round glob s),
      (∃ data, (bulkDeleteKeys st client n typeName pattern true r.scan.keys).run (execStore R) r.clock s = (.ok (okSimple data), s) ∧
        Previews data ((r.selected st.engine).take 10000) (decide (10000 < (r.selected st.engine).length))) ∧
      ∃ data, (bulkDeleteKeys st client n typeName pattern false r.scan.keys).run (execStore R) r.clock s =
          (.ok (okSimple data), s.without ((r.selected st.engine).take 10000)) ∧
        data.field "deleted" = .int ((r.selected st.engine).take 10000).length ∧
        data.field "truncated" = .bool (decide (10000 < (r.selected st.engine).length)) ∧
        DeletesOnce (((bulkDeleteKeys st client n typeName pattern false r.scan.keys).trace (execStore R) r.clock s).map (·.call))
          ((r.selected st.engine).take 10000)) ∧
    ∀ (states : Nat → Store) (rounds : (i : Nat) → Round glob (states i)) (m : Nat),
      m = max 1 ((((rounds 0).selected st.engine).length + 9999) / 10000) →
      (∀ i < m, states (i + 1) =
        ((bulkDeleteKeys st client n typeName pattern false (rounds i).scan.keys).run (execStore R) (rounds i).clock (states i)).2) →
      (∀ i, i + 1 < m → ∀ k, (live (rounds (i + 1)).now (states (i + 1) k)).isSome = (live (rounds i).now (states (i + 1) k)).isSome) →
      (∀ i < m, ∃ data, ((bulkDeleteKeys st client n typeName pattern false (rounds i).scan.keys).run (execStore R) (rounds i).clock
        (states i)).1 = .ok (okSimple data) ∧ data.field "truncated" = .bool (decide (i + 1 < m))) ∧
      states m = (states 0).without ((rounds 0).selected st.engine) := by
  refine ⟨fun s r => ⟨dry_run hadmin hns hglob r, real_run hL hadmin hns hglob r⟩, ?_⟩
  intro states rounds m hm hruns hsteady
  have hstore : ∀ i < m, states (i + 1) = (states i).without (((rounds i).selected st.engine).take 10000) := by
    intro i hi
    obtain ⟨data, hrun, -⟩ := real_run hL hadmin hns hglob (rounds i)
    rw [hruns i hi, hrun]
  have hleft : ∀ i < m, Left st.engine (rounds 0) (rounds i) i := by
    intro i
    induction i with
    | zero => exact fun _ => left_refl
    | succ i ih => exact fun hi => (ih (by omega)).next (hstore i (by omega)) (hsteady i hi)
  constructor
  · intro i hi
    obtain ⟨data, hrun, -, htruncated, -⟩ := real_run hL hadmin hns hglob (rounds i)
    refine ⟨data, congrArg Prod.fst hrun, htruncated.trans (congrArg Json.bool ?_)⟩
    rw [decide_eq_decide, (hleft i hi).length]
    omega
  · obtain ⟨i, rfl⟩ : ∃ i, m = i + 1 := ⟨m - 1, by omega⟩
    have hlast := hleft i (Nat.lt_succ_self i)
    rw [hstore i (Nat.lt_succ_self i)]
    exact hlast.last (by rw [hlast.length]; omega)

/-! ### More keys than the cap -/

def numberedKey (i : Nat) : String := joinKey "app" kvPrefix (toString i)

/-- The store that holds these keys. -/
def holding (numbers : List Nat) : Store := fun k => if k ∈ numbers.map numberedKey then some ⟨.str "v", none⟩ else none

theorem numberedKey_inj {i j : Nat} (h : numberedKey i = numberedKey j) : i = j := by
  have hlist := congrArg String.toList h
  simp only [numberedKey, joinKey_toList, Text.toString_nat] at hlist
  exact Text.toDigits_inj (by simpa using hlist)

theorem numbered_storage (i : Nat) : isStorageKey .python (numberedKey i) = true :=
  parse_storage.mpr ⟨"app", kvPrefix, toString i, parseKey_eq_some.mpr ⟨rfl, by decide, by decide⟩, by decide⟩

theorem numbered_matches (i : Nat) : Glob.matches? "app:*:*".toList (numberedKey i).toList = true := by
  have haccepted : Query.Accepted .python ⟨some "app", none, "*"⟩ "app:*:*" := ⟨fun n hn => (by cases hn; rfl), rfl⟩
  refine (glob_matches_iff haccepted).mpr ⟨"app", kvPrefix, toString i, rfl, fun n hn => ?_, fun t ht => ?_, ?_⟩
  · cases hn
    rfl
  · cases ht
  · exact Glob.matches?_star_self _

variable {numbers : List Nat}

theorem live_holding {now : Nat} {k : String} : (live now (holding numbers k)).isSome = true ↔ k ∈ numbers.map numberedKey := by
  unfold holding
  split <;> simp_all [live, Entry.alive]

def holdingScan (numbers : List Nat) : Scan (holding numbers) 0 := .ofKeys (numbers.map numberedKey) fun _ => live_holding.mp

theorem holdingScan_keys : (holdingScan numbers).keys "app:*:*" = numbers.map numberedKey := by
  unfold holdingScan Scan.keys Scan.ofKeys
  rw [List.flatMap_singleton]
  refine List.filter_eq_self.mpr fun k hk => ?_
  obtain ⟨i, -, rfl⟩ := List.mem_map.mp hk
  rw [live_holding.mpr hk, numbered_matches]
  rfl

def holdingRound (numbers : List Nat) (hnodup : numbers.Nodup) : Round "app:*:*" (holding numbers) where
  now := 0
  scan := holdingScan numbers
  clock := fun _ => 0
  once := holdingScan_keys ▸ hnodup.map fun _ _ => numberedKey_inj
  lasting k hk _ := ((holdingScan numbers).mem_keys _ k).mp hk |>.1

theorem holdingRound_selected (hnodup : numbers.Nodup) :
    (holdingRound numbers hnodup).selected .python = numbers.map numberedKey := by
  show ((holdingScan numbers).keys "app:*:*").filter (isStorageKey .python) = _
  rw [holdingScan_keys]
  refine List.filter_eq_self.mpr fun k hk => ?_
  obtain ⟨i, -, rfl⟩ := List.mem_map.mp hk
  exact numbered_storage i

theorem holding_without (hnodup : numbers.Nodup) (n : Nat) :
    (holding numbers).without ((numbers.map numberedKey).take n) = holding (numbers.drop n) := by
  funext k
  have hkeys : (numbers.map numberedKey).Nodup := hnodup.map fun _ _ => numberedKey_inj
  unfold Store.without holding
  rw [List.map_drop]
  by_cases htake : k ∈ (numbers.map numberedKey).take n
  · simp only [htake, mem_drop_iff hkeys, not_true_eq_false, and_false, if_true, if_false]
  · simp only [htake, mem_drop_iff hkeys, not_false_eq_true, and_true, if_false]

/-- What is left of 10001 keys after some runs. -/
@[irreducible] def leftNumbers (i : Nat) : List Nat := (List.range 10001).drop (10000 * i)

theorem leftNumbers_nodup (i : Nat) : (leftNumbers i).Nodup := by
  rw [leftNumbers]
  exact List.nodup_range.sublist (List.drop_sublist _ _)

theorem leftNumbers_length : (leftNumbers 0).length = 10001 := by
  rw [leftNumbers, List.length_drop, List.length_range]

theorem leftNumbers_succ (i : Nat) : (leftNumbers i).drop 10000 = leftNumbers (i + 1) := by
  rw [leftNumbers, leftNumbers, List.drop_drop, Nat.mul_succ]

/-- Two runs: the first deletes 10000 keys in a hundred batches, the second the last one. -/
def leftStore (i : Nat) : Store := holding (leftNumbers i)

def leftRound (i : Nat) : Round "app:*:*" (leftStore i) := holdingRound (leftNumbers i) (leftNumbers_nodup i)

theorem leftRound_selected (i : Nat) : (leftRound i).selected ({} : Settings).engine = (leftNumbers i).map numberedKey :=
  holdingRound_selected (leftNumbers_nodup i)

theorem leftStore_succ (i : Nat) : (leftStore i).without (((leftNumbers i).map numberedKey).take 10000) = leftStore (i + 1) := by
  rw [leftStore, holding_without (leftNumbers_nodup i), leftNumbers_succ]
  rfl

theorem leftRound_count : ((leftRound 0).selected ({} : Settings).engine).length = 10001 := by
  rw [leftRound_selected, List.length_map, leftNumbers_length]

theorem bulk_delete_exact_twice :
    (∃ data, (bulkDeleteKeys {} monitor "app" none "*" false (leftRound 0).scan.keys).run (execStore reference) (leftRound 0).clock
        (leftStore 0) = (.ok (okSimple data), (leftStore 0).without (((leftNumbers 0).map numberedKey).take 10000)) ∧
      data.field "deleted" = .int 10000 ∧ data.field "truncated" = .bool true) ∧
    leftStore 2 = (leftStore 0).without ((leftNumbers 0).map numberedKey) := by
  obtain ⟨hone, hmany⟩ := @bulk_delete_exact reference {} monitor "app" "app:*:*" "*" none reference_lifetimes rfl
    (by decide +kernel : validateNs .python "app" = .ok "app") (rfl : _ = Except.ok "app:*:*")
  constructor
  · obtain ⟨data, hrun, hdeleted, htruncated, -⟩ := (hone _ (leftRound 0)).2
    rw [List.length_take, leftRound_count] at hdeleted
    rw [leftRound_count] at htruncated
    rw [leftRound_selected] at hrun
    exact ⟨data, hrun, hdeleted, htruncated⟩
  · have hruns : 2 = max 1 ((((leftRound 0).selected ({} : Settings).engine).length + 9999) / 10000) := by
      rw [leftRound_count]
      rfl
    have hstep : ∀ i < 2, leftStore (i + 1) = ((bulkDeleteKeys {} monitor "app" none "*" false (leftRound i).scan.keys).run
        (execStore reference) (leftRound i).clock (leftStore i)).2 := by
      intro i _
      obtain ⟨data, hrun, -⟩ := (hone _ (leftRound i)).2
      rw [hrun, leftRound_selected, leftStore_succ]
    have htwo := (hmany leftStore leftRound 2 hruns hstep fun _ _ _ => rfl).2
    rw [leftRound_selected] at htwo
    exact htwo

end Redgw
