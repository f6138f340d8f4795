import Redgw.Lib.Tally
import Redgw.Theorems.OutOfReach

/-! # Statistics of the keys

The counts are those of the keys that were examined. The flag is derived from how many these are, so that a
scan which ends at the limit is reported as a truncated one. -/

namespace Redgw
open Redis Prog

/-- A key that users store in the namespace under the prefix. -/
def storedAs (engine : Engine) (ns typePrefix k : String) : Bool :=
  match parseKey engine k with
  | some (n, p, _) => storagePrefixes.contains p && n == ns && p == typePrefix
  | none => false

/-- How many of the keys these are. -/
def stored (engine : Engine) (ns typePrefix : String) (keys : List String) : Nat := keys.countP (storedAs engine ns typePrefix)

/-- What the statistics say of a namespace. -/
structure NsExact (engine : Engine) (keys : List String) (ns : String) (x : Json) : Prop where
  counted : ∃ counts : List (String × Int), x.field "by_type" = .obj (counts.map fun y => (y.1, .int y.2)) ∧
    x.field "total_keys" = .int (counts.map (·.2)).sum ∧ (counts.map (·.1)).Nodup ∧
    ∀ p, counts.lookup p = if stored engine ns p keys = 0 then none else some (stored engine ns p keys : Int)

/-- What the statistics say of all keys, when at most `limit` of them are examined. -/
structure StatsExact (engine : Engine) (limit : Nat) (keys : List String) (data : Json) : Prop where
  namespaces : ∃ items : List (String × Json), data.field "namespaces" = .obj items ∧ (items.map (·.1)).Nodup ∧
    (∀ x ∈ items, NsExact engine (keys.take limit) x.1 x.2) ∧
    ∀ ns, ns ∈ items.map (·.1) ↔ ∃ p, stored engine ns p (keys.take limit) ≠ 0
  scanned : data.field "scanned_keys" = .int (min limit keys.length : Nat)
  truncated : data.field "truncated" = .bool (decide (limit < keys.length))

/-! ### The counts -/

/-- The dictionary has the counts of the keys that were seen. -/
structure Tallied (engine : Engine) (seen : List String) (d : Dict NsStats) : Prop where
  absent : ∀ ns, d.items.lookup ns = none ↔ ∀ p, stored engine ns p seen = 0
  counts : ∀ ns x, d.items.lookup ns = some x → x.byType.Counts (fun p => stored engine ns p seen) ∧ x.totalKeys = x.byType.total

section Counting
variable {engine : Engine} {ns typePrefix key k : String} {seen : List String} {d : Dict NsStats}

theorem stored_concat : stored engine ns typePrefix (seen ++ [k]) =
    stored engine ns typePrefix seen + if storedAs engine ns typePrefix k then 1 else 0 := by
  unfold stored
  rw [List.countP_append, List.countP_singleton]

theorem storedAs_parse {n p : String} (hparse : parseKey engine k = some (n, p, key)) (hp : p ∈ storagePrefixes) :
    storedAs engine ns typePrefix k = true ↔ n = ns ∧ p = typePrefix := by
  unfold storedAs
  rw [hparse]
  simp [hp]

theorem tallied_empty : Tallied engine [] .empty := ⟨fun _ => ⟨fun _ _ => rfl, fun _ => rfl⟩, nofun⟩

/-- A key that is no user's changes no count. -/
theorem Tallied.skip (h : Tallied engine seen d) (hk : ∀ ns p, storedAs engine ns p k = false) : Tallied engine (seen ++ [k]) d := by
  have hsame : ∀ ns p, stored engine ns p (seen ++ [k]) = stored engine ns p seen := fun ns p => by
    simp [stored_concat, hk ns p]
  exact {
    absent := fun ns => by simpa only [hsame] using h.absent ns
    counts := fun ns x hx => by simpa only [hsame] using h.counts ns x hx }

/-- A key that a user stores is one more under its namespace and its prefix. -/
theorem Tallied.count (h : Tallied engine seen d) {n p : String} (hk : ∀ ns q, storedAs engine ns q k = true ↔ n = ns ∧ p = q) {x : NsStats}
    (hx : (d.items.lookup n).getD ⟨0, .empty⟩ = x) : Tallied engine (seen ++ [k]) (d.insert n ⟨x.totalKeys + 1, x.byType.bump p⟩) := by
  have hhere : stored engine n p (seen ++ [k]) = stored engine n p seen + 1 := by
    rw [stored_concat, if_pos ((hk n p).mpr ⟨rfl, rfl⟩)]
  have hother : ∀ ns q, ¬(n = ns ∧ p = q) → stored engine ns q (seen ++ [k]) = stored engine ns q seen := fun ns q hne => by
    rw [stored_concat, if_neg fun hstored => hne ((hk ns q).mp hstored)]
    rfl
  have hold : x.byType.Counts (fun q => stored engine n q seen) ∧ x.totalKeys = x.byType.total := by
    cases hlookup : d.items.lookup n with
    | none =>
      rw [hlookup] at hx
      subst hx
      exact ⟨Dict.counts_empty.congr fun q => ((h.absent n).mp hlookup q).symm, rfl⟩
    | some y =>
      rw [hlookup] at hx
      subst hx
      exact h.counts n y hlookup
  constructor
  · intro ns
    rw [Dict.lookup_insert]
    by_cases hns : ns = n
    · subst hns
      simp only [↓reduceIte, reduceCtorEq, false_iff, not_forall]
      exact ⟨p, by omega⟩
    · rw [if_neg hns, h.absent ns]
      exact forall_congr' fun q => by rw [hother ns q fun hsame => hns hsame.1.symm]
  · intro ns y hy
    rw [Dict.lookup_insert] at hy
    by_cases hns : ns = n
    · subst hns
      rw [if_pos rfl] at hy
      cases hy
      refine ⟨hold.1.bump hhere fun q hq => hother ns q fun hsame => hq hsame.2.symm, ?_⟩
      rw [Dict.total_bump, hold.2]
    · rw [if_neg hns] at hy
      obtain ⟨hcounts, htotal⟩ := h.counts ns y hy
      exact ⟨hcounts.congr fun q => (hother ns q fun hsame => hns hsame.1.symm).symm, htotal⟩

theorem tallied_countStats (h : Tallied engine seen d) (k : String) : Tallied engine (seen ++ [k]) (countStats engine d k) := by
  cases hparse : parseKey engine k with
  | none =>
    have hskip : countStats engine d k = d := by simp [countStats, hparse]
    rw [hskip]
    exact h.skip fun ns p => by simp [storedAs, hparse]
  | some parts =>
    obtain ⟨n, p, key⟩ := parts
    by_cases hp : p ∈ storagePrefixes
    · have hcount : countStats engine d k = d.insert n ⟨((d.items.lookup n).getD ⟨0, .empty⟩).totalKeys + 1,
          ((d.items.lookup n).getD ⟨0, .empty⟩).byType.bump p⟩ := by simp [countStats, hparse, hp, Dict.bump]
      rw [hcount]
      exact h.count (fun ns q => storedAs_parse hparse hp) rfl
    · have hskip : countStats engine d k = d := by simp [countStats, hparse, hp]
      rw [hskip]
      exact h.skip fun ns q => by simp [storedAs, hparse, hp]

/-- Keys one after the other. -/
theorem tallied_foldl (h : Tallied engine seen d) (keys : List String) :
    Tallied engine (seen ++ keys) (keys.foldl (countStats engine) d) := by
  induction keys generalizing seen d with
  | nil => simpa using h
  | cons k keys ih =>
    have hrest := ih (tallied_countStats h k)
    rwa [List.append_assoc] at hrest

end Counting

/-! ### The answer -/

theorem scanStats_scanned {engine : Engine} {limit : Nat} (keys : List String) (scanned : Nat) (d : Dict NsStats) (h : scanned < limit) :
    (scanStats engine limit keys scanned d).1 = min limit (scanned + keys.length) := by
  induction keys generalizing scanned d with
  | nil =>
    show scanned = min limit scanned
    omega
  | cons key keys ih =>
    rw [List.length_cons]
    unfold scanStats
    dsimp only
    split
    · show scanned + 1 = _
      omega
    · rw [ih _ _ (by omega)]
      omega

/-- The data of the answer, from the number of keys that were examined and their counts. -/
def statsData (limit : Nat) (memory : String × String) (scanned : Nat) (d : Dict NsStats) : Json :=
  .obj [("redis_memory", .obj [("used_memory_human", .str memory.1), ("used_memory_peak_human", .str memory.2)]),
    ("namespaces", statsJson d), ("scanned_keys", .int scanned), ("truncated", .bool (decide (limit ≤ scanned)))]

section Answer
variable {st : Settings} {limit : Nat} {keys : List String}

theorem getStats_eq (hlimit : 1 ≤ limit) (memory : String × String) (keys : List String) :
    getStats st limit memory keys = .pure (okSimple (statsData limit memory (min limit keys.length)
      ((keys.take limit).foldl (countStats st.engine) .empty))) := by
  have hscanned := @scanStats_scanned st.engine limit keys 0 .empty hlimit
  have htaken := @scanStats_take st.engine limit keys 0 .empty hlimit
  rw [Nat.zero_add] at hscanned
  rw [Nat.sub_zero] at htaken
  rw [← hscanned, ← htaken]
  rfl

/-- The counts are those of the keys that were examined. -/
theorem namespaces_exact {engine : Engine} {seen : List String} {d : Dict NsStats} (h : Tallied engine seen d) :
    ∃ items : List (String × Json), statsJson d = .obj items ∧ (items.map (·.1)).Nodup ∧
      (∀ x ∈ items, NsExact engine seen x.1 x.2) ∧ ∀ ns, ns ∈ items.map (·.1) ↔ ∃ p, stored engine ns p seen ≠ 0 := by
  have hnames : ∀ f : String × NsStats → Json, (d.items.map fun x => (x.1, f x)).map (·.1) = d.items.map (·.1) := fun f => by
    rw [List.map_map]
    rfl
  refine ⟨_, rfl, ?_, ?_, fun ns => ?_⟩
  · rw [hnames]
    exact d.nodup
  · intro x hx
    obtain ⟨⟨ns, y⟩, hy, rfl⟩ := List.mem_map.mp hx
    obtain ⟨hcounts, htotal⟩ := h.counts ns y (Dict.mem_items.mp hy)
    exact ⟨y.byType.items, rfl, congrArg Json.int htotal, y.byType.nodup, hcounts⟩
  · rw [hnames, ← not_forall, ← h.absent ns, ← ne_eq, Option.ne_none_iff_exists']
    constructor
    · intro hns
      obtain ⟨⟨n, y⟩, hy, rfl⟩ := List.mem_map.mp hns
      exact ⟨y, Dict.mem_items.mp hy⟩
    · rintro ⟨y, hy⟩
      exact List.mem_map.mpr ⟨(ns, y), Dict.mem_items.mpr hy, rfl⟩

/-- The statistics are exact unless there are just as many keys as the limit. -/
theorem stats_exact_iff {client : ClientInfo} {memory : String × String} (hlimit : (AdminOp.getStats limit memory keys).valid = true) :
    ∃ data, adminEndpoint st (some client) (.getStats limit memory keys) = .pure (okSimple data) ∧
      (StatsExact st.engine limit keys data ↔ keys.length ≠ limit) := by
  obtain ⟨hpos, -⟩ : 1 ≤ limit ∧ limit ≤ 100000 := of_decide_eq_true hlimit
  refine ⟨statsData limit memory (min limit keys.length) ((keys.take limit).foldl (countStats st.engine) .empty), ?_, ?_⟩
  · unfold adminEndpoint verifyApiKey
    rw [hlimit]
    exact getStats_eq hpos memory keys
  · have hflag : (decide (limit ≤ min limit keys.length) = decide (limit < keys.length)) ↔ keys.length ≠ limit := by
      rw [decide_eq_decide]
      omega
    constructor
    · intro hexact
      exact hflag.mp (Json.bool.inj hexact.truncated)
    · intro hne
      exact ⟨namespaces_exact (tallied_foldl tallied_empty _), rfl, congrArg Json.bool (hflag.mpr hne)⟩

end Answer

theorem stats_exact_iff_two : ∃ data, adminEndpoint {} (some monitor) (.getStats 10 ("1M", "1M") ["app:kv:a", "__redgw:x"]) =
    .pure (okSimple data) ∧ (StatsExact .python 10 ["app:kv:a", "__redgw:x"] data ↔ 2 ≠ 10) :=
  stats_exact_iff (by decide)

/-- The only key was examined, and the answer says that some were not. -/
theorem full_scan_truncated : ∃ data, adminEndpoint {} (some monitor) (.getStats 1 ("1M", "1M") ["app:kv:a"]) = .pure (okSimple data) ∧
    data.field "truncated" = .bool true ∧ ¬StatsExact .python 1 ["app:kv:a"] data := by
  refine ⟨_, rfl, rfl, fun hexact => ?_⟩
  cases hexact.truncated

end Redgw
