import Redgw.Theorems.MetricsLabels

/-! # What the metrics page reads

A store whose counters are numbers is read without an error: each kind with the labels and values of its
counters. -/

namespace Redgw
open Redis Exposition

variable {R : Server} {s : Store} {now : Nat}

/-! ### Counters in a store -/

/-- The keys of the metrics have numbers or are missing, and the sum of latencies is a text or missing. -/
structure Readable (s : Store) : Prop where
  counter : ∀ w, metricsPrefix ++ ":" ++ w ≠ latencySumKey →
    s (metricsPrefix ++ ":" ++ w) = none ∨ IsCounter (s (metricsPrefix ++ ":" ++ w))
  sum : s latencySumKey = none ∨ IsText (s latencySumKey)

theorem live_counter {e : Option Entry} (h : IsCounter e) : (live now e).isSome = true := by
  obtain ⟨n, -, rfl⟩ := h
  rfl

theorem isText_of_isCounter {e : Option Entry} (h : e = none ∨ IsCounter e) : e = none ∨ IsText e := by
  rcases h with rfl | ⟨n, -, rfl⟩
  · exact Or.inl rfl
  · exact Or.inr ⟨_, rfl⟩

theorem Readable.label (h : Readable s) (kind label : String) :
    s (labelKey kind label) = none ∨ IsCounter (s (labelKey kind label)) := by
  have hne : labelKey kind label ≠ latencySumKey := labelKey_ne "latency_sum" (by decide)
  rw [labelKey_eq_append] at hne ⊢
  exact h.counter _ hne

theorem Readable.total (h : Readable s) : s totalKey = none ∨ IsCounter (s totalKey) :=
  h.counter "total_requests" (by decide)

theorem Readable.latencyCount (h : Readable s) : s latencyCountKey = none ∨ IsCounter (s latencyCountKey) :=
  h.counter "latency_count" (by decide)

theorem Readable.bucket (h : Readable s) {k : String} (hk : k ∈ bucketKeys) : s k = none ∨ IsCounter (s k) := by
  rcases List.mem_append.mp hk with hk | hk
  · obtain ⟨b, -, rfl⟩ := List.mem_map.mp hk
    rw [latencyBucketKey_eq]
    exact h.label "latency" (toString b)
  · rw [List.mem_singleton.mp hk, latencyBucketKey_eq]
    exact h.label "latency" "inf"

/-! ### Values -/

/-- The number that is read of an entry. -/
def valueAt (now : Nat) (e : Option Entry) : Int := (parseInt (textAt now e).text).getD 0

theorem valueAt_counter {n : Int} (hn : int64 n = true) : valueAt now (some ⟨.str (toString n), none⟩) = n := by
  have htext : (textAt now (some ⟨.str (toString n), none⟩)).text = toString n := rfl
  unfold valueAt
  rw [htext, parseInt_toString hn, Option.getD_some]

theorem pyInt_textAt (now : Nat) {e : Option Entry} (h : e = none ∨ IsCounter e) :
    pyInt (textAt now e) = .ok (valueAt now e) := by
  rcases h with rfl | ⟨n, hn, rfl⟩
  · rfl
  · have htext : (textAt now (some ⟨.str (toString n), none⟩)).text = toString n := rfl
    have htruthy : (textAt now (some ⟨.str (toString n), none⟩)).truthy = true := by
      have hne : toString n ≠ "" := by
        intro he
        have hparse := parseInt_toString hn
        have hempty : parseInt "" = none := by decide
        rw [he, hempty] at hparse
        cases hparse
      exact decide_eq_true hne
    unfold pyInt
    rw [if_pos htruthy, htext, parseInt_toString hn, valueAt_counter hn]

theorem mapM_pyInt (now : Nat) {keys : List String} (h : ∀ k ∈ keys, s k = none ∨ IsCounter (s k)) :
    (keys.map fun k => textAt now (s k)).mapM pyInt = .ok (keys.map fun k => valueAt now (s k)) := by
  induction keys with
  | nil => rfl
  | cons k keys ih =>
    have hk := pyInt_textAt now (h k List.mem_cons_self)
    have hkeys := ih fun k' hk' => h k' (List.mem_cons_of_mem _ hk')
    rw [List.map_cons, List.mapM_cons, hk, hkeys]
    rfl

/-! ### Labels -/

/-- A scan for a kind finds its counters. -/
theorem mem_scan (h : Readable s) (scan : Scan s now) {kind : String} (hlit : Glob.Literal kind.toList) {k : String} :
    k ∈ scan.keys (metricsPrefix ++ ":" ++ kind ++ ":*") ↔ ∃ label, k = labelKey kind label ∧ IsCounter (s k) := by
  have hpattern : (metricsPrefix ++ ":" ++ kind ++ ":*").toList = ("redgw:metrics:".toList ++ (kind.toList ++ [':'])) ++ ['*'] := by
    simp [metricsPrefix, String.toList_append]
  have hprefix : Glob.Literal ("redgw:metrics:".toList ++ (kind.toList ++ [':'])) := by
    obtain ⟨h₁, h₂⟩ := hlit
    simp [Glob.Literal, h₁, h₂]
  rw [scan.mem_keys, hpattern, Glob.matches?_literal_append hprefix]
  constructor
  · rintro ⟨hlive, rest, hk, -⟩
    have hkey : k = labelKey kind (.ofList rest) := by
      refine eq_labelKey ?_
      rw [hk]
      simp
    refine ⟨.ofList rest, hkey, ?_⟩
    rcases h.label kind (.ofList rest) with hn | hc
    · rw [hkey, hn] at hlive
      cases hlive
    · rw [hkey]
      exact hc
  · rintro ⟨label, rfl, hc⟩
    refine ⟨live_counter hc, label.toList, ?_, Glob.matches?_star_self _⟩
    rw [labelKey_toList]
    simp

/-- The counters that a scan finds for a kind, by their labels. -/
def countsOf (scan : Scan s now) (kind : String) : Dict Int :=
  .ofList ((scan.keys (metricsPrefix ++ ":" ++ kind ++ ":*")).map fun k => (labelOf k, valueAt now (s k)))

theorem readLabels_ok (hR : R.Counts) (h : Readable s) (scan : Scan s now) (kind : String)
    (hlit : Glob.Literal kind.toList) : readLabels R scan kind = .ok (countsOf scan kind) := by
  have hcounters : ∀ k ∈ scan.keys (metricsPrefix ++ ":" ++ kind ++ ":*"), s k = none ∨ IsCounter (s k) := by
    intro k hk
    obtain ⟨-, -, hc⟩ := (mem_scan h scan hlit).mp hk
    exact Or.inr hc
  unfold readLabels countsOf
  dsimp only
  generalize scan.keys (metricsPrefix ++ ":" ++ kind ++ ":*") = keys at hcounters ⊢
  split
  · rename_i hnil
    rw [List.isEmpty_iff.mp hnil]
    rfl
  · rename_i hne
    have hmget := hR.mget now (keys.map s) fun hnil => hne (by rw [List.map_eq_nil_iff.mp hnil]; rfl)
    have hmap : (keys.map s).map (textAt now) = keys.map fun k => textAt now (s k) := List.map_map
    have hzip : (keys.map labelOf).zip (keys.map fun k => valueAt now (s k)) =
        keys.map fun k => (labelOf k, valueAt now (s k)) := List.zip_map' ..
    rw [hmget, hmap, ← hzip]
    exact Fallible.bind_ok.mpr ⟨_, rfl, Fallible.bind_ok.mpr ⟨_, mapM_pyInt now hcounters, rfl⟩⟩

/-- The labels of a kind are those of its counters. -/
theorem mem_labels (h : Readable s) (scan : Scan s now) {kind : String} (hlit : Glob.Literal kind.toList) {l : String} :
    l ∈ (countsOf scan kind).items.map (·.1) ↔
      ∃ label, IsCounter (s (labelKey kind label)) ∧ labelOf (labelKey kind label) = l := by
  unfold countsOf
  rw [Dict.mem_keys_ofList, List.map_map, List.mem_map]
  constructor
  · rintro ⟨k, hk, rfl⟩
    obtain ⟨label, rfl, hc⟩ := (mem_scan h scan hlit).mp hk
    exact ⟨label, hc, rfl⟩
  · rintro ⟨label, hc, rfl⟩
    exact ⟨labelKey kind label, (mem_scan h scan hlit).mpr ⟨label, rfl, hc⟩, rfl⟩

/-- Where no label of a kind has a colon, each is read with the value of its counter. -/
theorem lookup_countsOf (h : Readable s) (scan : Scan s now) {kind : String} (hlit : Glob.Literal kind.toList)
    (hcolon : ∀ l, IsCounter (s (labelKey kind l)) → ':' ∉ l.toList) (l : String) :
    (countsOf scan kind).items.lookup l =
      if (s (labelKey kind l)).isSome then some (valueAt now (s (labelKey kind l))) else none := by
  have hmem : ∀ v, (l, v) ∈ (countsOf scan kind).items → IsCounter (s (labelKey kind l)) ∧
      v = valueAt now (s (labelKey kind l)) := by
    intro v hv
    obtain ⟨k, hk, hkv⟩ := List.mem_map.mp (Dict.mem_ofList hv)
    obtain ⟨label, rfl, hc⟩ := (mem_scan h scan hlit).mp hk
    rw [labelOf_labelKey (hcolon label hc)] at hkv
    obtain ⟨rfl, rfl⟩ := Prod.mk.inj hkv
    exact ⟨hc, rfl⟩
  rcases h.label kind l with hn | hc
  · rw [hn, if_neg (by simp)]
    cases hl : (countsOf scan kind).items.lookup l with
    | none => rfl
    | some v =>
      obtain ⟨⟨n, -, hs⟩, -⟩ := hmem v (Dict.mem_items.mpr hl)
      rw [hn] at hs
      cases hs
  · have hsome : (s (labelKey kind l)).isSome = true := by
      obtain ⟨n, -, hs⟩ := hc
      rw [hs]
      rfl
    have hkey : l ∈ (countsOf scan kind).items.map (·.1) :=
      (mem_labels h scan hlit).mpr ⟨l, hc, labelOf_labelKey (hcolon l hc)⟩
    obtain ⟨x, hx, rfl⟩ := List.mem_map.mp hkey
    obtain ⟨-, hv⟩ := hmem x.2 hx
    rw [if_pos hsome, ← hv]
    exact Dict.mem_items.mp hx

/-! ### The snapshot -/

def snapshotOf (scan : Scan s now) (toFloat : String → Double) (uptime : Double) : Snapshot where
  totalRequests := valueAt now (s totalKey)
  statusCodes := countsOf scan "status"
  uptimeSeconds := uptime
  nsRequests := countsOf scan "ns"
  clientRequests := countsOf scan "client"
  latencySum := pyFloat toFloat (textAt now (s latencySumKey))
  latencyCount := valueAt now (s latencyCountKey)
  latencyBuckets := bucketLabels.zip (bucketKeys.map fun k => valueAt now (s k))
  authFailures := countsOf scan "auth_failures"
  auditDropped := countsOf scan "audit_dropped"

/-- Nothing goes wrong when the counters are read. -/
theorem readMetrics_ok (hR : R.Counts) (h : Readable s) (scan : Scan s now) (toFloat : String → Double) (uptime : Double) :
    readMetrics R scan toFloat uptime = .ok (snapshotOf scan toFloat uptime) := by
  have hmget := hR.mget now (bucketKeys.map s) (List.cons_ne_nil _ _)
  have hmap : (bucketKeys.map s).map (textAt now) = bucketKeys.map fun k => textAt now (s k) := List.map_map
  rw [hmap] at hmget
  unfold readMetrics
  refine Fallible.bind_ok.mpr ⟨_, hR.get now _ (isText_of_isCounter h.total), ?_⟩
  refine Fallible.bind_ok.mpr ⟨_, readLabels_ok hR h scan "status" (by decide), ?_⟩
  refine Fallible.bind_ok.mpr ⟨_, readLabels_ok hR h scan "ns" (by decide), ?_⟩
  refine Fallible.bind_ok.mpr ⟨_, readLabels_ok hR h scan "client" (by decide), ?_⟩
  refine Fallible.bind_ok.mpr ⟨_, hR.get now _ h.sum, ?_⟩
  refine Fallible.bind_ok.mpr ⟨_, hR.get now _ (isText_of_isCounter h.latencyCount), ?_⟩
  refine Fallible.bind_ok.mpr ⟨_, hmget, ?_⟩
  refine Fallible.bind_ok.mpr ⟨_, mapM_pyInt now fun k hk => h.bucket hk, ?_⟩
  refine Fallible.bind_ok.mpr ⟨_, readLabels_ok hR h scan "auth_failures" (by decide), ?_⟩
  refine Fallible.bind_ok.mpr ⟨_, readLabels_ok hR h scan "audit_dropped" (by decide), ?_⟩
  refine Fallible.bind_ok.mpr ⟨_, pyInt_textAt now h.total, ?_⟩
  exact Fallible.bind_ok.mpr ⟨_, pyInt_textAt now h.latencyCount, rfl⟩

theorem getMetrics_eq (hR : R.Counts) (h : Readable s) (scan : Scan s now) (toFloat : String → Double) (uptime : Double) :
    getMetrics R scan toFloat uptime = snapshotOf scan toFloat uptime := by
  unfold getMetrics
  rw [readMetrics_ok hR h]

end Redgw
