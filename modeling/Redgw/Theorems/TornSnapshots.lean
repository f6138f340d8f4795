import Redgw.Lib.Pool
import Redgw.Theorems.RestingMetrics

/-! # Snapshots of calls under way

Redis executes the commands of each recorded call one by one, and the commands that read the metrics come
between any of them. What a snapshot says of latencies is out of step by no more than the calls whose
latency is being counted at that moment. -/

namespace Redgw
open Redis Exposition

variable {R : Server}

/-! ### Calls under way -/

/-- A call of `record_request_async`, and how many of its commands have been executed. -/
structure Recorder where
  call : Recording
  executed : Nat

/-- The keys of the commands that have been executed. -/
def Recorder.keys (r : Recorder) : List String := (r.call.commands.map (·.1)).take r.executed

/-- The latency has been counted, but not in the last of its buckets. -/
def Recorder.Midway (r : Recorder) : Prop := latencyCountKey ∈ r.keys ∧ labelKey "latency" "inf" ∉ r.keys

instance (r : Recorder) : Decidable r.Midway := inferInstanceAs (Decidable (_ ∧ _))

structure Recorders where
  store : Store
  calls : List Recorder

namespace Recorders

inductive Action
  | start (call : Recording)
  | execute (i now : Nat)

/-- A call is started, or the next command of the `i`th call is executed. -/
def step (R : Server) (t : Recorders) : Action → Option Recorders
  | .start call => some ⟨t.store, t.calls ++ [⟨call, 0⟩]⟩
  | .execute i now =>
    match t.calls[i]? with
    | none => none
    | some r =>
      match r.call.commands[r.executed]? with
      | none => none
      | some x => some ⟨(R.atKey x.1 x.2 now t.store).2, t.calls.set i ⟨r.call, r.executed + 1⟩⟩

/-- The keys of all commands that have been executed. -/
def keys (t : Recorders) : List String := t.calls.flatMap Recorder.keys

/-- How many calls are in the middle of counting their latency. -/
def midway (t : Recorders) : Nat := t.calls.countP fun r => r.Midway

/-- How many calls have had their latency counted. -/
def counted (t : Recorders) : Nat := t.keys.count latencyCountKey

theorem step_execute {t u : Recorders} {i now : Nat} (h : step R t (.execute i now) = some u) :
    ∃ r x, t.calls[i]? = some r ∧ r.call.commands[r.executed]? = some x ∧ (R.atKey x.1 x.2 now t.store).2 = u.store ∧
      t.calls.set i ⟨r.call, r.executed + 1⟩ = u.calls := by
  simp only [step] at h
  split at h
  · cases h
  · rename_i r hr
    split at h
    · cases h
    · rename_i x hx
      cases h
      exact ⟨r, x, hr, hx, rfl, rfl⟩

theorem keys_succ {r : Recorder} {x : String × KeyCmd} (h : r.call.commands[r.executed]? = some x) :
    Recorder.keys ⟨r.call, r.executed + 1⟩ = r.keys ++ [x.1] := by
  have hkey : (r.call.commands.map (·.1))[r.executed]? = some x.1 := by rw [List.getElem?_map, h, Option.map_some]
  unfold Recorder.keys
  rw [List.take_add_one, hkey, Option.toList_some]

/-- What a step adds to the executed commands. -/
theorem step_keys {t u : Recorders} {a : Action} (h : step R t a = some u) :
    (u.keys = t.keys ∧ u.store = t.store) ∨ ∃ x now, Recorded x ∧ (t.keys ++ [x.1]).Perm u.keys ∧
      u.store = (R.atKey x.1 x.2 now t.store).2 := by
  cases a with
  | start call =>
    cases h
    left
    simp [keys, Recorder.keys]
  | execute i now =>
    obtain ⟨r, x, hr, hx, hstore, hcalls⟩ := step_execute h
    refine Or.inr ⟨x, now, commands_recorded r.call x (List.mem_of_getElem? hx), ?_, hstore.symm⟩
    unfold keys
    rw [← hcalls]
    exact Pool.flatMap_set_perm hr (keys_succ hx)

/-- Each counter stands at the number of commands that raised it. -/
theorem step_raised (hR : R.Counts) (hadd : R.Increases) {t u : Recorders} {a : Action} (h : step R t a = some u)
    (ht : Raised t.keys t.store) : Raised u.keys u.store := by
  rcases step_keys h with ⟨hkeys, hstore⟩ | ⟨x, now, hx, hperm, hstore⟩
  · rwa [hkeys, hstore]
  · rw [hstore]
    exact (ht.step hR hadd hx now).perm hperm

theorem run_raised (hR : R.Counts) (hadd : R.Increases) {as : List Action} {t u : Recorders}
    (h : Runs.run (step R) t as = some u) (ht : Raised t.keys t.store) : Raised u.keys u.store :=
  Runs.run_inv (I := fun t => Raised t.keys t.store) (fun _ _ _ hstep => step_raised hR hadd hstep) h ht

theorem step_counted {t u : Recorders} {a : Action} (h : step R t a = some u) : t.counted ≤ u.counted := by
  unfold counted
  rcases step_keys h with ⟨hkeys, -⟩ | ⟨x, now, -, hperm, -⟩
  · rw [hkeys]
  · rw [← hperm.count_eq, List.count_append]
    exact Nat.le_add_right _ _

theorem run_counted {as : List Action} {t u : Recorders} (h : Runs.run (step R) t as = some u) : t.counted ≤ u.counted :=
  Runs.run_inv (I := fun v => t.counted ≤ v.counted) (fun _ _ _ hstep hle => hle.trans (step_counted hstep)) h
    (Nat.le_refl _)

end Recorders

/-! ### The counts of one call -/

theorem mem_take_of_mem_take {α : Type} {xs before after : List α} {x y : α} {n : Nat} (hxs : xs = before ++ x :: after)
    (hy : y ∉ before) (h : y ∈ xs.take n) : x ∈ xs.take n := by
  rw [hxs, List.take_append, List.mem_append] at h ⊢
  rcases h with h | h
  · exact absurd (List.mem_of_mem_take h) hy
  · obtain ⟨m, hm⟩ : ∃ m, n - before.length = m + 1 := by
      cases hn : n - before.length with
      | zero =>
        rw [hn] at h
        cases h
      | succ m => exact ⟨m, rfl⟩
    rw [hm]
    exact Or.inr List.mem_cons_self

theorem take_of_last {α : Type} {xs before : List α} {x : α} {n : Nat} (hxs : xs = before ++ [x]) (hx : x ∉ before)
    (h : x ∈ xs.take n) : xs.take n = xs := by
  refine List.take_of_length_le ?_
  by_contra hlt
  have hle : n ≤ before.length := by
    rw [hxs, List.length_append, List.length_singleton] at hlt
    omega
  rw [hxs, List.take_append_of_le_length hle] at h
  exact hx (List.mem_of_mem_take h)

/-- A call without a duration names no latencies; the others count the latency before any of its buckets and
    the last bucket at the end. -/
theorem commands_latency (c : Recording) : (∀ l, labelKey "latency" l ∉ c.commands.map (·.1)) ∨
    ∃ before buckets, c.commands.map (·.1) = before ++ latencyCountKey :: (buckets ++ [labelKey "latency" "inf"]) ∧
      ∀ l, labelKey "latency" l ∉ before := by
  have hbefore : ∀ l, labelKey "latency" l ∉ [totalKey, labelKey "status" (toString c.statusCode)] ++
      (if c.ns ≠ "" then [labelKey "ns" c.ns] else []) ++
      (if c.clientId ≠ "" then [labelKey "client" c.clientId] else []) := by
    intro l
    by_cases hns : c.ns = "" <;> by_cases hclient : c.clientId = "" <;>
      simp [hns, hclient, (totalKey_ne _ _).symm, labelKey_eq_iff]
  rw [commands_keys]
  generalize [totalKey, labelKey "status" (toString c.statusCode)] ++ (if c.ns ≠ "" then [labelKey "ns" c.ns] else []) ++
    (if c.clientId ≠ "" then [labelKey "client" c.clientId] else []) = before at hbefore ⊢
  by_cases hpos : 0 < c.durationMs
  · right
    refine ⟨before ++ [latencySumKey], (boundsOf c.durationMs).map fun b => labelKey "latency" (toString b), ?_, ?_⟩
    · rw [if_pos hpos]
      simp
    · intro l hl
      rcases List.mem_append.mp hl with hl | hl
      · exact hbefore l hl
      · exact latencySumKey_ne _ _ (List.mem_singleton.mp hl).symm
  · left
    rw [if_neg hpos, List.append_nil]
    exact hbefore

namespace Recorder
variable (r : Recorder)

theorem count_keys_le (k : String) : r.keys.count k ≤ (r.call.commands.map (·.1)).count k :=
  (List.take_sublist _ _).count_le k

/-- No bucket is raised before the latency is counted. -/
theorem mem_count_of_latency {l : String} (h : labelKey "latency" l ∈ r.keys) : latencyCountKey ∈ r.keys := by
  rcases commands_latency r.call with hnone | ⟨before, buckets, hkeys, hbefore⟩
  · exact absurd (List.mem_of_mem_take h) (hnone l)
  · exact mem_take_of_mem_take hkeys (hbefore l) h

/-- After the last bucket nothing is left to execute. -/
theorem keys_of_inf (h : labelKey "latency" "inf" ∈ r.keys) : r.keys = r.call.commands.map (·.1) := by
  rcases commands_latency r.call with hnone | ⟨before, buckets, hkeys, -⟩
  · exact absurd (List.mem_of_mem_take h) (hnone "inf")
  · have hlast : r.call.commands.map (·.1) = (before ++ latencyCountKey :: buckets) ++ [labelKey "latency" "inf"] := by
      rw [hkeys, List.append_assoc, List.cons_append]
    have honce : (r.call.commands.map (·.1)).count (labelKey "latency" "inf") ≤ 1 := by
      rw [count_inf]
      split <;> decide
    rw [hlast, List.count_append, List.count_singleton_self] at honce
    exact take_of_last hlast (List.count_eq_zero.mp (by omega)) h

/-- A key that a call names once, and not before `latency_count`, is ahead of a key that the call names as
    well only in the middle of the call. -/
theorem count_le {k k' : String} (hle : (r.call.commands.map (·.1)).count k ≤ (r.call.commands.map (·.1)).count k')
    (honce : (r.call.commands.map (·.1)).count k ≤ 1) (hcount : k ∈ r.keys → latencyCountKey ∈ r.keys) :
    r.keys.count k ≤ r.keys.count k' + if r.Midway then 1 else 0 := by
  have hkeys := r.count_keys_le k
  by_cases hk : k ∈ r.keys
  · by_cases hinf : labelKey "latency" "inf" ∈ r.keys
    · rw [r.keys_of_inf hinf]
      omega
    · have hmidway : r.Midway := ⟨hcount hk, hinf⟩
      rw [if_pos hmidway]
      omega
  · rw [List.count_eq_zero.mpr hk]
    exact Nat.zero_le _

theorem count_bucket_le_inf {b : Nat} (hb : b ∈ latencyBuckets) : r.keys.count (labelKey "latency" (toString b)) ≤
    r.keys.count (labelKey "latency" "inf") + if r.Midway then 1 else 0 := by
  refine r.count_le ?_ ?_ r.mem_count_of_latency
  · rw [count_bucket r.call hb, count_inf]
    split <;> split <;> simp_all
  · rw [count_bucket r.call hb]
    split <;> decide

theorem count_bucket_le {b b' : Nat} (hb : b ∈ latencyBuckets) (hb' : b' ∈ latencyBuckets) (hle : b ≤ b') :
    r.keys.count (labelKey "latency" (toString b)) ≤
      r.keys.count (labelKey "latency" (toString b')) + if r.Midway then 1 else 0 := by
  refine r.count_le ?_ ?_ r.mem_count_of_latency
  · rw [count_bucket r.call hb, count_bucket r.call hb']
    by_cases h : 0 < r.call.durationMs ∧ r.call.durationMs ≤ (b : Rat)
    · rw [if_pos h, if_pos ⟨h.1, Rat.le_trans h.2 (Rat.natCast_le_natCast.mpr hle)⟩]
    · rw [if_neg h]
      exact Nat.zero_le _
  · rw [count_bucket r.call hb]
    split <;> decide

theorem count_latencyCount_le : r.keys.count latencyCountKey ≤
    r.keys.count (labelKey "latency" "inf") + if r.Midway then 1 else 0 := by
  refine r.count_le ?_ ?_ id
  · rw [count_latencyCount, count_inf]
  · rw [count_latencyCount]
    split <;> decide

theorem count_inf_le : r.keys.count (labelKey "latency" "inf") ≤ r.keys.count latencyCountKey := by
  by_cases hinf : labelKey "latency" "inf" ∈ r.keys
  · rw [r.keys_of_inf hinf, count_inf, count_latencyCount]
  · rw [List.count_eq_zero.mpr hinf]
    exact Nat.zero_le _

end Recorder

/-! ### The counts of all calls -/

theorem count_flatMap_le {α : Type} {f : α → List String} {p : α → Prop} [DecidablePred p] {k k' : String} (xs : List α)
    (h : ∀ x, (f x).count k ≤ (f x).count k' + if p x then 1 else 0) :
    (xs.flatMap f).count k ≤ (xs.flatMap f).count k' + xs.countP fun x => p x := by
  induction xs with
  | nil => exact Nat.le_refl 0
  | cons x xs ih =>
    have hx := h x
    rw [List.flatMap_cons, List.count_append, List.count_append, List.countP_cons]
    simp only [decide_eq_true_eq]
    omega

namespace Recorders
variable (t : Recorders)

theorem bucket_le {b b' : Nat} (hb : b ∈ latencyBuckets) (hb' : b' ∈ latencyBuckets) (hle : b ≤ b') :
    t.keys.count (labelKey "latency" (toString b)) ≤ t.keys.count (labelKey "latency" (toString b')) + t.midway :=
  count_flatMap_le t.calls fun r => r.count_bucket_le hb hb' hle

theorem bucket_le_inf {b : Nat} (hb : b ∈ latencyBuckets) :
    t.keys.count (labelKey "latency" (toString b)) ≤ t.keys.count (labelKey "latency" "inf") + t.midway :=
  count_flatMap_le t.calls fun r => r.count_bucket_le_inf hb

theorem counted_le_inf : t.counted ≤ t.keys.count (labelKey "latency" "inf") + t.midway :=
  count_flatMap_le t.calls Recorder.count_latencyCount_le

theorem inf_le_counted : t.keys.count (labelKey "latency" "inf") ≤ t.counted := by
  have hle := count_flatMap_le (p := fun _ => False) t.calls Recorder.count_inf_le
  simpa [counted, keys] using hle

end Recorders

/-! ### Snapshots -/

/-- The buckets increase up to the last one, which is the count. -/
structure Latency.Consistent (l : Latency) : Prop where
  increasing : l.buckets.Pairwise fun x y => x.2 ≤ y.2
  inf : l.buckets.lookup "+Inf" = some l.count

/-- Nothing is ahead of what it should not exceed by more than `ahead`, and the count lags behind the last
    bucket by no more than `late`. -/
structure Latency.ConsistentUpTo (ahead late : Nat) (l : Latency) : Prop where
  increasing : l.buckets.Pairwise fun x y => x.2 ≤ y.2 + (ahead : Int)
  inf : ∃ n, l.buckets.lookup "+Inf" = some n ∧ l.count ≤ n + (ahead : Int) ∧ n ≤ l.count + (late : Int)

theorem Latency.ConsistentUpTo.consistent {l : Latency} (h : l.ConsistentUpTo 0 0) : l.Consistent := by
  obtain ⟨n, hn, hle, hge⟩ := h.inf
  refine ⟨h.increasing.imp fun hxy => by simpa using hxy, ?_⟩
  have heq : n = l.count := Int.le_antisymm (by simpa using hge) (by simpa using hle)
  rw [hn, heq]

/-- The buckets after commands with these keys. -/
def bucketsAfter (keys : List String) : List (String × Int) :=
  (latencyBuckets.map fun b => (toString b, ((min (keys.count (labelKey "latency" (toString b))) maxCount : Nat) : Int))) ++
    [("+Inf", ((min (keys.count (labelKey "latency" "inf")) maxCount : Nat) : Int))]

theorem lookup_bucketsAfter (keys : List String) : (bucketsAfter keys).lookup "+Inf" =
    some ((min (keys.count (labelKey "latency" "inf")) maxCount : Nat) : Int) := rfl

/-- The latencies of counters that are raised between the commands that read them. -/
theorem readLatency_raised (hR : R.Counts) {keys₁ keys₂ keys₃ : List String} {s₁ s₂ s₃ : Store} (h₁ : Raised keys₁ s₁)
    (h₂ : Raised keys₂ s₂) (h₃ : Raised keys₃ s₃) (toFloat : String → Double) (now₁ now₂ now₃ : Nat) :
    readLatency R toFloat (s₁, now₁) (s₂, now₂) (s₃, now₃) =
      .ok ⟨pyFloat toFloat (textAt now₁ (s₁ latencySumKey)), ((min (keys₂.count latencyCountKey) maxCount : Nat) : Int),
        bucketsAfter keys₃⟩ := by
  have hmget := hR.mget now₃ (bucketKeys.map s₃) (List.cons_ne_nil _ _)
  have hmap : (bucketKeys.map s₃).map (textAt now₃) = bucketKeys.map fun k => textAt now₃ (s₃ k) := List.map_map
  rw [hmap] at hmget
  have hcount : valueAt now₂ (s₂ latencyCountKey) = ((min (keys₂.count latencyCountKey) maxCount : Nat) : Int) := by
    have hlatency : s₂ latencyCountKey = _ := h₂.counter "latency_count" (by decide)
    rw [hlatency, valueAt_counterAt]
    rfl
  have hbucket : ∀ l, valueAt now₃ (s₃ (latencyBucketKey l)) =
      ((min (keys₃.count (labelKey "latency" l)) maxCount : Nat) : Int) := by
    intro l
    rw [latencyBucketKey_eq, h₃.label, valueAt_counterAt]
  have hbuckets : bucketLabels.zip (bucketKeys.map fun k => valueAt now₃ (s₃ k)) = bucketsAfter keys₃ := by
    unfold bucketsAfter
    simp only [← hbucket]
    rfl
  rw [← hbuckets, ← hcount]
  refine Fallible.bind_ok.mpr ⟨_, hR.get now₁ _ h₁.sum, ?_⟩
  refine Fallible.bind_ok.mpr ⟨_, hR.get now₂ _ (isText_of_isCounter h₂.readable.latencyCount), ?_⟩
  refine Fallible.bind_ok.mpr ⟨_, hmget, ?_⟩
  refine Fallible.bind_ok.mpr ⟨_, mapM_pyInt now₃ fun k hk => h₃.readable.bucket hk, ?_⟩
  exact Fallible.bind_ok.mpr ⟨_, pyInt_textAt now₂ h₂.readable.latencyCount, rfl⟩

theorem min_le_min_add {m n k : Nat} (h : m ≤ n + k) : ((min m maxCount : Nat) : Int) ≤ ((min n maxCount : Nat) : Int) + (k : Int) := by
  omega

/-- The buckets of a moment with the count of an earlier one. -/
theorem consistentUpTo_bucketsAfter (t : Recorders) {n : Nat} (hn : n ≤ t.counted) (sum : Double) :
    Latency.ConsistentUpTo t.midway (t.counted - n) ⟨sum, ((min n maxCount : Nat) : Int), bucketsAfter t.keys⟩ := by
  have hcounted := t.counted_le_inf
  have hinf := t.inf_le_counted
  constructor
  · have hsorted : latencyBuckets.Pairwise (· ≤ ·) := by decide
    unfold bucketsAfter
    simp only
    rw [List.pairwise_append, List.pairwise_map]
    refine ⟨?_, List.pairwise_singleton _ _, ?_⟩
    · exact hsorted.imp_of_mem fun hb hb' hle => min_le_min_add (t.bucket_le hb hb' hle)
    · intro x hx y hy
      obtain ⟨b, hb, rfl⟩ := List.mem_map.mp hx
      rw [List.mem_singleton.mp hy]
      exact min_le_min_add (t.bucket_le_inf hb)
  · refine ⟨_, lookup_bucketsAfter t.keys, min_le_min_add ?_, min_le_min_add ?_⟩
    · omega
    · omega

section Reading
variable {s : Store} {as₁ as₂ as₃ : List Recorders.Action} {t₁ t₂ t₃ : Recorders}

/-- While calls are recorded, a snapshot of latencies is consistent up to the calls that are being counted: no
    bucket exceeds a later one, and the count does not exceed the last one, by more than the calls that are
    midway when the buckets are read, and the last one does not exceed the count by more than the calls that
    were counted since the count was read. -/
theorem latency_nearly_consistent (hR : R.Counts) (hadd : R.Increases) (h : NoCounters s)
    (h₁ : Runs.run (Recorders.step R) ⟨s, []⟩ as₁ = some t₁) (h₂ : Runs.run (Recorders.step R) t₁ as₂ = some t₂)
    (h₃ : Runs.run (Recorders.step R) t₂ as₃ = some t₃) (toFloat : String → Double) (now₁ now₂ now₃ : Nat) :
    ∃ l, readLatency R toFloat (t₁.store, now₁) (t₂.store, now₂) (t₃.store, now₃) = .ok l ∧
      l.ConsistentUpTo t₃.midway (t₃.counted - t₂.counted) ∧
      (t₃.midway = 0 → t₃.counted = t₂.counted → l.Consistent) := by
  have hraised₁ := Recorders.run_raised hR hadd h₁ (raised_none h)
  have hraised₂ := Recorders.run_raised hR hadd h₂ hraised₁
  have hraised₃ := Recorders.run_raised hR hadd h₃ hraised₂
  have hl := consistentUpTo_bucketsAfter t₃ (Recorders.run_counted h₃) (pyFloat toFloat (textAt now₁ (t₁.store latencySumKey)))
  refine ⟨_, readLatency_raised hR hraised₁ hraised₂ hraised₃ toFloat now₁ now₂ now₃, hl, ?_⟩
  intro hmidway hcounted
  rw [hmidway, hcounted, Nat.sub_self] at hl
  exact hl.consistent

/-- A call of 3 ms. The sum is read before its latency is counted, and the count before its first bucket,
    whose value the rest of the buckets do not have yet when they are read. -/
theorem torn_runs : ∃ t₁ t₂ t₃ l,
    Runs.run (Recorders.step reference) ⟨.empty, []⟩ (.start ⟨200, 3, "", ""⟩ :: List.replicate 3 (.execute 0 0)) = some t₁ ∧
    Runs.run (Recorders.step reference) t₁ [.execute 0 0] = some t₂ ∧
    Runs.run (Recorders.step reference) t₂ [.execute 0 0] = some t₃ ∧
    readLatency reference (fun _ => zero) (t₁.store, 1) (t₂.store, 1) (t₃.store, 1) = .ok l ∧ l.count = 1 ∧
    l.buckets = [("5", 1), ("10", 0), ("25", 0), ("50", 0), ("100", 0), ("250", 0), ("500", 0), ("1000", 0), ("5000", 0),
      ("+Inf", 0)] := by
  refine ⟨_, _, _, _, rfl, rfl, rfl, rfl, ?_, ?_⟩
  · decide +kernel
  · decide +kernel

theorem latency_nearly_consistent_torn : ∃ t₁ t₂ t₃,
    Runs.run (Recorders.step reference) ⟨.empty, []⟩ (.start ⟨200, 3, "", ""⟩ :: List.replicate 3 (.execute 0 0)) = some t₁ ∧
    Runs.run (Recorders.step reference) t₁ [.execute 0 0] = some t₂ ∧
    Runs.run (Recorders.step reference) t₂ [.execute 0 0] = some t₃ ∧
    ∃ l, readLatency reference (fun _ => zero) (t₁.store, 1) (t₂.store, 1) (t₃.store, 1) = .ok l ∧
      l.ConsistentUpTo t₃.midway (t₃.counted - t₂.counted) ∧
      (t₃.midway = 0 → t₃.counted = t₂.counted → l.Consistent) := by
  obtain ⟨t₁, t₂, t₃, -, h₁, h₂, h₃, -⟩ := torn_runs
  exact ⟨t₁, t₂, t₃, h₁, h₂, h₃,
    latency_nearly_consistent reference_counts reference_increases (fun _ => rfl) h₁ h₂ h₃ (fun _ => zero) 1 1 1⟩

/-- In that snapshot a bucket exceeds the next one and the last one, and the count is not the last one. -/
theorem torn_snapshot : ∃ t₁ t₂ t₃ l,
    Runs.run (Recorders.step reference) ⟨.empty, []⟩ (.start ⟨200, 3, "", ""⟩ :: List.replicate 3 (.execute 0 0)) = some t₁ ∧
    Runs.run (Recorders.step reference) t₁ [.execute 0 0] = some t₂ ∧
    Runs.run (Recorders.step reference) t₂ [.execute 0 0] = some t₃ ∧
    readLatency reference (fun _ => zero) (t₁.store, 1) (t₂.store, 1) (t₃.store, 1) = .ok l ∧ ¬l.Consistent := by
  obtain ⟨t₁, t₂, t₃, l, h₁, h₂, h₃, hl, -, hbuckets⟩ := torn_runs
  refine ⟨t₁, t₂, t₃, l, h₁, h₂, h₃, hl, fun hconsistent => ?_⟩
  have hincreasing := hconsistent.increasing
  rw [hbuckets] at hincreasing
  exact absurd hincreasing (by decide)

/-- A snapshot that is read at once is only ahead by the calls that are midway. -/
theorem getMetrics_nearly_consistent (hR : R.Counts) (hadd : R.Increases) (h : NoCounters s)
    (h₁ : Runs.run (Recorders.step R) ⟨s, []⟩ as₁ = some t₁) {now : Nat} (scan : Scan t₁.store now)
    (toFloat : String → Double) (uptime : Double) :
    (getMetrics R scan toFloat uptime).latency.ConsistentUpTo t₁.midway 0 := by
  have hraised := Recorders.run_raised hR hadd h₁ (raised_none h)
  have hsnapshot := readLatency_readMetrics R scan (readMetrics_ok hR hraised.readable scan toFloat uptime)
  rw [readLatency_raised hR hraised hraised hraised] at hsnapshot
  have hl := consistentUpTo_bucketsAfter t₁ (Nat.le_refl t₁.counted) (pyFloat toFloat (textAt now (t₁.store latencySumKey)))
  rw [getMetrics_eq hR hraised.readable, ← Except.ok.inj hsnapshot]
  rwa [Nat.sub_self] at hl

end Reading

end Redgw
