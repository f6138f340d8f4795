import Mathlib.Data.List.Count
import Redgw.Theorems.Scrape

/-! # Metrics at rest

After any number of calls, their commands in any order, the metrics are read as the counts of the calls.
The counters stop at the largest 64-bit integer. -/

namespace Redgw
open Redis Exposition

variable {R : Server}

/-- A call of `record_request_async`. -/
structure Recording where
  statusCode : Nat
  durationMs : Rat
  ns : String
  clientId : String

def Recording.commands (c : Recording) : List (String × KeyCmd) := recordRequest c.statusCode c.durationMs c.ns c.clientId

/-- The store after commands, each with its time. -/
def executed (R : Server) (cs : List (Nat × String × KeyCmd)) (s : Store) : Store :=
  cs.foldl (fun s x => (R.atKey x.2.1 x.2.2 x.1 s).2) s

/-- The commands are those of the calls, in some order. -/
def Interleaves (cs : List (Nat × String × KeyCmd)) (calls : List Recording) : Prop :=
  (cs.map (·.2)).Perm (calls.flatMap Recording.commands)

/-! ### Raising counters -/

def maxCount : Nat := 9223372036854775807

/-- The entry of a counter that was raised so many times. -/
def counterAt (n : Nat) : Option Entry :=
  if n = 0 then none else some ⟨.str (toString ((min n maxCount : Nat) : Int)), none⟩

theorem int64_min (n : Nat) : int64 ((min n maxCount : Nat) : Int) = true := by
  have := Nat.min_le_right n maxCount
  simp only [int64, decide_eq_true_eq]
  unfold maxCount at this ⊢
  omega

theorem counterAt_counter {n : Nat} (h : n ≠ 0) : IsCounter (counterAt n) :=
  ⟨_, int64_min n, if_neg h⟩

theorem isCounter_counterAt {n : Nat} : IsCounter (counterAt n) ↔ n ≠ 0 := by
  refine ⟨?_, counterAt_counter⟩
  rintro ⟨m, -, hm⟩ rfl
  cases hm

theorem valueAt_counterAt (now n : Nat) : valueAt now (counterAt n) = (min n maxCount : Nat) := by
  unfold counterAt
  split
  · rename_i h
    rw [h]
    rfl
  · exact valueAt_counter (int64_min n)

theorem incr_counterAt (hR : R.Increases) (now n : Nat) : (R.onKey (.incrby 1) now (counterAt n)).2 = counterAt (n + 1) := by
  by_cases hn : n = 0
  · rw [hn]
    exact hR.absent 1 now (by decide)
  · unfold counterAt
    rw [if_neg hn, if_neg (Nat.succ_ne_zero n), hR.present 1 now _ (int64_min n)]
    have hsum : (if int64 (((min n maxCount : Nat) : Int) + 1) then ((min n maxCount : Nat) : Int) + 1
        else ((min n maxCount : Nat) : Int)) = ((min (n + 1) maxCount : Nat) : Int) := by
      by_cases hlt : n < maxCount
      · have hfits := int64_min (n + 1)
        rw [Nat.min_eq_left hlt] at hfits ⊢
        rw [Nat.min_eq_left hlt.le]
        exact if_pos hfits
      · have hle : maxCount ≤ n := Nat.le_of_not_lt hlt
        have hover : ¬int64 ((maxCount : Int) + 1) = true := by decide
        rw [Nat.min_eq_right hle, Nat.min_eq_right (Nat.le_succ_of_le hle), if_neg hover]
    rw [hsum]

/-- The commands of the metrics: a counter is raised, or the sum of latencies. -/
def Recorded (x : String × KeyCmd) : Prop :=
  (∃ k, k ≠ latencySumKey ∧ x = incr k) ∨ ∃ q, x = (latencySumKey, .incrbyfloat q)

/-- Each counter has been raised as often as the commands name its key. -/
structure Raised (done : List String) (s : Store) : Prop where
  counter : ∀ w, metricsPrefix ++ ":" ++ w ≠ latencySumKey →
    s (metricsPrefix ++ ":" ++ w) = counterAt (done.count (metricsPrefix ++ ":" ++ w))
  sum : s latencySumKey = none ∨ IsText (s latencySumKey)

theorem Raised.step (hR : R.Counts) (hadd : R.Increases) {done : List String} {s : Store} (h : Raised done s)
    {x : String × KeyCmd} (hx : Recorded x) (now : Nat) : Raised (done ++ [x.1]) (R.atKey x.1 x.2 now s).2 := by
  rcases hx with ⟨k, hk, rfl⟩ | ⟨q, rfl⟩
  · show Raised (done ++ [k]) (R.atKey k (.incrby 1) now s).2
    constructor
    · intro w hw
      rw [List.count_append, List.count_singleton]
      by_cases hkw : metricsPrefix ++ ":" ++ w = k
      · subst hkw
        rw [Server.atKey_self, h.counter w hw, incr_counterAt hadd, beq_self_eq_true, if_pos rfl]
      · rw [Server.atKey_ne hkw, h.counter w hw, if_neg (by simpa using Ne.symm hkw), Nat.add_zero]
    · rw [Server.atKey_ne hk.symm]
      exact h.sum
  · show Raised (done ++ [latencySumKey]) (R.atKey latencySumKey (.incrbyfloat q) now s).2
    constructor
    · intro w hw
      rw [List.count_append, List.count_singleton, if_neg (by simpa using Ne.symm hw), Nat.add_zero, Server.atKey_ne hw]
      exact h.counter w hw
    · rw [Server.atKey_self]
      exact hR.incrbyfloat q now _ h.sum

theorem Raised.run (hR : R.Counts) (hadd : R.Increases) {cs : List (Nat × String × KeyCmd)} (hcs : ∀ x ∈ cs, Recorded x.2)
    {done : List String} {s : Store} (h : Raised done s) : Raised (done ++ cs.map (·.2.1)) (executed R cs s) := by
  induction cs generalizing done s with
  | nil => simpa [executed] using h
  | cons x cs ih =>
    have hstep := h.step hR hadd (hcs x List.mem_cons_self) x.1
    have hrest := ih (fun y hy => hcs y (List.mem_cons_of_mem _ hy)) hstep
    rw [List.append_assoc] at hrest
    exact hrest

theorem raised_none {s : Store} (h : NoCounters s) : Raised [] s where
  counter w _ := h w
  sum := Or.inl (h "latency_sum")

theorem Raised.perm {done done' : List String} {s : Store} (h : Raised done s) (hperm : done.Perm done') : Raised done' s :=
  ⟨fun w hw => hperm.count_eq _ ▸ h.counter w hw, h.sum⟩

theorem Raised.label {done : List String} {s : Store} (h : Raised done s) (kind l : String) :
    s (labelKey kind l) = counterAt (done.count (labelKey kind l)) := by
  have hne : labelKey kind l ≠ latencySumKey := labelKey_ne "latency_sum" (by decide)
  rw [labelKey_eq_append] at hne ⊢
  exact h.counter _ hne

theorem Raised.readable {done : List String} {s : Store} (h : Raised done s) : Readable s where
  counter w hw := by
    rw [h.counter w hw]
    by_cases hn : done.count (metricsPrefix ++ ":" ++ w) = 0
    · rw [hn]
      exact Or.inl rfl
    · exact Or.inr (counterAt_counter hn)
  sum := h.sum

/-! ### The keys of a call -/

theorem commands_recorded (c : Recording) : ∀ x ∈ c.commands, Recorded x := by
  have hincr : ∀ k, k ≠ latencySumKey → Recorded (incr k) := fun k hk => Or.inl ⟨k, hk, rfl⟩
  have hlabel : ∀ kind label, Recorded (incr (labelKey kind label)) := fun kind label =>
    hincr _ (labelKey_ne "latency_sum" (by decide))
  intro x hx
  simp only [Recording.commands, recordRequest, List.mem_append] at hx
  rcases hx with ((hx | hx) | hx) | hx
  · rcases List.mem_pair.mp hx with rfl | rfl
    · exact hincr _ (by decide)
    · exact statusKey_eq c.statusCode ▸ hlabel _ _
  · split at hx
    · rw [List.mem_singleton.mp hx, nsReqKey_eq]
      exact hlabel _ _
    · cases hx
  · split at hx
    · rw [List.mem_singleton.mp hx, clientReqKey_eq]
      exact hlabel _ _
    · cases hx
  · split at hx
    · simp only [List.mem_append, List.mem_map] at hx
      rcases hx with (hx | ⟨b, -, rfl⟩) | hx
      · rcases List.mem_pair.mp hx with rfl | rfl
        · exact Or.inr ⟨_, rfl⟩
        · exact hincr _ (by decide)
      · exact latencyBucketKey_eq (toString b) ▸ hlabel _ _
      · rw [List.mem_singleton.mp hx, latencyBucketKey_eq]
        exact hlabel _ _
    · cases hx

/-- The bounds that a duration does not exceed. -/
def boundsOf (durationMs : Rat) : List Nat := latencyBuckets.filter fun (b : Nat) => decide (durationMs ≤ (b : Rat))

theorem commands_keys (c : Recording) : c.commands.map (·.1) =
    [totalKey, labelKey "status" (toString c.statusCode)] ++
    (if c.ns ≠ "" then [labelKey "ns" c.ns] else []) ++
    (if c.clientId ≠ "" then [labelKey "client" c.clientId] else []) ++
    (if 0 < c.durationMs then
      [latencySumKey, latencyCountKey] ++ (boundsOf c.durationMs).map (fun b => labelKey "latency" (toString b)) ++
      [labelKey "latency" "inf"]
    else []) := by
  have hns : (if c.ns ≠ "" then [incr (nsReqKey c.ns)] else []).map (·.1) =
      if c.ns ≠ "" then [labelKey "ns" c.ns] else [] := by
    rw [nsReqKey_eq]
    split <;> rfl
  have hclient : (if c.clientId ≠ "" then [incr (clientReqKey c.clientId)] else []).map (·.1) =
      if c.clientId ≠ "" then [labelKey "client" c.clientId] else [] := by
    rw [clientReqKey_eq]
    split <;> rfl
  have hbuckets : ((boundsOf c.durationMs).map fun b => incr (latencyBucketKey (toString b))).map (·.1) =
      (boundsOf c.durationMs).map fun b => labelKey "latency" (toString b) := by
    rw [List.map_map]
    exact List.map_congr_left fun b _ => latencyBucketKey_eq (toString b)
  unfold Recording.commands recordRequest
  rw [List.map_append, List.map_append, List.map_append, hns, hclient, ← statusKey_eq, ← latencyBucketKey_eq]
  refine congrArg _ ?_
  split
  · rw [List.map_append, List.map_append]
    exact congrArg (fun ks => [latencySumKey, latencyCountKey] ++ ks ++ [latencyBucketKey "inf"]) hbuckets
  · rfl

section Keys
variable (c : Recording)

theorem labelKey_eq_iff {kind kind' label label' : String} (hk : ':' ∉ kind.toList) (hk' : ':' ∉ kind'.toList) :
    labelKey kind label = labelKey kind' label' ↔ kind = kind' ∧ label = label' := by
  refine ⟨labelKey_inj hk hk', ?_⟩
  rintro ⟨rfl, rfl⟩
  rfl

theorem toString_nat_inj {n m : Nat} : toString n = toString m ↔ n = m := by
  refine ⟨fun h => ?_, congrArg toString⟩
  have hdigits := congrArg String.toList h
  rw [Text.toString_nat, Text.toString_nat] at hdigits
  exact Text.toDigits_inj hdigits

theorem inf_ne (b : Nat) : "inf" ≠ b.repr := by
  intro he
  have hdigit := toString_nat_digits b 'i'
  rw [show toString b = "inf" from he.symm] at hdigit
  exact absurd (hdigit (by decide)) (by decide)

theorem totalKey_ne (kind label : String) : totalKey ≠ labelKey kind label :=
  Ne.symm (labelKey_ne "total_requests" (by decide))

theorem latencySumKey_ne (kind label : String) : latencySumKey ≠ labelKey kind label :=
  Ne.symm (labelKey_ne "latency_sum" (by decide))

theorem latencyCountKey_ne (kind label : String) : latencyCountKey ≠ labelKey kind label :=
  Ne.symm (labelKey_ne "latency_count" (by decide))

/-- How often a call names a key. -/
theorem count_commands (k : String) : (c.commands.map (·.1)).count k =
    (if totalKey = k then 1 else 0) + (if labelKey "status" (toString c.statusCode) = k then 1 else 0) +
    (if c.ns ≠ "" ∧ labelKey "ns" c.ns = k then 1 else 0) +
    (if c.clientId ≠ "" ∧ labelKey "client" c.clientId = k then 1 else 0) +
    (if 0 < c.durationMs then
      (if latencySumKey = k then 1 else 0) + (if latencyCountKey = k then 1 else 0) +
      ((boundsOf c.durationMs).map fun b => labelKey "latency" (toString b)).count k +
      (if labelKey "latency" "inf" = k then 1 else 0)
    else 0) := by
  have hone : ∀ (p : Prop) [Decidable p] (x : String), (if p then [x] else []).count k = if p ∧ x = k then 1 else 0 := by
    intro p _ x
    by_cases hp : p <;> by_cases hx : x = k <;> simp [hp, hx]
  rw [commands_keys, List.count_append, List.count_append, List.count_append, hone, hone]
  have hlatency : ((if 0 < c.durationMs then
      [latencySumKey, latencyCountKey] ++ (boundsOf c.durationMs).map (fun b => labelKey "latency" (toString b)) ++
      [labelKey "latency" "inf"]
    else [])).count k = if 0 < c.durationMs then
      (if latencySumKey = k then 1 else 0) + (if latencyCountKey = k then 1 else 0) +
      ((boundsOf c.durationMs).map fun b => labelKey "latency" (toString b)).count k +
      (if labelKey "latency" "inf" = k then 1 else 0)
    else 0 := by
    split
    · simp only [List.count_append, List.count_cons, List.count_nil, beq_iff_eq]
      omega
    · rfl
  rw [hlatency]
  simp only [List.count_cons, List.count_nil, beq_iff_eq]
  omega

theorem count_latency {kind label : String} (hk : ':' ∉ kind.toList) (hkind : kind ≠ "latency") (bounds : List Nat) :
    (bounds.map fun b => labelKey "latency" (toString b)).count (labelKey kind label) = 0 := by
  rw [List.count_eq_zero, List.mem_map]
  rintro ⟨b, -, hb⟩
  exact hkind ((labelKey_eq_iff (by decide) hk).mp hb).1.symm

theorem count_total : (c.commands.map (·.1)).count totalKey = 1 := by
  have hbuckets : ((boundsOf c.durationMs).map fun b => labelKey "latency" (toString b)).count totalKey = 0 := by
    rw [List.count_eq_zero, List.mem_map]
    rintro ⟨b, -, hb⟩
    exact totalKey_ne _ _ hb.symm
  have hsum : latencySumKey ≠ totalKey := by decide
  have hcount : latencyCountKey ≠ totalKey := by decide
  rw [count_commands, hbuckets]
  simp [(totalKey_ne _ _).symm, hsum, hcount]

theorem count_status (label : String) :
    (c.commands.map (·.1)).count (labelKey "status" label) = if toString c.statusCode = label then 1 else 0 := by
  rw [count_commands, count_latency (by decide) (by decide)]
  simp [totalKey_ne, latencySumKey_ne, latencyCountKey_ne, labelKey_eq_iff]

theorem count_ns (label : String) :
    (c.commands.map (·.1)).count (labelKey "ns" label) = if c.ns ≠ "" ∧ c.ns = label then 1 else 0 := by
  rw [count_commands, count_latency (by decide) (by decide)]
  simp [totalKey_ne, latencySumKey_ne, latencyCountKey_ne, labelKey_eq_iff]

theorem count_latencyCount :
    (c.commands.map (·.1)).count latencyCountKey = if 0 < c.durationMs then 1 else 0 := by
  have hbuckets : ((boundsOf c.durationMs).map fun b => labelKey "latency" (toString b)).count latencyCountKey = 0 := by
    rw [List.count_eq_zero, List.mem_map]
    rintro ⟨b, -, hb⟩
    exact latencyCountKey_ne _ _ hb.symm
  have htotal : totalKey ≠ latencyCountKey := by decide
  have hsum : latencySumKey ≠ latencyCountKey := by decide
  rw [count_commands, hbuckets]
  simp [(latencyCountKey_ne _ _).symm, htotal, hsum]

theorem count_inf :
    (c.commands.map (·.1)).count (labelKey "latency" "inf") = if 0 < c.durationMs then 1 else 0 := by
  have hbuckets : ((boundsOf c.durationMs).map fun b => labelKey "latency" (toString b)).count (labelKey "latency" "inf") = 0 := by
    rw [List.count_eq_zero, List.mem_map]
    rintro ⟨b, -, hb⟩
    exact inf_ne b ((labelKey_eq_iff (by decide) (by decide)).mp hb).2.symm
  rw [count_commands, hbuckets]
  simp [totalKey_ne, latencySumKey_ne, latencyCountKey_ne, labelKey_eq_iff]

theorem count_bucket {b : Nat} (hb : b ∈ latencyBuckets) :
    (c.commands.map (·.1)).count (labelKey "latency" (toString b)) =
      if 0 < c.durationMs ∧ c.durationMs ≤ (b : Rat) then 1 else 0 := by
  have hinj : Function.Injective fun b : Nat => labelKey "latency" (toString b) := fun x y h =>
    toString_nat_inj.mp (labelKey_inj (by decide) (by decide) h).2
  have hbuckets : ((boundsOf c.durationMs).map fun b => labelKey "latency" (toString b)).count
      (labelKey "latency" (toString b)) = if c.durationMs ≤ (b : Rat) then 1 else 0 := by
    rw [List.count_map_of_injective _ _ hinj]
    unfold boundsOf
    by_cases hle : c.durationMs ≤ (b : Rat)
    · rw [List.count_filter (by simpa using hle), if_pos hle]
      exact List.count_eq_one_of_mem (by decide) hb
    · rw [if_neg hle, List.count_eq_zero, List.mem_filter]
      simp [hle]
  rw [count_commands, hbuckets]
  by_cases hpos : 0 < c.durationMs <;>
    simp [totalKey_ne, latencySumKey_ne, latencyCountKey_ne, labelKey_eq_iff, inf_ne, hpos]

end Keys

/-! ### Counting calls -/

theorem count_calls {k : String} {q : Recording → Bool}
    (h : ∀ c : Recording, (c.commands.map (·.1)).count k = if q c then 1 else 0) (calls : List Recording) :
    ((calls.flatMap Recording.commands).map (·.1)).count k = calls.countP q := by
  induction calls with
  | nil => rfl
  | cons c calls ih => rw [List.flatMap_cons, List.map_append, List.count_append, h, ih, List.countP_cons, Nat.add_comm]

/-- A store after the commands of calls. -/
theorem raised_executed (hR : R.Counts) (hadd : R.Increases) {cs : List (Nat × String × KeyCmd)}
    {calls : List Recording} (hcs : Interleaves cs calls) {s : Store} (h : NoCounters s) :
    Raised ((calls.flatMap Recording.commands).map (·.1)) (executed R cs s) := by
  have hrecorded : ∀ x ∈ cs, Recorded x.2 := by
    intro x hx
    obtain ⟨c, -, hc⟩ := List.mem_flatMap.mp (hcs.mem_iff.mp (List.mem_map_of_mem hx))
    exact commands_recorded c _ hc
  have hrun := (raised_none h).run hR hadd hrecorded
  have hperm : (cs.map (·.2.1)).Perm ((calls.flatMap Recording.commands).map (·.1)) := by
    have hmap := hcs.map (·.1)
    rw [List.map_map] at hmap
    exact hmap
  rw [List.nil_append] at hrun
  exact hrun.perm hperm

/-- Nothing is shown of what has not been counted. -/
def shown (n : Nat) : Option Int := if n = 0 then none else some n

/-- A kind whose labels have no colon is read as the number of calls that raised each. -/
theorem lookup_raised {calls : List Recording} {s : Store} {now : Nat}
    (h : Raised ((calls.flatMap Recording.commands).map (·.1)) s) (scan : Scan s now) {kind : String}
    (hlit : Glob.Literal kind.toList) {q : String → Recording → Bool}
    (hq : ∀ l c, (c.commands.map (·.1)).count (labelKey kind l) = if q l c then 1 else 0)
    (hcolon : ∀ l, ∀ c ∈ calls, q l c = true → ':' ∉ l.toList) (l : String) :
    (countsOf scan kind).items.lookup l = shown (min (calls.countP (q l)) maxCount) := by
  have hlabel : ∀ l, s (labelKey kind l) = counterAt (calls.countP (q l)) := by
    intro l
    rw [h.label, count_calls (hq l)]
  rw [lookup_countsOf h.readable scan hlit, hlabel, valueAt_counterAt]
  · unfold shown counterAt
    by_cases hn : calls.countP (q l) = 0
    · simp [hn]
    · have hmin : min (calls.countP (q l)) maxCount ≠ 0 := by
        unfold maxCount
        omega
      simp [hn, hmin]
  · intro l' hc
    rw [hlabel, isCounter_counterAt, Ne, List.countP_eq_zero] at hc
    obtain ⟨c, hcalls, hl'⟩ : ∃ c ∈ calls, q l' c = true := by
      by_contra hnone
      exact hc fun c hcalls hl' => hnone ⟨c, hcalls, hl'⟩
    exact hcolon l' c hcalls hl'

theorem lookup_status {calls : List Recording} {s : Store} {now : Nat}
    (h : Raised ((calls.flatMap Recording.commands).map (·.1)) s) (scan : Scan s now) (l : String) :
    (countsOf scan "status").items.lookup l =
      shown (min (calls.countP fun c => toString c.statusCode = l) maxCount) := by
  refine lookup_raised (q := fun l c => decide (toString c.statusCode = l)) h scan (by decide)
    (fun l c => (count_status c l).trans (by simp)) ?_ l
  intro l c _ hl
  rw [← of_decide_eq_true hl]
  exact fun hm => absurd (toString_nat_digits c.statusCode _ hm) (by decide)

theorem lookup_ns {calls : List Recording} {s : Store} {now : Nat} (hcolon : ∀ c ∈ calls, ':' ∉ c.ns.toList)
    (h : Raised ((calls.flatMap Recording.commands).map (·.1)) s) (scan : Scan s now) (l : String) :
    (countsOf scan "ns").items.lookup l = shown (min (calls.countP fun c => c.ns ≠ "" ∧ c.ns = l) maxCount) := by
  refine lookup_raised (q := fun l c => decide (c.ns ≠ "" ∧ c.ns = l)) h scan (by decide)
    (fun l c => (count_ns c l).trans (by simp)) ?_ l
  intro l c hc hl
  rw [← (of_decide_eq_true hl).2]
  exact hcolon c hc

/-! ### The counts of a snapshot -/

def sumOf (counts : List (String × Int)) : Int := counts.foldr (fun x n => x.2 + n) 0

theorem foldr_count_cons (ls xs : List String) (x : String) :
    ls.foldr (fun l n => (x :: xs).count l + n) 0 = ls.foldr (fun l n => xs.count l + n) 0 + ls.count x := by
  induction ls with
  | nil => rfl
  | cons l ls ih =>
    rw [List.foldr_cons, List.foldr_cons, ih, List.count_cons, List.count_cons]
    by_cases hx : x = l
    · simp only [hx, beq_self_eq_true, ↓reduceIte]
      omega
    · simp only [beq_iff_eq, hx, Ne.symm hx, ↓reduceIte]
      omega

/-- Counting by labels counts everything once. -/
theorem foldr_count {ls : List String} (hls : ls.Nodup) (xs : List String) (h : ∀ x ∈ xs, x ∈ ls) :
    ls.foldr (fun l n => xs.count l + n) 0 = xs.length := by
  induction xs with
  | nil =>
    clear h hls
    induction ls with
    | nil => rfl
    | cons l ls ih => simp
  | cons x xs ih =>
    rw [foldr_count_cons, ih fun y hy => h y (List.mem_cons_of_mem _ hy),
      List.count_eq_one_of_mem hls (h x List.mem_cons_self), List.length_cons]

theorem sumOf_counts {items : List (String × Int)} (hnodup : (items.map (·.1)).Nodup) {xs : List String}
    (hvalue : ∀ x ∈ items, x.2 = (xs.count x.1 : Nat)) (hmem : ∀ x ∈ xs, x ∈ items.map (·.1)) :
    sumOf items = xs.length := by
  have hsum : sumOf items = ((items.map (·.1)).foldr (fun l n => xs.count l + n) 0 : Nat) := by
    clear hnodup hmem
    induction items with
    | nil => rfl
    | cons x items ih =>
      have hrest := ih fun y hy => hvalue y (List.mem_cons_of_mem _ hy)
      unfold sumOf at hrest ⊢
      rw [List.map_cons, List.foldr_cons, List.foldr_cons, hrest, hvalue x List.mem_cons_self, Int.natCast_add]
  rw [hsum, foldr_count hnodup xs hmem]

/-- How many calls took some time, but not more than the bound. -/
def within (calls : List Recording) (bound : Nat) : Nat :=
  calls.countP fun c => 0 < c.durationMs ∧ c.durationMs ≤ (bound : Rat)

theorem within_mono (calls : List Recording) {b b' : Nat} (h : b ≤ b') : within calls b ≤ within calls b' := by
  refine List.countP_mono_left fun c _ hc => ?_
  obtain ⟨hpos, hle⟩ := of_decide_eq_true hc
  exact decide_eq_true ⟨hpos, Rat.le_trans hle (Rat.natCast_le_natCast.mpr h)⟩

theorem within_le (calls : List Recording) (b : Nat) : within calls b ≤ calls.countP fun c => 0 < c.durationMs :=
  List.countP_mono_left fun _ _ hc => decide_eq_true (of_decide_eq_true hc).1

/-- The snapshot counts the calls: all of them, those of a status, of a namespace, within a bound and with a
    duration. A label that no call has is not shown, and a call without a namespace counts for none. -/
structure CountsCalls (calls : List Recording) (m : Snapshot) : Prop where
  total : m.totalRequests = calls.length
  status : ∀ l, m.statusCodes.items.lookup l = shown (calls.countP fun c => toString c.statusCode = l)
  statusSum : sumOf m.statusCodes.items = m.totalRequests
  ns : ∀ l, m.nsRequests.items.lookup l = shown (calls.countP fun c => c.ns ≠ "" ∧ c.ns = l)
  buckets : m.latencyBuckets =
    (latencyBuckets.map fun b => (toString b, (within calls b : Int))) ++ [("+Inf", m.latencyCount)]
  latencyCount : m.latencyCount = (calls.countP fun c => 0 < c.durationMs : Nat)
  increasing : m.latencyBuckets.Pairwise fun x y => x.2 ≤ y.2

section Snapshots
variable {calls : List Recording} {s : Store} {now : Nat}

theorem totalRequests_raised (h : Raised ((calls.flatMap Recording.commands).map (·.1)) s) (scan : Scan s now)
    (toFloat : String → Double) (uptime : Double) :
    (snapshotOf scan toFloat uptime).totalRequests = (min calls.length maxCount : Nat) := by
  have hcount : ((calls.flatMap Recording.commands).map (·.1)).count totalKey = calls.length := by
    rw [count_calls (q := fun _ => true) count_total, List.countP_true]
  have htotal : s totalKey = counterAt calls.length := hcount ▸ h.counter "total_requests" (by decide)
  show valueAt now (s totalKey) = _
  rw [htotal, valueAt_counterAt]

theorem latencyCount_raised (h : Raised ((calls.flatMap Recording.commands).map (·.1)) s) (now : Nat) :
    valueAt now (s latencyCountKey) = (min (calls.countP fun c => 0 < c.durationMs) maxCount : Nat) := by
  have hcount := count_calls (q := fun c => decide (0 < c.durationMs)) (fun c => (count_latencyCount c).trans (by simp)) calls
  have hlatency : s latencyCountKey = _ := h.counter "latency_count" (by decide)
  rw [hlatency, valueAt_counterAt]
  exact congrArg (fun n => ((min n maxCount : Nat) : Int)) hcount

theorem bucket_raised (h : Raised ((calls.flatMap Recording.commands).map (·.1)) s) (now : Nat) {b : Nat}
    (hb : b ∈ latencyBuckets) : valueAt now (s (latencyBucketKey (toString b))) =
      (min (within calls b) maxCount : Nat) := by
  have hcount := count_calls (q := fun c => decide (0 < c.durationMs ∧ c.durationMs ≤ (b : Rat)))
    (fun c => (count_bucket c hb).trans (by simp)) calls
  rw [latencyBucketKey_eq, h.label, valueAt_counterAt, hcount]
  rfl

theorem inf_raised (h : Raised ((calls.flatMap Recording.commands).map (·.1)) s) (now : Nat) :
    valueAt now (s (latencyBucketKey "inf")) = (min (calls.countP fun c => 0 < c.durationMs) maxCount : Nat) := by
  have hcount := count_calls (q := fun c => decide (0 < c.durationMs)) (fun c => (count_inf c).trans (by simp)) calls
  rw [latencyBucketKey_eq, h.label, valueAt_counterAt, hcount]

end Snapshots

theorem shown_eq_some {n : Nat} {v : Int} : shown n = some v ↔ n ≠ 0 ∧ v = n := by
  unfold shown
  split <;> simp [*, eq_comm]

theorem sumOf_status {calls : List Recording} (d : Dict Int)
    (h : ∀ l, d.items.lookup l = shown (calls.countP fun c => toString c.statusCode = l)) :
    sumOf d.items = calls.length := by
  have hcount : ∀ l, (calls.map fun c => toString c.statusCode).count l = calls.countP fun c => toString c.statusCode = l := by
    intro l
    rw [List.count_eq_countP, List.countP_map]
    exact List.countP_congr fun c _ => by simp
  rw [← List.length_map fun c : Recording => toString c.statusCode]
  refine sumOf_counts d.nodup (fun x hx => ?_) fun l hl => ?_
  · have hlookup := Dict.mem_items.mp hx
    rw [h x.1, shown_eq_some] at hlookup
    rw [hcount]
    exact hlookup.2
  · obtain ⟨c, hc, rfl⟩ := List.mem_map.mp hl
    have hpos : calls.countP (fun c' => toString c'.statusCode = toString c.statusCode) ≠ 0 :=
      Nat.ne_of_gt (List.countP_pos_iff.mpr ⟨c, hc, by simp⟩)
    have hlookup := (h (toString c.statusCode)).trans (shown_eq_some.mpr ⟨hpos, rfl⟩)
    exact List.mem_map_of_mem (Dict.mem_items.mpr hlookup)

/-! ### At rest -/

section Rest
variable {calls : List Recording} {cs : List (Nat × String × KeyCmd)} {s : Store} {now : Nat}

theorem countsCalls (hR : R.Counts) (hadd : R.Increases) (h : NoCounters s) (hcs : Interleaves cs calls)
    (hcolon : ∀ c ∈ calls, ':' ∉ c.ns.toList) (hlen : calls.length ≤ maxCount) (scan : Scan (executed R cs s) now)
    (toFloat : String → Double) (uptime : Double) : CountsCalls calls (getMetrics R scan toFloat uptime) := by
  have hraised := raised_executed hR hadd hcs h
  have hfits : ∀ q : Recording → Bool, min (calls.countP q) maxCount = calls.countP q := fun q =>
    Nat.min_eq_left (List.countP_le_length.trans hlen)
  rw [getMetrics_eq hR hraised.readable]
  have htotal : (snapshotOf scan toFloat uptime).totalRequests = calls.length := by
    rw [totalRequests_raised hraised, Nat.min_eq_left hlen]
  have hstatus : ∀ l, (countsOf scan "status").items.lookup l = shown (calls.countP fun c => toString c.statusCode = l) := by
    intro l
    rw [lookup_status hraised, hfits]
  have hcount : (snapshotOf scan toFloat uptime).latencyCount = (calls.countP fun c => 0 < c.durationMs : Nat) := by
    rw [← hfits]
    exact latencyCount_raised hraised now
  have hbuckets : (snapshotOf scan toFloat uptime).latencyBuckets =
      (latencyBuckets.map fun b => (toString b, (within calls b : Int))) ++
        [("+Inf", (snapshotOf scan toFloat uptime).latencyCount)] := by
    have hvalues : ∀ b ∈ latencyBuckets, (toString b, valueAt now (executed R cs s (latencyBucketKey (toString b)))) =
        (toString b, (within calls b : Int)) := by
      intro b hb
      rw [bucket_raised hraised now hb]
      exact congrArg (fun n : Nat => (toString b, (n : Int))) (hfits _)
    have hinf : valueAt now (executed R cs s (latencyBucketKey "inf")) = (snapshotOf scan toFloat uptime).latencyCount := by
      rw [inf_raised hraised, hcount, hfits]
    rw [← List.map_congr_left hvalues, ← hinf]
    rfl
  have hns : ∀ l, (countsOf scan "ns").items.lookup l = shown (calls.countP fun c => c.ns ≠ "" ∧ c.ns = l) := by
    intro l
    rw [lookup_ns hcolon hraised, hfits]
  refine ⟨htotal, hstatus, ?_, hns, hbuckets, hcount, ?_⟩
  · rw [htotal]
    exact sumOf_status (countsOf scan "status") hstatus
  · rw [hbuckets, List.pairwise_append]
    refine ⟨?_, List.pairwise_singleton _ _, ?_⟩
    · rw [List.pairwise_map]
      have hsorted : latencyBuckets.Pairwise (· ≤ ·) := by decide
      exact hsorted.imp fun hle => Int.ofNat_le.mpr (within_mono calls hle)
    · intro x hx y hy
      obtain ⟨b, -, rfl⟩ := List.mem_map.mp hx
      rw [List.mem_singleton.mp hy, hcount]
      exact Int.ofNat_le.mpr (within_le calls b)

/-- Beyond the largest 64-bit integer no counter goes. -/
theorem total_falls_short (hR : R.Counts) (hadd : R.Increases) (h : NoCounters s) (hcs : Interleaves cs calls)
    (hlen : maxCount < calls.length) (scan : Scan (executed R cs s) now) (toFloat : String → Double) (uptime : Double) :
    (getMetrics R scan toFloat uptime).totalRequests < calls.length := by
  have hraised := raised_executed hR hadd hcs h
  rw [getMetrics_eq hR hraised.readable, totalRequests_raised hraised]
  exact Int.ofNat_lt.mpr (Nat.lt_of_le_of_lt (Nat.min_le_right _ _) hlen)

end Rest

/-! ### Two histories -/

/-- The commands of the calls one after another, all at time 0. -/
def inOrder (calls : List Recording) : List (Nat × String × KeyCmd) := (calls.flatMap Recording.commands).map fun x => (0, x)

theorem interleaves_inOrder (calls : List Recording) : Interleaves (inOrder calls) calls := by
  unfold Interleaves inOrder
  rw [List.map_map, Function.comp_def, List.map_id']

theorem executed_ne {cs : List (Nat × String × KeyCmd)} {s : Store} {k : String} (h : k ∉ cs.map (·.2.1)) :
    executed R cs s k = s k := by
  induction cs generalizing s with
  | nil => rfl
  | cons x cs ih =>
    rw [List.map_cons, List.mem_cons, not_or] at h
    exact (ih h.2).trans (Server.atKey_ne h.1)

/-- A scan of a store that had nothing in it before the commands. -/
def scanExecuted (R : Server) (cs : List (Nat × String × KeyCmd)) (now : Nat) : Scan (executed R cs .empty) now :=
  .ofKeys (cs.map (·.2.1)) fun k hk => by
    by_contra hnot
    rw [executed_ne hnot] at hk
    cases hk

/-- Two calls whose commands run in turn. -/
theorem countsCalls_two :
    CountsCalls [⟨200, 7, "app", "svc"⟩, ⟨404, 0, "", ""⟩] (getMetrics reference
      (scanExecuted reference (inOrder [⟨404, 0, "", ""⟩, ⟨200, 7, "app", "svc"⟩]) 1) (fun _ => zero) zero) :=
  countsCalls reference_counts reference_increases (fun _ => rfl)
    ((interleaves_inOrder _).trans (List.Perm.flatMap_right _ (List.Perm.swap _ _ _))) (by decide) (by decide) _ _ _

/-- A call without a namespace. -/
def unnamed : Recording := ⟨200, 0, "", ""⟩

/-- It is not counted under the namespace that it has; and more calls than a counter can count are not all counted. -/
theorem counts_fall_short :
    ([unnamed].countP (fun c => c.ns = "") = 1 ∧
      (getMetrics reference (scanExecuted reference (inOrder [unnamed]) 1) (fun _ => zero) zero).nsRequests.items.lookup "" = none) ∧
    ∀ calls : List Recording, maxCount < calls.length →
      (getMetrics reference (scanExecuted reference (inOrder calls) 1) (fun _ => zero) zero).totalRequests < calls.length := by
  refine ⟨⟨by decide, ?_⟩, fun calls hlen => ?_⟩
  · have hraised := raised_executed (s := .empty) reference_counts reference_increases (interleaves_inOrder [unnamed]) fun _ => rfl
    rw [getMetrics_eq reference_counts hraised.readable]
    exact lookup_ns (by decide) hraised (scanExecuted reference _ 1) ""
  · exact total_falls_short reference_counts reference_increases (fun _ => rfl) (interleaves_inOrder calls) hlen _ _ _

end Redgw
