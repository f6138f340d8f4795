import Redgw.Theorems.Jobs
import Redgw.Theorems.Snapshots

/-! # The metrics page breaks at a newline in a path

The page is well formed after a history exactly when no finished request had a namespace and a newline
between the markers of its path. -/

namespace Redgw
open Redis Exposition

variable {R : Server}

/-! ### What a history leaves of the counters -/

/-- The counters are those that the commands raised, and the sum of latencies is a text. -/
structure Counted (done : List (String × KeyCmd)) (s : Store) : Prop where
  counter : ∀ w, metricsPrefix ++ ":" ++ w ≠ latencySumKey → IsCounter (s (metricsPrefix ++ ":" ++ w)) ∧
    incr (metricsPrefix ++ ":" ++ w) ∈ done ∨
      s (metricsPrefix ++ ":" ++ w) = none ∧ incr (metricsPrefix ++ ":" ++ w) ∉ done
  sum : s latencySumKey = none ∨ IsText (s latencySumKey)

theorem incr_inj {k k' : String} : incr k = incr k' ↔ k = k' := by
  simp [incr]

theorem Counted.step (hR : R.Counts) {done : List (String × KeyCmd)} {s : Store} (h : Counted done s) {t : Tally}
    {x : String × KeyCmd} (hx : Counting t x) (now : Nat) :
    Counted (done ++ [x]) (R.atKey x.1 x.2 now s).2 := by
  -- Raising a counter other than the sum.
  have hraise : ∀ key, key ≠ latencySumKey → (∃ w, key = metricsPrefix ++ ":" ++ w) →
      Counted (done ++ [incr key]) (R.atKey key (.incrby 1) now s).2 := by
    rintro key hne ⟨w₀, hw₀⟩
    constructor
    · intro w hw
      by_cases hk : metricsPrefix ++ ":" ++ w = key
      · rw [hk]
        refine Or.inl ⟨?_, List.mem_append_right _ (List.mem_singleton_self _)⟩
        rw [Server.atKey_self]
        refine hR.incrby 1 now _ (by decide) ?_
        rcases h.counter w₀ (hw₀ ▸ hne) with ⟨hc, -⟩ | ⟨hn, -⟩
        · exact Or.inr (hw₀ ▸ hc)
        · exact Or.inl (hw₀ ▸ hn)
      · rw [Server.atKey_ne hk, List.mem_append, List.mem_singleton, incr_inj]
        rcases h.counter w hw with ⟨hc, hd⟩ | ⟨hn, hd⟩
        · exact Or.inl ⟨hc, Or.inl hd⟩
        · exact Or.inr ⟨hn, not_or.mpr ⟨hd, hk⟩⟩
    · rw [Server.atKey_ne (Ne.symm hne)]
      exact h.sum
  cases hx with
  | total => exact hraise totalKey (by decide) ⟨"total_requests", by decide⟩
  | latencyCount => exact hraise latencyCountKey (by decide) ⟨"latency_count", by decide⟩
  | latencySum q =>
    constructor
    · intro w hw
      rw [Server.atKey_ne hw, List.mem_append, List.mem_singleton]
      have hne : incr (metricsPrefix ++ ":" ++ w) ≠ (latencySumKey, KeyCmd.incrbyfloat q) := by
        intro he
        exact absurd (congrArg Prod.snd he) (by simp [incr])
      rcases h.counter w hw with ⟨hc, hd⟩ | ⟨hn, hd⟩
      · exact Or.inl ⟨hc, Or.inl hd⟩
      · exact Or.inr ⟨hn, not_or.mpr ⟨hd, hne⟩⟩
    · rw [Server.atKey_self]
      exact hR.incrbyfloat _ now _ h.sum
  | @labelled kind label hl =>
    exact hraise (labelKey kind label) (labelKey_ne "latency_sum" (by decide))
      ⟨kind ++ ":" ++ label, labelKey_eq_append kind label⟩

/-- The commands of one part of a history. -/
theorem Counted.transact (hR : R.Counts) {t : Tally} {cs : List (String × KeyCmd)} (hcs : ∀ x ∈ cs, Counting t x)
    (now : Nat) {done : List (String × KeyCmd)} {s : Store} (h : Counted done s) :
    Counted (done ++ cs) (R.transact now cs s).2 := by
  induction cs generalizing done s with
  | nil => simpa [Server.transact] using h
  | cons x cs ih =>
    have hstep := h.step hR (hcs x List.mem_cons_self) now
    have hrest := ih (fun y hy => hcs y (List.mem_cons_of_mem _ hy)) hstep
    rw [List.append_assoc] at hrest
    exact hrest

/-- What a whole history leaves. -/
theorem counted_tallied (hR : R.Counts) (history : List (Nat × Tally)) {done : List (String × KeyCmd)} {s : Store}
    (h : Counted done s) : Counted (done ++ history.flatMap fun x => x.2.commands) (tallied R history s) := by
  induction history generalizing done s with
  | nil => simpa [tallied] using h
  | cons x history ih =>
    have hone := h.transact hR (commands_counting x.2) x.1
    have hrest := ih hone
    rw [List.append_assoc] at hrest
    exact hrest

/-- No counters are there. -/
def NoCounters (s : Store) : Prop := ∀ w, s (metricsPrefix ++ ":" ++ w) = none

theorem counted_none {s : Store} (h : NoCounters s) : Counted [] s where
  counter w _ := Or.inr ⟨h w, List.not_mem_nil⟩
  sum := Or.inl (h "latency_sum")

/-! ### Reading them back -/

theorem Counted.readable {done : List (String × KeyCmd)} {s : Store} (h : Counted done s) : Readable s where
  counter w hw := by
    rcases h.counter w hw with ⟨hc, -⟩ | ⟨hn, -⟩
    · exact Or.inr hc
    · exact Or.inl hn
  sum := h.sum

theorem Counted.isCounter_iff {done : List (String × KeyCmd)} {s : Store} (h : Counted done s) {kind label : String} :
    IsCounter (s (labelKey kind label)) ↔ incr (labelKey kind label) ∈ done := by
  have hne : labelKey kind label ≠ latencySumKey := labelKey_ne "latency_sum" (by decide)
  rw [labelKey_eq_append] at hne ⊢
  rcases h.counter _ hne with ⟨hc, hd⟩ | ⟨hn, hd⟩
  · exact iff_of_true hc hd
  · refine iff_of_false ?_ hd
    rintro ⟨n, -, hs⟩
    rw [hn] at hs
    cases hs

section Reading
variable {history : List (Nat × Tally)} {s : Store} {now : Nat}

/-- Each label of a kind was counted by a part of the history. -/
theorem labels_of_counts (h : Counted (history.flatMap fun x => x.2.commands) s) (scan : Scan s now) {kind : String}
    (hkind : ':' ∉ kind.toList) (hlit : Glob.Literal kind.toList) :
    ∀ l ∈ (countsOf scan kind).items.map (·.1), ∃ x ∈ history, Labels x.2 kind l := by
  intro l hl
  obtain ⟨label, hc, rfl⟩ := (mem_labels h.readable scan hlit).mp hl
  obtain ⟨x, hx, hcmd⟩ := List.mem_flatMap.mp (h.isCounter_iff.mp hc)
  refine ⟨x, hx, ?_⟩
  have hcount := commands_counting x.2 _ hcmd
  generalize hy : incr (labelKey kind label) = y at hcount
  cases hcount with
  | total => exact absurd (incr_inj.mp hy) (labelKey_ne "total_requests" (by decide))
  | latencyCount => exact absurd (incr_inj.mp hy) (labelKey_ne "latency_count" (by decide))
  | latencySum q => exact absurd (congrArg Prod.snd hy) (by simp [incr])
  | labelled hl =>
    obtain ⟨rfl, rfl⟩ := labelKey_inj hkind hl.colon.1 (incr_inj.mp hy)
    rw [labelOf_labelKey hl.colon.2]
    exact hl

/-- A label that a part of the history counted is read back. -/
theorem mem_counts (h : Counted (history.flatMap fun x => x.2.commands) s) (scan : Scan s now) {kind label : String}
    (hlit : Glob.Literal kind.toList) (hlabel : ':' ∉ label.toList) {x : Nat × Tally} (hx : x ∈ history)
    (hcmd : incr (labelKey kind label) ∈ x.2.commands) : label ∈ (countsOf scan kind).items.map (·.1) :=
  (mem_labels h.readable scan hlit).mpr
    ⟨label, h.isCounter_iff.mpr (List.mem_flatMap.mpr ⟨x, hx, hcmd⟩), labelOf_labelKey hlabel⟩

/-! ### The page -/

theorem labelledLines_mem (name label : String) {l : String} {counts : List (String × Int)} (h : l ∈ counts.map (·.1)) :
    ∃ n : Int, labelledLine name label l (toString n) ∈ labelledLines name label counts := by
  obtain ⟨x, hx, rfl⟩ := List.mem_map.mp h
  exact ⟨x.2, List.mem_map_of_mem hx⟩

/-- A namespace that was counted has its line on the page. -/
theorem ns_line_mem {m : Snapshot} (keys validation : Engine) (info : RedisInfo) (nsKeys : Dict Int) {label : String}
    (h : label ∈ m.nsRequests.items.map (·.1)) : ∃ n : Int,
      labelledLine "redgw_ns_requests_total" "ns" label (toString n) ∈ prometheusLines m keys validation info nsKeys := by
  obtain ⟨n, hn⟩ := labelledLines_mem "redgw_ns_requests_total" "ns" h
  refine ⟨n, ?_⟩
  have hfamily : labelledLine "redgw_ns_requests_total" "ns" label (toString n) ∈
      optionalFamily "redgw_ns_requests_total" "Requests per namespace" "ns" m.nsRequests := by
    unfold optionalFamily
    split
    · rename_i hnil
      rw [List.isEmpty_iff.mp hnil] at h
      cases h
    · exact List.mem_append_right _ hn
  simp only [prometheusLines, List.mem_append]
  tauto

/-- The page breaks where the label of a namespace does. -/
theorem page_breaks {m : Snapshot} {keys validation : Engine} {info : RedisInfo} {nsKeys : Dict Int}
    {label : String} (hlabel : label ∈ m.nsRequests.items.map (·.1)) {ns : List Char}
    (hns : label.toList = ns ++ ['\n']) (hre : nsRe ns = true) :
    ¬WellFormed LabelOk (prometheusMetrics m keys validation info nsKeys).toList := by
  obtain ⟨n, hn⟩ := ns_line_mem keys validation info nsKeys hlabel
  obtain ⟨a, b, hab⟩ := List.append_of_mem hn
  have ha : a.map String.toList ≠ [] := by
    intro hnil
    rw [List.map_eq_nil_iff.mp hnil, List.nil_append] at hab
    -- The first line of the page is a comment.
    have hfirst := congrArg String.toList (List.cons.inj hab).1
    rw [labelledLine_toList] at hfirst
    exact absurd (List.cons.inj hfirst).1 (by decide)
  obtain ⟨rest, hrest⟩ : ∃ rest, ['\n'].intercalate
      ((labelledLine "redgw_ns_requests_total" "ns" label (toString n) :: b).map String.toList) =
        (labelledLine "redgw_ns_requests_total" "ns" label (toString n)).toList ++ rest := by
    rw [List.map_cons]
    cases b.map String.toList with
    | nil => exact ⟨[], by simp⟩
    | cons y ys => exact ⟨['\n'] ++ ['\n'].intercalate (y :: ys), by rw [List.intercalate_cons_cons, List.append_assoc]⟩
  have htext : (prometheusMetrics m keys validation info nsKeys).toList =
      ['\n'].intercalate (a.map String.toList) ++
        '\n' :: ('r' :: ("edgw_ns_requests_total".toList ++ '{' :: 'n' :: 's' :: '=' :: '"' :: ns)) ++
        '\n' :: ('"' :: '}' :: ' ' :: (toString n).toList ++ (rest ++ ['\n'])) := by
    have hnl : "\n".toList = ['\n'] := rfl
    unfold prometheusMetrics
    rw [String.toList_append, String.toList_intercalate, hnl, hab, List.map_append,
      Text.intercalate_append ha (by simp), hrest, labelledLine_toList, hns]
    simp
  have hclass := (Bool.and_eq_true_iff.mp hre).1
  have hnewline : '\n' ∉ ns := not_mem_of_nsChar hclass (by decide)
  have hspace : ' ' ∉ ns := not_mem_of_nsChar hclass (by decide)
  rw [htext]
  refine not_wellFormed (by decide) ?_ ?_
  · simp [hnewline]
  · simp [hspace]

/-- The labels of a history in which no namespace comes with a newline are clean. -/
theorem cleanLabels (h : Counted (history.flatMap fun x => x.2.commands) s) (scan : Scan s now)
    (toFloat : String → Double) (uptime : Double)
    (hclean : ∀ x ∈ history, ∀ l, Labels x.2 "ns" l → nsRe l.toList = true) :
    CleanLabels (snapshotOf scan toFloat uptime) := by
  have hlabels : ∀ {kind : String}, ':' ∉ kind.toList → Glob.Literal kind.toList → kind ≠ "ns" →
      ∀ l ∈ (countsOf scan kind).items.map (·.1), l.toList.all unescaped = true := by
    intro kind hkind hlit hne l hl
    obtain ⟨x, -, hx⟩ := labels_of_counts h scan hkind hlit l hl
    exact hx.unescaped hne
  constructor
  · exact hlabels (by decide) (by decide) (by decide)
  · intro l hl
    obtain ⟨x, hxh, hx⟩ := labels_of_counts h scan (by decide) (by decide) l hl
    exact hclean x hxh l hx
  · exact hlabels (by decide) (by decide) (by decide)
  · intro l hl
    obtain ⟨x, hx, rfl⟩ := List.mem_map.mp hl
    have hmem : x.1 ∈ bucketLabels := (List.of_mem_zip hx).1
    have hall : ∀ b ∈ bucketLabels, b.toList.all unescaped = true := by decide
    exact hall _ hmem
  · exact hlabels (by decide) (by decide) (by decide)

end Reading

theorem countNs_labels {engine : Engine} {d : Dict Int} {k : String}
    (hd : ∀ l ∈ d.items.map (·.1), nsRe l.toList = true) (hk : Own k ∨ ∃ ns, KeyOf engine ns k) :
    ∀ l ∈ (countNs engine d k).items.map (·.1), nsRe l.toList = true := by
  unfold countNs
  split
  · rename_i ns typePrefix rest hparse
    split
    · rename_i hp
      intro l hl
      rcases Dict.mem_keys_insert.mp hl with rfl | hl
      · rcases hk with hown | ⟨ns', p, hp', key, hbuild⟩
        · obtain ⟨κ, hκ⟩ := storage_prefixKind (List.contains_iff_mem.mp hp)
          exact absurd hown (StoredAs.not_own ⟨_, _, _, hparse, hκ⟩)
        · obtain ⟨rfl, hcolon⟩ := buildKey_ok hbuild
          rw [parseKey_eq_some.mpr ⟨rfl, hcolon, storagePrefixes_colon hp'⟩] at hparse
          cases hparse
          exact buildKey_nsRe hbuild
      · exact hd l hl
    · exact hd
  · exact hd

/-- The namespaces of the stored keys. -/
theorem nsCounts_labels {engine : Engine} {keys : List String}
    (hkeys : ∀ k ∈ keys, Own k ∨ ∃ ns, KeyOf engine ns k) :
    ∀ l ∈ (nsCounts engine keys).items.map (·.1), nsRe l.toList = true := by
  have hfold : ∀ (ks : List String) (d : Dict Int), (∀ k ∈ ks, Own k ∨ ∃ ns, KeyOf engine ns k) →
      (∀ l ∈ d.items.map (·.1), nsRe l.toList = true) →
      ∀ l ∈ (ks.foldl (countNs engine) d).items.map (·.1), nsRe l.toList = true := by
    intro ks
    induction ks with
    | nil => exact fun d _ hd => hd
    | cons k ks ih =>
      intro d hks hd
      exact ih _ (fun k' hk' => hks k' (List.mem_cons_of_mem _ hk')) (countNs_labels hd (hks k List.mem_cons_self))
  refine hfold (keys.take 5000) .empty (fun k hk => hkeys k (List.mem_of_mem_take hk)) ?_
  intro l hl
  cases hl

/-! ### Histories of requests -/

section Histories
variable {s₀ : Store} {history : List (Nat × Tally)} {now : Nat}

/-- The request ended its response, and its path has a namespace and a newline between the markers. -/
def Hit.Breaks (h : Hit) : Prop := .body false ∈ h.behaviour.sends ∧ NsThenNewline h.scope.path

theorem counted_history (hR : R.Counts) (h₀ : NoCounters s₀) (history : List (Nat × Tally)) :
    Counted (history.flatMap fun x => x.2.commands) (tallied R history s₀) := by
  have h := counted_tallied hR history (counted_none h₀)
  rw [List.nil_append] at h
  exact h

/-- A namespace label of a request that does not break the page is a namespace. -/
theorem Labels.nsRe {t : Tally} {l : String} (h : Labels t "ns" l) (ht : ∀ hit, t = .request hit → ¬hit.Breaks) :
    nsRe l.toList = true := by
  generalize hkind : "ns" = kind at h
  cases h with
  | ns hit hns hend =>
    rcases metricsNs_cases hit.scope.path with hnone | hre | ⟨ns, -, -, hpath⟩
    · exact absurd hnone hns
    · exact hre
    · exact absurd ⟨hend, hpath⟩ (ht hit rfl)
  | status | client | latency | authFailure | auditDropped => exact absurd hkind (by decide)

theorem page_wellFormed (hR : R.Counts) (h₀ : NoCounters s₀) (scan : Scan (tallied R history s₀) now)
    (toFloat : String → Double) (uptime : Double) (engine validation : Engine) (info : RedisInfo) {keys : List String}
    (hkeys : ∀ k ∈ keys, Own k ∨ ∃ ns, KeyOf engine ns k)
    (h : ∀ x ∈ history, ∀ hit, x.2 = .request hit → ¬hit.Breaks) :
    WellFormed LabelOk (prometheusMetrics (getMetrics R scan toFloat uptime) engine validation info
      (nsCounts engine keys)).toList := by
  have hcounted := counted_history hR h₀ history
  have hclean := cleanLabels hcounted scan toFloat uptime fun x hx l hl => hl.nsRe (h x hx)
  rw [← getMetrics_eq hR hcounted.readable] at hclean
  have hlines := line_page hclean engine validation info (nsCounts_labels hkeys)
  have hnl : "\n".toList = ['\n'] := rfl
  have hne : (prometheusLines (getMetrics R scan toFloat uptime) engine validation info
      (nsCounts engine keys)).map String.toList ≠ [] := List.cons_ne_nil _ _
  unfold prometheusMetrics
  rw [String.toList_append, String.toList_intercalate, hnl, Text.intercalate_append_sep hne]
  refine wellFormed_of_lines fun l hl => ?_
  obtain ⟨line, hline, rfl⟩ := List.mem_map.mp hl
  exact hlines line hline

theorem page_broken (hR : R.Counts) (h₀ : NoCounters s₀) (scan : Scan (tallied R history s₀) now)
    (toFloat : String → Double) (uptime : Double) (engine validation : Engine) (info : RedisInfo) (nsKeys : Dict Int)
    {x : Nat × Tally} (hx : x ∈ history) {hit : Hit} (hhit : x.2 = .request hit) (h : hit.Breaks) :
    ¬WellFormed LabelOk (prometheusMetrics (getMetrics R scan toFloat uptime) engine validation info nsKeys).toList := by
  have hcounted := counted_history hR h₀ history
  obtain ⟨hend, hpath⟩ := h
  obtain ⟨ns, hlabel, hre⟩ := metricsNs_of_newline hpath
  have hne : metricsNs hit.scope.path ≠ "" := by
    intro he
    rw [he] at hlabel
    exact absurd hlabel.symm (List.append_ne_nil_of_right_ne_nil _ (List.cons_ne_nil _ _))
  have hcmd : incr (labelKey "ns" (metricsNs hit.scope.path)) ∈ x.2.commands := by
    rw [hhit]
    exact ns_counted hne hend
  rw [getMetrics_eq hR hcounted.readable]
  exact page_breaks (mem_counts hcounted scan (by decide) (metricsNs_colon _) hx hcmd) hlabel hre

/-- After a history the page is well formed exactly when none of its requests breaks it. -/
theorem page_wellFormed_iff (hR : R.Counts) (h₀ : NoCounters s₀) (scan : Scan (tallied R history s₀) now)
    (toFloat : String → Double) (uptime : Double) (engine validation : Engine) (info : RedisInfo) {keys : List String}
    (hkeys : ∀ k ∈ keys, Own k ∨ ∃ ns, KeyOf engine ns k) :
    WellFormed LabelOk (prometheusMetrics (getMetrics R scan toFloat uptime) engine validation info
      (nsCounts engine keys)).toList ↔ ∀ x ∈ history, ∀ hit, x.2 = .request hit → ¬hit.Breaks := by
  constructor
  · intro hwell x hx hit hhit hbreaks
    exact page_broken hR h₀ scan toFloat uptime engine validation info _ hx hhit hbreaks hwell
  · exact page_wellFormed hR h₀ scan toFloat uptime engine validation info hkeys

end Histories

/-! ### Two requests -/

theorem tallied_ne {history : List (Nat × Tally)} {s : Store} {k : String}
    (h : k ∉ history.flatMap fun x => x.2.commands.map (·.1)) : tallied R history s k = s k := by
  induction history generalizing s with
  | nil => rfl
  | cons x history ih =>
    rw [List.flatMap_cons, List.mem_append, not_or] at h
    refine (ih h.2).trans (Server.transact_ne fun y hy => ?_)
    rintro rfl
    exact h.1 (List.mem_map_of_mem hy)

/-- A scan of a store that had nothing in it before the history. -/
def scanTallied (R : Server) (history : List (Nat × Tally)) (now : Nat) : Scan (tallied R history .empty) now :=
  .ofKeys (history.flatMap fun x => x.2.commands.map (·.1)) fun k hk => by
    by_contra hnot
    rw [tallied_ne hnot] at hk
    cases hk

/-- An unauthenticated request for a path, which is refused with 401. -/
def refusedHit (path : String) : Hit :=
  ⟨⟨"GET", path, [], none⟩, 3, ⟨[.send (.start 401 []), .send (.body false)], false, none, none⟩, nofun⟩

def noInfo : RedisInfo := ⟨none, none, none, none, none, none, none⟩

theorem page_wellFormed_refused :
    WellFormed LabelOk (prometheusMetrics (getMetrics reference
      (scanTallied reference [(0, .request (refusedHit "/api/v1/ns/app/kv/x"))] 1) (fun _ => zero) zero) .python .python
      noInfo (nsCounts .python [statusLeaderKey, "app:kv:x"])).toList ↔
      ∀ x ∈ [((0 : Nat), Tally.request (refusedHit "/api/v1/ns/app/kv/x"))], ∀ hit, x.2 = .request hit → ¬hit.Breaks :=
  page_wellFormed_iff reference_counts (fun _ => rfl) _ _ _ .python .python noInfo fun k hk => by
    rcases List.mem_pair.mp hk with rfl | rfl
    · exact Or.inl (OwnWrite.lead "").own
    · exact Or.inr ⟨"app", "kv", by decide, "x", by decide⟩

/-- One refused request with a newline in its path breaks the page. -/
theorem newline_breaks_page :
    ¬WellFormed LabelOk (prometheusMetrics (getMetrics reference
      (scanTallied reference [(0, .request (refusedHit "/api/v1/ns/app\n/kv/x"))] 1) (fun _ => zero) zero) .python .python
      noInfo (nsCounts .python ["app:kv:x"])).toList :=
  page_broken reference_counts (fun _ => rfl) _ _ _ .python .python noInfo _ (List.mem_singleton_self _) rfl
    ⟨by decide, "app".toList, by decide, by decide⟩

end Redgw
