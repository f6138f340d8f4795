import Redgw.Theorems.MetricsText
import Redgw.Theorems.RequestMetrics
import Redgw.Theorems.Serving

/-! # Which labels the counters carry

The counters of a kind are those that the recorded requests raised. A request raises one under a label
that is no namespace when its path has a namespace and a newline between the markers. -/

namespace Redgw
open Redis Exposition

/-! ### Histories -/

/-- A request as the metrics middleware sees it. Client ids are made of the characters of namespaces. -/
structure Hit where
  scope : Scope
  durationMs : Rat
  behaviour : Behaviour
  client : ∀ c ∈ behaviour.clientId, c.toList.all nsChar = true

inductive AuthFailure
  | authFail
  | namespaceDenied
  | adminRequired

def AuthFailure.text : AuthFailure → String
  | authFail => "auth_fail"
  | namespaceDenied => "namespace_denied"
  | adminRequired => "admin_required"

inductive DropCause
  | diskFull
  | queueFull
  | levelZero

def DropCause.text : DropCause → String
  | diskFull => "disk_full"
  | queueFull => "queue_full"
  | levelZero => "level_zero"

/-- What raises counters: a request, a refusal, or an audit line that is dropped. -/
inductive Tally
  | request (h : Hit)
  | authFailure (reason : AuthFailure)
  | auditDropped (cause : DropCause)

def Tally.commands : Tally → List (String × KeyCmd)
  | .request h => metricsCommands h.scope h.durationMs h.behaviour
  | .authFailure reason => recordAuthFailure reason.text
  | .auditDropped cause => recordAuditDropped cause.text

/-- The store after a history, each part of it with its time. -/
def tallied (R : Server) (history : List (Nat × Tally)) (s : Store) : Store :=
  history.foldl (fun s x => runCommands R x.1 x.2.commands s) s

/-! ### The keys of counters -/

def labelKey (kind label : String) : String := metricsPrefix ++ ":" ++ kind ++ ":" ++ label

theorem labelKey_toList (kind label : String) :
    (labelKey kind label).toList = "redgw:metrics:".toList ++ (kind.toList ++ ':' :: label.toList) := by
  simp [labelKey, metricsPrefix, String.toList_append]

theorem labelKey_eq_append (kind label : String) :
    labelKey kind label = metricsPrefix ++ ":" ++ (kind ++ ":" ++ label) := by
  simp only [labelKey, String.append_assoc]

theorem eq_labelKey {key kind label : String}
    (h : key.toList = "redgw:metrics:".toList ++ (kind.toList ++ ':' :: label.toList)) : key = labelKey kind label :=
  String.toList_inj.mp (h.trans (labelKey_toList kind label).symm)

theorem statusKey_eq (code : Nat) : statusKey code = labelKey "status" (toString code) :=
  eq_labelKey (by simp [statusKey, metricsPrefix, String.toList_append])

theorem nsReqKey_eq (ns : String) : nsReqKey ns = labelKey "ns" ns :=
  eq_labelKey (by simp [nsReqKey, metricsPrefix, String.toList_append])

theorem clientReqKey_eq (clientId : String) : clientReqKey clientId = labelKey "client" clientId :=
  eq_labelKey (by simp [clientReqKey, metricsPrefix, String.toList_append])

theorem latencyBucketKey_eq (bucket : String) : latencyBucketKey bucket = labelKey "latency" bucket :=
  eq_labelKey (by simp [latencyBucketKey, metricsPrefix, String.toList_append])

theorem authFailKey_eq (reason : String) : authFailKey reason = labelKey "auth_failures" reason :=
  eq_labelKey (by simp [authFailKey, metricsPrefix, String.toList_append])

theorem auditDroppedKey_eq (cause : String) : auditDroppedKey cause = labelKey "audit_dropped" cause :=
  eq_labelKey (by simp [auditDroppedKey, metricsPrefix, String.toList_append])

theorem labelKey_inj {kind kind' label label' : String} (hk : ':' ∉ kind.toList) (hk' : ':' ∉ kind'.toList)
    (h : labelKey kind label = labelKey kind' label') : kind = kind' ∧ label = label' := by
  have hl := congrArg String.toList h
  rw [labelKey_toList, labelKey_toList] at hl
  obtain ⟨h₁, h₂⟩ := Text.cut_inj hk hk' (List.append_cancel_left hl)
  exact ⟨String.toList_inj.mp h₁, String.toList_inj.mp h₂⟩

/-- The keys without a label have no further colon. -/
theorem labelKey_ne {kind label : String} (rest : String) (h : ':' ∉ rest.toList) :
    labelKey kind label ≠ metricsPrefix ++ ":" ++ rest := by
  intro he
  have hl := congrArg String.toList he
  have hrest : (metricsPrefix ++ ":" ++ rest).toList = "redgw:metrics:".toList ++ rest.toList := by
    simp [metricsPrefix, String.toList_append]
  rw [labelKey_toList, hrest] at hl
  rw [← List.append_cancel_left hl] at h
  simp at h

theorem labelOf_labelKey {kind label : String} (h : ':' ∉ label.toList) : labelOf (labelKey kind label) = label := by
  unfold labelOf
  rw [labelKey_toList, ← List.append_assoc, Text.lastPart_append _ h, String.ofList_toList]

/-- What a part of a history counts under a label. -/
inductive Labels : Tally → String → String → Prop
  | status (h : Hit) (code : Nat) : Labels (.request h) "status" (toString code)
  | ns (h : Hit) (hns : metricsNs h.scope.path ≠ "") (hend : .body false ∈ h.behaviour.sends) :
    Labels (.request h) "ns" (metricsNs h.scope.path)
  | client (h : Hit) {c : String} (hc : c ∈ h.behaviour.clientId) : Labels (.request h) "client" c
  | latency (h : Hit) {bucket : String} (hb : bucket ∈ latencyBuckets.map toString ++ ["inf"]) :
    Labels (.request h) "latency" bucket
  | authFailure (reason : AuthFailure) : Labels (.authFailure reason) "auth_failures" reason.text
  | auditDropped (cause : DropCause) : Labels (.auditDropped cause) "audit_dropped" cause.text

/-- The commands that count: on the keys without a label, on the sum of latencies, or on a labelled key. -/
inductive Counting (t : Tally) : String × KeyCmd → Prop
  | total : Counting t (incr totalKey)
  | latencyCount : Counting t (incr latencyCountKey)
  | latencySum (q : Score) : Counting t (latencySumKey, .incrbyfloat q)
  | labelled {kind label : String} (h : Labels t kind label) : Counting t (incr (labelKey kind label))

theorem metricsCommands_counting (h : Hit) :
    ∀ x ∈ metricsCommands h.scope h.durationMs h.behaviour, Counting (.request h) x := by
  intro x hx
  obtain ⟨status, hstatus, hx⟩ := List.mem_flatMap.mp hx
  have hend : .body false ∈ h.behaviour.sends := by
    by_contra hnot
    rw [metricsMiddleware_recorded, recordedFrom_eq_nil.mpr hnot] at hstatus
    cases hstatus
  simp only [recordRequest, List.mem_append] at hx
  rcases hx with ((hx | hx) | hx) | hx
  · rcases List.mem_pair.mp hx with rfl | rfl
    · exact .total
    · rw [statusKey_eq]
      exact .labelled (.status h status)
  · split at hx
    · rename_i hns
      rw [List.mem_singleton.mp hx, nsReqKey_eq]
      exact .labelled (.ns h hns hend)
    · cases hx
  · split at hx
    · rename_i hc
      rw [List.mem_singleton.mp hx, clientReqKey_eq]
      refine .labelled (.client h ?_)
      cases hid : h.behaviour.clientId with
      | none =>
        rw [hid] at hc
        exact absurd rfl hc
      | some c => rfl
    · cases hx
  · split at hx
    · simp only [List.mem_append, List.mem_map] at hx
      rcases hx with (hx | ⟨b, hb, rfl⟩) | hx
      · rcases List.mem_pair.mp hx with rfl | rfl
        · exact .latencySum _
        · exact .latencyCount
      · rw [latencyBucketKey_eq]
        exact .labelled (.latency h (List.mem_append_left _ (List.mem_map_of_mem (List.mem_filter.mp hb).1)))
      · rw [List.mem_singleton.mp hx, latencyBucketKey_eq]
        exact .labelled (.latency h (List.mem_append_right _ (List.mem_singleton_self _)))
    · cases hx

theorem commands_counting (t : Tally) : ∀ x ∈ t.commands, Counting t x := by
  cases t with
  | request h => exact metricsCommands_counting h
  | authFailure reason =>
    intro x hx
    rw [List.mem_singleton.mp hx, authFailKey_eq]
    exact .labelled (.authFailure reason)
  | auditDropped cause =>
    intro x hx
    rw [List.mem_singleton.mp hx, auditDroppedKey_eq]
    exact .labelled (.auditDropped cause)

/-- A request that ends its response counts for the namespace of its path. -/
theorem ns_counted {h : Hit} (hns : metricsNs h.scope.path ≠ "") (hend : .body false ∈ h.behaviour.sends) :
    incr (labelKey "ns" (metricsNs h.scope.path)) ∈ (Tally.request h).commands := by
  have hrec : (metricsMiddleware h.behaviour).recorded ≠ [] := by
    rw [metricsMiddleware_recorded, Ne, recordedFrom_eq_nil, not_not]
    exact hend
  obtain ⟨status, hstatus⟩ := List.exists_mem_of_ne_nil _ hrec
  refine List.mem_flatMap.mpr ⟨status, hstatus, ?_⟩
  unfold recordRequest
  rw [if_pos hns, nsReqKey_eq]
  exact List.mem_append_left _ (List.mem_append_left _ (List.mem_append_right _ (List.mem_singleton_self _)))

/-! ### Namespaces in paths -/

/-- Between the markers of the path stand a namespace and a newline. -/
def NsThenNewline (path : String) : Prop := ∃ ns, nsSearch path.toList = some (ns ++ ['\n']) ∧ nsRe ns = true

theorem validNsRe_iff {s : List Char} :
    validNsRe s = true ↔ nsRe s = true ∨ ∃ ns, s = ns ++ ['\n'] ∧ nsRe ns = true := by
  unfold validNsRe
  rw [Bool.or_eq_true, Bool.and_eq_true, beq_iff_eq]
  refine or_congr Iff.rfl ?_
  constructor
  · rintro ⟨hlast, hns⟩
    exact ⟨s.dropLast, (List.dropLast_append_getLast? _ hlast).symm, hns⟩
  · rintro ⟨ns, rfl, hns⟩
    simpa using hns

/-- The namespace that a request counts for is one, or one and a newline, or missing. -/
theorem metricsNs_cases (path : String) :
    metricsNs path = "" ∨ nsRe (metricsNs path).toList = true ∨
      ∃ ns, (metricsNs path).toList = ns ++ ['\n'] ∧ nsRe ns = true ∧ NsThenNewline path := by
  unfold metricsNs
  cases hs : nsSearch path.toList with
  | none => exact Or.inl rfl
  | some seg =>
    dsimp only
    split
    · rename_i hv
      rw [String.toList_ofList]
      rcases validNsRe_iff.mp hv with hns | ⟨ns, rfl, hns⟩
      · exact Or.inr (Or.inl hns)
      · exact Or.inr (Or.inr ⟨ns, rfl, hns, ns, hs, hns⟩)
    · exact Or.inl rfl

theorem metricsNs_of_newline {path : String} (h : NsThenNewline path) :
    ∃ ns, (metricsNs path).toList = ns ++ ['\n'] ∧ nsRe ns = true := by
  obtain ⟨ns, hs, hns⟩ := h
  refine ⟨ns, ?_, hns⟩
  unfold metricsNs
  rw [hs]
  dsimp only
  rw [if_pos (validNsRe_iff.mpr (Or.inr ⟨ns, rfl, hns⟩)), String.toList_ofList]

theorem metricsNs_colon (path : String) : ':' ∉ (metricsNs path).toList := by
  rcases metricsNs_cases path with h | h | ⟨ns, h, hns, -⟩
  · rw [h]
    exact List.not_mem_nil
  · exact nsRe_colon h
  · rw [h]
    simp [nsRe_colon hns]

theorem toString_nat_digits (n : Nat) : ∀ c ∈ (toString n).toList, c.isDigit = true := by
  intro c hc
  rw [Text.toString_nat] at hc
  exact Text.isDigit_of_mem hc

/-- Neither kinds nor labels have a colon. -/
theorem Labels.colon {t : Tally} {kind label : String} (h : Labels t kind label) :
    ':' ∉ kind.toList ∧ ':' ∉ label.toList := by
  cases h with
  | status h code => exact ⟨by decide, fun hm => absurd (toString_nat_digits code _ hm) (by decide)⟩
  | ns h hns hend => exact ⟨by decide, metricsNs_colon _⟩
  | client h hc => exact ⟨by decide, nsChar_colon (h.client _ hc)⟩
  | latency h hb =>
    refine ⟨by decide, ?_⟩
    rcases List.mem_append.mp hb with hb | hb
    · obtain ⟨b, -, rfl⟩ := List.mem_map.mp hb
      exact fun hm => absurd (toString_nat_digits b _ hm) (by decide)
    · rw [List.mem_singleton.mp hb]
      decide
  | authFailure reason => exact ⟨by decide, by cases reason <;> decide⟩
  | auditDropped cause => exact ⟨by decide, by cases cause <;> decide⟩

/-- Only the labels of namespaces can have a character that has to be escaped. -/
theorem Labels.unescaped {t : Tally} {kind label : String} (h : Labels t kind label) (hkind : kind ≠ "ns") :
    label.toList.all unescaped = true := by
  have hdigits : ∀ n : Nat, (toString n).toList.all Exposition.unescaped = true := by
    intro n
    rw [List.all_eq_true]
    intro c hc
    have hd := toString_nat_digits n c hc
    unfold Exposition.unescaped
    simp only [Bool.and_eq_true, bne_iff_ne]
    refine ⟨⟨?_, ?_⟩, ?_⟩ <;> rintro rfl <;> exact absurd hd (by decide)
  cases h with
  | status h code => exact hdigits code
  | ns h hns hend => exact absurd rfl hkind
  | client h hc => exact unescaped_of_nsRe (h.client _ hc)
  | latency h hb =>
    rcases List.mem_append.mp hb with hb | hb
    · obtain ⟨b, -, rfl⟩ := List.mem_map.mp hb
      exact hdigits b
    · rw [List.mem_singleton.mp hb]
      decide
  | authFailure reason => cases reason <;> decide
  | auditDropped cause => cases cause <;> decide

end Redgw
