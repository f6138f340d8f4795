import Redgw.Theorems.RestingMetrics

/-! # Counts of the clients

The counter of a client has the client's id at the end of its key, and what follows the last colon of the key
is shown as the id. -/

namespace Redgw
open Redis Exposition

/-- How many of the calls are those of the client. -/
def callsOf (calls : List Recording) (id : String) : Nat := calls.countP fun c => c.clientId ≠ "" ∧ c.clientId = id

/-- The snapshot has an entry for each client with a call, which shows the number of its calls, and no other. -/
def CountsClients (calls : List Recording) (m : Snapshot) : Prop :=
  ∀ id, m.clientRequests.items.lookup id = if callsOf calls id = 0 then none else some (callsOf calls id : Int)

/-- No id of a client with a call has a colon, and no client has more calls than a counter can count. -/
structure Countable (calls : List Recording) : Prop where
  plain : ∀ c ∈ calls, ':' ∉ c.clientId.toList
  few : ∀ id, callsOf calls id ≤ maxCount

theorem labelOf_plain (k : String) : ':' ∉ (labelOf k).toList := by
  unfold labelOf
  rw [String.toList_ofList]
  exact Text.not_mem_lastPart

theorem count_client (c : Recording) (label : String) :
    (c.commands.map (·.1)).count (labelKey "client" label) = if c.clientId ≠ "" ∧ c.clientId = label then 1 else 0 := by
  rw [count_commands, count_latency (by decide) (by decide)]
  simp [totalKey_ne, latencySumKey_ne, latencyCountKey_ne, labelKey_eq_iff]

section Clients
variable {R : Server} {calls : List Recording} {cs : List (Nat × String × KeyCmd)} {s : Store} {now : Nat}

theorem lookup_client (hcolon : ∀ c ∈ calls, ':' ∉ c.clientId.toList)
    (h : Raised ((calls.flatMap Recording.commands).map (·.1)) s) (scan : Scan s now) (id : String) :
    (countsOf scan "client").items.lookup id = shown (min (callsOf calls id) maxCount) := by
  refine lookup_raised (q := fun l c => decide (c.clientId ≠ "" ∧ c.clientId = l)) h scan (by decide)
    (fun l c => (count_client c l).trans (by simp)) ?_ id
  intro l c hc hl
  rw [← (of_decide_eq_true hl).2]
  exact hcolon c hc

/-- At rest the calls of each client are shown under its id, exactly when no id has a colon and no counter is at
    its end. -/
theorem clients_counted_iff (hR : R.Counts) (hadd : R.Increases) (h : NoCounters s) (hcs : Interleaves cs calls)
    (scan : Scan (executed R cs s) now) (toFloat : String → Double) (uptime : Double) :
    CountsClients calls (getMetrics R scan toFloat uptime) ↔ Countable calls := by
  have hraised := raised_executed hR hadd hcs h
  rw [getMetrics_eq hR hraised.readable]
  have hshown : ∀ n : Nat, (if n = 0 then none else some (n : Int)) = shown n := fun n => rfl
  constructor
  · intro hcounts
    have hplain : ∀ c ∈ calls, ':' ∉ c.clientId.toList := by
      intro c hc hmem
      have hset : c.clientId ≠ "" := by
        rintro hempty
        rw [hempty] at hmem
        cases hmem
      have hpos : callsOf calls c.clientId ≠ 0 :=
        Nat.ne_of_gt (List.countP_pos_iff.mpr ⟨c, hc, by simpa using hset⟩)
      have hlookup := hcounts c.clientId
      rw [if_neg hpos] at hlookup
      have hentry : c.clientId ∈ (countsOf scan "client").items.map (·.1) :=
        List.mem_map_of_mem (Dict.mem_items.mpr hlookup)
      obtain ⟨label, -, hlabel⟩ := (mem_labels hraised.readable scan (by decide)).mp hentry
      exact labelOf_plain _ (hlabel ▸ hmem)
    refine ⟨hplain, fun id => ?_⟩
    have hlookup := hcounts id
    rw [hshown] at hlookup
    have hread := (lookup_client hplain hraised scan id).symm.trans hlookup
    by_contra hmany
    rw [Nat.min_eq_right (Nat.le_of_not_le hmany)] at hread
    obtain ⟨-, heq⟩ := shown_eq_some.mp (hread.symm.trans (by decide : shown maxCount = some (maxCount : Int)))
    omega
  · rintro ⟨hplain, hfew⟩ id
    show (countsOf scan "client").items.lookup id = _
    rw [lookup_client hplain hraised, Nat.min_eq_left (hfew id)]
    rfl

end Clients

/-- Two clients without a colon. -/
theorem clients_counted_iff_two :
    CountsClients [⟨200, 0, "", "app"⟩, ⟨200, 0, "", "svc"⟩] (getMetrics reference
      (scanExecuted reference (inOrder [⟨200, 0, "", "app"⟩, ⟨200, 0, "", "svc"⟩]) 1) (fun _ => zero) zero) ↔
      Countable [⟨200, 0, "", "app"⟩, ⟨200, 0, "", "svc"⟩] :=
  clients_counted_iff reference_counts reference_increases (fun _ => rfl) (interleaves_inOrder _) _ _ _

/-- Of a client with a colon in its id the call is shown under another id. -/
theorem colon_client_lost :
    ¬ CountsClients [⟨200, 0, "", "team:app"⟩] (getMetrics reference
      (scanExecuted reference (inOrder [⟨200, 0, "", "team:app"⟩]) 1) (fun _ => zero) zero) := by
  intro h
  have hnone : (getMetrics reference (scanExecuted reference (inOrder [⟨200, 0, "", "team:app"⟩]) 1) (fun _ => zero)
      zero).clientRequests.items.lookup "team:app" = none := by decide +kernel
  exact absurd (hnone.symm.trans (h "team:app")) (by decide)

end Redgw
