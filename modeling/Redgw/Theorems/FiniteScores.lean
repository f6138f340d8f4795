import Redgw.Redis.Scores
import Redgw.Theorems.Isolation
import Redgw.Theorems.Jobs

/-! # Scores stay finite as long as no sum overflows

The handlers refuse scores and deltas that are not finite, and the sums that ZINCRBY makes of them are not
checked. -/

namespace Redgw
open Redis Prog

/-! ### What the handlers send -/

/-- The commands that bring scores. -/
def Redis.KeyCmd.bringsScores : KeyCmd → Bool
  | .zadd _ | .zincrby .. => true
  | _ => false

/-- The scores that the command brings are finite, and it is no ZINCRBY. -/
def Redis.KeyCmd.Plain (c : KeyCmd) : Prop := (∀ x ∈ c.scores, x.isfinite = true) ∧ ∀ delta member, c ≠ .zincrby delta member

/-- A call that brings finite scores only; a sum is made by a single command only. -/
def FiniteCall : Call → Prop
  | .redis (.at _ (.zincrby delta _)) => delta.isfinite = true
  | .redis c => c.Parts fun _ c => c.Plain
  | _ => True

theorem plain_of_scoreless {c : KeyCmd} (h : c.bringsScores = false) : c.Plain := by
  refine ⟨fun x hx => ?_, fun delta member hc => ?_⟩
  · cases c with
    | zadd members => cases h
    | _ => cases hx
  · rw [hc] at h
    cases h

theorem finiteCall_at {k : String} {c : KeyCmd} (h : c.Plain) : FiniteCall (.redis (.at k c)) := by
  cases c with
  | zincrby delta member => exact absurd rfl (h.2 delta member)
  | _ => exact h

theorem finiteCall_scoreless {k : String} {c : KeyCmd} (h : c.bringsScores = false) : FiniteCall (.redis (.at k c)) :=
  finiteCall_at (plain_of_scoreless h)

theorem bookWrite_finite {k : String} {c : KeyCmd} (h : BookWrite k c) : FiniteCall (.redis (.at k c)) := by
  cases h <;> exact finiteCall_scoreless rfl

theorem lifetime_finite (k : String) (ttl : Int) :
    FiniteCall (.redis (.at (lifetime k ttl).1 (lifetime k ttl).2)) := by
  unfold lifetime
  split <;> exact finiteCall_scoreless rfl

section Handlers
variable {st : Settings} {client : ClientInfo} {ns : String} {α : Type}

theorem finite_guard {operation : String} {f : Unit → Handler α} (h : (f ()).Calls FiniteCall) :
    ((requireAccess client ns operation).bind f).Calls FiniteCall :=
  calls_guard (fun _ _ => trivial) (fun _ => trivial) fun _ => h

theorem finite_key {p key : String} {f : String → Handler α} (h : ∀ k, (f k).Calls FiniteCall) :
    ((ofExcept (buildKey st.engine ns p key)).bind f).Calls FiniteCall :=
  Calls.ofExcept_bind fun k _ => h k

theorem finite_redis {k : String} {c : KeyCmd} (h : c.bringsScores = false) : (redis k c).Calls FiniteCall :=
  calls_redis (finiteCall_scoreless h)

/-- A write of scores with the commands that follow it. -/
theorem finite_pipeline {k : String} {c : KeyCmd} {ttl : Int} (h : FiniteCall (.redis (.at k c))) :
    (pipeline [(k, c), lifetime k ttl, (k, .ttl)]).Calls FiniteCall := by
  refine calls_pipeline fun x hx => ?_
  simp only [List.mem_cons, List.not_mem_nil, or_false] at hx
  rcases hx with rfl | rfl | rfl
  · exact h
  · exact lifetime_finite k ttl
  · exact finiteCall_scoreless rfl

theorem finite_zadd {k : String} {members : List (String × Score)} (h : ∀ x ∈ members, x.2.isfinite = true) :
    FiniteCall (.redis (.at k (.zadd members))) := by
  refine finiteCall_at ⟨fun x hx => ?_, fun _ _ hc => by cases hc⟩
  obtain ⟨y, hy, rfl⟩ := List.mem_map.mp hx
  exact h y hy

variable (st client ns) in
theorem RankOp.finite (o : RankOp) : (o.handle st client ns).Calls FiniteCall := by
  cases o with
  | batchGetRank body =>
    refine finite_guard (Calls.ofExcept_bind fun ks _ => Calls.bind (calls_pipeline fun x hx => ?_) fun _ => trivial)
    obtain ⟨k, -, rfl⟩ := List.mem_map.mp hx
    exact finiteCall_scoreless rfl
  | batchAddRank key body =>
    refine finite_guard (sends_checks (K := fun x => x.2.isfinite = true) (fun x => ?_) (fun x _ => ?_) fun hfinite => ?_)
    · refine Calls.bind (calls_ofExcept _ _) fun _ => ?_
      split <;> trivial
    · refine Ends.bind ends_checkValueSize (fun _ _ => ?_) fun e _ h => by cases h
      cases hscore : x.2.isfinite with
      | false => exact fun h => by cases h
      | true => exact Ends.any (fun _ _ => rfl) _
    · refine finite_key fun k => Calls.bind (calls_exceptResponseError ?_ fun _ => trivial) fun _ => trivial
      exact finite_pipeline (finite_zadd fun x hx => hfinite x (Dict.mem_ofList hx))
  | addRank key body =>
    refine finite_guard (Calls.ofExcept_bind fun _ _ => ?_)
    cases hscore : body.score.isfinite with
    | false => trivial
    | true =>
      refine finite_key fun k => Calls.bind (calls_exceptResponseError ?_ fun _ => trivial) fun _ => trivial
      refine finite_pipeline (finite_zadd fun x hx => ?_)
      rw [List.mem_singleton.mp hx]
      exact hscore
  | rangeRank key start stop reverse =>
    exact finite_guard (finite_key fun k => Calls.bind (finite_redis rfl) fun _ => trivial)
  | scoreRank key member =>
    refine finite_guard (finite_key fun k => Calls.bind (finite_redis rfl) fun score => ?_)
    split <;> trivial
  | betweenRank key min max =>
    refine finite_guard (finite_key fun k => ?_)
    exact Calls.bind (calls_exceptResponseError (finite_redis rfl) fun _ => trivial) fun _ => trivial
  | deleteRank key =>
    refine finite_guard (finite_key fun k => Calls.bind (finite_redis rfl) fun deleted => ?_)
    split <;> trivial
  | removeRank key member =>
    refine finite_guard (finite_key fun k => Calls.bind (finite_redis rfl) fun removed => ?_)
    split <;> trivial
  | incrRank key body =>
    refine finite_guard (Calls.ofExcept_bind fun _ _ => ?_)
    cases hdelta : body.delta.isfinite with
    | false => trivial
    | true =>
      refine finite_key fun k => Calls.bind (calls_exceptResponseError (calls_pipeline fun x hx => ?_) fun _ => trivial)
        fun _ => trivial
      rcases List.mem_cons.mp hx with rfl | hx
      · exact hdelta
      · rw [List.mem_singleton.mp hx]
        exact finiteCall_scoreless rfl
  | touchRank key body =>
    refine finite_guard (finite_key fun k => Calls.bind (calls_pipeline fun x hx => ?_) fun results => ?_)
    · simp only [List.mem_cons, List.not_mem_nil, or_false] at hx
      rcases hx with rfl | rfl | rfl
      · exact finiteCall_scoreless rfl
      · exact lifetime_finite k body.ttl
      · exact finiteCall_scoreless rfl
    · split <;> trivial
  | popRank key max =>
    refine finite_guard (finite_key fun k => Calls.bind (finite_redis rfl) fun result => ?_)
    split <;> trivial

end Handlers

/-! ### Runs -/

/-- A request of the router for sorted sets. -/
def Job.Ranks (j : Job) : Prop := ∃ q o, j = .data q ∧ q.op = .rank o

def FiniteScores (s : Store) : Prop := ∀ k, ∀ x ∈ scoresOf (s k), x.isfinite = true

/-- At time `now` the call adds a delta to a score, and the sum is beyond the finite doubles. -/
def Call.Overflows (now : Nat) (s : Store) : Call → Prop
  | .redis (.at k (.zincrby delta member)) => ∃ x, scoreAt now (s k) member = some x ∧ (x.add delta).isfinite = false
  | _ => False

/-- The action resumes a program at a call that overflows. -/
def Gateway.Overflows (t : Gateway) : Pool.Act Job Nat → Prop
  | .start _ => False
  | .resume i now => ∃ c k, t.programs[i]? = some (.call c k) ∧ c.Overflows now t.state

section Runs
variable {st : Settings} {R : Server}

theorem Job.Ranks.finite {j : Job} (h : j.Ranks) : (j.program st).CallsOn (fun _ _ => True) FiniteCall := by
  obtain ⟨q, o, rfl, ho⟩ := h
  have hend : (endpoint st q.client q.ns q.op).Calls FiniteCall := by
    rw [ho]
    exact endpoint_calls (fun _ _ => trivial) (fun _ => trivial) fun c _ => RankOp.finite st c q.ns o
  exact CallsOn.bind (served_callsOn (Calls.on hend) fun _ _ => bookWrite_finite) fun _ => trivial

theorem ofRat_ne_nan (q : Rat) : Score.ofRat q ≠ .nan := by
  unfold Score.ofRat
  split
  · exact fun h => by cases h
  · split <;> exact fun h => by cases h

/-- The sum of two finite scores is a number, or infinite. -/
theorem add_ne_nan {a b : Score} (ha : a.isfinite = true) (hb : b.isfinite = true) : a.add b ≠ .nan := by
  cases a with
  | fin p =>
    cases b with
    | fin q => exact ofRat_ne_nan (p + q)
    | _ => cases hb
  | _ => cases ha

theorem scoreAt_finite {s : Store} (hs : FiniteScores s) {now : Nat} {k member : String} {x : Score}
    (hx : scoreAt now (s k) member = some x) : x.isfinite = true := by
  obtain ⟨members, hfound, rfl⟩ := scoreAt_found hx
  cases hm : members.lookup member with
  | none => rfl
  | some y =>
    obtain ⟨l₁, l₂, h, -⟩ := List.lookup_eq_some_iff.mp hm
    refine hs k y ((found_scores hfound).1 y ?_)
    rw [h]
    exact List.mem_map.mpr ⟨(member, y), List.mem_append_right _ List.mem_cons_self, rfl⟩

theorem plain_keeps (hR : R.Scores) {now : Nat} {c : KeyCmd} (hc : c.Plain) {e : Option Entry}
    (he : ∀ x ∈ scoresOf e, x.isfinite = true) : ∀ x ∈ scoresOf (R.onKey c now e).2, x.isfinite = true := by
  intro x hx
  rcases hR.scored c now e x hx with h | h | ⟨delta, member, -, hz, -⟩
  · exact he x h
  · exact hc.1 x h
  · exact absurd hz (hc.2 delta member)

/-- A sum that does not overflow keeps the scores finite, and one that does not. -/
theorem zincrby_finite (hR : R.Scores) {now : Nat} {s : Store} (hs : FiniteScores s) {k member : String} {delta : Score}
    (hdelta : delta.isfinite = true) : FiniteScores (R.atKey k (.zincrby delta member) now s).2 ↔
      ¬∃ x, scoreAt now (s k) member = some x ∧ (x.add delta).isfinite = false := by
  constructor
  · rintro hafter ⟨x, hx, hsum⟩
    have hmem := hR.sums delta member now (s k) x hx (add_ne_nan (scoreAt_finite hs hx) hdelta)
    rw [← Server.atKey_self k (.zincrby delta member) now s] at hmem
    exact Bool.false_ne_true (hsum.symm.trans (hafter k _ hmem))
  · intro hno k' x hx
    by_cases hk : k' = k
    · subst hk
      rw [Server.atKey_self] at hx
      rcases hR.scored _ now (s k') x hx with h | h | ⟨_, _, y, hz, hy, rfl⟩
      · exact hs k' x h
      · cases h
      · cases hz
        by_contra hsum
        exact hno ⟨y, hy, by simpa using hsum⟩
    · rw [Server.atKey_ne hk] at hx
      exact hs k' x hx

theorem execStore_finite (hR : R.Scores) {c : Call} (hc : FiniteCall c) {now : Nat} {s : Store} (hs : FiniteScores s) :
    FiniteScores (execStore R c now s).2 ↔ ¬c.Overflows now s := by
  have hplain {cmd : Cmd} (hcmd : cmd.Parts fun _ c => c.Plain) : FiniteScores (R.exec cmd now s).2 :=
    Server.exec_entries (E := fun _ e => ∀ x ∈ scoresOf e, x.isfinite = true) (fun _ _ hc _ he => plain_keeps hR hc he)
      hcmd hs
  cases c with
  | setPendingEvent event errorCode => exact ⟨fun _ h => h.elim, fun _ => hs⟩
  | fireMetric reason =>
    have hbook : (Cmd.multi (recordAuthFailure reason)).Parts fun _ c => c.Plain := by
      intro x hx
      have hwrite := recordAuthFailure_metricsWrite x hx
      generalize x.1 = k at hwrite
      generalize x.2 = c at hwrite
      cases hwrite <;> exact plain_of_scoreless rfl
    exact ⟨fun _ h => h.elim, fun _ => hplain hbook⟩
  | redis cmd =>
    by_cases hz : ∃ k delta member, cmd = .at k (.zincrby delta member)
    · obtain ⟨k, delta, member, rfl⟩ := hz
      exact zincrby_finite hR hs hc
    · have hnot : ¬(Call.redis cmd).Overflows now s := by
        unfold Call.Overflows
        split
        · rename_i k delta member heq
          cases heq
          exact absurd ⟨k, delta, member, rfl⟩ hz
        · exact id
      have hparts : cmd.Parts fun _ c => c.Plain := by
        cases cmd with
        | «at» k c =>
          cases c with
          | zincrby delta member => exact absurd ⟨k, delta, member, rfl⟩ hz
          | _ => exact hc
        | _ => exact hc
      exact ⟨fun _ => hnot, fun _ => hplain hparts⟩

/-- The programs of a run of such requests bring finite scores, whatever has been stored. -/
theorem run_calls {acts : List (Pool.Act Job Nat)} (hacts : ∀ j, .start j ∈ acts → j.Ranks) {t : Gateway}
    (h : Gateway.run st R acts = some t) {i : Nat} {c : Call} {k : c.Ret → Handler (Option Response)}
    (hi : t.programs[i]? = some (.call c k)) : FiniteCall c := by
  have hinv := Pool.inv_run (I := fun _ => True) (G := fun _ _ => True) (P := FiniteCall) (fun _ _ _ _ _ => trivial)
    (fun _ _ _ _ _ => trivial) (fun j hj => (hacts j hj).finite) trivial h
  exact (hinv.programs _ (List.mem_of_getElem? hi)).1

theorem step_finite (hR : R.Scores) {acts : List (Pool.Act Job Nat)} (hacts : ∀ j, .start j ∈ acts → j.Ranks) {t u : Gateway}
    (h : Gateway.run st R acts = some t) (ht : FiniteScores t.state) {a : Pool.Act Job Nat}
    (hstep : Pool.step (execStore R) (Job.program st) t a = some u) : FiniteScores u.state ↔ ¬t.Overflows a := by
  cases a with
  | start j =>
    cases hstep
    exact ⟨fun _ h => h.elim, fun _ => ht⟩
  | resume i now =>
    obtain ⟨c, k, hi, hstate, -⟩ := Pool.resume_eq_some.mp hstep
    rw [← hstate, execStore_finite hR (run_calls hacts h hi) ht]
    refine not_congr ⟨fun hover => ⟨c, k, hi, hover⟩, ?_⟩
    rintro ⟨c', k', hi', hover⟩
    rw [hi] at hi'
    cases hi'
    exact hover

/-- Every score that is stored after some part of a run is finite exactly when no ZINCRBY of the run overflows. -/
theorem scores_finite_iff (hR : R.Scores) {acts : List (Pool.Act Job Nat)} (hacts : ∀ j, .start j ∈ acts → j.Ranks) :
    (∀ done t, done <+: acts → Gateway.run st R done = some t → FiniteScores t.state) ↔
      ∀ done a t, done ++ [a] <+: acts → Gateway.run st R done = some t → ¬t.Overflows a := by
  have hpart {done : List (Pool.Act Job Nat)} (h : done <+: acts) : ∀ j, .start j ∈ done → j.Ranks :=
    fun j hj => hacts j (h.subset hj)
  have hbefore {done : List (Pool.Act Job Nat)} {a : Pool.Act Job Nat} (h : done ++ [a] <+: acts) : done <+: acts :=
    (List.prefix_append done [a]).trans h
  constructor
  · rintro hfinite done (j | ⟨i, now⟩) t h ht hover
    · exact hover
    · obtain ⟨c, k, hi, hover⟩ := hover
      have hstep : Pool.step (execStore R) (Job.program st) t (.resume i now) =
          some ⟨(execStore R c now t.state).2, t.programs.set i (k (execStore R c now t.state).1)⟩ := by
        show t.resume (execStore R) i now = _
        unfold Pool.resume
        rw [hi]
      refine (step_finite hR (hpart (hbefore h)) ht (hfinite done t (hbefore h) ht) hstep).mp ?_ ⟨c, k, hi, hover⟩
      refine hfinite _ _ h (Runs.run_append.mpr ⟨t, ht, Runs.run_cons.mpr ⟨_, hstep, rfl⟩⟩)
  · intro hsafe done
    induction done using List.reverseRecOn with
    | nil =>
      intro t _ ht
      cases ht
      intro k x hx
      cases hx
    | append_singleton done a ih =>
      intro u h hu
      obtain ⟨t, ht, hlast⟩ := Runs.run_append.mp hu
      obtain ⟨v, hstep, hv⟩ := Runs.run_cons.mp hlast
      cases hv
      exact (step_finite hR (hpart (hbefore h)) ht (ih t (hbefore h) ht) hstep).mpr (hsafe done a t h ht)

end Runs

/-! ### Two increments of the largest double -/

def largestScore : Score := .fin Score.largest

def incrJob : Job := .data (plainRequest appClient "app" (.rank (.incrRank "top" ⟨"x", largestScore⟩)))

/-- Two requests add the largest double to a new member. -/
def twoIncrements : List (Pool.Act Job Nat) := [.start incrJob, .start incrJob, .resume 0 0, .resume 1 0]

theorem twoIncrements_ranks : ∀ j, .start j ∈ twoIncrements → j.Ranks := by
  intro j hj
  have hjob : j = incrJob := by
    simp only [twoIncrements, List.mem_cons, Pool.Act.start.injEq, List.not_mem_nil, or_false, reduceCtorEq] at hj
    tauto
  exact ⟨_, _, hjob, rfl⟩

theorem scores_finite_iff_increments :
    (∀ done t, done <+: twoIncrements → Gateway.run {} reference done = some t → FiniteScores t.state) ↔
      ∀ done a t, done ++ [a] <+: twoIncrements → Gateway.run {} reference done = some t → ¬t.Overflows a :=
  scores_finite_iff reference_scores twoIncrements_ranks

/-- The second of them stores an infinite score. -/
theorem infinite_score_stored : ∃ t, Gateway.run {} reference twoIncrements = some t ∧
    .inf false ∈ scoresOf (t.state "app:rank:top") := by
  refine ⟨_, rfl, ?_⟩
  decide +kernel

end Redgw
