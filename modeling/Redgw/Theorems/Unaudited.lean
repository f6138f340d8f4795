import Redgw.Theorems.Capture

/-! # Which changes leave an audit line

At level 1 every change of user data leaves a line but those of the two pops, which change data under
GET: a pop that takes an element leaves none. -/

namespace Redgw
open Redis Prog Noninterference

/-! ### Pops -/

/-- The key and the command of a pop. -/
def popTarget (engine : Engine) (q : Request) : Option (String × KeyCmd) :=
  match q.op with
  | .queue (.popQueue key direction) => match buildKey engine q.ns queuePrefix key with
    | .ok k => some (k, popCmd direction)
    | .error _ => none
  | .rank (.popRank key max) => match buildKey engine q.ns rankPrefix key with
    | .ok k => some (k, .zpop max)
    | .error _ => none
  | _ => none

/-- The request is a pop that finds an element: its client may write to the namespace, its key is valid
    and holds a value of the type that it takes from. -/
def PopsData (st : Settings) (q : Request) (s : Store) : Prop :=
  ∃ c k cmd x, q.client = some c ∧ checkAccess c q.ns "write" = true ∧ popTarget st.engine q = some (k, cmd) ∧
    live (q.clock 0) (s k) = some x ∧ cmd.pops x.value = true

theorem popTarget_key {engine : Engine} {q : Request} {k : String} {cmd : KeyCmd}
    (h : popTarget engine q = some (k, cmd)) : KeyOf engine q.ns k ∧ cmd.isPop = true := by
  unfold popTarget at h
  split at h
  · rename_i key direction _
    split at h
    · rename_i k' hk
      cases h
      refine ⟨⟨queuePrefix, by decide, key, hk⟩, ?_⟩
      cases direction <;> rfl
    · cases h
  · rename_i key max _
    split at h
    · rename_i k' hk
      cases h
      exact ⟨⟨rankPrefix, by decide, key, hk⟩, rfl⟩
    · cases h
  · cases h

/-- The only command of a pop, sent with the permission to write. -/
def PopCall (engine : Engine) (c : ClientInfo) (q : Request) : Call → Prop
  | .redis cmd => checkAccess c q.ns "write" = true ∧ ∃ k kc, popTarget engine q = some (k, kc) ∧ cmd = .at k kc
  | _ => True

/-- A request under GET leaves data alone, or is a pop. -/
theorem get_use {o : Op} (h : o.route.method = .GET) :
    o.use.gentle ∨ (∃ key direction, o = .queue (.popQueue key direction)) ∨ ∃ key max, o = .rank (.popRank key max) := by
  cases o with
  | kv o => cases o <;> first | exact Or.inl (Or.inl rfl) | cases h
  | map o => cases o <;> first | exact Or.inl (Or.inl rfl) | cases h
  | queue o =>
    cases o with
    | popQueue key direction => exact Or.inr (Or.inl ⟨key, direction, rfl⟩)
    | _ => first | exact Or.inl (Or.inl rfl) | cases h
  | group o => cases o <;> first | exact Or.inl (Or.inl rfl) | cases h
  | rank o =>
    cases o with
    | popRank key max => exact Or.inr (Or.inr ⟨key, max, rfl⟩)
    | _ => first | exact Or.inl (Or.inl rfl) | cases h
  | event o => cases o <;> first | exact Or.inl (Or.inl rfl) | exact Or.inl (Or.inr rfl) | cases h
  | pubsub o => cases o; cases h

variable {st : Settings} {R : Server} {c : ClientInfo} {q : Request}

/-- A permitted pop sends its one command first, and nothing after it. -/
theorem pop_handle {k : String} {cmd : KeyCmd} (ha : checkAccess c q.ns "write" = true)
    (ht : popTarget st.engine q = some (k, cmd)) : ∃ rest : Json → Handler Json,
    q.op.handle st c q.ns = (redis k cmd).bind rest ∧ ∀ v, (rest v).Calls fun _ => False := by
  unfold popTarget at ht
  split at ht
  · rename_i key direction hop
    split at ht
    · rename_i k' hk
      cases ht
      refine ⟨fun value => if value.isNone = true then .raise (error "QUEUE_EMPTY" s!"Queue '{key}' is empty" 404)
        else .pure (ok (.obj [("value", value)]) q.ns key "list"), ?_, fun v => by dsimp only; split <;> trivial⟩
      rw [hop]
      show popQueue st c q.ns key direction = _
      unfold popQueue requireWrite requireAccess
      rw [if_pos ha, hk]
      rfl
    · cases ht
  · rename_i key max hop
    split at ht
    · rename_i k' hk
      cases ht
      refine ⟨fun result => if (!result.truthy) = true then .raise (error "RANK_EMPTY" s!"Rank '{key}' is empty" 404)
        else .pure (ok (memberScore (result.nth 0)) q.ns key "zset"), ?_, fun v => by dsimp only; split <;> trivial⟩
      rw [hop]
      show popRank st c q.ns key max = _
      unfold popRank requireWrite requireAccess
      rw [if_pos ha, hk]
      rfl
    · cases ht
  · cases ht

theorem pop_valid {k : String} {cmd : KeyCmd} (ht : popTarget st.engine q = some (k, cmd)) : q.op.valid = true := by
  unfold popTarget at ht
  split at ht
  · rename_i hop
    rw [hop]
    rfl
  · rename_i hop
    rw [hop]
    rfl
  · cases ht

/-- A permitted pop leaves the store with its command done, and no event. -/
theorem pop_run {k : String} {cmd : KeyCmd} (hq : q.client = some c) (ha : checkAccess c q.ns "write" = true)
    (ht : popTarget st.engine q = some (k, cmd)) (s : Store) :
    (handleRequest st R q s).2 = ⟨s.set k (R.onKey cmd (q.clock 0) (s k)).2, none⟩ := by
  obtain ⟨rest, hhandle, hrest⟩ := pop_handle ha ht
  have hend : endpoint st q.client q.ns q.op = (redis k cmd).bind rest := by
    rw [hq, ← hhandle]
    unfold endpoint
    rw [pop_valid ht]
    rfl
  have hsilent : ∀ r : Reply, ((ofReply r).bind rest).Calls fun _ => False := by
    intro r
    cases r with
    | ok v => exact hrest v
    | error msg => trivial
  unfold handleRequest
  rw [hend]
  exact run_silent (hsilent _) _ _

theorem pop_calls (hpop : (∃ key direction, q.op = .queue (.popQueue key direction)) ∨
    ∃ key max, q.op = .rank (.popRank key max)) : (q.op.handle st c q.ns).Calls (PopCall st.engine c q) := by
  rcases hpop with ⟨key, direction, hop⟩ | ⟨key, max, hop⟩
  · rw [hop]
    show (popQueue st c q.ns key direction).Calls _
    unfold popQueue requireWrite requireAccess
    split
    · rename_i ha
      refine Calls.ofExcept_bind fun k hk => Calls.bind ?_ fun value => ?_
      · refine ⟨⟨ha, k, popCmd direction, ?_, rfl⟩, fun r => ?_⟩
        · have hk' : buildKey st.engine q.ns queuePrefix key = .ok k := hk
          simp only [popTarget, hop, hk']
        · cases r <;> trivial
      · split <;> trivial
    · exact ⟨trivial, fun _ => ⟨trivial, fun _ => trivial⟩⟩
  · rw [hop]
    show (popRank st c q.ns key max).Calls _
    unfold popRank requireWrite requireAccess
    split
    · rename_i ha
      refine Calls.ofExcept_bind fun k hk => Calls.bind ?_ fun result => ?_
      · refine ⟨⟨ha, k, .zpop max, ?_, rfl⟩, fun r => ?_⟩
        · have hk' : buildKey st.engine q.ns rankPrefix key = .ok k := hk
          simp only [popTarget, hop, hk']
        · cases r <;> trivial
      · split <;> trivial
    · exact ⟨trivial, fun _ => ⟨trivial, fun _ => trivial⟩⟩

/-! ### Changes of user data -/

/-- A key that users store, with any namespace. -/
def UserKey (engine : Engine) (k : String) : Prop :=
  ∃ ns, ∃ typePrefix ∈ storagePrefixes, ∃ key, parseKey engine k = some (ns, typePrefix, key)

theorem UserKey.not_internal {engine : Engine} {k : String} (h : UserKey engine k) : ¬ Internal k := by
  obtain ⟨ns, p, hp, key, hk⟩ := h
  exact Redgw.not_internal hp hk

/-- Some user key differs in existence, value or expiry, the books of groups apart. -/
def DataChanged (engine : Engine) (s t : Store) : Prop := ∃ k, UserKey engine k ∧ ¬ SameButGroups (s k) (t k)

/-- A request whose path the audit covers. -/
structure Auditable (st : Settings) (q : Request) : Prop where
  included : q.path ∉ st.audit.excludePaths
  noPublish : Text.occurs "/publish/".toList q.path.toList = false

theorem decideCapture_of_write {method path : String} (hw : methodWrites method = true)
    (hp : Text.occurs "/publish/".toList path.toList = false) : decideCapture method path 1 = true := by
  unfold decideCapture
  rw [if_neg Nat.one_ne_zero]
  dsimp only
  rw [hp, hw]
  cases "/api/v1/admin/".toList.isPrefixOf path.toList <;> rfl

theorem auditLines_eq (hlevel : st.audit.level = 1) (s : Store) :
    auditLines st R q s = (auditMiddleware st q.env q.scope none
      (behaviourOf q (handleRequest st R q s).1 (handleRequest st R q s).2.pending)).lines := by
  unfold auditLines auditOf
  rw [hlevel]
  rfl

/-- A request that is no successful pop and leaves not one line changes no user data. -/
theorem unaudited_same (hR : R.Lawful) (hlevel : st.audit.level = 1) (hq : Auditable st q) {s : Store}
    (hpop : ¬ PopsData st q s) (hline : (auditLines st R q s).length ≠ 1) :
    ¬ DataChanged st.engine s (serve st R q s).2 := by
  rintro ⟨k, hk, hne⟩
  have hi := hk.not_internal
  -- The request was not captured, so it came under GET.
  have hget : q.op.route.method = .GET := by
    by_contra hm
    refine hline ?_
    rw [auditLines_eq hlevel]
    refine lines_captured hq.included ?_
    rw [hlevel]
    refine decideCapture_of_write ?_ hq.noPublish
    show methodWrites (methodText q.op.route.method) = true
    cases hmethod : q.op.route.method with
    | GET => exact absurd hmethod hm
    | _ => decide
  refine hne ?_
  rcases get_use hget with hu | hp
  · refine serve_entry (T := SameButGroups) .refl (fun _ _ _ => .trans) hi
      (P := fun call => match call with | .redis cmd => Uses q.op.use cmd | _ => True) ?_ ?_ s
    · refine endpoint_calls (fun _ _ => trivial) (fun _ => trivial) fun c _ => ?_
      refine (q.op.within q.ns).mono fun call hcall => ?_
      cases call with
      | redis cmd => exact hcall.2.2
      | _ => trivial
    · intro cmd hcmd n u
      exact exec_gentle hR hu hcmd _ u k
  · by_cases hgo : ∃ c k cmd, q.client = some c ∧ checkAccess c q.ns "write" = true ∧
        popTarget st.engine q = some (k, cmd)
    · obtain ⟨c, k', cmd, hc, ha, ht⟩ := hgo
      have hsame : (R.onKey cmd (q.clock 0) (s k')).2 = s k' := by
        refine hR.popsNothing cmd (popTarget_key ht).2 _ _ fun x hx => ?_
        by_contra hpops
        exact hpop ⟨c, k', cmd, x, hc, ha, ht, hx, by simpa using hpops⟩
      have hbook : (serve st R q s).2 k = (handleRequest st R q s).2.store k := runCommands_ne bookkeeping_internal hi
      rw [hbook, pop_run hc ha ht, hsame, Store.set_same]
      exact .refl _
    · rw [serve_ne (P := fun _ => False) ?_ id hi]
      · exact .refl _
      · refine endpoint_calls (fun _ _ => trivial) (fun _ => trivial) fun c hc => ?_
        refine (pop_calls (c := c) hp).mono fun call hcall => ?_
        cases call with
        | redis cmd =>
          obtain ⟨ha, k', kc, ht, -⟩ := hcall
          exact absurd ⟨c, k', kc, hc, ha, ht⟩ hgo
        | _ => trivial

theorem pop_path_not_admin {k : String} {cmd : KeyCmd} (ht : popTarget st.engine q = some (k, cmd)) :
    "/api/v1/admin/".toList.isPrefixOf q.path.toList = false ∧ q.method = "GET" := by
  have hpath : q.path.toList = (Route.fillSegs q.op.route.segs (q.ns :: q.op.args)).flatMap fun t => '/' :: t.toList :=
    String.toList_ofList
  rw [hpath]
  unfold popTarget at ht
  unfold Request.method
  split at ht
  · rename_i hop
    rw [hop]
    exact ⟨rfl, rfl⟩
  · rename_i hop
    rw [hop]
    exact ⟨rfl, rfl⟩
  · cases ht

/-- A successful pop changes user data and leaves no line. -/
theorem pop_unaudited (hR : R.Lawful) (hlevel : st.audit.level = 1) (hq : Auditable st q) {s : Store}
    (hpop : PopsData st q s) :
    DataChanged st.engine s (serve st R q s).2 ∧ (auditLines st R q s).length ≠ 1 := by
  obtain ⟨c, k, cmd, x, hc, ha, ht, hx, hpops⟩ := hpop
  have hkey := (popTarget_key ht).1
  constructor
  · obtain ⟨p, hp, key, hparse⟩ := hkey.parse
    refine ⟨k, ⟨q.ns, p, hp, key, hparse⟩, ?_⟩
    have hbook : (serve st R q s).2 k = (handleRequest st R q s).2.store k :=
      runCommands_ne bookkeeping_internal hkey.not_internal
    have hstore : (handleRequest st R q s).2.store k = (R.onKey cmd (q.clock 0) (s k)).2 := by
      rw [pop_run hc ha ht]
      exact Store.set_self _ _ _
    rw [hbook, hstore]
    exact hR.popsElement cmd _ _ x hx hpops
  · obtain ⟨hadmin, hmethod⟩ := pop_path_not_admin ht
    have hdec : decideCapture q.method q.path 1 = false := by
      unfold decideCapture
      rw [if_neg Nat.one_ne_zero]
      dsimp only
      rw [hadmin, hq.noPublish, hmethod]
      decide
    have hscope : decideCapture q.scope.method q.scope.path st.audit.level = false := by
      rw [hlevel]
      exact hdec
    have hex : q.scope.path ∉ st.audit.excludePaths := hq.included
    rw [auditLines_eq hlevel, pop_run hc ha ht, Ne, lines_uncaptured hex hscope]
    -- The pop was permitted, so it leaves no refusal.
    rintro (h | ⟨event, errorCode, h⟩)
    · cases h
    · simp only [behaviourOf, List.cons_append, List.nil_append, List.mem_cons, reduceCtorEq, false_or] at h
      split at h <;> simp at h

/-! ### Runs -/

/-- Every request of a run satisfies `P` at the state in which it is served. -/
def EachStep (serve : Request → Store → Response × Store) (P : Request → Store → Prop) : List Request → Store → Prop
  | [], _ => True
  | q :: qs, s => P q s ∧ EachStep serve P qs (serve q s).2

theorem EachStep.congr {serve : Request → Store → Response × Store} {P Q : Request → Store → Prop}
    {qs : List Request} (h : ∀ q ∈ qs, ∀ s, P q s ↔ Q q s) (s : Store) :
    EachStep serve P qs s ↔ EachStep serve Q qs s := by
  induction qs generalizing s with
  | nil => exact Iff.rfl
  | cons q qs ih =>
    simp only [EachStep]
    rw [h q List.mem_cons_self s, ih (fun q' hq' => h q' (List.mem_cons_of_mem _ hq')) _]

/-- In a run at level 1, every request that changes user data leaves one line exactly when no request of
    the run is a pop that finds an element. -/
theorem changes_leave_lines (st : Settings) (R : Server) (hR : R.Lawful) (hlevel : st.audit.level = 1)
    (qs : List Request) (hqs : ∀ q ∈ qs, Auditable st q) (s : Store) :
    EachStep (serve st R)
      (fun q s => DataChanged st.engine s (serve st R q s).2 → (auditLines st R q s).length = 1) qs s ↔
    EachStep (serve st R) (fun q s => ¬ PopsData st q s) qs s := by
  refine EachStep.congr (fun q hq s => ?_) s
  constructor
  · intro h hpop
    obtain ⟨hchanged, hline⟩ := pop_unaudited hR hlevel (hqs q hq) hpop
    exact hline (h hchanged)
  · intro hpop hchanged
    by_contra hline
    exact unaudited_same hR hlevel (hqs q hq) hpop hline hchanged

def popRequest : Request := plainRequest appClient "app" (.queue (.popQueue "jobs" .left))

def pushRequest : Request := plainRequest appClient "app" (.queue (.pushQueue "jobs" ⟨"c", .right, none⟩))

/-- A list of two values. -/
def twoJobs : Store := Store.empty.set "app:q:jobs" (some ⟨.list ["a", "b"], none⟩)

/-- A push changes the list and leaves a line; with a pop after it a change is left without one. -/
theorem changes_leave_lines_pop :
    (serve {} reference pushRequest twoJobs).2 "app:q:jobs" = some ⟨.list ["a", "b", "c"], some 86400000⟩ ∧
    EachStep (serve {} reference) (fun q s => DataChanged .python s (serve {} reference q s).2 →
      (auditLines {} reference q s).length = 1) [pushRequest] twoJobs ∧
    ¬EachStep (serve {} reference) (fun q s => DataChanged .python s (serve {} reference q s).2 →
      (auditLines {} reference q s).length = 1) [pushRequest, popRequest] twoJobs := by
  have hpushed : (serve {} reference pushRequest twoJobs).2 "app:q:jobs" = some ⟨.list ["a", "b", "c"], some 86400000⟩ := by decide
  have hpush : ∀ s, ¬PopsData {} pushRequest s := by
    rintro s ⟨c, k, cmd, x, -, -, htarget, -⟩
    cases htarget
  have hauditable : Auditable {} pushRequest := ⟨by decide, by decide⟩
  refine ⟨hpushed, ?_, fun hlines => ?_⟩
  · refine (changes_leave_lines {} reference reference_lawful rfl [pushRequest] (fun q hq => ?_) twoJobs).mpr ⟨hpush _, trivial⟩
    rwa [List.mem_singleton.mp hq]
  · obtain ⟨-, hpop, -⟩ := (changes_leave_lines {} reference reference_lawful rfl [pushRequest, popRequest] (fun q hq => by
      rcases List.mem_pair.mp hq with rfl | rfl
      · exact hauditable
      · exact ⟨by decide, by decide⟩) twoJobs).mp hlines
    exact hpop ⟨appClient, "app:q:jobs", .lpop, _, rfl, by decide, rfl, congrArg (live 0) hpushed, by decide⟩

/-- A pop takes an element from a list, and no line says so. -/
theorem pop_leaves_no_line :
    popRequest.path ∉ ({} : Settings).audit.excludePaths ∧
    Text.occurs "/publish/".toList popRequest.path.toList = false ∧
    (serve {} reference popRequest (Store.empty.set "app:q:jobs" (some ⟨.list ["a", "b"], none⟩))).2 "app:q:jobs" =
      some ⟨.list ["b"], none⟩ ∧
    (auditLines {} reference popRequest (Store.empty.set "app:q:jobs" (some ⟨.list ["a", "b"], none⟩))).length = 0 := by
  refine ⟨by decide, by decide, ?_, ?_⟩
  · decide
  · decide

end Redgw
