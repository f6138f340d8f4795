import Redgw.Theorems.Isolation

/-! # Clients that may only read

A client without the write permission on a namespace leaves its data alone. Reading through consumer
groups moves their books, and creating a group at a missing key creates an empty stream there. -/

namespace Redgw
open Redis Prog Noninterference

/-! ### Entries -/

/-- An empty stream that does not expire, with any groups. -/
def EmptyStream (e : Option Entry) : Prop := ∃ gs, e = some ⟨.stream ⟨[], ⟨0, 0⟩, gs⟩, none⟩

/-- The entry is the same but for the books of groups, or it was missing at a time of `create` and is
    an empty stream now. -/
def Tame (create : Nat → Prop) (e e' : Option Entry) : Prop :=
  SameButGroups e e' ∨ (∃ now, create now ∧ live now e = none) ∧ EmptyStream e'

theorem Redis.SameButGroups.emptyStream {e e' : Option Entry} (h : SameButGroups e e') (he : EmptyStream e) :
    EmptyStream e' := by
  obtain ⟨gs, rfl⟩ := he
  cases e' with
  | none => exact h.elim
  | some y =>
    obtain ⟨hv, hd⟩ := h
    obtain ⟨v, d⟩ := y
    cases v with
    | stream x =>
      obtain ⟨entries, lastId, gs'⟩ := x
      obtain ⟨he, hl⟩ := hv
      simp only at he hl hd
      subst he hl hd
      exact ⟨gs', rfl⟩
    | _ => cases hv

theorem EmptyStream.live {e : Option Entry} (h : EmptyStream e) (now : Nat) : live now e ≠ none := by
  obtain ⟨gs, rfl⟩ := h
  intro h
  cases h

namespace Tame

theorem refl (create : Nat → Prop) (e : Option Entry) : Tame create e e := Or.inl (.refl e)

theorem trans {create : Nat → Prop} {a b c : Option Entry} (h₁ : Tame create a b) (h₂ : Tame create b c) :
    Tame create a c := by
  rcases h₁ with h₁ | ⟨hm, hb⟩
  · rcases h₂ with h₂ | ⟨⟨now, hnow, hl⟩, hc⟩
    · exact Or.inl (h₁.trans h₂)
    · exact Or.inr ⟨⟨now, hnow, h₁.live_none hl⟩, hc⟩
  · rcases h₂ with h₂ | ⟨⟨now, -, hl⟩, -⟩
    · exact Or.inr ⟨hm, h₂.emptyStream hb⟩
    · exact absurd hl (hb.live now)

theorem mono {create create' : Nat → Prop} (h : ∀ now, create now → create' now) {a b : Option Entry}
    (hab : Tame create a b) : Tame create' a b := by
  rcases hab with hab | ⟨⟨now, hnow, hl⟩, hb⟩
  · exact Or.inl hab
  · exact Or.inr ⟨⟨now, h now hnow, hl⟩, hb⟩

end Tame

/-! ### Commands that do not write -/

/-- The uses that leave data alone. -/
def Use.gentle (u : Use) : Prop := u = .reads ∨ u = .books

variable {R : Server}

theorem onKey_gentle (hR : R.Lawful) {u : Use} (hu : u.gentle) {c : KeyCmd} (hc : u.allows c = true) (now : Nat)
    (e : Option Entry) : SameButGroups e (R.onKey c now e).2 := by
  have hcases : c.reads = true ∨ c.books = true := by
    rcases hu with rfl | rfl
    · exact Or.inl hc
    · simpa [Use.allows] using hc
  rcases hcases with h | h
  · rw [hR.reads c h now e]
    exact .refl e
  · exact hR.books c h now e

theorem atKey_gentle (hR : R.Lawful) {u : Use} (hu : u.gentle) {c : KeyCmd} (hc : u.allows c = true) (now : Nat)
    (key : String) (s : Store) (k : String) : SameButGroups (s k) ((R.atKey key c now s).2 k) := by
  by_cases hk : k = key
  · subst hk
    simp only [Server.atKey, Store.set_self]
    exact onKey_gentle hR hu hc now (s k)
  · rw [Server.atKey_ne hk]
    exact .refl _

theorem transact_gentle (hR : R.Lawful) {u : Use} (hu : u.gentle) {cs : List (String × KeyCmd)}
    (hcs : ∀ x ∈ cs, u.allows x.2 = true) (now : Nat) (s : Store) (k : String) :
    SameButGroups (s k) ((R.transact now cs s).2 k) := by
  induction cs generalizing s with
  | nil => exact .refl _
  | cons x cs ih =>
    have h₁ := atKey_gentle hR hu (hcs x List.mem_cons_self) now x.1 s k
    exact h₁.trans (ih (fun y hy => hcs y (List.mem_cons_of_mem _ hy)) _)

theorem script_gentle (hR : R.Lawful) {u : Use} (hu : u.gentle) {body : Script}
    (hb : body.Calls fun c => u.allows c = true) (now : Nat) (e : Option Entry) :
    SameButGroups e (body.run (fun c now e => R.onKey c now e) (fun _ => now) e).2 :=
  run_keeps (fun e => .refl e) (fun _ _ _ h₁ h₂ => h₁.trans h₂) (fun _ hc _ e => onKey_gentle hR hu hc now e) hb e

theorem exec_gentle (hR : R.Lawful) {u : Use} (hu : u.gentle) {c : Cmd} (hc : Uses u c) (now : Nat) (s : Store)
    (k : String) : SameButGroups (s k) ((R.exec c now s).2 k) := by
  cases c with
  | «at» key c => exact atKey_gentle hR hu hc now key s k
  | eval key body =>
    by_cases hk : k = key
    · subst hk
      simp only [Server.exec, Server.runScript, Store.set_self]
      exact script_gentle hR hu hc now (s k)
    · rw [Server.exec_ne (by simpa [Cmd.keys] using hk)]
      exact .refl _
  | gather g keys => exact .refl _
  | del keys =>
    rcases hu with rfl | rfl <;> simp [Uses, Use.allows, KeyCmd.reads, KeyCmd.books] at hc
  | publish channel message => exact .refl _
  | multi cs => exact transact_gentle hR hu hc now s k

/-- `XGROUP CREATE` at a key. -/
theorem exec_create (hR : R.Lawful) {key group id : String} {mk : Bool} {create : Nat → Prop} {now : Nat}
    (hnow : create now) (s : Store) (k : String) (hk : k = key) :
    Tame create (s k) ((R.exec (.at key (.xgroupCreate group id mk)) now s).2 k) := by
  subst hk
  simp only [Server.exec, Server.atKey, Store.set_self]
  cases hl : live now (s k) with
  | some x => exact Or.inl (hR.create group id mk now (s k) (by simp [hl]))
  | none =>
    rcases hR.createNew group id mk now (s k) hl with h | ⟨gs, h⟩
    · rw [h]
      exact .refl _ _
    · exact Or.inr ⟨⟨now, hnow, hl⟩, gs, h⟩

/-! ### One request -/

/-- The request creates a group at this key of the namespace. -/
def CreatesAt (engine : Engine) (N k : String) (q : Request) : Prop :=
  q.ns = N ∧ ∃ key body, q.op = .event (.createGroup key body) ∧ buildKey engine N eventPrefix key = .ok k

theorem createGroup_calls (st : Settings) (c : ClientInfo) (ns key : String) (body : EventGroupCreateRequest) :
    (createGroup st c ns key body).Calls fun call => match call with
      | .redis cmd => ∃ k, buildKey st.engine ns eventPrefix key = .ok k ∧
          cmd = .at k (.xgroupCreate body.group "0" true)
      | _ => True := by
  unfold createGroup requireRead requireAccess
  split
  · refine Calls.ofExcept_bind fun k hk => ?_
    refine Calls.bind (Calls.catching ⟨⟨k, hk, rfl⟩, fun r => ?_⟩ fun e => ?_) fun _ => trivial
    · cases r <;> trivial
    · cases e with
      | redis msg =>
        dsimp only
        split <;> trivial
      | _ => trivial
  · exact ⟨trivial, fun _ => ⟨trivial, fun _ => trivial⟩⟩

theorem use_creates {o : Op} (h : o.use = .creates) : ∃ key body, o = .event (.createGroup key body) := by
  cases o with
  | event o => cases o <;> first | exact ⟨_, _, rfl⟩ | cases h
  | _ o => cases o <;> cases h

variable {st : Settings} {c : ClientInfo} {N : String}

/-- The calls of a request of the client on the namespace: without the write permission a handler reads,
    keeps books, or creates the group that the request asks for. -/
def Reader (st : Settings) (q : Request) : Call → Prop
  | .redis cmd => (∃ u : Use, u.gentle ∧ Uses u cmd) ∨
      ∃ key body k, q.op = .event (.createGroup key body) ∧ buildKey st.engine q.ns eventPrefix key = .ok k ∧
        cmd = .at k (.xgroupCreate body.group "0" true)
  | _ => True

theorem reader_calls {q : Request} (hq : q.client = some c) (hns : q.ns = N)
    (hw : checkAccess c N "write" = false) : (endpoint st q.client q.ns q.op).Calls (Reader st q) := by
  refine endpoint_calls (fun _ _ => trivial) (fun _ => trivial) fun c' hc' => ?_
  rw [hq] at hc'
  cases hc'
  have hwithin : (q.op.handle st c q.ns).Calls (Within st c q.ns q.op.use) := q.op.within q.ns
  have gentle : ∀ u : Use, u.gentle → ∀ call, Within st c q.ns u call → Reader st q call := by
    intro u hu call hcall
    cases call with
    | redis cmd => exact Or.inl ⟨u, hu, hcall.2.2⟩
    | setPendingEvent => trivial
    | fireMetric => trivial
  cases hu : q.op.use with
  | writes =>
    refine (hu ▸ hwithin).mono fun call hcall => ?_
    cases call with
    | redis cmd => exact absurd hcall.1 (by rw [hns]; simp [Use.operation, hw])
    | setPendingEvent => trivial
    | fireMetric => trivial
  | reads => exact (hu ▸ hwithin).mono (gentle _ (Or.inl rfl))
  | books => exact (hu ▸ hwithin).mono (gentle _ (Or.inr rfl))
  | creates =>
    obtain ⟨key, body, hop⟩ := use_creates hu
    have hhandle : q.op.handle st c q.ns = createGroup st c q.ns key body := by
      rw [hop]
      rfl
    rw [hhandle]
    refine (createGroup_calls st c q.ns key body).mono fun call hcall => ?_
    cases call with
    | redis cmd =>
      obtain ⟨k, hk, hcmd⟩ := hcall
      exact Or.inr ⟨key, body, k, hop, hk, hcmd⟩
    | setPendingEvent => trivial
    | fireMetric => trivial

/-- A request of the client changes a key of the namespace tamely. -/
theorem serve_tame (hR : R.Lawful) (hw : checkAccess c N "write" = false) {q : Request} (hq : q.client = some c)
    (s : Store) {k : String} (hk : InNs st.engine N k) (hi : ¬ Internal k) :
    Tame (fun now => CreatesAt st.engine N k q ∧ ∃ n, now = q.clock n) (s k) ((serve st R q s).2 k) := by
  by_cases hns : q.ns = N
  · refine serve_entry (T := Tame _) (fun _ => .refl _ _) (fun _ _ _ => Tame.trans) hi (reader_calls hq hns hw) ?_ s
    rintro cmd (⟨u, hu, hcmd⟩ | ⟨key, body, k', hop, hk', rfl⟩) n s'
    · exact Or.inl (exec_gentle hR hu hcmd _ s' k)
    · by_cases hkk : k = k'
      · subst hkk
        exact exec_create hR ⟨⟨hns, key, body, hop, hns ▸ hk'⟩, n, rfl⟩ s' k rfl
      · rw [Server.exec_ne (by simpa [Cmd.keys] using hkk)]
        exact .refl _ _
  · -- The handler reaches keys of another namespace.
    rw [serve_ne (endpoint_reaches st q.client q.ns q.op) (fun h => (h.view hns).1 hk) hi]
    exact .refl _ _

/-! ### Runs -/

/-- Requests of a client without the write permission keep every key of the namespace, its value and
    its expiry. What may change are the books of groups in the streams that are there; and where a
    request creates a group at a key that is missing, an empty stream that does not expire appears. -/
theorem readers_keep_data (st : Settings) (R : Server) (hR : R.Lawful) (c : ClientInfo) (N : String)
    (hw : checkAccess c N "write" = false) (qs : List Request) (hqs : ∀ q ∈ qs, q.client = some c) (s : Store)
    (k : String) (hk : InNs st.engine N k) (hi : ¬ Internal k) :
    Tame (fun now => ∃ q ∈ qs, CreatesAt st.engine N k q ∧ ∃ n, now = q.clock n) (s k)
      (final (serve st R) qs s k) := by
  induction qs generalizing s with
  | nil => exact .refl _ _
  | cons q qs ih =>
    have hstep : Tame _ (s k) ((serve st R q s).2 k) := serve_tame hR hw (hqs q List.mem_cons_self) s hk hi
    have hrest := ih (fun q' hq' => hqs q' (List.mem_cons_of_mem _ hq')) (serve st R q s).2
    refine Tame.trans (hstep.mono fun now h => ⟨q, List.mem_cons_self, h⟩) (hrest.mono ?_)
    rintro now ⟨q', hq', h⟩
    exact ⟨q', List.mem_cons_of_mem _ hq', h⟩

theorem readers_keep_data_reader :
    Tame (fun now => ∃ q ∈ [plainRequest readOnlyClient "app" (.kv (.deleteKv "x"))],
        CreatesAt .python "app" "app:kv:x" q ∧ ∃ n, now = q.clock n)
      (Store.empty.set "app:kv:x" (some ⟨.str "1", none⟩) "app:kv:x")
      (final (serve {} reference) [plainRequest readOnlyClient "app" (.kv (.deleteKv "x"))]
        (Store.empty.set "app:kv:x" (some ⟨.str "1", none⟩)) "app:kv:x") := by
  have hparse : parseKey .python "app:kv:x" = some ("app", "kv", "x") := by decide
  refine readers_keep_data {} reference reference_lawful readOnlyClient "app" (by decide) _ ?_ _ "app:kv:x"
    ⟨"kv", "x", hparse⟩ (not_internal (by decide) hparse)
  intro q hq
  rw [List.mem_singleton.mp hq]
  rfl

/-- A client that may only read makes a stream by creating a group at a missing key; and any request of it
    raises a counter, a key of the namespace `redgw`. -/
theorem reader_creates_stream :
    checkAccess readOnlyClient "app" "write" = false ∧
    parseKey ({} : Settings).engine "app:evt:jobs" = some ("app", "evt", "jobs") ∧
    (serve {} reference (plainRequest readOnlyClient "app" (.event (.createGroup "jobs" ⟨"workers"⟩)))
      Store.empty).2 "app:evt:jobs" ≠ Store.empty "app:evt:jobs" ∧
    checkAccess readOnlyClient "redgw" "write" = false ∧
    parseKey ({} : Settings).engine "redgw:metrics:total_requests" = some ("redgw", "metrics", "total_requests") ∧
    (serve {} reference (plainRequest readOnlyClient "app" (.event (.createGroup "jobs" ⟨"workers"⟩)))
      Store.empty).2 "redgw:metrics:total_requests" ≠ Store.empty "redgw:metrics:total_requests" := by
  refine ⟨by decide, by decide, ?_, by decide, by decide, ?_⟩
  · decide
  · decide

end Redgw
