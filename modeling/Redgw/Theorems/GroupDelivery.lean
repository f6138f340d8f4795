import Redgw.Delivery
import Redgw.Lib.Cursor
import Redgw.Redis.Groups
import Redgw.Theorems.Executions
import Redgw.Theorems.KeyCodec
import Redgw.Theorems.Linearizable
import Redgw.Theorems.Paging
import Redgw.Theorems.Reach

/-! # Delivery to consumer groups

However publishers and consumers are served side by side, the events of a stream are handed to a group in their order,
and none of them twice, whichever consumers ask and however many. The group misses only what the stream has dropped. -/

namespace Redgw
open Redis Prog Pool

/-! ### What is published and what is handed out -/

/-- The event that a call adds to the stream. -/
def addedEvent (R : Server) (k : String) (x : Prog.Step Call Nat Store) : Option Json :=
  match x.call with
  | .redis (.at k' (.xadd fields maxlen)) =>
    if k' = k then
      match (R.onKey (.xadd fields maxlen) x.env (x.before k)).1 with
      | .ok v => some (eventOf (.arr [v, .obj (fields.map fun f => (f.1, .str f.2))]))
      | .error _ => none
    else none
  | _ => none

def added (R : Server) (k : String) (log : List (Prog.Step Call Nat Store)) : List Json := log.filterMap (addedEvent R k)

/-- The events in a reply of XREADGROUP, as `read_group` collects them. -/
def groupEvents (v : Json) : List Json := (v.items.flatMap fun stream => (stream.nth 1).items).map eventOf

/-- The events that a call hands to the group. -/
def handedEvents (R : Server) (k group : String) (x : Prog.Step Call Nat Store) : List Json :=
  match x.call with
  | .redis (.at k' (.xreadgroup group' consumer count)) =>
    if k' = k ∧ group' = group then
      match (R.onKey (.xreadgroup group' consumer count) x.env (x.before k)).1 with
      | .ok v => groupEvents v
      | .error _ => []
    else []
  | _ => []

def handed (R : Server) (k group : String) (log : List (Prog.Step Call Nat Store)) : List Json :=
  log.flatMap (handedEvents R k group)

/-- The events that the stream still has. -/
def remainingEvents (s : Store) (k : String) : List Json :=
  match s k with
  | some ⟨.stream x, _⟩ => x.entries.map eventJson
  | _ => []

/-- The commands that streams are used with: none of them takes the stream away or gives it a lifetime. -/
def Streaming : KeyCmd → Prop
  | .xadd .. | .xreadgroup .. | .xack .. => True
  | .xgroupCreate _ id mkstream => id = "0" ∧ mkstream = true
  | c => c.reads = true

/-- The call uses the key as a stream, or leaves it alone. -/
def StreamCall (k : String) : Call → Prop
  | .redis (.at k' c) => k' = k → Streaming c
  | .redis c => k ∉ c.keys ∨ Uses .reads c
  | _ => True

/-! ### The stream and the group -/

/-- All events that there were, with the place of the group among them. -/
structure Shared (R : Server) (k group : String) (t : Store × List (Prog.Step Call Nat Store)) (x : Stream)
    (r : Cursor.Reading Item) : Prop where
  entry : t.1 k = none ∧ x = .empty ∨ t.1 k = some ⟨.stream x, none⟩
  kept : x.entries = r.kept
  increasing : r.log.Pairwise fun a b => a.1.lt b.1 = true
  positive : ∀ y ∈ r.log, (StreamId.mk 0 0).lt y.1 = true
  last : ∀ y ∈ r.log, y.1 = x.lastId ∨ y.1.lt x.lastId = true
  added : added R k t.2 = r.log.map eventJson
  handed : handed R k group t.2 = r.got.map eventJson
  cursor : cursorOf group x = none ∧ r.pos = 0 ∨ cursorOf group x = some (cursorAfter ⟨0, 0⟩ (r.log.take r.pos))

section Shared
variable {R : Server} {k group : String} {t : Store × List (Prog.Step Call Nat Store)} {x : Stream} {r : Cursor.Reading Item}

theorem lt_of_lt_zero {a b : StreamId} (h : a.lt b = true) : (StreamId.mk 0 0).lt b = true := by
  rw [StreamId.lt_iff] at h ⊢
  simp only
  omega

theorem Shared.kind (h : Shared R k group t x r) : HasKind .stream (t.1 k) := by
  intro e he
  rcases h.entry with ⟨hnone, -⟩ | hsome
  · rw [hnone] at he
    cases he
  · rw [hsome] at he
    cases he
    rfl

theorem Shared.found (h : Shared R k group t x r) (now : Nat) : streamOf now (t.1 k) = x ∧ deadlineOf now (t.1 k) = none := by
  rcases h.entry with ⟨hnone, rfl⟩ | hsome
  · rw [hnone]
    exact ⟨rfl, rfl⟩
  · have hlive : live now (t.1 k) = some ⟨.stream x, none⟩ := by
      rw [hsome]
      exact live_iff.mpr nofun
    unfold streamOf deadlineOf
    rw [hlive]
    exact ⟨rfl, rfl⟩

/-- A call that leaves the stream alone. -/
theorem Shared.still (h : Shared R k group t x r) {c : Call} {now : Nat} (hkey : (execStore R c now t.1).2 k = t.1 k)
    (hadded : addedEvent R k ⟨c, now, t.1⟩ = none) (hhanded : handedEvents R k group ⟨c, now, t.1⟩ = []) :
    Shared R k group (Pool.logged (execStore R) c now t).2 x r where
  entry := by
    show (execStore R c now t.1).2 k = none ∧ _ ∨ (execStore R c now t.1).2 k = _
    rw [hkey]
    exact h.entry
  kept := h.kept
  increasing := h.increasing
  positive := h.positive
  last := h.last
  added := by
    show Redgw.added R k (t.2 ++ [_]) = _
    rw [Redgw.added, List.filterMap_append, List.filterMap_cons_none hadded, List.filterMap_nil, List.append_nil]
    exact h.added
  handed := by
    show Redgw.handed R k group (t.2 ++ [_]) = _
    rw [Redgw.handed, List.flatMap_append, List.flatMap_singleton, hhanded, List.append_nil]
    exact h.handed
  cursor := h.cursor

/-- The stream is the same but for its books, and the group is where it was. -/
theorem Shared.keep (h : Shared R k group t x r) {c : Call} {now : Nat} {x' : Stream}
    (hkey : (execStore R c now t.1).2 k = some ⟨.stream x', none⟩) (hentries : x'.entries = x.entries)
    (hlast : x'.lastId = x.lastId) (hadded : addedEvent R k ⟨c, now, t.1⟩ = none)
    (hhanded : handedEvents R k group ⟨c, now, t.1⟩ = [])
    (hcursor : cursorOf group x' = none ∧ r.pos = 0 ∨ cursorOf group x' = some (cursorAfter ⟨0, 0⟩ (r.log.take r.pos))) :
    Shared R k group (Pool.logged (execStore R) c now t).2 x' r where
  entry := Or.inr hkey
  kept := hentries.trans h.kept
  increasing := h.increasing
  positive := h.positive
  last := by
    rw [hlast]
    exact h.last
  added := by
    show Redgw.added R k (t.2 ++ [_]) = _
    rw [Redgw.added, List.filterMap_append, List.filterMap_cons_none hadded, List.filterMap_nil, List.append_nil]
    exact h.added
  handed := by
    show Redgw.handed R k group (t.2 ++ [_]) = _
    rw [Redgw.handed, List.flatMap_append, List.flatMap_singleton, hhanded, List.append_nil]
    exact h.handed
  cursor := hcursor

/-- A new event goes to the end, and the stream may lose some of its oldest. -/
theorem Shared.add (h : Shared R k group t x r) {c : Call} {now : Nat} {id : StreamId} {fields : List (String × String)} {n : Nat}
    (hkey : (execStore R c now t.1).2 k =
      some ⟨.stream { x with entries := (x.entries ++ [(id, fields)]).drop n, lastId := id }, none⟩)
    (hnew : x.lastId.lt id = true) (hadded : addedEvent R k ⟨c, now, t.1⟩ = some (eventJson (id, fields)))
    (hhanded : handedEvents R k group ⟨c, now, t.1⟩ = []) :
    Shared R k group (Pool.logged (execStore R) c now t).2
      { x with entries := (x.entries ++ [(id, fields)]).drop n, lastId := id } ((r.append (id, fields)).trim n) := by
  have hlater : ∀ y ∈ r.log, y.1.lt id = true := by
    intro y hy
    rcases h.last y hy with heq | hlt
    · rwa [heq]
    · exact StreamId.lt_trans hlt hnew
  exact {
    entry := Or.inr hkey
    kept := by rw [Cursor.Reading.kept_trim, Cursor.Reading.kept_append, h.kept]
    increasing := List.pairwise_append.mpr ⟨h.increasing, List.pairwise_singleton _ _, fun y hy z hz => by
      rw [List.mem_singleton.mp hz]
      exact hlater y hy⟩
    positive := fun y hy => by
      rcases List.mem_append.mp hy with hy | hy
      · exact h.positive y hy
      · rw [List.mem_singleton.mp hy]
        exact lt_of_lt_zero hnew
    last := fun y hy => by
      rcases List.mem_append.mp hy with hy | hy
      · exact Or.inr (hlater y hy)
      · exact Or.inl (by rw [List.mem_singleton.mp hy])
    added := by
      show Redgw.added R k (t.2 ++ [_]) = (r.log ++ [(id, fields)]).map eventJson
      rw [Redgw.added, List.filterMap_append, List.filterMap_cons_some hadded, List.filterMap_nil, List.map_append]
      exact congrArg (· ++ _) h.added
    handed := by
      show Redgw.handed R k group (t.2 ++ [_]) = _
      rw [Redgw.handed, List.flatMap_append, List.flatMap_singleton, hhanded, List.append_nil]
      exact h.handed
    cursor := by
      show cursorOf group x = none ∧ r.pos = 0 ∨ cursorOf group x = some (cursorAfter ⟨0, 0⟩ ((r.log ++ [(id, fields)]).take r.pos))
      rw [List.take_append_of_le_length r.pos_le]
      exact h.cursor }

/-- The cursor of the group tells the events before its place from those after it. -/
theorem Shared.unread (h : Shared R k group t x r) {last : StreamId} (hlast : cursorOf group x = some last) (count : Int) :
    last = cursorAfter ⟨0, 0⟩ (r.log.take r.pos) ∧ Redis.unread last count x = r.next count.toNat := by
  have hcursor : last = cursorAfter ⟨0, 0⟩ (r.log.take r.pos) := by
    rcases h.cursor with ⟨hnone, -⟩ | hsome
    · rw [hnone] at hlast
      cases hlast
    · rw [hsome] at hlast
      exact (Option.some.inj hlast).symm
  have hplace : (∀ y ∈ r.log.take r.pos, last.lt y.1 = false) ∧ ∀ y ∈ r.log.drop r.pos, last.lt y.1 = true := by
    rw [hcursor]
    unfold cursorAfter
    cases hend : (r.log.take r.pos).getLast? with
    | none =>
      rw [List.getLast?_eq_none_iff.mp hend]
      exact ⟨fun y hy => (by cases hy), fun y hy => h.positive y (List.mem_of_mem_drop hy)⟩
    | some y =>
      obtain ⟨front, hfront⟩ := List.getLast?_eq_some_iff.mp hend
      have hincreasing := h.increasing
      rw [← List.take_append_drop r.pos r.log, hfront] at hincreasing
      obtain ⟨hread, -, hcross⟩ := List.pairwise_append.mp hincreasing
      refine ⟨fun z hz => ?_, fun z hz => hcross y (List.mem_append_right _ List.mem_cons_self) z hz⟩
      rw [hfront] at hz
      rcases List.mem_append.mp hz with hz | hz
      · exact StreamId.not_lt_of_lt ((List.pairwise_append.mp hread).2.2 z hz y List.mem_cons_self)
      · rw [List.mem_singleton.mp hz]
        exact StreamId.not_lt_self _
  refine ⟨hcursor, ?_⟩
  unfold Redis.unread
  rw [h.kept, r.filter_kept hplace.1 hplace.2]
  rfl

theorem groupEvents_reply (name : Json) (page : List Item) : groupEvents (groupReply name page) = page.map eventJson := by
  cases page with
  | nil => rfl
  | cons y ys =>
    show (((y :: ys).map entryJson) ++ []).map eventOf = _
    rw [List.append_nil, List.map_map]
    rfl

/-- The group is given its next page, and goes to the end of it. -/
theorem Shared.turn (h : Shared R k group t x r) {c : Call} {now : Nat} (count : Int) {last : StreamId} {x' : Stream}
    (hlast : cursorOf group x = some last) (hkey : (execStore R c now t.1).2 k = some ⟨.stream x', none⟩)
    (hentries : x'.entries = x.entries) (hid : x'.lastId = x.lastId) (hadded : addedEvent R k ⟨c, now, t.1⟩ = none)
    (hhanded : handedEvents R k group ⟨c, now, t.1⟩ = (Redis.unread last count x).map eventJson)
    (hcursor : cursorOf group x' = some (cursorAfter last (Redis.unread last count x))) :
    ∃ r', Shared R k group (Pool.logged (execStore R) c now t).2 x' r' := by
  obtain ⟨hplace, hunread⟩ := h.unread hlast count
  rw [hunread] at hhanded hcursor
  cases hpage : r.next count.toNat with
  | nil =>
    rw [hpage] at hhanded hcursor
    exact ⟨r, h.keep hkey hentries hid hadded hhanded (Or.inr (hcursor.trans (congrArg some hplace)))⟩
  | cons y ys =>
    refine ⟨r.turn count.toNat, Or.inr hkey, hentries.trans h.kept, h.increasing, h.positive, ?_, ?_, ?_, Or.inr ?_⟩
    · rw [hid]
      exact h.last
    · show Redgw.added R k (t.2 ++ [_]) = _
      rw [Redgw.added, List.filterMap_append, List.filterMap_cons_none hadded, List.filterMap_nil, List.append_nil]
      exact h.added
    · show Redgw.handed R k group (t.2 ++ [_]) = (r.got ++ r.next count.toNat).map eventJson
      rw [Redgw.handed, List.flatMap_append, List.flatMap_singleton, hhanded, List.map_append]
      exact congrArg (· ++ _) h.handed
    · rw [hcursor]
      show _ = some (cursorAfter ⟨0, 0⟩ (r.log.take (max r.gone r.pos + (r.next count.toNat).length)))
      rw [Cursor.Reading.take_next, hpage]
      simp [cursorAfter, List.getLast?_cons]

/-! ### Calls -/

theorem addedEvent_reads {k' : String} {c : KeyCmd} (hc : k' = k → c.reads = true) (now : Nat) (s : Store) :
    addedEvent R k ⟨.redis (.at k' c), now, s⟩ = none ∧ handedEvents R k group ⟨.redis (.at k' c), now, s⟩ = [] := by
  by_cases hk : k' = k
  · have hread := hc hk
    cases c <;> first | exact ⟨rfl, rfl⟩ | cases hread
  · cases c <;> first | exact ⟨rfl, rfl⟩ | simp [addedEvent, handedEvents, hk]

/-- A call that is not for the stream. -/
theorem Shared.step_other (hR : R.Lawful) (h : Shared R k group t x r) (hk : ¬Own k) {c : Call} (hc : StreamCall k c)
    (hone : ∀ c', c ≠ .redis (.at k c')) (now : Nat) : Shared R k group (Pool.logged (execStore R) c now t).2 x r := by
  cases c with
  | setPendingEvent event errorCode => exact h.still rfl rfl rfl
  | fireMetric reason => exact h.still (agree_fireMetric reason now t.1 k hk) rfl rfl
  | redis c =>
    have hquiet : ∀ c : Cmd, k ∉ c.keys ∨ Uses .reads c → (R.exec c now t.1).2 k = t.1 k := by
      rintro c (hnot | hreads)
      · exact Server.exec_ne hnot
      · exact congrFun (exec_reads hR hreads now t.1) k
    cases c with
    | «at» k' c =>
      have hne : k' ≠ k := fun he => hone c (he ▸ rfl)
      have hreads : k' = k → c.reads = true := fun he => absurd he hne
      obtain ⟨hadded, hhanded⟩ := @addedEvent_reads R k group k' c hreads now t.1
      exact h.still (Server.atKey_ne (Ne.symm hne)) hadded hhanded
    | gather g keys => exact h.still rfl rfl rfl
    | publish channel message => exact h.still rfl rfl rfl
    | eval key body => exact h.still (hquiet (.eval key body) hc) rfl rfl
    | del keys => exact h.still (hquiet (.del keys) hc) rfl rfl
    | multi cs => exact h.still (hquiet (.multi cs) hc) rfl rfl

/-- A call leaves all that the stream has had, and the group in it. -/
theorem Shared.step (hR : R.Lawful) (hS : R.Streams) (hG : R.Groups) (hk : ¬Own k) (h : Shared R k group t x r) {c : Call}
    (hc : StreamCall k c) (now : Nat) : ∃ x' r', Shared R k group (Pool.logged (execStore R) c now t).2 x' r' := by
  by_cases hone : ∃ c', c = .redis (.at k c')
  · obtain ⟨c, rfl⟩ := hone
    have hcmd : Streaming c := hc rfl
    obtain ⟨hstream, hdeadline⟩ := h.found now
    have hat : (execStore R (.redis (.at k c)) now t.1).2 k = (R.onKey c now (t.1 k)).2 := Server.atKey_self k c now t.1
    cases c with
    | xadd fields maxlen =>
      rcases hS.xadd fields maxlen now (t.1 k) h.kind with ⟨msg, hrefused⟩ | ⟨id, n, hnew, -, hdone⟩
      · exact ⟨x, r, h.still (by rw [hat, hrefused]) (by simp [addedEvent, hrefused]) rfl⟩
      · rw [hstream, hdeadline] at hdone
        rw [hstream] at hnew
        exact ⟨_, _, h.add (hat.trans (by rw [hdone])) hnew (by simp [addedEvent, hdone, eventJson, entryJson]) rfl⟩
    | xgroupCreate group' id mkstream =>
      obtain ⟨rfl, rfl⟩ := hcmd
      rcases hG.create group' now (t.1 k) h.kind with ⟨msg, hrefused⟩ | ⟨hnone, x', hentries, hlast, hcursor, hdone⟩
      · exact ⟨x, r, h.still (by rw [hat, hrefused]) rfl rfl⟩
      · rw [hstream, hdeadline] at *
        refine ⟨x', r, h.keep (hat.trans (by rw [hdone])) hentries hlast rfl rfl ?_⟩
        rw [hcursor]
        by_cases hgroup : group = group'
        · subst hgroup
          have hpos : r.pos = 0 := by
            rcases h.cursor with ⟨-, hpos⟩ | hsome
            · exact hpos
            · rw [hnone] at hsome
              cases hsome
          rw [if_pos rfl, hpos]
          exact Or.inr rfl
        · rw [if_neg hgroup]
          exact h.cursor
    | xreadgroup group' consumer count =>
      rcases hG.read group' consumer count now (t.1 k) h.kind with
        ⟨msg, hrefused⟩ | ⟨last, name, x', hlast, hentries, hid, hcursor, hdone⟩
      · exact ⟨x, r, h.still (by rw [hat, hrefused]) rfl (by simp [handedEvents, hrefused])⟩
      · rw [hstream] at hlast hentries hid hcursor hdone
        rw [hdeadline] at hdone
        have hkey := hat.trans (congrArg Prod.snd hdone)
        by_cases hgroup : group = group'
        · subst hgroup
          refine ⟨x', h.turn count hlast hkey hentries hid rfl ?_ ?_⟩
          · simp [handedEvents, hdone, groupEvents_reply]
          · rw [hcursor, if_pos rfl]
        · refine ⟨x', r, h.keep hkey hentries hid rfl ?_ ?_⟩
          · simp [handedEvents, Ne.symm hgroup]
          · rw [hcursor, if_neg hgroup]
            exact h.cursor
    | xack group' ids =>
      rcases hG.ack group' ids now (t.1 k) h.kind with hsame | ⟨x', hentries, hlast, hcursor, hdone⟩
      · exact ⟨x, r, h.still (hat.trans hsame) rfl rfl⟩
      · rw [hstream] at hentries hlast hcursor
        rw [hdeadline] at hdone
        refine ⟨x', r, h.keep (hat.trans hdone) hentries hlast rfl rfl ?_⟩
        rw [hcursor]
        exact h.cursor
    | _ =>
      obtain ⟨hadded, hhanded⟩ := @addedEvent_reads R k group k _ (fun _ => hcmd) now t.1
      exact ⟨x, r, h.still (hat.trans (by rw [hR.reads _ hcmd])) hadded hhanded⟩
  · exact ⟨x, r, h.step_other hR hk hc (fun c' he => hone ⟨c', he⟩) now⟩

end Shared

/-! ### Jobs that leave the stream in its place -/

/-- The request does not delete the stream, nor does it give it a lifetime. -/
def Op.leaves (key : String) : Op → Bool
  | .event (.deleteEvent key') | .event (.touchEvent key' _) => decide (key' ≠ key)
  | _ => true

def Job.leaves (ns key : String) : Job → Bool
  | .data q => decide (q.ns ≠ ns) || q.op.leaves key
  | .admin q => q.op.watches
  | .statusTick _ => true

section Jobs
variable {st : Settings} {ns key k : String}

theorem StreamCall.of_reaches {c : Call} {P : String → Prop} (h : Reaches P c) (hP : ∀ k', P k' → k' ≠ k) : StreamCall k c := by
  cases c with
  | redis c =>
    have hnot : k ∉ c.keys := fun hk => hP k (h k hk) rfl
    cases c with
    | «at» k' c => exact fun he => absurd (List.mem_singleton.mpr he.symm) hnot
    | _ => exact Or.inl hnot
  | _ => trivial

theorem Streaming.of_reads {c : KeyCmd} (h : c.reads = true) : Streaming c := by
  cases c <;> first | exact h | cases h

theorem StreamCall.of_reads {c : Call} (h : c.Reads) : StreamCall k c := by
  cases c with
  | redis c =>
    have hreads : Uses .reads c := h c rfl
    cases c with
    | «at» k' c => exact fun _ => .of_reads hreads
    | _ => exact Or.inr hreads
  | _ => trivial

theorem streamCall_redis {k' : String} {c : KeyCmd} (h : k' = k → Streaming c) : (redis k' c).Calls (StreamCall k) := calls_redis h

theorem EventOp.streamCalls {client : ClientInfo} {o : EventOp} (hk : buildKey st.engine ns eventPrefix key = .ok k)
    (ho : (Op.event o).leaves key = true) : (o.handle st client ns).Calls (StreamCall k) := by
  have hguard : ∀ {operation : String} {f : Unit → Handler Json}, (f ()).Calls (StreamCall k) →
      ((requireAccess client ns operation).bind f).Calls (StreamCall k) := fun hf =>
    calls_guard (fun _ _ => trivial) (fun _ => trivial) fun _ => hf
  have hother : ∀ {key' k' : String}, decide (key' ≠ key) = true → buildKey st.engine ns eventPrefix key' = .ok k' → k' ≠ k := by
    rintro key' k' hne hk' rfl
    exact of_decide_eq_true hne (built_inj (by decide) (by decide) hk' hk).2.2
  cases o with
  | batchPublishEvent key' body =>
    refine hguard (Calls.bind (Calls.forM (fun _ => calls_ofExcept _ _) _) fun _ => Calls.ofExcept_bind fun k' _ => ?_)
    refine Calls.bind (calls_pipeline fun x hx => ?_) fun _ => trivial
    obtain ⟨evt, -, rfl⟩ := List.mem_map.mp hx
    exact fun _ => trivial
  | publishEvent key' body =>
    refine hguard (Calls.ofExcept_bind fun _ _ => Calls.ofExcept_bind fun k' _ => ?_)
    exact Calls.bind (streamCall_redis fun _ => trivial) fun _ => trivial
  | readEvents key' lastId count =>
    refine hguard (Calls.ofExcept_bind fun k' _ => ?_)
    cases streamIdRe lastId
    · trivial
    · exact Calls.bind (streamCall_redis fun _ => rfl) fun _ => trivial
  | createGroup key' body =>
    refine hguard (Calls.ofExcept_bind fun k' _ => ?_)
    refine Calls.bind (calls_exceptResponseError (streamCall_redis fun _ => ⟨rfl, rfl⟩) fun msg => ?_) fun _ => trivial
    split <;> trivial
  | readGroup key' group consumer count =>
    refine hguard (Calls.ofExcept_bind fun k' _ => ?_)
    refine Calls.bind (calls_exceptResponseError (streamCall_redis fun _ => trivial) fun msg => ?_) fun _ => trivial
    split <;> trivial
  | ackEvents key' group body =>
    refine hguard (Calls.bind (Calls.forM (fun sid => ?_) _) fun _ => ?_)
    · split <;> trivial
    · exact Calls.ofExcept_bind fun k' _ => Calls.bind (streamCall_redis fun _ => trivial) fun _ => trivial
  | streamInfo key' =>
    refine hguard (Calls.ofExcept_bind fun k' _ => ?_)
    refine Calls.bind (calls_exceptResponseError (streamCall_redis fun _ => rfl) fun _ => trivial) fun _ => ?_
    exact Calls.bind (calls_exceptResponseError (streamCall_redis fun _ => rfl) fun _ => trivial) fun _ => trivial
  | deleteEvent key' =>
    refine hguard (Calls.ofExcept_bind fun k' hk' => Calls.bind (streamCall_redis fun he => absurd he (hother ho hk')) fun deleted => ?_)
    split <;> trivial
  | touchEvent key' body =>
    refine hguard (Calls.ofExcept_bind fun k' hk' => Calls.bind (calls_pipeline fun x hx => ?_) fun _ => ?_)
    · have hx : x.1 = k' := by
        simp only [List.mem_cons, List.not_mem_nil, or_false] at hx
        rcases hx with rfl | rfl | rfl <;> rfl
      exact fun he => absurd (hx.symm.trans he) (hother ho hk')
    · split <;> trivial

/-- A request for another type or another namespace has other keys. -/
theorem Op.streamCalls {client : ClientInfo} {ns' : String} {o : Op} (hk : buildKey st.engine ns eventPrefix key = .ok k)
    (ho : ns' ≠ ns ∨ o.leaves key = true) : (o.handle st client ns').Calls (StreamCall k) := by
  by_cases hevent : ns' = ns ∧ o.typePrefix = some eventPrefix
  · obtain ⟨rfl, hprefix⟩ := hevent
    cases o with
    | event o => exact EventOp.streamCalls hk (ho.resolve_left (absurd rfl))
    | pubsub o => cases hprefix
    | _ => exact absurd (Option.some.inj hprefix) (by decide)
  · exact (Op.reaches_other (by decide) hk hevent).mono fun c hc => .of_reaches hc fun _ => id

theorem Job.streamCalls {j : Job} (hk : buildKey st.engine ns eventPrefix key = .ok k) (hj : j.leaves ns key = true) :
    (j.program st).CallsOn (fun _ _ => True) (StreamCall k) := by
  have hown : ¬Own k := KeyOf.not_own ⟨eventPrefix, by decide, key, hk⟩
  have hbook : ∀ k' c, BookWrite k' c → StreamCall k (.redis (.at k' c)) := fun k' c hc he =>
    absurd (he ▸ (OwnWrite.book hc).own) hown
  cases j with
  | data q =>
    refine CallsOn.bind (served_callsOn (Calls.on ?_) hbook) fun _ => trivial
    refine endpoint_calls (fun _ _ => trivial) (fun _ => trivial) fun client _ => ?_
    rw [Job.leaves, Bool.or_eq_true, decide_eq_true_iff] at hj
    exact Op.streamCalls hk hj
  | admin q => exact CallsOn.bind (served_callsOn (Calls.on ((adminEndpoint_reads hj).mono fun _ => .of_reads)) hbook) fun _ => trivial
  | statusTick pid => exact ⟨fun he => absurd (he ▸ (OwnWrite.lead pid).own) hown, fun _ _ => trivial⟩

end Jobs

/-! ### Answers -/

section Answers
variable {R : Server} {st : Settings} {ns key k group : String}

/-- An answer with success has the events that the calls have handed out. -/
def Answering (R : Server) (k group : String) (steps : List CallStep) (o : Except Exn Json) : Prop :=
  (Response.of o).status = 200 → steps.flatMap (handedEvents R k group) = Paging.pageEvents (Response.of o).body

theorem readGroup_answering (hk : buildKey st.engine ns eventPrefix key = .ok k) {client : Option ClientInfo} {consumer : String}
    {count : Int} : (endpoint st client ns (.event (.readGroup key group consumer count))).Sees (execStore R) (Answering R k group) := by
  refine sees_endpoint (fun _ _ h => absurd (show (401 : Nat) = 200 from h) (by decide))
    (fun h => absurd (show (422 : Nat) = 200 from h) (by decide)) fun c _ _ => ?_
  rw [Op.follows (.event (.readGroup key group consumer count)) "read" _ rfl, hk]
  refine sees_guard (fun _ _ _ h => absurd (show (403 : Nat) = 200 from h) (by decide)) fun _ => ?_
  show (Plan.program ns _).Sees _ _
  rw [program_oneByOne rfl rfl]
  intro now s
  refine ofExcept_sees ?_
  have hreply : (execStore R (.redis (.at k (.xreadgroup group consumer count))) now s).1 =
      (R.onKey (.xreadgroup group consumer count) now (s k)).1 := rfl
  rw [hreply]
  cases hr : (R.onKey (.xreadgroup group consumer count) now (s k)).1 with
  | error msg =>
    intro h
    have hnot : ∀ b : Bool, (Response.of (.error (if b = true then error "GROUP_NOT_FOUND" s!"Consumer group '{group}' not found" 404
        else error "INTERNAL_ERROR" "Stream operation failed" 500))).status ≠ 200 := by
      intro b
      cases b
      · exact (by decide : (500 : Nat) ≠ 200)
      · exact (by decide : (404 : Nat) ≠ 200)
    exact absurd h (hnot _)
  | ok v =>
    intro _
    have hsteps : handedEvents R k group ⟨.redis (.at k (.xreadgroup group consumer count)), now, s⟩ = groupEvents v := by
      simp [handedEvents, hr]
    rw [List.flatMap_singleton, hsteps]
    rfl

theorem sees_observed {p : Handler Json} {Q : List CallStep → Except Exn Json → Prop} (h : p.Sees (execStore R) Q)
    (pending : Pending) : (observed p pending).Sees (execStore R) fun steps x => ∃ o left, x = .ok (o, left) ∧ Q steps o := by
  induction p generalizing Q pending with
  | pure a => exact ⟨.ok a, pending, rfl, h⟩
  | raise e => exact ⟨.error e, pending, rfl, h⟩
  | call c k ih => exact fun now s => ih _ (h now s) _

/-- A command that the middlewares send. -/
def Bookkeeping (y : CallStep) : Prop := ∃ k c, y.call = .redis (.at k c) ∧ BookWrite k c

theorem sees_sendAll {α : Type} {cs : List (String × KeyCmd)} (hcs : ∀ x ∈ cs, BookWrite x.1 x.2) {f : List Reply → Handler α}
    {Q : List CallStep → Except Exn α → Prop}
    (h : ∀ late rs, (∀ y ∈ late, Bookkeeping y) → (f rs).Sees (execStore R) fun later => Q (late ++ later)) :
    ((sendAll cs).bind f).Sees (execStore R) Q := by
  induction cs generalizing f Q with
  | nil => exact h [] [] fun y hy => by cases hy
  | cons x cs ih =>
    intro now s
    show (((sendAll cs).bind fun rs => .pure (_ :: rs)).bind f).Sees _ _
    rw [bind_assoc]
    refine ih (fun y hy => hcs y (List.mem_cons_of_mem _ hy)) fun late rs hlate => h (_ :: late) (_ :: rs) ?_
    exact List.forall_mem_cons.mpr ⟨⟨x.1, x.2, rfl, hcs x List.mem_cons_self⟩, hlate⟩

/-- What the handler sees, and then what the middlewares send. -/
theorem sees_served {v : Seen} {body : Handler Json} {Q : List CallStep → Except Exn Json → Prop} (h : body.Sees (execStore R) Q) :
    ((served st v body).bind fun r => .pure (some r)).Sees (execStore R) fun steps x => ∃ o early late, steps = early ++ late ∧
      Q early o ∧ x = .ok (some (.of o)) ∧ ∀ y ∈ late, Bookkeeping y := by
  unfold served
  rw [bind_assoc]
  refine Sees.bind (sees_observed h none) (fun early x hx => ?_) fun steps e he => ?_
  · obtain ⟨o, left, hx, hQ⟩ := hx
    cases hx
    rw [bind_assoc]
    exact sees_sendAll Seen.bookkeeping_bookWrite fun late rs hlate => ⟨o, early, late, by rw [List.append_nil], hQ, rfl, hlate⟩
  · obtain ⟨o, left, hx, -⟩ := he
    cases hx

/-- A job that reads the group. -/
def Job.readsGroup (ns key group : String) : Job → Prop
  | .data q => q.ns = ns ∧ ∃ consumer count, q.op = .event (.readGroup key group consumer count)
  | _ => False

theorem Job.answering (hk : buildKey st.engine ns eventPrefix key = .ok k) {j : Job} (hj : j.readsGroup ns key group) :
    (j.program st).Sees (execStore R) fun steps x => ∀ r : Response, x = .ok (some r) → r.status = 200 →
      steps.flatMap (handedEvents R k group) = Paging.pageEvents r.body := by
  have hown : ¬Own k := KeyOf.not_own ⟨eventPrefix, by decide, key, hk⟩
  cases j with
  | data q =>
    obtain ⟨rfl, consumer, count, hop⟩ := hj
    have hbody : (endpoint st q.client q.ns q.op).Sees (execStore R) (Answering R k group) := hop ▸ readGroup_answering hk
    refine (sees_served hbody).mono fun steps x hx r hr hstatus => ?_
    obtain ⟨o, early, late, rfl, hanswer, rfl, hlate⟩ := hx
    cases hr
    have hnothing : late.flatMap (handedEvents R k group) = [] := by
      refine List.flatMap_eq_nil_iff.mpr fun y hy => ?_
      obtain ⟨call, now, s⟩ := y
      obtain ⟨k', c, rfl, hbook⟩ := hlate _ hy
      exact (addedEvent_reads (fun he => absurd (he ▸ (OwnWrite.book hbook).own) hown) now s).2
    rw [List.flatMap_append, hnothing, List.append_nil]
    exact hanswer hstatus
  | admin q => exact hj.elim
  | statusTick pid => exact hj.elim

end Answers

/-! ### Runs -/

section Run
variable {R : Server} {st : Settings} {ns key k group : String} {acts : List (Pool.Act Job Nat)} {t : LoggedGateway}

theorem shared_start : Shared R k group (Store.empty, []) .empty (.start []) where
  entry := Or.inl ⟨rfl, rfl⟩
  kept := rfl
  increasing := .nil
  positive y hy := by cases hy
  last y hy := by cases hy
  added := rfl
  handed := rfl
  cursor := Or.inl ⟨rfl, rfl⟩

theorem shared_run (hR : R.Lawful) (hS : R.Streams) (hG : R.Groups) (hk : buildKey st.engine ns eventPrefix key = .ok k)
    (hjobs : ∀ j, .start j ∈ acts → j.leaves ns key = true)
    (h : Runs.run (Pool.step (Pool.logged (execStore R)) (Job.program st)) ⟨(Store.empty, []), []⟩ acts = some t) :
    ∃ x r, Shared R k group t.state x r := by
  have hown : ¬Own k := KeyOf.not_own ⟨eventPrefix, by decide, key, hk⟩
  refine (Pool.inv_run (G := fun _ _ => True) (P := StreamCall k) (I := fun t => ∃ x r, Shared R k group t x r) ?_
    (fun _ _ _ _ _ => trivial) (fun j hj => Job.streamCalls hk (hjobs j hj)) ⟨_, _, shared_start⟩ h).state
  rintro c hc now t ⟨x, r, ht⟩
  exact ht.step hR hS hG hown hc now

/-- What the calls of a run have handed out is what those of its jobs have, and a reader that is answered with success
    has in its answer what its own calls were handed. -/
theorem handed_answers (hk : buildKey st.engine ns eventPrefix key = .ok k)
    (h : Runs.run (Pool.step (Pool.logged (execStore R)) (Job.program st)) ⟨(Store.empty, []), []⟩ acts = some t) :
    ∃ own : List (Job × List CallStep), own.map Prod.fst = started acts ∧ Shares (execStore R) (Job.program st) own t ∧
      (handed R k group t.state.2).Perm (own.flatMap fun x => handed R k group x.2) ∧
      ∀ (i : Nat) (x : Job × List CallStep) (r : Response), own[i]? = some x → x.1.readsGroup ns key group →
        t.programs[i]? = some (.pure (some r)) → r.status = 200 → handed R k group x.2 = Paging.pageEvents r.body := by
  have hstart : Pool.Shares (execStore R) (Job.program st) [] ⟨(Store.empty, []), []⟩ := ⟨.nil, .nil⟩
  obtain ⟨own, hown, hshares⟩ := shares_run h hstart
  refine ⟨own, hown, hshares, ?_, fun i x r hx hreads hprogram hstatus => ?_⟩
  · refine (hshares.log.flatMap_right _).trans ?_
    rw [List.flatMap_assoc]
    rfl
  · obtain ⟨hlt, hget⟩ := List.getElem?_eq_some_iff.mp hx
    obtain ⟨hlt', hget'⟩ := List.getElem?_eq_some_iff.mp hprogram
    have hpath := (List.forall₂_iff_get.mp hshares.came).2 i hlt hlt'
    rw [List.get_eq_getElem, List.get_eq_getElem, hget, hget'] at hpath
    have hanswer := hpath.sees (Job.answering hk hreads) r rfl hstatus
    rw [List.append_nil] at hanswer
    exact hanswer

theorem render_inj {a b : StreamId} (h : a.render = b.render) : a = b := by
  have htext := congrArg String.toList h
  rw [StreamId.render_toList, StreamId.render_toList] at htext
  obtain ⟨hms, hseq⟩ := Text.cut_inj (Text.not_mem_toDigits (by decide)) (Text.not_mem_toDigits (by decide)) htext
  obtain ⟨ms, seq⟩ := a
  cases (Text.toDigits_inj hms : ms = b.ms)
  cases (Text.toDigits_inj hseq : seq = b.seq)
  rfl

/-- An event is there once. -/
theorem events_nodup {log : List Item} (h : log.Pairwise fun a b => a.1.lt b.1 = true) : (log.map eventJson).Nodup := by
  refine List.pairwise_map.mpr (h.imp fun {y z} hlt heq => ?_)
  have hid : Json.str y.1.render = .str z.1.render := congrArg (·.field "id") heq
  rw [render_inj (Json.str.inj hid), StreamId.not_lt_self] at hlt
  cases hlt

theorem Shared.remaining {t : Store × List CallStep} {x : Stream} {r : Cursor.Reading Item} (h : Shared R k group t x r) :
    remainingEvents t.1 k = r.kept.map eventJson := by
  rw [← h.kept]
  rcases h.entry with ⟨hnone, rfl⟩ | hsome
  · simp [remainingEvents, hnone, Stream.empty]
  · simp [remainingEvents, hsome]

/-- However publishers and consumers are served side by side, as long as nobody deletes the stream or gives it a lifetime: a group is
    handed events of the stream in their order, none twice, and of those before its place it misses only what is no more there. Each
    request has its calls, and one that is answered with success has the events that they were handed. -/
theorem group_delivers (hR : R.Lawful) (hS : R.Streams) (hG : R.Groups) (hk : buildKey st.engine ns eventPrefix key = .ok k)
    (hjobs : ∀ j, .start j ∈ acts → j.leaves ns key = true)
    (h : Runs.run (Pool.step (Pool.logged (execStore R)) (Job.program st)) ⟨(Store.empty, []), []⟩ acts = some t) :
    (added R k t.state.2).Nodup ∧ ∃ (place : Nat) (own : List (Job × List CallStep)),
      (handed R k group t.state.2).Sublist ((added R k t.state.2).take place) ∧
      (∀ e ∈ (added R k t.state.2).take place, e ∈ handed R k group t.state.2 ∨ e ∉ remainingEvents t.state.1 k) ∧
      own.map Prod.fst = started acts ∧ Shares (execStore R) (Job.program st) own t ∧
      (handed R k group t.state.2).Perm (own.flatMap fun x => handed R k group x.2) ∧
      ∀ (i : Nat) (x : Job × List CallStep) (r : Response), own[i]? = some x → x.1.readsGroup ns key group →
        t.programs[i]? = some (.pure (some r)) → r.status = 200 → handed R k group x.2 = Paging.pageEvents r.body := by
  obtain ⟨x, r, ht⟩ : ∃ x r, Shared R k group t.state x r := shared_run hR hS hG hk hjobs h
  obtain ⟨own, hown⟩ := @handed_answers R st ns key k group acts t hk h
  have hnodup := events_nodup ht.increasing
  rw [ht.added, ht.handed, ht.remaining]
  refine ⟨hnodup, r.pos, own, ?_, fun e he => ?_, ht.handed ▸ hown⟩
  · rw [← List.map_take]
    exact r.sublist.map _
  rw [← List.map_take] at he
  obtain ⟨y, hy, rfl⟩ := List.mem_map.mp he
  refine (r.skipped y hy).imp List.mem_map_of_mem fun hgone hkept => ?_
  rw [← List.take_append_drop r.gone r.log, List.map_append] at hnodup
  exact (List.nodup_append.mp hnodup).2.2 _ (List.mem_map_of_mem hgone) _ hkept rfl

end Run

def eventJob (op : EventOp) : Job := .data (plainRequest appClient "app" (.event op))

def consumers : List Job :=
  [eventJob (.publishEvent "log" ⟨Dict.ofList [("n", "1")]⟩), eventJob (.publishEvent "log" ⟨Dict.ofList [("n", "2")]⟩),
    eventJob (.createGroup "log" ⟨"g"⟩), eventJob (.readGroup "log" "g" "a" 1), eventJob (.readGroup "log" "g" "b" 1)]

/-- Two events, and two consumers that ask side by side and are answered. -/
def consumerActs : List (Pool.Act Job Nat) :=
  consumers.map (fun j => .start j) ++ [.resume 0 5, .resume 1 6, .resume 2 7, .resume 4 8, .resume 3 9] ++
    List.replicate 16 (.resume 3 10) ++ List.replicate 16 (.resume 4 10)

def consumed : Option LoggedGateway :=
  Runs.run (Pool.step (Pool.logged (execStore reference)) (Job.program {})) ⟨(Store.empty, []), []⟩ consumerActs

/-- The ids of the events in an answer with success. -/
def answeredIds (t : LoggedGateway) (i : Nat) : Option (List String) :=
  match t.programs[i]? with
  | some (.pure (some r)) => if r.status = 200 then some ((Paging.pageEvents r.body).map fun e => (e.field "id").text) else none
  | _ => none

theorem consumed_ids : consumed.map (fun t => (answeredIds t 3, answeredIds t 4,
    (handed reference "app:evt:log" "g" t.state.2).map fun e => (e.field "id").text)) =
    some (some ["6-0"], some ["5-0"], ["5-0", "6-0"]) := by decide +kernel

theorem answeredIds_some {t : LoggedGateway} {i : Nat} {ids : List String} (h : answeredIds t i = some ids) :
    ∃ r, t.programs[i]? = some (.pure (some r)) ∧ r.status = 200 ∧ (Paging.pageEvents r.body).map (fun e => (e.field "id").text) = ids := by
  unfold answeredIds at h
  split at h
  · rename_i r hr
    split at h
    · rename_i hstatus
      exact ⟨r, hr, hstatus, Option.some.inj h⟩
    · cases h
  · cases h

theorem group_delivers_two : ∃ (t : LoggedGateway) (place : Nat) (own : List (Job × List CallStep)), consumed = some t ∧
    (handed reference "app:evt:log" "g" t.state.2).map (fun e => (e.field "id").text) = ["5-0", "6-0"] ∧
    (handed reference "app:evt:log" "g" t.state.2).Sublist ((added reference "app:evt:log" t.state.2).take place) ∧
    own.map Prod.fst = consumers ∧
    own[3]?.map (fun x => (handed reference "app:evt:log" "g" x.2).map fun e => (e.field "id").text) = some ["6-0"] := by
  obtain ⟨t, ht, hids⟩ := Option.map_eq_some_iff.mp consumed_ids
  obtain ⟨h3, hids⟩ := Prod.mk.inj hids
  obtain ⟨r, hr, hstatus, hevents⟩ := answeredIds_some h3
  have hjobs : ∀ j, Pool.Act.start j ∈ consumerActs → j.leaves "app" "log" = true := by
    intro j hj
    simp only [consumerActs, consumers, List.map_cons, List.map_nil, List.mem_append, List.mem_cons, List.mem_replicate,
      Pool.Act.start.injEq, reduceCtorEq, List.not_mem_nil, or_false, and_false] at hj
    rcases hj with rfl | rfl | rfl | rfl | rfl <;> rfl
  have hk : buildKey ({} : Settings).engine "app" eventPrefix "log" = .ok "app:evt:log" := rfl
  obtain ⟨-, place, own, hsub, -, hown, -, -, hanswers⟩ :=
    group_delivers reference_lawful reference_streams reference_groups hk hjobs ht
  have hown : own.map Prod.fst = consumers := hown
  refine ⟨t, place, own, ht, (Prod.mk.inj hids).2, hsub, hown, ?_⟩
  have hthree : (own.map Prod.fst)[3]? = some (eventJob (.readGroup "log" "g" "a" 1)) := by
    rw [hown]
    rfl
  rw [List.getElem?_map] at hthree
  obtain ⟨x, hx, hjob⟩ := Option.map_eq_some_iff.mp hthree
  have hreads : x.1.readsGroup "app" "log" "g" := hjob ▸ ⟨rfl, "a", 1, rfl⟩
  rw [hx, Option.map_some, hanswers 3 x r hx hreads hr hstatus, hevents]

end Redgw
