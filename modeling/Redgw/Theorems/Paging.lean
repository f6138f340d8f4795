import Redgw.Lib.Cursor
import Redgw.Lib.Runs
import Redgw.Theorems.StreamIds

/-! # Paging through a stream

A reader asks for one page after another, each time after the last event that it has, while others append. An
append may remove the oldest entries of a stream that has reached its limit. -/

namespace Redgw
open Redis Prog

abbrev Item := StreamId × List (String × String)

/-- An entry as a page shows it. -/
def eventJson (y : Item) : Json := eventOf (entryJson y)

namespace Paging

/-- A reader with what it has received, and what others have appended since it started. -/
structure Pager where
  store : Store
  lastId : String
  received : List Json
  calls : Nat
  done : Bool
  failed : Bool
  appended : List Item

inductive Act
  | add (fields : List (String × String)) (now : Nat)
  | read (count : Int) (now : Nat)

def Act.now : Act → Nat
  | .add _ now | .read _ now => now

def start (s : Store) : Pager := ⟨s, "0", [], 0, false, false, []⟩

def pageEvents (body : Json) : List Json := ((body.field "data").field "events").items

/-- An entry is appended as the publishing endpoints do it, or the reader asks for its next page. The first empty
    page is its last. -/
def step (R : Server) (st : Settings) (client : ClientInfo) (ns key k : String) (s : Pager) : Act → Option Pager
  | .add fields now =>
    match R.onKey (.xadd fields st.defaults.maxStreamLength) now (s.store k) with
    | (.ok v, e) => (parseId v.text.toList).map fun id =>
      { s with store := s.store.set k e, appended := s.appended ++ [(id, fields)] }
    | (.error _, e) => some { s with store := s.store.set k e }
  | .read count now =>
    if s.done || !countInRange count then none
    else match Alone R now (readEvents st client ns key s.lastId count) s.store with
      | (.ok body, t) => some { s with
          store := t
          lastId := ((pageEvents body).getLast?.map fun e => (e.field "id").text).getD s.lastId
          received := s.received ++ pageEvents body
          calls := s.calls + 1
          done := (pageEvents body).isEmpty }
      | (.error _, t) => some { s with store := t, calls := s.calls + 1, done := true, failed := true }

/-- The publishing endpoints append to the stream, and no other way. -/
theorem publishing_adds (st : Settings) (client : ClientInfo) (ns key : String) (c : Cmd) :
    (∀ body, (publishEvent st client ns key body).Calls fun call => call = .redis c →
      ∃ k fields, buildKey st.engine ns eventPrefix key = .ok k ∧ c = .at k (.xadd fields st.defaults.maxStreamLength)) ∧
    ∀ body, (batchPublishEvent st client ns key body).Calls fun call => call = .redis c →
      ∃ k fields, buildKey st.engine ns eventPrefix key = .ok k ∧ c = .at k (.xadd fields st.defaults.maxStreamLength) := by
  have hsendAll : ∀ {k : String} (events : List (Dict String)), buildKey st.engine ns eventPrefix key = .ok k →
      (sendAll (events.map fun evt => (k, .xadd evt.items st.defaults.maxStreamLength))).Calls fun call => call = .redis c →
        ∃ k fields, buildKey st.engine ns eventPrefix key = .ok k ∧ c = .at k (.xadd fields st.defaults.maxStreamLength) := by
    intro k events hk
    induction events with
    | nil => trivial
    | cons evt events ih =>
      refine Calls.bind (calls_ask.mpr ?_) fun r => Calls.bind ih fun _ => trivial
      rintro ⟨⟩
      exact ⟨k, _, hk, rfl⟩
  constructor
  · intro body
    refine calls_guard (fun _ _ => nofun) (fun _ => nofun) fun _ => Calls.ofExcept_bind fun _ _ => Calls.ofExcept_bind fun k hk => ?_
    refine Calls.bind (Calls.bind (calls_ask.mpr ?_) fun r => ?_) fun _ => trivial
    · rintro ⟨⟩
      exact ⟨k, _, hk, rfl⟩
    · cases r <;> trivial
  · intro body
    refine calls_guard (fun _ _ => nofun) (fun _ => nofun) fun _ => Calls.bind (Calls.forM (fun x => calls_ofExcept _ _) _) fun _ => ?_
    refine Calls.ofExcept_bind fun k hk => Calls.bind (Calls.bind (hsendAll body.events hk) fun rs => calls_ofExcept _ _) fun _ => trivial

/-! ### Ids of entries -/

section Ids
variable {a : StreamId}

theorem render_ne_zero (a : StreamId) : a.render ≠ "0" := by
  intro h
  have hmem : '-' ∈ a.render.toList := by
    rw [a.render_toList]
    exact List.mem_append_right _ List.mem_cons_self
  rw [h] at hmem
  revert hmem
  decide

theorem streamIdRe_render (a : StreamId) : streamIdRe a.render = true := by
  have hcut : Text.cut '-' a.render.toList = some (Nat.toDigits 10 a.ms, Nat.toDigits 10 a.seq) :=
    Text.cut_eq_some.mpr ⟨a.render_toList, Text.not_mem_toDigits (by decide)⟩
  have hdigits : ∀ n : Nat, (Nat.toDigits 10 n).all decimalDigit = true := fun n =>
    List.all_eq_true.mpr fun c hc => (isDigit_iff.mp (Text.isDigit_of_mem hc)).1
  have hsome : ∀ n : Nat, (Nat.toDigits 10 n).isEmpty = false := fun n => by
    rw [List.isEmpty_eq_false_iff]
    exact Nat.toDigits_ne_nil
  unfold streamIdRe streamIdForm
  simp [hcut, hdigits, hsome]

/-- An id that is read back from its text has 64 bits, and is the same. -/
theorem parseId_render_eq {a b : StreamId} (h : parseId a.render.toList = some b) : b = a ∧ a.Fits := by
  have hcut : Text.cut '-' a.render.toList = some (Nat.toDigits 10 a.ms, Nat.toDigits 10 a.seq) :=
    Text.cut_eq_some.mpr ⟨a.render_toList, Text.not_mem_toDigits (by decide)⟩
  unfold parseId at h
  simp only [hcut, parseNat_toDigits] at h
  obtain ⟨m, hm, h⟩ := Option.bind_eq_some_iff.mp h
  obtain ⟨n, hn, h⟩ := Option.bind_eq_some_iff.mp h
  obtain ⟨hms, hmfits⟩ := Option.filter_eq_some_iff.mp hm
  obtain ⟨hseq, hnfits⟩ := Option.filter_eq_some_iff.mp hn
  cases hms
  cases hseq
  cases h
  exact ⟨rfl, of_decide_eq_true hmfits, of_decide_eq_true hnfits⟩

end Ids

/-! ### What a reader has -/

/-- The key reads as the stream at each of the times, and as one with that deadline. A missing key reads as an empty one. -/
structure Holds (times : Nat → Prop) (d : Option Nat) (e : Option Entry) (x : Stream) : Prop where
  kind : HasKind .stream e
  stream : ∀ now, times now → streamOf now e = x
  deadline : ∀ now, times now → deadlineOf now e = d

/-- The stream with all that it ever had, and how far the reader has come in it. -/
structure Pages (times : Nat → Prop) (k : String) (d : Option Nat) (initial : List Item) (s : Pager) (x : Stream)
    (r : Cursor.Reading Item) : Prop where
  holds : Holds times d (s.store k) x
  kept : x.entries = r.kept
  log : r.log = initial ++ s.appended
  increasing : r.log.Pairwise fun a b => a.1.lt b.1 = true
  last : ∀ y ∈ r.log, y.1 = x.lastId ∨ y.1.lt x.lastId = true
  fits : ∀ y ∈ r.log, y.1.Fits
  cursor : s.done = false → s.lastId = ((r.log.take r.pos).getLast?.map fun y => y.1.render).getD "0"
  received : s.received = r.got.map eventJson
  calls : s.calls ≤ r.got.length + if s.done then 1 else 0
  ended : s.done = true → initial.length ≤ r.pos
  answered : s.failed = false

section Steps
variable {R : Server} {st : Settings} {client : ClientInfo} {ns key k : String} {d : Option Nat} {initial : List Item}
  {s t : Pager} {x : Stream} {r : Cursor.Reading Item} {times : Nat → Prop} {now : Nat}

/-- A stream that has its deadline at all of the times does not expire in them. -/
theorem Holds.put {e : Option Entry} (h : Holds times d e x) (y : Stream) : Holds times d (some ⟨.stream y, d⟩) y := by
  have hlive : ∀ now, times now → live now (some ⟨.stream y, d⟩) = some ⟨.stream y, d⟩ := by
    intro now hnow
    rw [← h.deadline now hnow]
    exact live_deadlineOf now e _
  refine ⟨hasKind_stream, fun now hnow => ?_, fun now hnow => ?_⟩
  · unfold streamOf
    rw [hlive now hnow]
  · unfold deadlineOf
    rw [hlive now hnow]
    rfl

theorem Holds.set {u : Store} {e : Option Entry} (h : Holds times d e x) : Holds times d (u.set k e k) x := by
  rw [Store.set_self]
  exact h

/-- An append goes to the end of the log, and may cost it some of its oldest entries. -/
theorem Pages.add (hR : R.Streams) (h : Pages times k d initial s x r) {fields : List (String × String)} (hnow : times now)
    (hstep : step R st client ns key k s (.add fields now) = some t) :
    ∃ x' r', Pages times k d initial t x' r' := by
  unfold step at hstep
  dsimp only at hstep
  rcases hR.xadd fields st.defaults.maxStreamLength now (s.store k) h.holds.kind with ⟨msg, hrefused⟩ | ⟨id, n, hnew, -, hdone⟩
  · rw [hrefused] at hstep
    cases hstep
    exact ⟨x, r, { h with holds := h.holds.set }⟩
  · rw [h.holds.stream now hnow] at hnew hdone
    rw [hdone, h.holds.deadline now hnow] at hstep
    obtain ⟨id', hid, ht⟩ := Option.map_eq_some_iff.mp hstep
    obtain ⟨rfl, hfits⟩ := parseId_render_eq hid
    subst ht
    have hlater : ∀ y ∈ r.log, y.1.lt id' = true := by
      intro y hy
      rcases h.last y hy with heq | hlt
      · rwa [heq]
      · exact StreamId.lt_trans hlt hnew
    refine ⟨{ x with entries := (x.entries ++ [(id', fields)]).drop n, lastId := id' }, (r.append (id', fields)).trim n, ?_⟩
    exact {
      holds := (h.holds.put _).set
      kept := by rw [Cursor.Reading.kept_trim, Cursor.Reading.kept_append, h.kept]
      log := by
        show r.log ++ [(id', fields)] = _
        rw [h.log, List.append_assoc]
      increasing := List.pairwise_append.mpr ⟨h.increasing, List.pairwise_singleton _ _, fun y hy z hz => by
        rw [List.mem_singleton.mp hz]
        exact hlater y hy⟩
      last := fun y hy => by
        rcases List.mem_append.mp hy with hy | hy
        · exact Or.inr (hlater y hy)
        · exact Or.inl (by rw [List.mem_singleton.mp hy])
      fits := fun y hy => by
        rcases List.mem_append.mp hy with hy | hy
        · exact h.fits y hy
        · rw [List.mem_singleton.mp hy]
          exact hfits
      cursor := fun hnotdone => by
        show s.lastId = (((r.log ++ [(id', fields)]).take r.pos).getLast?.map fun y => y.1.render).getD "0"
        rw [List.take_append_of_le_length r.pos_le]
        exact h.cursor hnotdone
      received := h.received
      calls := h.calls
      ended := h.ended
      answered := h.answered }

/-- The bound that the reader sends tells the entries before its place from those after it. -/
theorem Pages.bound (h : Pages times k d initial s x r) (hnotdone : s.done = false) :
    streamIdRe s.lastId = true ∧ ∃ after, lowerBound (minId s.lastId) = some after ∧
      (∀ y ∈ r.log.take r.pos, after y.1 = false) ∧ ∀ y ∈ r.log.drop r.pos, after y.1 = true := by
  have hcursor := h.cursor hnotdone
  cases hlast : (r.log.take r.pos).getLast? with
  | none =>
    rw [hlast] at hcursor
    rw [hcursor, List.getLast?_eq_none_iff.mp hlast]
    exact ⟨by decide +kernel, _, rfl, nofun, fun y hy => rfl⟩
  | some y =>
    obtain ⟨front, hfront⟩ := List.getLast?_eq_some_iff.mp hlast
    have hsplit : r.log = (front ++ [y]) ++ r.log.drop r.pos := by rw [← hfront, List.take_append_drop]
    have hincreasing := h.increasing
    rw [hsplit] at hincreasing
    obtain ⟨hread, -, hcross⟩ := List.pairwise_append.mp hincreasing
    have hfits : y.1.Fits := h.fits y (hsplit ▸ List.mem_append_left _ (List.mem_append_right _ List.mem_cons_self))
    rw [hlast] at hcursor
    have hid : s.lastId = y.1.render := hcursor
    rw [hid]
    refine ⟨streamIdRe_render _, fun z => y.1.lt z, ?_, ?_, ?_⟩
    · rw [lowerBound_after (render_ne_zero _), parseId_render hfits]
      rfl
    · intro z hz
      rw [hfront] at hz
      rcases List.mem_append.mp hz with hz | hz
      · exact StreamId.not_lt_of_lt ((List.pairwise_append.mp hread).2.2 z hz y List.mem_cons_self)
      · rw [List.mem_singleton.mp hz]
        exact StreamId.not_lt_self _
    · exact fun z hz => hcross y (List.mem_append_right _ List.mem_cons_self) z hz

/-- The reader is answered with its next page. -/
theorem Pages.page (hR : R.Streams) (haccess : checkAccess client ns "read" = true)
    (hk : buildKey st.engine ns eventPrefix key = .ok k) (h : Pages times k d initial s x r) (hnow : times now)
    (hnotdone : s.done = false) (count : Int) :
    Alone R now (readEvents st client ns key s.lastId count) s.store =
      (.ok (eventsPage ns key (.arr ((r.next count.toNat).map entryJson))), s.store.set k (s.store k)) := by
  obtain ⟨hid, after, hafter, hbelow, habove⟩ := h.bound hnotdone
  have hpage : xrange (minId s.lastId) count x = .ok (.arr ((r.next count.toNat).map entryJson)) := by
    unfold xrange
    have hrest : r.kept.filter (fun y => after y.1) = r.log.drop (max r.gone r.pos) := r.filter_kept hbelow habove
    rw [hafter, h.kept]
    dsimp only
    rw [hrest]
    rfl
  rw [readEvents_run haccess hk hid, hR.xrange _ _ _ _ h.holds.kind, h.holds.stream now hnow, hpage]
  rfl

theorem pageEvents_page (ns key : String) (page : List Item) :
    pageEvents (eventsPage ns key (.arr (page.map entryJson))) = page.map eventJson := by
  show (page.map entryJson).map eventOf = _
  rw [List.map_map]
  rfl

/-- A page takes the reader to its end, and the reader is done when it is empty. -/
theorem Pages.read (hR : R.Streams) (haccess : checkAccess client ns "read" = true)
    (hk : buildKey st.engine ns eventPrefix key = .ok k) (h : Pages times k d initial s x r) {count : Int}
    (hnow : times now) (hstep : step R st client ns key k s (.read count now) = some t) :
    Pages times k d initial t x (r.turn count.toNat) := by
  unfold step at hstep
  dsimp only at hstep
  split at hstep
  · cases hstep
  · rename_i hguard
    rw [Bool.or_eq_true, not_or, Bool.not_eq_true, Bool.not_eq_true', Bool.not_eq_false] at hguard
    obtain ⟨hnotdone, hrange⟩ := hguard
    have hcount : 0 < count.toNat := by
      have hpos := (of_decide_eq_true hrange : 1 ≤ count ∧ count ≤ 1000).1
      omega
    rw [h.page hR haccess hk hnow hnotdone count] at hstep
    dsimp only at hstep
    rw [pageEvents_page] at hstep
    cases hstep
    exact {
      holds := h.holds.set
      kept := h.kept
      log := h.log
      increasing := h.increasing
      last := h.last
      fits := h.fits
      cursor := fun hmore => by
        have hsome : r.next count.toNat ≠ [] := by
          rintro hnil
          rw [hnil] at hmore
          cases hmore
        obtain ⟨front, y, hpage⟩ := List.eq_nil_or_concat (r.next count.toNat) |>.resolve_left hsome
        rw [List.concat_eq_append] at hpage
        show ((((r.next count.toNat).map eventJson).getLast?.map fun e => (e.field "id").text).getD s.lastId) =
          ((r.log.take (max r.gone r.pos + (r.next count.toNat).length)).getLast?.map fun y => y.1.render).getD "0"
        rw [Cursor.Reading.take_next, hpage, List.map_append, ← List.append_assoc]
        simp only [List.map_cons, List.map_nil, List.getLast?_concat]
        rfl
      received := by
        show s.received ++ _ = (r.got ++ r.next count.toNat).map eventJson
        rw [List.map_append, h.received]
      calls := by
        have hcalls := h.calls
        rw [hnotdone] at hcalls
        show s.calls + 1 ≤ (r.got ++ r.next count.toNat).length + if ((r.next count.toNat).map eventJson).isEmpty then 1 else 0
        rw [List.length_append]
        cases hpage : r.next count.toNat with
        | nil => simpa using hcalls
        | cons y ys =>
          rw [List.length_cons]
          simp only [Bool.false_eq_true, ↓reduceIte] at hcalls
          omega
      ended := fun hend => by
        have hnil : r.next count.toNat = [] := by
          rw [List.isEmpty_iff, List.map_eq_nil_iff] at hend
          exact hend
        rw [Cursor.Reading.turn_of_nil hcount hnil, h.log, List.length_append]
        exact Nat.le_add_right _ _
      answered := h.answered }

end Steps

/-! ### Runs -/

theorem nodup_of_increasing {log : List Item} (h : log.Pairwise fun a b => a.1.lt b.1 = true) : log.Nodup := by
  refine h.imp fun hlt heq => ?_
  subst heq
  rw [StreamId.not_lt_self] at hlt
  cases hlt

section Runs
variable {R : Server} {st : Settings} {client : ClientInfo} {ns key k : String} {d : Option Nat} {s₀ : Store} {x₀ : Stream}
  {times : Nat → Prop}

theorem pages_start (hstore : Holds times d (s₀ k) x₀) (hincreasing : x₀.entries.Pairwise fun a b => a.1.lt b.1 = true)
    (hlast : ∀ y ∈ x₀.entries, y.1 = x₀.lastId ∨ y.1.lt x₀.lastId = true) (hfits : ∀ y ∈ x₀.entries, y.1.Fits) :
    Pages times k d x₀.entries (start s₀) x₀ (.start x₀.entries) where
  holds := hstore
  kept := rfl
  log := (List.append_nil _).symm
  increasing := hincreasing
  last := hlast
  fits := hfits
  cursor _ := rfl
  received := rfl
  calls := Nat.le_refl _
  ended := nofun
  answered := rfl

theorem pages_run (hR : R.Streams) (haccess : checkAccess client ns "read" = true)
    (hk : buildKey st.engine ns eventPrefix key = .ok k) {acts : List Act} (hacts : ∀ a ∈ acts, times a.now)
    {initial : List Item} {s t : Pager} (hrun : Runs.run (step R st client ns key k) s acts = some t)
    (h : ∃ x r, Pages times k d initial s x r) : ∃ x r, Pages times k d initial t x r := by
  refine Runs.run_inv_of (I := fun s : Pager => ∃ x r, Pages times k d initial s x r) (P := fun a : Act => times a.now)
    (fun s a t ha hstep hs => ?_) hacts hrun h
  obtain ⟨x, r, hs⟩ := hs
  cases a with
  | add fields now => exact hs.add hR ha hstep
  | read count now => exact ⟨x, _, hs.read hR haccess hk ha hstep⟩

/-- A reader never fails, and what it has received are entries of the stream in their order, none twice. Of those before its place it lacks
    the ones that are no more there, and when it is done its place is behind all that it has started with. Without appends it is done
    after one call more than there are entries. -/
theorem paging_exact (hR : R.Streams) (haccess : checkAccess client ns "read" = true)
    (hk : buildKey st.engine ns eventPrefix key = .ok k) (hstore : Holds times d (s₀ k) x₀)
    (hincreasing : x₀.entries.Pairwise fun a b => a.1.lt b.1 = true)
    (hlast : ∀ y ∈ x₀.entries, y.1 = x₀.lastId ∨ y.1.lt x₀.lastId = true) (hfits : ∀ y ∈ x₀.entries, y.1.Fits)
    {acts : List Act} (hacts : ∀ a ∈ acts, times a.now) {now : Nat} (hnow : times now) {s : Pager}
    (hrun : Runs.run (step R st client ns key k) (start s₀) acts = some s) :
    s.failed = false ∧ (x₀.entries ++ s.appended).Pairwise (fun a b => a.1.lt b.1 = true) ∧
    ∃ (got : List Item) (place : Nat), s.received = got.map eventJson ∧ got.Sublist ((x₀.entries ++ s.appended).take place) ∧
      (∀ y ∈ (x₀.entries ++ s.appended).take place, y ∉ got → y ∉ (streamOf now (s.store k)).entries) ∧
      ((∀ y ∈ x₀.entries ++ s.appended, y ∈ (streamOf now (s.store k)).entries) → got = (x₀.entries ++ s.appended).take place) ∧
      (s.done = true → x₀.entries.length ≤ place ∧ ∀ y ∈ x₀.entries, y ∈ got ∨ y ∉ (streamOf now (s.store k)).entries) ∧
      (s.appended = [] → s.calls ≤ x₀.entries.length + 1 ∧ (s.calls = x₀.entries.length + 1 → s.done = true)) := by
  obtain ⟨x, r, hs⟩ := pages_run hR haccess hk hacts hrun ⟨x₀, _, pages_start hstore hincreasing hlast hfits⟩
  have hentries : (streamOf now (s.store k)).entries = r.kept := by
    rw [hs.holds.stream now hnow]
    exact hs.kept
  have hnodup : r.log.Nodup := nodup_of_increasing hs.increasing
  have hdisjoint : ∀ y ∈ r.log.take r.gone, y ∉ r.kept := by
    intro y hgone hkept
    rw [← List.take_append_drop r.gone r.log] at hnodup
    exact (List.nodup_append.mp hnodup).2.2 y hgone y hkept rfl
  rw [← hs.log, hentries]
  have hskipped : ∀ y ∈ r.log.take r.pos, y ∈ r.got ∨ y ∉ r.kept := fun y hy => (r.skipped y hy).imp_right (hdisjoint y)
  refine ⟨hs.answered, hs.increasing, r.got, r.pos, hs.received, r.sublist, ?_, ?_, ?_, ?_⟩
  · exact fun y hy hmissing => (hskipped y hy).resolve_left hmissing
  · intro hall
    exact Cursor.Reading.got_eq hnodup fun y hy => hall y (List.mem_of_mem_take hy)
  · intro hdone
    have hplace := hs.ended hdone
    refine ⟨hplace, fun y hy => hskipped y ?_⟩
    rw [hs.log, List.take_append, List.take_of_length_le hplace]
    exact List.mem_append_left _ hy
  · intro hnone
    have hlog : r.log = x₀.entries := by rw [hs.log, hnone, List.append_nil]
    have hgot : r.got.length ≤ x₀.entries.length :=
      hlog ▸ (r.sublist.trans (List.take_sublist _ _)).length_le
    have hcalls := hs.calls
    cases hdone : s.done with
    | true =>
      rw [hdone] at hcalls
      simp only [↓reduceIte] at hcalls
      exact ⟨by omega, fun _ => rfl⟩
    | false =>
      rw [hdone] at hcalls
      simp only [Bool.false_eq_true, ↓reduceIte] at hcalls
      exact ⟨by omega, fun hall => by omega⟩

end Runs

/-! ### A stream at its limit -/

def smallStreams : Settings := { defaults := { maxStreamLength := 2 } }

/-- As many entries as Redis keeps together. -/
def hundredEvents : Stream where
  entries := (List.range 100).map fun i => (⟨i + 1, 0⟩, [("x", "y")])
  lastId := ⟨100, 0⟩
  groups := []

def hundredStore : Store := Store.empty.set "app:evt:a" (some ⟨.stream hundredEvents, none⟩)

/-- One entry is read, two are appended, and the rest is read. -/
def trimmedActs : List Act :=
  [.read 1 200, .add [("x", "z")] 201, .add [("x", "z")] 202, .read 1000 203, .read 1000 204]

theorem hundredEvents_increasing : hundredEvents.entries.Pairwise fun a b => a.1.lt b.1 = true := by
  refine List.pairwise_map.mpr (List.pairwise_lt_range.imp fun h => ?_)
  exact StreamId.lt_iff.mpr (Or.inl (Nat.succ_lt_succ h))

theorem hundredStore_holds : Holds (fun _ => True) none (hundredStore "app:evt:a") hundredEvents :=
  ⟨hasKind_stream, fun _ _ => rfl, fun _ _ => rfl⟩

abbrev trimmedRun : Option Pager :=
  Runs.run (step reference smallStreams eventReader "app" "a" "app:evt:a") (start hundredStore) trimmedActs

def eventId (e : Json) : String := (e.field "id").text

theorem trimmedRun_ids : trimmedRun.map (fun s => (s.done, s.received.map eventId)) = some (true, ["1-0", "201-0", "202-0"]) := by
  decide +kernel

theorem paging_exact_hundred : ∃ s, trimmedRun = some s ∧ s.failed = false ∧
    ∃ got : List Item, s.received = got.map eventJson ∧ ∀ y ∈ hundredEvents.entries, y ∈ got ∨ y ∉ (streamOf 204 (s.store "app:evt:a")).entries := by
  obtain ⟨s, hs, hids⟩ := Option.map_eq_some_iff.mp trimmedRun_ids
  obtain ⟨hanswered, -, got, place, hreceived, -, -, -, hdone, -⟩ := @paging_exact reference smallStreams eventReader
    "app" "a" "app:evt:a" none hundredStore hundredEvents (fun _ => True) reference_streams
    (by decide : checkAccess eventReader "app" "read" = true)
    (by decide +kernel : buildKey .python "app" eventPrefix "a" = .ok "app:evt:a") hundredStore_holds hundredEvents_increasing
    (by decide +kernel) (by decide +kernel) trimmedActs (fun _ _ => trivial) 204 trivial s hs
  exact ⟨s, hs, hanswered, got, hreceived, (hdone (congrArg Prod.fst hids)).2⟩

/-- The second entry was there when the reader started, and it is not among those that it has received. -/
theorem entry_lost_to_append : ∃ s, trimmedRun = some s ∧ s.done = true ∧ ∃ y ∈ hundredEvents.entries, eventJson y ∉ s.received := by
  obtain ⟨s, hs, hids⟩ := Option.map_eq_some_iff.mp trimmedRun_ids
  obtain ⟨hdone, hreceived⟩ := Prod.mk.inj hids
  refine ⟨s, hs, hdone, (⟨2, 0⟩, [("x", "y")]), by decide +kernel, fun hmem => ?_⟩
  have hid := List.mem_map_of_mem (f := eventId) hmem
  rw [hreceived] at hid
  revert hid
  decide +kernel

end Paging
end Redgw
