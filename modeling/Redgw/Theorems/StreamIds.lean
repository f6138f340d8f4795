import Redgw.Redis.Streams
import Redgw.Theorems.PlanRuns

/-! # Stream ids of requests

The check of the ids lets through what Redis does not take for an id. -/

namespace Redgw
open Redis Prog

/-- `0`, or two decimal numbers of 64 bits with a dash between them. -/
def ValidStreamId (s : String) : Prop :=
  s = "0" ∨ ∃ a b m n, s.toList = a ++ '-' :: b ∧ parseNat a = some m ∧ parseNat b = some n ∧
    m < 18446744073709551616 ∧ n < 18446744073709551616

/-- The text ends in no newline, is ASCII, and has no number of more than 64 bits. -/
structure PlainId (s : String) : Prop where
  ended : s.toList.getLast? ≠ some '\n'
  ascii : ∀ c ∈ s.toList, c.toNat < 128
  fits : ∀ part ∈ Text.split '-' 1 s.toList, Nat.ofDigitChars 10 part 0 < 18446744073709551616

/-! ### Digits -/

theorem decimalDigit_ascii {c : Char} (h : c.toNat < 128) : decimalDigit c = c.isDigit := by
  have hall : ∀ n < 128, decimalDigit (Char.ofNat n) = (Char.ofNat n).isDigit := by decide +kernel
  rw [← Char.ofNat_toNat c]
  exact hall c.toNat h

theorem ascii_of_isDigit {c : Char} (h : c.isDigit = true) : c.toNat < 128 := by
  have hc : c.toNat = c.val.toNat := rfl
  simp only [Char.isDigit, Bool.and_eq_true, decide_eq_true_eq, ge_iff_le, UInt32.le_iff_toNat_le] at h
  rw [hc]
  exact Nat.lt_of_le_of_lt h.2 (by decide)

theorem isDigit_iff {c : Char} : c.isDigit = true ↔ decimalDigit c = true ∧ c.toNat < 128 := by
  constructor
  · intro h
    exact ⟨(decimalDigit_ascii (ascii_of_isDigit h)).trans h, ascii_of_isDigit h⟩
  · rintro ⟨hdigit, hascii⟩
    exact (decimalDigit_ascii hascii) ▸ hdigit

theorem not_decimal_dash {s : List Char} (h : s.all decimalDigit = true) : '-' ∉ s := by
  intro hmem
  have hdash := List.all_eq_true.mp h '-' hmem
  revert hdash
  decide +kernel

/-! ### Which accepted ids are read -/

theorem streamIdRe_cases {s : String} (h : streamIdRe s = true) :
    s = "0" ∨ (∃ a b, s.toList = a ++ '-' :: b ∧ a ≠ [] ∧ b ≠ [] ∧ a.all decimalDigit = true ∧ b.all decimalDigit = true) ∨
      s.toList.getLast? = some '\n' := by
  unfold streamIdRe at h
  rw [Bool.or_eq_true] at h
  rcases h with hform | hnewline
  · unfold streamIdForm at hform
    rw [Bool.or_eq_true] at hform
    rcases hform with hzero | hdash
    · exact Or.inl (String.toList_inj.mp (beq_iff_eq.mp hzero))
    · split at hdash
      · rename_i a b hcut
        simp only [Bool.and_eq_true, Bool.not_eq_true', List.isEmpty_eq_false_iff] at hdash
        exact Or.inr (Or.inl ⟨a, b, (Text.cut_eq_some.mp hcut).1, hdash.1.1.1, hdash.1.2, hdash.1.1.2, hdash.2⟩)
      · cases hdash
  · exact Or.inr (Or.inr (beq_iff_eq.mp (Bool.and_eq_true_iff.mp hnewline).1))

theorem parseId_chars {s : List Char} (h : (parseId s).isSome = true) : ∀ c ∈ s, c.isDigit = true ∨ c = '-' := by
  have hnat : ∀ {t : List Char} {n : Nat} {p : Nat → Bool}, (parseNat t).filter p = some n → ∀ c ∈ t, c.isDigit = true := by
    intro t n p ht c hc
    exact List.all_eq_true.mp (parseNat_eq_some.mp (Option.filter_eq_some_iff.mp ht).1).2.1 c hc
  obtain ⟨id, hid⟩ := Option.isSome_iff_exists.mp h
  unfold parseId at hid
  dsimp only at hid
  intro c hc
  split at hid
  · obtain ⟨m, hm, -⟩ := Option.map_eq_some_iff.mp hid
    exact Or.inl (hnat hm c hc)
  · rename_i a b hcut
    obtain ⟨m, hm, hid⟩ := Option.bind_eq_some_iff.mp hid
    obtain ⟨n, hn, -⟩ := Option.bind_eq_some_iff.mp hid
    rw [(Text.cut_eq_some.mp hcut).1] at hc
    rcases List.mem_append.mp hc with hc | hc
    · exact Or.inl (hnat hm c hc)
    · rcases List.mem_cons.mp hc with rfl | hc
      · exact Or.inr rfl
      · exact Or.inl (hnat hn c hc)

theorem parseId_dash {a b : List Char} (ha : '-' ∉ a) :
    (parseId (a ++ '-' :: b)).isSome = true ↔ ∃ m n, parseNat a = some m ∧ parseNat b = some n ∧
      m < 18446744073709551616 ∧ n < 18446744073709551616 := by
  unfold parseId
  rw [Text.cut_eq_some.mpr ⟨rfl, ha⟩]
  dsimp only
  cases hm : parseNat a with
  | none => simp
  | some m =>
    cases hn : parseNat b with
    | none => simp
    | some n =>
      by_cases hmfits : m < 18446744073709551616
      · by_cases hnfits : n < 18446744073709551616
        · simp [Option.filter_some, Nat.le_of_lt_succ hmfits, Nat.le_of_lt_succ hnfits, hmfits, hnfits]
        · have hbeyond : ¬n ≤ 18446744073709551615 := by omega
          simp [Option.filter_some, hnfits, hbeyond]
      · have hbeyond : ¬m ≤ 18446744073709551615 := by omega
        simp [Option.filter_some, hmfits, hbeyond]

section Accepted
variable {s : String}

theorem parseId_iff_valid (h : streamIdRe s = true) : (parseId s.toList).isSome = true ↔ ValidStreamId s := by
  constructor
  · intro hread
    rcases streamIdRe_cases h with hzero | ⟨a, b, hs, -, -, ha, -⟩ | hnewline
    · exact Or.inl hzero
    · rw [hs] at hread
      obtain ⟨m, n, hm, hn, hmfits, hnfits⟩ := (parseId_dash (not_decimal_dash ha)).mp hread
      exact Or.inr ⟨a, b, m, n, hs, hm, hn, hmfits, hnfits⟩
    · rcases parseId_chars hread '\n' (List.mem_of_getLast? hnewline) with hdigit | hdash
      · cases hdigit
      · cases hdash
  · rintro (rfl | ⟨a, b, m, n, hs, hm, hn, hmfits, hnfits⟩)
    · decide
    · have hdash : '-' ∉ a := by
        intro hmem
        have hdigit := List.all_eq_true.mp (parseNat_eq_some.mp hm).2.1 '-' hmem
        cases hdigit
      rw [hs]
      exact (parseId_dash hdash).mpr ⟨m, n, hm, hn, hmfits, hnfits⟩

theorem parseId_iff_plain (h : streamIdRe s = true) : (parseId s.toList).isSome = true ↔ PlainId s := by
  have hnewline : (parseId s.toList).isSome = true → s.toList.getLast? ≠ some '\n' := by
    intro hread hlast
    rcases parseId_chars hread '\n' (List.mem_of_getLast? hlast) with hdigit | hdash
    · cases hdigit
    · cases hdash
  have hascii : (parseId s.toList).isSome = true → ∀ c ∈ s.toList, c.toNat < 128 := by
    intro hread c hc
    rcases parseId_chars hread c hc with hdigit | rfl
    · exact ascii_of_isDigit hdigit
    · decide
  rcases streamIdRe_cases h with rfl | ⟨a, b, hs, hane, hbne, ha, hb⟩ | hlast
  · exact ⟨fun hread => ⟨hnewline hread, hascii hread, by decide⟩, fun _ => by decide⟩
  · have hdash := not_decimal_dash ha
    have hsplit : Text.split '-' 1 s.toList = [a, b] := by simp [Text.split, Text.cut_eq_some.mpr ⟨hs, hdash⟩]
    have hiff := parseId_dash (b := b) hdash
    rw [← hs] at hiff
    constructor
    · intro hread
      refine ⟨hnewline hread, hascii hread, ?_⟩
      obtain ⟨m, n, hm, hn, hmfits, hnfits⟩ := hiff.mp hread
      obtain ⟨-, -, rfl⟩ := parseNat_eq_some.mp hm
      obtain ⟨-, -, rfl⟩ := parseNat_eq_some.mp hn
      rw [hsplit]
      simp [hmfits, hnfits]
    · rintro ⟨-, hsmall, hfits⟩
      have hdigits : ∀ part : List Char, part.all decimalDigit = true → (∀ c ∈ part, c ∈ s.toList) →
          part.all Char.isDigit = true := fun part hpart hin =>
        List.all_eq_true.mpr fun c hc => isDigit_iff.mpr ⟨List.all_eq_true.mp hpart c hc, hsmall c (hin c hc)⟩
      have hain : ∀ c ∈ a, c ∈ s.toList := fun c hc => hs ▸ List.mem_append_left _ hc
      have hbin : ∀ c ∈ b, c ∈ s.toList := fun c hc => hs ▸ List.mem_append_right _ (List.mem_cons_of_mem _ hc)
      rw [hsplit] at hfits
      exact hiff.mpr ⟨_, _, parseNat_eq_some.mpr ⟨hane, hdigits a ha hain, rfl⟩,
        parseNat_eq_some.mpr ⟨hbne, hdigits b hb hbin, rfl⟩, hfits a (by simp), hfits b (by simp)⟩
  · exact ⟨fun hread => absurd hlast (hnewline hread), fun hplain => absurd hlast hplain.ended⟩

end Accepted

/-! ### Requests with an accepted id -/

/-- `min_id` -/
def minId (lastId : String) : String := if lastId = "0" then "-" else "(" ++ lastId

/-- The answer to a read, from the entries of the reply. -/
def eventsPage (ns key : String) (v : Json) : Json :=
  ok (.obj [("events", .arr (v.items.map eventOf)), ("count", .int (v.items.map eventOf).length)]) ns key "stream"

section Requests
variable {R : Server} {st : Settings} {client : ClientInfo} {ns key k : String} {now : Nat} {s : Store}

/-- One command alone, and a computation on its reply. -/
theorem alone_redis (c : KeyCmd) (f : Json → Json) :
    Alone R now ((redis k c).bind fun v => .pure (f v)) s =
      (((R.onKey c now (s k)).1.mapError Exn.redis).map f, s.set k (R.onKey c now (s k)).2) := by
  show ((ofReply (R.onKey c now (s k)).1).bind fun v => .pure (f v)).run (execStore R) (fun _ => now) _ = _
  cases (R.onKey c now (s k)).1 <;> rfl

theorem readEvents_run (haccess : checkAccess client ns "read" = true) (hk : buildKey st.engine ns eventPrefix key = .ok k)
    {lastId : String} (hid : streamIdRe lastId = true) (count : Int) :
    Alone R now (readEvents st client ns key lastId count) s =
      (((R.onKey (.xrange (minId lastId) count) now (s k)).1.mapError Exn.redis).map (eventsPage ns key),
        s.set k (R.onKey (.xrange (minId lastId) count) now (s k)).2) := by
  have hmin : (if lastId = "0" then "-" else s!"({lastId}") = minId lastId := rfl
  have hrun : readEvents st client ns key lastId count =
      (redis k (.xrange (minId lastId) count)).bind fun entries => .pure (eventsPage ns key entries) := by
    unfold readEvents requireRead requireAccess
    simp only [haccess, hk, hid, hmin]
    rfl
  rw [hrun]
  exact alone_redis _ _

/-- With accepted ids an acknowledgement is one XACK. -/
theorem ackEvents_run (haccess : checkAccess client ns "read" = true) (hk : buildKey st.engine ns eventPrefix key = .ok k)
    {body : EventAckRequest} (hids : ∀ id ∈ body.ids, streamIdRe id = true) (group : String) :
    Alone R now (ackEvents st client ns key group body) s =
      (((R.onKey (.xack group body.ids) now (s k)).1.mapError Exn.redis).map fun acked =>
        ok (.obj [("acked", acked)]) ns key "stream", s.set k (R.onKey (.xack group body.ids) now (s k)).2) := by
  have hchecks : (body.ids.forM fun sid => if !streamIdRe sid then throw (invalidStreamId sid) else Pure.pure () : Handler Unit) =
      .pure () := forM_pure fun sid hsid => by simp [hids sid hsid]
  have hrun : ackEvents st client ns key group body =
      (redis k (.xack group body.ids)).bind fun acked => .pure (ok (.obj [("acked", acked)]) ns key "stream") := by
    unfold ackEvents requireRead requireAccess
    rw [hchecks]
    simp only [haccess, hk]
    rfl
  rw [hrun]
  exact alone_redis _ fun acked => ok (.obj [("acked", acked)]) ns key "stream"

/-- The bound of a read is the id, and it is exclusive. -/
theorem lowerBound_after {id : String} (h : id ≠ "0") : lowerBound (minId id) = (parseId id.toList).map fun a y => a.lt y := by
  have hminId : (minId id).toList = '(' :: id.toList := by
    simp [minId, h, String.toList_append]
  unfold lowerBound
  rw [hminId]
  rfl

/-- The bound is refused if the id is none. -/
theorem xrange_refuses {id : String} (count : Int) (x : Stream) :
    xrange (minId id) count x = .error invalidId ↔ parseId id.toList = none := by
  by_cases hzero : id = "0"
  · subst hzero
    have hread : parseId "0".toList ≠ none := by decide
    have hpage : xrange (minId "0") count x ≠ .error invalidId := fun h => by cases h
    exact iff_of_false hpage hread
  · unfold xrange
    rw [lowerBound_after hzero]
    cases parseId id.toList <;> simp

/-- An accepted id is valid exactly if it is plain. Any other surfaces as an error of Redis, from a read and from an acknowledgement. -/
theorem accepted_id_iff_plain (hR : R.Streams) (haccess : checkAccess client ns "read" = true)
    (hk : buildKey st.engine ns eventPrefix key = .ok k) (hkind : HasKind .stream (s k)) :
    (∀ id, streamIdRe id = true → (ValidStreamId id ↔ PlainId id) ∧
      ∀ count, (Alone R now (readEvents st client ns key id count) s).1 = .error (.redis invalidId) ↔ ¬PlainId id) ∧
    ∀ (body : EventAckRequest) (group : String) (x : Stream) (d : Option Nat), (∀ id ∈ body.ids, streamIdRe id = true) →
      live now (s k) = some ⟨.stream x, d⟩ → x.groups.any (·.name == group) = true →
      ((∀ id ∈ body.ids, ValidStreamId id) ↔ ∀ id ∈ body.ids, PlainId id) ∧
      ((Alone R now (ackEvents st client ns key group body) s).1 = .error (.redis invalidId) ↔ ∃ id ∈ body.ids, ¬PlainId id) := by
  have hnone : ∀ id, streamIdRe id = true → (parseId id.toList = none ↔ ¬PlainId id) := by
    intro id hid
    rw [← parseId_iff_plain hid, Bool.not_eq_true, Option.isSome_eq_false_iff, Option.isNone_iff_eq_none]
  have hraised : ∀ {r : Reply} (f : Json → Json), (r.mapError Exn.redis).map f = .error (.redis invalidId) ↔ r = .error invalidId := by
    intro r f
    cases r <;> simp [Except.mapError, Except.map]
  constructor
  · intro id hid
    refine ⟨(parseId_iff_valid hid).symm.trans (parseId_iff_plain hid), fun count => ?_⟩
    rw [readEvents_run haccess hk hid, hraised, hR.xrange _ _ _ _ hkind, xrange_refuses, hnone id hid]
  · intro body group x d hids hlive hgroup
    constructor
    · exact forall₂_congr fun id hid => (parseId_iff_valid (hids id hid)).symm.trans (parseId_iff_plain (hids id hid))
    · rw [ackEvents_run haccess hk hids, hraised, hR.xack group body.ids now (s k) x d hlive hgroup]
      exact exists_congr fun id => and_congr_right fun hid => hnone id (hids id hid)

end Requests

def eventReader : ClientInfo := ⟨"app", "", [("app", ["read"])]⟩

/-- An entry, and a group that has not read it. -/
def oneEvent : Stream := ⟨[(⟨1, 0⟩, [("x", "y")])], ⟨1, 0⟩, [⟨"g", ⟨0, 0⟩, [], []⟩]⟩

def eventStore : Store := Store.empty.set "app:evt:a" (some ⟨.stream oneEvent, none⟩)

theorem eventStore_kind : HasKind .stream (eventStore "app:evt:a") := hasKind_stream

theorem accepted_id_iff_plain_one : (∃ id, streamIdRe id = true ∧ ValidStreamId id) ∧
    (Alone reference 0 (ackEvents {} eventReader "app" "a" "g" ⟨["1-0", "18446744073709551616-0"]⟩) eventStore).1 =
      .error (.redis invalidId) := by
  obtain ⟨hread, hack⟩ := @accepted_id_iff_plain reference {} eventReader "app" "a" "app:evt:a" 0 eventStore reference_streams
    (by decide : checkAccess eventReader "app" "read" = true)
    (by decide +kernel : buildKey .python "app" eventPrefix "a" = .ok "app:evt:a") eventStore_kind
  refine ⟨⟨"1-0", by decide +kernel, (hread "1-0" (by decide +kernel)).1.mpr ⟨by decide, by simp, by decide⟩⟩, ?_⟩
  refine (hack ⟨["1-0", "18446744073709551616-0"]⟩ "g" oneEvent none (by decide +kernel) rfl (by decide)).2.mpr ?_
  exact ⟨"18446744073709551616-0", by simp, fun h => absurd h.fits (by decide +kernel)⟩

/-- An id that is beyond 64 bits is accepted, and Redis refuses it. -/
theorem accepted_id_invalid : ∃ id, streamIdRe id = true ∧ ¬ValidStreamId id ∧
    (Alone reference 0 (readEvents {} eventReader "app" "a" id 10) eventStore).1 = .error (.redis invalidId) := by
  refine ⟨"18446744073709551616-0", by decide +kernel, fun h => ?_, rfl⟩
  rw [← parseId_iff_valid (by decide +kernel)] at h
  revert h
  decide +kernel

end Redgw
