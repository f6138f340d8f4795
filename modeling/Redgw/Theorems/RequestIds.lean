import Redgw.Theorems.AuditStatus

/-! # Request ids

A request may bring its own id. The middleware drops the bytes of the id that are not ASCII before it looks at
it, and its pattern also matches before a newline at the end. The response that the outermost middleware gives
for an application that raised has no id. -/

namespace Redgw

/-- A value of a header that may serve as the id: 1 to 128 characters of `[A-Za-z0-9_-]`. -/
def wellFormedId (v : Bytes) : Bool :=
  v.all (fun b => decide (b < 128) && nsChar (.ofNat b.toNat)) && decide (1 ≤ v.length ∧ v.length ≤ 128)

/-- The form of `str(uuid.uuid4())`, as far as its characters go. -/
def UuidText (s : String) : Prop := s.toList.length = 36 ∧ s.toList.all nsChar = true

/-- The id that the request should get: its own, or a fresh one. -/
def dueId (headers : List (Bytes × Bytes)) (uuid4 : String) : Bytes :=
  ((header "x-request-id" headers).filter wellFormedId).getD (encodeAscii uuid4)

/-- The line, and each response start that the client receives, have the id that is due and no other, and it is
    well-formed. -/
structure KeepsId (st : Settings) (env : AuditEnv) (scope : Scope) (pending : Pending) (b : Behaviour) : Prop where
  wellFormed : wellFormedId (dueId scope.headers env.uuid4) = true
  logged : ∀ line ∈ (auditMiddleware st env scope pending b).lines,
    encodeAscii line.requestId = dueId scope.headers env.uuid4
  echoed : ∀ status hs, .start status hs ∈ delivered (audited st env scope pending b) →
    hs.filter (·.1 = encodeAscii "x-request-id") = [(encodeAscii "x-request-id", dueId scope.headers env.uuid4)]

/-- The first id of the request is well-formed, or it is not accepted without its bytes from 128 on. What is
    accepted is a well-formed id, or one and a newline. -/
def Faithful (headers : List (Bytes × Bytes)) : Prop :=
  ∀ v, header "x-request-id" headers = some v → wellFormedId v = true ∨ requestIdRe (decodeAscii v).toList = false

/-- The application starts a response, or the request gets an audit line. -/
def ShowsId (st : Settings) (scope : Scope) (pending : Pending) (b : Behaviour) : Prop :=
  b.starts ≠ [] ∨ (scope.path ∉ st.audit.excludePaths ∧
    (decideCapture scope.method scope.path st.audit.level = true ∨ LeavesEvent pending b))

/-! ### Ids as bytes -/

theorem toNat_ofNat_ascii : ∀ n < 128, (Char.ofNat n).toNat = n := by decide

theorem toUInt8_ofNat_ascii {b : UInt8} (h : b < 128) : (Char.ofNat b.toNat).toNat.toUInt8 = b := by
  rw [toNat_ofNat_ascii b.toNat h]
  exact UInt8.ofNat_toNat

theorem encodeAscii_decodeAscii (v : Bytes) : encodeAscii (decodeAscii v) = v.filter (· < 128) := by
  unfold encodeAscii decodeAscii
  rw [String.toList_ofList]
  induction v with
  | nil => rfl
  | cons b v ih =>
    by_cases hb : b < 128
    · have hlt : (Char.ofNat b.toNat).toNat < 128 := by
        rw [toNat_ofNat_ascii b.toNat hb]
        exact hb
      rw [List.filter_cons_of_pos (by simpa using hb), List.map_cons, List.filter_cons_of_pos (by simpa using hlt),
        List.map_cons, ih, toUInt8_ofNat_ascii hb]
    · rw [List.filter_cons_of_neg (by simpa using hb)]
      exact ih

theorem nsChar_ascii {c : Char} (h : nsChar c = true) : c.toNat < 128 := by
  by_contra hbeyond
  rw [Nat.not_lt] at hbeyond
  unfold nsChar at h
  rw [isAlphanum_beyond hbeyond, char_beyond hbeyond (by decide), char_beyond hbeyond (by decide)] at h
  cases h

theorem ofNat_toUInt8 {c : Char} (h : c.toNat < 128) : Char.ofNat c.toNat.toUInt8.toNat = c := by
  have hsmall : c.toNat.toUInt8.toNat = c.toNat := UInt8.toNat_ofNat_of_lt' (Nat.lt_trans h (by decide))
  rw [hsmall, Char.ofNat_toNat]

/-- A text of these characters, byte by byte. -/
theorem encodeAscii_nsChars {s : String} (h : s.toList.all nsChar = true) :
    encodeAscii s = s.toList.map fun c => c.toNat.toUInt8 := by
  unfold encodeAscii
  rw [List.filter_eq_self.mpr]
  intro c hc
  exact decide_eq_true (nsChar_ascii (List.all_eq_true.mp h c hc))

/-- No two texts of these characters have the same bytes. -/
theorem encodeAscii_inj {s t : String} (hs : s.toList.all nsChar = true) (ht : t.toList.all nsChar = true)
    (h : encodeAscii s = encodeAscii t) : s = t := by
  have hback : ∀ u : String, u.toList.all nsChar = true →
      (encodeAscii u).map (fun b => Char.ofNat b.toNat) = u.toList := by
    intro u hu
    rw [encodeAscii_nsChars hu, List.map_map]
    refine (List.map_congr_left fun c hc => ?_).trans (List.map_id _)
    exact ofNat_toUInt8 (nsChar_ascii (List.all_eq_true.mp hu c hc))
  rw [← String.toList_inj, ← hback s hs, ← hback t ht, h]

theorem UuidText.wellFormed {s : String} (h : UuidText s) : wellFormedId (encodeAscii s) = true := by
  obtain ⟨hlength, hchars⟩ := h
  rw [encodeAscii_nsChars hchars]
  unfold wellFormedId
  rw [List.length_map, hlength, Bool.and_eq_true, List.all_map, List.all_eq_true]
  refine ⟨fun c hc => ?_, by decide⟩
  have hns : nsChar c = true := List.all_eq_true.mp hchars c hc
  have hsmall : c.toNat.toUInt8.toNat = c.toNat := UInt8.toNat_ofNat_of_lt' (Nat.lt_trans (nsChar_ascii hns) (by decide))
  have hlt : c.toNat.toUInt8 < 128 := UInt8.lt_iff_toNat_lt.mpr (lt_of_eq_of_lt hsmall (nsChar_ascii hns))
  simp only [Function.comp_apply, ofNat_toUInt8 (nsChar_ascii hns), hns, hlt, decide_true, Bool.and_self]

/-- A well-formed id is ASCII and accepted. -/
theorem wellFormedId_accepted {v : Bytes} (h : wellFormedId v = true) :
    v.filter (· < 128) = v ∧ requestIdRe (decodeAscii v).toList = true := by
  unfold wellFormedId at h
  rw [Bool.and_eq_true, List.all_eq_true] at h
  obtain ⟨hbytes, hlength⟩ := h
  have hascii : v.filter (· < 128) = v :=
    List.filter_eq_self.mpr fun b hb => (Bool.and_eq_true _ _ ▸ hbytes b hb).1
  refine ⟨hascii, ?_⟩
  unfold decodeAscii requestIdRe
  dsimp only
  rw [hascii, String.toList_ofList, List.length_map, hlength, Bool.and_true]
  have hall : (v.map fun b => Char.ofNat b.toNat).all nsChar = true := by
    rw [List.all_map, List.all_eq_true]
    exact fun b hb => (Bool.and_eq_true _ _ ▸ hbytes b hb).2
  rw [hall, Bool.true_or]

/-! ### The id that is chosen -/

section Chosen
variable {env : AuditEnv} {scope : Scope}

theorem auditId_none (h : header "x-request-id" scope.headers = none) : auditId env scope = env.uuid4 := by
  have hempty : requestIdRe "".toList = false := by decide
  unfold auditId validateRequestId
  rw [h, Option.map_none, Option.getD_none, hempty]
  rfl

theorem auditId_some {v : Bytes} (h : header "x-request-id" scope.headers = some v) :
    auditId env scope = if requestIdRe (decodeAscii v).toList then decodeAscii v else env.uuid4 := by
  unfold auditId validateRequestId
  rw [h, Option.map_some, Option.getD_some]

/-- The id that is due is chosen when the header is faithful. -/
theorem auditId_due (h : Faithful scope.headers) : encodeAscii (auditId env scope) = dueId scope.headers env.uuid4 := by
  unfold dueId
  cases hv : header "x-request-id" scope.headers with
  | none =>
    rw [auditId_none hv]
    rfl
  | some v =>
    rw [auditId_some hv]
    by_cases hwell : wellFormedId v = true
    · obtain ⟨hascii, haccepted⟩ := wellFormedId_accepted hwell
      rw [if_pos haccepted, encodeAscii_decodeAscii, hascii, Option.filter_some_pos hwell, Option.getD_some]
    · have hrejected := (h v hv).resolve_left hwell
      rw [if_neg (by simp [hrejected]), Option.filter_some_neg (by simpa using hwell), Option.getD_none]

/-- Otherwise a fresh id is due, and one is chosen that does not depend on it. -/
theorem auditId_stale (h : ¬ Faithful scope.headers) :
    ∃ v, (∀ env, auditId env scope = decodeAscii v) ∧ ∀ uuid4, dueId scope.headers uuid4 = encodeAscii uuid4 := by
  obtain ⟨v, hv, hwell, haccepted⟩ : ∃ v, header "x-request-id" scope.headers = some v ∧ ¬ wellFormedId v = true ∧
      requestIdRe (decodeAscii v).toList = true := by
    simpa [Faithful] using h
  refine ⟨v, fun env => ?_, fun uuid4 => ?_⟩
  · rw [auditId_some hv, if_pos haccepted]
  · unfold dueId
    rw [hv, Option.filter_some_neg (by simpa using hwell), Option.getD_none]

end Chosen

/-! ### Where it is shown -/

section Shown
variable {st : Settings} {env : AuditEnv} {scope : Scope} {pending : Pending} {b : Behaviour}

theorem lines_requestId : ∀ line ∈ (auditMiddleware st env scope pending b).lines, line.requestId = auditId env scope := by
  intro line hline
  rcases audit_cases st scope with hex | ⟨hex, hc⟩ | ⟨hex, hc⟩
  · rw [auditMiddleware_excluded hex] at hline
    cases hline
  · rw [auditMiddleware_refused hex hc] at hline
    obtain ⟨event, -, rfl⟩ := List.mem_map.mp hline
    rfl
  · rw [auditMiddleware_logged hex hc] at hline
    rw [List.mem_singleton.mp hline]
    rfl

theorem lines_ne_nil : (auditMiddleware st env scope pending b).lines ≠ [] ↔ scope.path ∉ st.audit.excludePaths ∧
    (decideCapture scope.method scope.path st.audit.level = true ∨ LeavesEvent pending b) := by
  have hone : (auditMiddleware st env scope pending b).lines ≠ [] ↔
      (auditMiddleware st env scope pending b).lines.length = 1 := by
    have hle : (auditMiddleware st env scope pending b).lines.length ≤ 1 := lines_le_one
    rw [← List.length_pos_iff]
    omega
  rw [hone]
  rcases audit_cases st scope with hex | ⟨hex, hc⟩ | ⟨hex, hc⟩
  · simp [auditMiddleware_excluded hex, hex]
  · simp [lines_uncaptured hex hc, hex, hc]
  · simp [lines_captured hex hc, hex, hc]

/-- What the client receives: the application's messages with the id, and the answer for one that raised. -/
theorem delivered_audited : delivered (audited st env scope pending b) =
    b.sends.map (fun m => secureMessage (echoRequestId (auditId env scope) m)) ++
      if b.raised = true ∧ b.starts = [] then [.start 500 [], .body false] else [] := by
  have hsends : (audited st env scope pending b).sends = b.sends.map (echoRequestId (auditId env scope)) := by
    rw [sends_eq]
    unfold audited
    rw [List.filterMap_map, auditMiddleware_sent]
    exact List.filterMap_some
  have hstarts : ((audited st env scope pending b).sends.map secureMessage).filterMap Message.status? = b.starts := by
    rw [List.filterMap_map, ← audited_starts st env scope pending b, starts_eq]
    exact List.filterMap_congr fun m _ => status_secureMessage m
  unfold delivered serverErrorMiddleware
  rw [metricsMiddleware_sent, hstarts, hsends, List.map_map]
  show (if b.raised && b.starts.isEmpty then _ else _) = _
  by_cases hlost : b.raised = true ∧ b.starts = []
  · rw [if_pos hlost, if_pos (by rw [hlost.1, hlost.2]; rfl)]
    rfl
  · rw [if_neg hlost, if_neg (by simpa using hlost), List.append_nil]
    rfl

theorem echoed_filter (requestId : String) (status : Nat) (headers : List (Bytes × Bytes)) :
    ∃ hs, secureMessage (echoRequestId requestId (.start status headers)) = .start status hs ∧
      hs.filter (·.1 = encodeAscii "x-request-id") = [(encodeAscii "x-request-id", encodeAscii requestId)] := by
  have hother : encodeAscii "x-request-id" ∉ securityHeaderNames := by decide
  have hsecurity : securityHeaders.filter (·.1 = encodeAscii "x-request-id") = [] := by decide
  refine ⟨_, rfl, ?_⟩
  rw [List.filter_append, List.filter_append, List.filter_append, hsecurity, List.filter_filter, List.append_nil,
    List.filter_filter]
  have hroute : headers.filter (fun h => ((decide (h.1 = encodeAscii "x-request-id") &&
      !securityHeaderNames.contains h.1) && decide (h.1 ≠ encodeAscii "x-request-id"))) = [] := by
    rw [List.filter_eq_nil_iff]
    intro h _
    by_cases hname : h.1 = encodeAscii "x-request-id" <;> simp [hname]
  rw [List.filter_cons_of_pos (by simp [hother]), hroute]
  rfl

/-- Each response start that reaches the client has one id, the chosen one, if the application does not raise before
    it starts a response. -/
theorem delivered_header (hstarts : b.raised = true → b.starts ≠ []) {status : Nat} {hs : List (Bytes × Bytes)}
    (h : .start status hs ∈ delivered (audited st env scope pending b)) :
    hs.filter (·.1 = encodeAscii "x-request-id") = [(encodeAscii "x-request-id", encodeAscii (auditId env scope))] := by
  rw [delivered_audited, if_neg fun hlost => hstarts hlost.1 hlost.2, List.append_nil] at h
  obtain ⟨m, -, hm⟩ := List.mem_map.mp h
  cases m with
  | start status' headers =>
    obtain ⟨hs', hsecure, hfilter⟩ := echoed_filter (auditId env scope) status' headers
    rw [hsecure] at hm
    cases hm
    exact hfilter
  | body more => cases hm

theorem starts_delivered (h : b.starts ≠ []) :
    ∃ status hs, .start status hs ∈ delivered (audited st env scope pending b) := by
  obtain ⟨status, hstatus⟩ := List.exists_mem_of_ne_nil _ h
  rw [starts_eq] at hstatus
  obtain ⟨m, hm, hm'⟩ := List.mem_filterMap.mp hstatus
  cases m with
  | start status' headers =>
    obtain ⟨hs, hsecure, -⟩ := echoed_filter (auditId env scope) status' headers
    refine ⟨status', hs, ?_⟩
    rw [delivered_audited]
    exact List.mem_append_left _ (List.mem_map.mpr ⟨_, hm, hsecure⟩)
  | body more => cases hm'

theorem start_delivered {status : Nat} {hs : List (Bytes × Bytes)} (hstarts : b.raised = true → b.starts ≠ [])
    (h : .start status hs ∈ delivered (audited st env scope pending b)) : b.starts ≠ [] := by
  rw [delivered_audited, if_neg fun hlost => hstarts hlost.1 hlost.2, List.append_nil] at h
  obtain ⟨m, hm, hm'⟩ := List.mem_map.mp h
  rw [starts_eq]
  cases m with
  | start status' headers => exact List.ne_nil_of_mem (List.mem_filterMap.mpr ⟨_, hm, rfl⟩)
  | body more => cases hm'

end Shown

/-! ### Every request -/

theorem dueId_wellFormed {headers : List (Bytes × Bytes)} {uuid4 : String} (h : UuidText uuid4) :
    wellFormedId (dueId headers uuid4) = true := by
  unfold dueId
  cases hid : (header "x-request-id" headers).filter wellFormedId with
  | none => exact h.wellFormed
  | some v => exact (Option.filter_eq_some_iff.mp hid).2

/-- The answer for an application that raised has no id. -/
theorem KeepsId.starts {st : Settings} {env : AuditEnv} {scope : Scope} {pending : Pending} {b : Behaviour}
    (h : KeepsId st env scope pending b) (hraised : b.raised = true) : b.starts ≠ [] := by
  intro hnone
  have hmem : .start 500 [] ∈ delivered (audited st env scope pending b) := by
    rw [delivered_audited, if_pos ⟨hraised, hnone⟩]
    exact List.mem_append_right _ List.mem_cons_self
  cases h.echoed 500 [] hmem

/-- A run that shows the id tells whether the chosen one was due. -/
theorem KeepsId.chosen {st : Settings} {env : AuditEnv} {scope : Scope} {pending : Pending} {b : Behaviour}
    (h : KeepsId st env scope pending b) (hshow : ShowsId st scope pending b) :
    encodeAscii (auditId env scope) = dueId scope.headers env.uuid4 := by
  rcases hshow with hstarts | hlines
  · obtain ⟨status, hs, hmem⟩ := starts_delivered hstarts
    have hsame := (delivered_header h.starts hmem).symm.trans (h.echoed status hs hmem)
    exact (Prod.mk.inj (List.singleton_inj.mp hsame)).2
  · obtain ⟨line, hline⟩ := List.exists_mem_of_ne_nil _ (lines_ne_nil.mpr hlines)
    rw [← h.logged line hline, lines_requestId line hline]

/-- Whatever fresh ids are made, the line and the response that the client receives have the id that is due, exactly
    when the application does not raise before it starts a response, and the first id of the request is well-formed
    or is not accepted without its bytes from 128 on, or nothing shows the id. -/
theorem request_id_kept_iff (st : Settings) (scope : Scope) (pending : Pending) (b : Behaviour) :
    (∀ env : AuditEnv, UuidText env.uuid4 → KeepsId st env scope pending b) ↔
      (b.raised = true → b.starts ≠ []) ∧ (ShowsId st scope pending b → Faithful scope.headers) := by
  have hzero : UuidText "00000000-0000-4000-8000-000000000000" := ⟨by decide, by decide⟩
  have hone : UuidText "11111111-1111-4111-8111-111111111111" := ⟨by decide, by decide⟩
  constructor
  · refine fun h => ⟨(h ⟨"", 0, _, fun _ => "", fun _ => ""⟩ hzero).starts, fun hshow => ?_⟩
    by_contra hstale
    obtain ⟨v, hchosen, hdue⟩ := auditId_stale hstale
    -- two fresh ids, and the same id is shown for both
    have hfresh : ∀ uuid4 : String, UuidText uuid4 → encodeAscii uuid4 = encodeAscii (decodeAscii v) := by
      intro uuid4 huuid
      have hkeeps := (h ⟨"", 0, uuid4, fun _ => "", fun _ => ""⟩ huuid).chosen hshow
      rw [hchosen, hdue] at hkeeps
      exact hkeeps.symm
    have hsame := encodeAscii_inj hzero.2 hone.2 ((hfresh _ hzero).trans (hfresh _ hone).symm)
    exact absurd hsame (by decide)
  · rintro ⟨hstarts, h⟩ env huuid
    refine ⟨dueId_wellFormed huuid, fun line hline => ?_, fun status hs hmem => ?_⟩
    · have hfaithful := h (Or.inr (lines_ne_nil.mp (List.ne_nil_of_mem hline)))
      rw [lines_requestId line hline, auditId_due hfaithful]
    · have hfaithful := h (Or.inl (start_delivered hstarts hmem))
      rw [delivered_header hstarts hmem, auditId_due hfaithful]

def uuidEnv : AuditEnv := ⟨"", 0, "00000000-0000-4000-8000-000000000000", fun _ => "", fun _ => ""⟩

/-- A read with an id. -/
def readWith (id : Bytes) : Scope := ⟨"GET", "/api/v1/ns/app/kv/x", [(encodeAscii "x-request-id", id)], none⟩

/-- Of an id with a byte that is not ASCII the rest is echoed, and an id with a newline behind it as it is. The client
    of a handler that raises gets no id at all, though there is a line that has it. -/
theorem stale_ids_echoed :
    ¬ KeepsId {} uuidEnv (readWith [97, 98, 99, 255]) none plainBehaviour ∧
    ¬ KeepsId {} uuidEnv (readWith [97, 98, 99, 10]) none plainBehaviour ∧
    ¬ KeepsId correlating uuidEnv valueWrite none ⟨[], true, some "app", some "x"⟩ ∧
    (auditMiddleware correlating uuidEnv valueWrite none ⟨[], true, some "app", some "x"⟩).lines ≠ [] := by
  refine ⟨fun h => ?_, fun h => ?_, fun h => h.starts rfl rfl, by decide⟩
  · exact absurd (h.echoed 200 _ List.mem_cons_self) (by decide)
  · exact absurd (h.echoed 200 _ List.mem_cons_self) (by decide)

end Redgw
