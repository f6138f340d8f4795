import Redgw.Handler

/-! # Two implementations of the key module

The Rust module and the Python fallback accept the same and build the same; what they raise is told apart by
the text of a message, which holds the text of the user. -/

namespace Redgw

/-! ### Building keys -/

theorem pyBuildKeysBatch_eq (ns typePrefix : String) (keys : List String) :
    pyBuildKeysBatch ns typePrefix keys =
      if nsRe ns.toList then
        (keys.find? fun k => !keyRe k.toList).elim (.ok (keys.map (joinKey ns typePrefix)))
          fun k => .error (error "INVALID_KEY" (keyMessage k))
      else .error (error "INVALID_NAMESPACE" (nsMessage ns)) := by
  unfold pyBuildKeysBatch pyValidateNs
  split
  · refine Eq.trans (congrFun (congrArg List.mapM (funext fun k => ?_)) keys) (Fallible.mapM_check _ _ _ _)
    unfold pyValidateKey
    split <;> rfl
  · rfl

theorem rustBuildKeysBatch_eq (ns typePrefix : String) (keys : List String) :
    rustBuildKeysBatch ns typePrefix keys =
      if nsRe ns.toList then
        (keys.find? fun k => !keyRe k.toList).elim (.ok (keys.map (joinKey ns typePrefix))) fun k => .error (keyMessage k)
      else .error (nsMessage ns) := by
  unfold rustBuildKeysBatch
  rw [rustValidateNs_eq]
  split
  · refine Eq.trans (congrFun (congrArg List.mapM (funext fun k => ?_)) keys) (Fallible.mapM_check _ _ _ _)
    rw [rustValidateKey_eq]
    split <;> rfl
  · rfl

/-- A single key is a batch of one. -/
theorem pyBuildKey_eq (ns typePrefix key : String) :
    pyBuildKey ns typePrefix key =
      if nsRe ns.toList then
        if keyRe key.toList then .ok (joinKey ns typePrefix key) else .error (error "INVALID_KEY" (keyMessage key))
      else .error (error "INVALID_NAMESPACE" (nsMessage ns)) := by
  unfold pyBuildKey pyValidateNs pyValidateKey
  split
  · split <;> rfl
  · rfl

theorem rustBuildKey_eq (ns typePrefix key : String) :
    rustBuildKey ns typePrefix key =
      if nsRe ns.toList then
        if keyRe key.toList then .ok (joinKey ns typePrefix key) else .error (keyMessage key)
      else .error (nsMessage ns) := by
  unfold rustBuildKey
  rw [rustValidateNs_eq, rustValidateKey_eq]
  split
  · split <;> rfl
  · rfl

theorem rustParseKey_eq (redisKey : String) : rustParseKey redisKey = pyParseKey redisKey := by
  have h : parseKey .rust redisKey = parseKey .python redisKey :=
    Option.ext fun ⟨a, b, c⟩ => parseKey_eq_some.trans parseKey_eq_some.symm
  exact h

theorem rustExceedsSize_eq (value : String) (maxSize : Int) :
    rustExceedsSize value maxSize =
      if 0 ≤ maxSize ∧ maxSize ≤ 18446744073709551615 then .ok (pyExceedsSize value maxSize) else .error ⟨⟩ := by
  unfold rustExceedsSize toUsize
  split
  · have hlen : (!rustCheckUtf8ByteLen value maxSize.toNat) = pyExceedsSize value maxSize := by
      unfold rustCheckUtf8ByteLen pyExceedsSize
      rw [Bool.eq_iff_iff, Bool.not_eq_true', decide_eq_false_iff_not, decide_eq_true_iff]
      omega
    exact congrArg Except.ok hlen
  · rfl

/-- The size check of the handlers is that of either engine, for a limit that both take. -/
theorem exceedsSize_eq (value : String) (maxSize : Nat) : exceedsSize value maxSize = pyExceedsSize value maxSize := by
  unfold exceedsSize pyExceedsSize
  simp

/-- The engines succeed on the same inputs, with the same results; the size check of the module takes the limits
    that a `usize` holds. -/
theorem engines_agree (ns typePrefix key redisKey value : String) (keys : List String) (maxSize : Int) :
    (rustValidateNs ns).toOption.map (fun _ => ns) = (pyValidateNs ns).toOption ∧
    (rustValidateKey key).toOption.map (fun _ => key) = (pyValidateKey key).toOption ∧
    (rustBuildKey ns typePrefix key).toOption = (pyBuildKey ns typePrefix key).toOption ∧
    (rustBuildKeysBatch ns typePrefix keys).toOption = (pyBuildKeysBatch ns typePrefix keys).toOption ∧
    rustParseKey redisKey = pyParseKey redisKey ∧
    (rustExceedsSize value maxSize).toOption =
      if 0 ≤ maxSize ∧ maxSize ≤ 18446744073709551615 then some (pyExceedsSize value maxSize) else none := by
  refine ⟨?_, ?_, ?_, ?_, rustParseKey_eq redisKey, ?_⟩
  · rw [rustValidateNs_eq]
    unfold pyValidateNs
    split <;> rfl
  · rw [rustValidateKey_eq]
    unfold pyValidateKey
    split <;> rfl
  · rw [rustBuildKey_eq, pyBuildKey_eq]
    split
    · split <;> rfl
    · rfl
  · rw [rustBuildKeysBatch_eq, pyBuildKeysBatch_eq]
    split
    · cases keys.find? fun k => !keyRe k.toList <;> rfl
    · rfl
  · rw [rustExceedsSize_eq]
    split <;> rfl

/-- A negative limit is below every length for Python, and no `usize`. -/
theorem negative_limit_disagrees :
    ¬∀ value maxSize, (rustExceedsSize value maxSize).toOption = some (pyExceedsSize value maxSize) := by
  intro h
  exact absurd (h "" (-1)) (by decide)

/-! ### Telling the error from its message -/

/-- What the message of an invalid key has behind the key and its quote. -/
def keyAdvice : List Char := " contains invalid characters. Allowed: A-Z, a-z, 0-9, _, ., :, -, / (max 256 chars)".toList

theorem keyMessage_toList (key : String) :
    (keyMessage key).toList = "Key ".toList ++ '\'' :: (key.toList ++ '\'' :: keyAdvice) := by
  have hmsg : keyMessage key =
      "Key '" ++ key ++ "' contains invalid characters. Allowed: A-Z, a-z, 0-9, _, ., :, -, / (max 256 chars)" := rfl
  have hstart : "Key '".toList = "Key ".toList ++ ['\''] := rfl
  rw [hmsg, String.toList_append, String.toList_append, hstart, List.append_assoc, List.append_assoc]
  rfl

/-- The text of the user is told from the texts around it by the quotes. -/
theorem namespace_in_keyMessage (key : String) :
    Text.occurs "Namespace".toList (keyMessage key).toList = Text.occurs "Namespace".toList key.toList := by
  have hquote : '\'' ∉ "Namespace".toList := by decide
  have hbefore : Text.occurs "Namespace".toList "Key ".toList = false := by decide
  have hbehind : Text.occurs "Namespace".toList keyAdvice = false := by decide
  rw [Bool.eq_iff_iff, keyMessage_toList, Text.occurs_append_cons hquote (by decide),
    Text.occurs_append_cons hquote (by decide), hbefore, hbehind]
  constructor
  · rintro (h | h | h)
    · cases h
    · exact h
    · cases h
  · exact fun h => .inr (.inl h)

theorem namespace_in_nsMessage (ns : String) : Text.occurs "Namespace".toList (nsMessage ns).toList = true := by
  have hmsg : nsMessage ns =
      "Namespace" ++ (" '" ++ ns ++ "' contains invalid characters. Allowed: A-Z, a-z, 0-9, _, - (max 64 chars)") := by
    rw [String.append_assoc, ← String.append_assoc]
    rfl
  rw [hmsg, String.toList_append]
  exact Text.occurs_iff.mpr ⟨[], _, rfl⟩

/-- The code that the message of an invalid key is turned into. -/
def keyCode (engine : Engine) (key : String) : String :=
  if engine = .rust ∧ Text.occurs "Namespace".toList key.toList = true then "INVALID_NAMESPACE" else "INVALID_KEY"

/-- What building `keys` comes to: `built`, or the error of the first part that is invalid. -/
def judged {α : Type} (engine : Engine) (ns : String) (keys : List String) (built : α) : Except Exn α :=
  if nsRe ns.toList then
    (keys.find? fun k => !keyRe k.toList).elim (.ok built) fun k => .error (error (keyCode engine k) (keyMessage k))
  else .error (error "INVALID_NAMESPACE" (nsMessage ns))

/-- The `except ValueError` of the builders. -/
theorem rust_code (key : String) {α : Type} :
    (if Text.occurs "Namespace".toList (keyMessage key).toList then
      (.error (error "INVALID_NAMESPACE" (keyMessage key)) : Except Exn α)
    else .error (error "INVALID_KEY" (keyMessage key))) = .error (error (keyCode .rust key) (keyMessage key)) := by
  rw [namespace_in_keyMessage]
  unfold keyCode
  by_cases h : Text.occurs "Namespace".toList key.toList = true
  · rw [if_pos h, if_pos ⟨rfl, h⟩]
  · rw [if_neg h, if_neg fun hrust => h hrust.2]

theorem buildKeysBatch_eq (engine : Engine) (ns typePrefix : String) (keys : List String) :
    buildKeysBatch engine ns typePrefix keys = judged engine ns keys (keys.map (joinKey ns typePrefix)) := by
  unfold judged
  cases engine with
  | python => exact pyBuildKeysBatch_eq ns typePrefix keys
  | rust =>
    simp only [buildKeysBatch, rustBuildKeysBatch_eq]
    cases nsRe ns.toList with
    | false => exact if_pos (namespace_in_nsMessage ns)
    | true =>
      cases keys.find? fun k => !keyRe k.toList with
      | none => rfl
      | some key => exact rust_code key

theorem buildKey_eq (engine : Engine) (ns typePrefix key : String) :
    buildKey engine ns typePrefix key = judged engine ns [key] (joinKey ns typePrefix key) := by
  unfold judged
  rw [List.find?_singleton]
  cases engine with
  | python =>
    simp only [buildKey, pyBuildKey_eq]
    cases keyRe key.toList <;> rfl
  | rust =>
    simp only [buildKey, rustBuildKey_eq]
    cases nsRe ns.toList with
    | false => exact if_pos (namespace_in_nsMessage ns)
    | true =>
      cases keyRe key.toList with
      | true => rfl
      | false => exact rust_code key

/-- The error of an invalid namespace, or of an invalid key under a valid one. -/
def Classified {α : Type} (ns : String) (keys : List String) (x : Except Exn α) : Prop :=
  (nsRe ns.toList = false → ∃ msg, x = .error (error "INVALID_NAMESPACE" msg)) ∧
    (nsRe ns.toList = true → (∃ key ∈ keys, keyRe key.toList = false) → ∃ msg, x = .error (error "INVALID_KEY" msg))

/-- The first invalid key, under a valid namespace, holds the text that the Rust path looks for in the message. -/
def Misread (engine : Engine) (ns : String) (keys : List String) : Prop :=
  engine = .rust ∧ nsRe ns.toList = true ∧
    ∃ key, keys.find? (fun k => !keyRe k.toList) = some key ∧ Text.occurs "Namespace".toList key.toList = true

theorem keyCode_invalidKey {engine : Engine} {key : String} :
    keyCode engine key = "INVALID_KEY" ↔ ¬(engine = .rust ∧ Text.occurs "Namespace".toList key.toList = true) := by
  unfold keyCode
  split
  · rename_i h
    exact ⟨fun heq => absurd heq (by decide), fun hno => absurd h hno⟩
  · rename_i h
    exact ⟨fun _ => h, fun _ => rfl⟩

theorem classified_iff {α : Type} {engine : Engine} {ns : String} {keys : List String} {built : α} :
    Classified ns keys (judged engine ns keys built) ↔ ¬Misread engine ns keys := by
  unfold Classified judged Misread
  cases nsRe ns.toList with
  | false =>
    exact ⟨fun _ h => absurd h.2.1 Bool.false_ne_true, fun _ => ⟨fun _ => ⟨_, rfl⟩, fun h => absurd h Bool.false_ne_true⟩⟩
  | true =>
    cases hfind : keys.find? fun k => !keyRe k.toList with
    | none =>
      -- every key is valid
      have hvalid : ¬∃ key ∈ keys, keyRe key.toList = false := by
        rintro ⟨key, hmem, hkey⟩
        exact List.find?_eq_none.mp hfind key hmem (by rw [hkey]; rfl)
      simp [hvalid]
    | some key =>
      have hinvalid : ∃ key ∈ keys, keyRe key.toList = false :=
        ⟨key, List.mem_of_find?_eq_some hfind, by simpa using List.find?_some hfind⟩
      have hcode : (∃ msg, (Except.error (error (keyCode engine key) (keyMessage key)) : Except Exn α) =
          .error (error "INVALID_KEY" msg)) ↔ keyCode engine key = "INVALID_KEY" := by
        constructor
        · rintro ⟨msg, h⟩
          injection h with h
          injection h
        · intro h
          exact ⟨_, by rw [h]⟩
      constructor
      · rintro ⟨-, h⟩ ⟨hrust, -, key', hkey', hocc⟩
        cases hkey'
        exact keyCode_invalidKey.mp (hcode.mp (h rfl hinvalid)) ⟨hrust, hocc⟩
      · intro hno
        refine ⟨fun h => absurd h.symm Bool.false_ne_true, fun _ _ => hcode.mpr (keyCode_invalidKey.mpr ?_)⟩
        rintro ⟨hrust, hocc⟩
        exact hno ⟨hrust, rfl, key, rfl, hocc⟩

/-- The builders raise the code of the part that is invalid, unless the Rust path misreads the message of an
    invalid key. -/
theorem error_code_iff (engine : Engine) (ns typePrefix key : String) (keys : List String) :
    (Classified ns [key] (buildKey engine ns typePrefix key) ↔ ¬Misread engine ns [key]) ∧
    (Classified ns keys (buildKeysBatch engine ns typePrefix keys) ↔ ¬Misread engine ns keys) := by
  rw [buildKey_eq, buildKeysBatch_eq]
  exact ⟨classified_iff, classified_iff⟩

/-- A key with a blank, under a valid namespace, is told to be an invalid namespace. -/
theorem key_misread : ¬∀ engine ns typePrefix key, Classified ns [key] (buildKey engine ns typePrefix key) := by
  intro h
  have hcode := h .rust "app" kvPrefix "my Namespace"
  rw [buildKey_eq, classified_iff] at hcode
  exact hcode ⟨rfl, by decide, "my Namespace", by decide, by decide⟩

end Redgw
