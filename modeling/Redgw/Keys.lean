import Redgw.Config
import Redgw.Response
import Redgw.Lib.Fallible
import Redgw.Lib.Text
import Redgw.Lib.Utf8

/-! # Redis keys

Keys are put together as `namespace:prefix:key` and taken apart at the first two colons. The Rust
module and its Python fallback each have their own checks; the public functions turn a failed check
into a 400. -/

namespace Redgw

def kvPrefix := "kv"
def mapPrefix := "map"
def queuePrefix := "q"
def groupPrefix := "grp"
def rankPrefix := "rank"
def eventPrefix := "evt"

/-- The prefixes of the keys that users store. -/
def storagePrefixes : List String := [kvPrefix, mapPrefix, queuePrefix, groupPrefix, rankPrefix, eventPrefix]

/-! ### The Python fallback -/

/-- `[A-Za-z0-9_-]` -/
def nsChar (c : Char) : Bool := c.isAlphanum || c == '_' || c == '-'

/-- The character class of keys: `nsChar` and `.`, `:`, `/`. -/
def keyChar (c : Char) : Bool := c.isAlphanum || c == '_' || c == '.' || c == ':' || c == '-' || c == '/'

/-- `_NS_RE.fullmatch` -/
def nsRe (s : List Char) : Bool := s.all nsChar && decide (1 ≤ s.length ∧ s.length ≤ 64)

/-- `_KEY_RE.fullmatch` -/
def keyRe (s : List Char) : Bool := s.all keyChar && decide (1 ≤ s.length ∧ s.length ≤ 256)

def nsMessage (ns : String) : String :=
  s!"Namespace '{ns}' contains invalid characters. Allowed: A-Z, a-z, 0-9, _, - (max 64 chars)"

def keyMessage (key : String) : String :=
  s!"Key '{key}' contains invalid characters. Allowed: A-Z, a-z, 0-9, _, ., :, -, / (max 256 chars)"

def pyValidateNs (ns : String) : Except Exn String :=
  if nsRe ns.toList then .ok ns else .error (error "INVALID_NAMESPACE" (nsMessage ns))

def pyValidateKey (key : String) : Except Exn String :=
  if keyRe key.toList then .ok key else .error (error "INVALID_KEY" (keyMessage key))

/-- `f"{ns}:{type_prefix}:{key}"` -/
def joinKey (ns typePrefix key : String) : String := ns ++ ":" ++ typePrefix ++ ":" ++ key

def pyBuildKey (ns typePrefix key : String) : Except Exn String := do
  let _ ← pyValidateNs ns
  let _ ← pyValidateKey key
  return joinKey ns typePrefix key

def pyBuildKeysBatch (ns typePrefix : String) (keys : List String) : Except Exn (List String) := do
  let _ ← pyValidateNs ns
  keys.mapM fun k => do return joinKey ns typePrefix (← pyValidateKey k)

/-- `redis_key.split(":", 2)`; `none` stands for the `ValueError` of a key with fewer parts. -/
def pyParseKey (redisKey : String) : Option (String × String × String) :=
  match Text.split ':' 2 redisKey.toList with
  | [a, b, c] => some (.ofList a, .ofList b, .ofList c)
  | _ => none

/-! ### The Rust module

Its checks run over the UTF-8 bytes; a failed check is a `ValueError` with a message. -/

def utf8 (s : String) : List UInt8 := s.toList.flatMap String.utf8EncodeChar

/-- `u8::is_ascii_alphanumeric` -/
def asciiAlphanumeric (b : UInt8) : Bool :=
  (48 ≤ b && b ≤ 57) || (65 ≤ b && b ≤ 90) || (97 ≤ b && b ≤ 122)

def validateNsInner (ns : String) : Bool :=
  let bytes := utf8 ns
  !bytes.isEmpty && decide (bytes.length ≤ 64) && bytes.all fun b => asciiAlphanumeric b || b == 95 || b == 45

def validateKeyInner (key : String) : Bool :=
  let bytes := utf8 key
  !bytes.isEmpty && decide (bytes.length ≤ 256) &&
    bytes.all fun b => asciiAlphanumeric b || b == 95 || b == 46 || b == 58 || b == 45 || b == 47

def rustValidateNs (ns : String) : Except String Unit :=
  if !validateNsInner ns then .error (nsMessage ns) else .ok ()

def rustValidateKey (key : String) : Except String Unit :=
  if !validateKeyInner key then .error (keyMessage key) else .ok ()

def rustBuildKey (ns typePrefix key : String) : Except String String := do
  rustValidateNs ns
  rustValidateKey key
  return joinKey ns typePrefix key

def rustBuildKeysBatch (ns typePrefix : String) (keys : List String) : Except String (List String) := do
  rustValidateNs ns
  keys.mapM fun key => do
    rustValidateKey key
    return joinKey ns typePrefix key

def rustParseKey (redisKey : String) : Option (String × String × String) := do
  let (first, rest) ← Text.cut ':' redisKey.toList
  let (second, third) ← Text.cut ':' rest
  return (.ofList first, .ofList second, .ofList third)

/-! ### The public functions -/

def validateNs (engine : Engine) (ns : String) : Except Exn String :=
  match engine with
  | .python => pyValidateNs ns
  | .rust => match rustValidateNs ns with
    | .ok _ => .ok ns
    | .error e => .error (error "INVALID_NAMESPACE" e)

def validateKey (engine : Engine) (key : String) : Except Exn String :=
  match engine with
  | .python => pyValidateKey key
  | .rust => match rustValidateKey key with
    | .ok _ => .ok key
    | .error e => .error (error "INVALID_KEY" e)

def buildKey (engine : Engine) (ns typePrefix key : String) : Except Exn String :=
  match engine with
  | .python => pyBuildKey ns typePrefix key
  | .rust => match rustBuildKey ns typePrefix key with
    | .ok k => .ok k
    | .error msg =>
      if Text.occurs "Namespace".toList msg.toList then .error (error "INVALID_NAMESPACE" msg)
      else .error (error "INVALID_KEY" msg)

def buildKeysBatch (engine : Engine) (ns typePrefix : String) (keys : List String) : Except Exn (List String) :=
  match engine with
  | .python => pyBuildKeysBatch ns typePrefix keys
  | .rust => match rustBuildKeysBatch ns typePrefix keys with
    | .ok ks => .ok ks
    | .error msg =>
      if Text.occurs "Namespace".toList msg.toList then .error (error "INVALID_NAMESPACE" msg)
      else .error (error "INVALID_KEY" msg)

def parseKey (engine : Engine) (redisKey : String) : Option (String × String × String) :=
  match engine with
  | .python => pyParseKey redisKey
  | .rust => rustParseKey redisKey

/-! ### Both checks accept the same -/

theorem asciiAlphanumeric_high {b : UInt8} (h : 128 ≤ b.toNat) : asciiAlphanumeric b = false := by
  unfold asciiAlphanumeric
  simp only [Bool.or_eq_false_iff, Bool.and_eq_false_iff, decide_eq_false_iff_not, UInt8.le_iff_toNat_le,
    UInt8.reduceToNat]
  omega

theorem byte_high {b x : UInt8} (h : 128 ≤ b.toNat) (hx : x.toNat < 128) : (b == x) = false := by
  refine beq_eq_false_iff_ne.mpr ?_
  rintro rfl
  exact absurd hx (Nat.not_lt.mpr h)

theorem isAlphanum_beyond {c : Char} (h : 128 ≤ c.toNat) : c.isAlphanum = false := by
  have hc : c.toNat = c.val.toNat := rfl
  unfold Char.isAlphanum Char.isAlpha Char.isUpper Char.isLower Char.isDigit
  simp only [Bool.or_eq_false_iff, Bool.and_eq_false_iff, decide_eq_false_iff_not, ge_iff_le,
    UInt32.le_iff_toNat_le, UInt32.reduceToNat, Char.reduceVal]
  omega

theorem char_beyond {c x : Char} (h : 128 ≤ c.toNat) (hx : x.toNat < 128) : (c == x) = false := by
  refine beq_eq_false_iff_ne.mpr ?_
  rintro rfl
  exact absurd hx (Nat.not_lt.mpr h)

theorem ns_sameClass : Utf8.SameClass (fun b => asciiAlphanumeric b || b == 95 || b == 45) nsChar where
  high b hb := by simp [asciiAlphanumeric_high hb, byte_high hb]
  beyond c hc := by simp [nsChar, isAlphanum_beyond hc, char_beyond hc]
  ascii c hc := by
    have h : ∀ n < 128, (fun b => asciiAlphanumeric b || b == 95 || b == 45) (Char.ofNat n).toUInt8 =
        nsChar (Char.ofNat n) := by decide +kernel
    rw [← Char.ofNat_toNat c]
    exact h c.toNat hc

theorem key_sameClass :
    Utf8.SameClass (fun b => asciiAlphanumeric b || b == 95 || b == 46 || b == 58 || b == 45 || b == 47) keyChar where
  high b hb := by simp [asciiAlphanumeric_high hb, byte_high hb]
  beyond c hc := by simp [keyChar, isAlphanum_beyond hc, char_beyond hc]
  ascii c hc := by
    have h : ∀ n < 128, (fun b => asciiAlphanumeric b || b == 95 || b == 46 || b == 58 || b == 45 || b == 47)
        (Char.ofNat n).toUInt8 = keyChar (Char.ofNat n) := by decide +kernel
    rw [← Char.ofNat_toNat c]
    exact h c.toNat hc

/-- A check over the bytes with a limit is the check over the characters with the same limit. -/
theorem bytes_check {byte : UInt8 → Bool} {char : Char → Bool} (h : Utf8.SameClass byte char) (s : String) (n : Nat) :
    (!(utf8 s).isEmpty && decide ((utf8 s).length ≤ n) && (utf8 s).all byte) =
      (s.toList.all char && decide (1 ≤ s.toList.length ∧ s.toList.length ≤ n)) := by
  unfold utf8
  rw [h.all]
  by_cases hs : s.toList.all char = true
  · have hempty : (!(s.toList.flatMap String.utf8EncodeChar).isEmpty) = decide (1 ≤ s.toList.length) := by
      rw [← h.length hs]
      cases s.toList.flatMap String.utf8EncodeChar <;> simp
    rw [hempty, h.length hs, hs, Bool.and_true, Bool.true_and, Bool.decide_and]
  · rw [Bool.not_eq_true] at hs
    rw [hs, Bool.and_false, Bool.false_and]

theorem validateNsInner_eq (ns : String) : validateNsInner ns = nsRe ns.toList := bytes_check ns_sameClass ns 64

theorem validateKeyInner_eq (key : String) : validateKeyInner key = keyRe key.toList := bytes_check key_sameClass key 256

theorem validateNs_nsRe {engine : Engine} {ns n : String} (h : validateNs engine ns = .ok n) : nsRe ns.toList = true := by
  cases engine with
  | python =>
    have h : (if nsRe ns.toList then Except.ok ns else .error (error "INVALID_NAMESPACE" (nsMessage ns))) = .ok n := h
    split at h
    · assumption
    · cases h
  | rust =>
    cases hv : validateNsInner ns with
    | true => exact validateNsInner_eq _ ▸ hv
    | false =>
      unfold validateNs rustValidateNs at h
      simp only [hv] at h
      cases h

theorem validateKey_keyRe {engine : Engine} {key k : String} (h : validateKey engine key = .ok k) : keyRe key.toList = true := by
  cases engine with
  | python =>
    have h : (if keyRe key.toList then Except.ok key else .error (error "INVALID_KEY" (keyMessage key))) = .ok k := h
    split at h
    · assumption
    · cases h
  | rust =>
    cases hv : validateKeyInner key with
    | true => exact validateKeyInner_eq _ ▸ hv
    | false =>
      unfold validateKey rustValidateKey at h
      simp only [hv] at h
      cases h

/-! ### What is built is taken apart again -/

theorem joinKey_toList (ns typePrefix key : String) :
    (joinKey ns typePrefix key).toList = ns.toList ++ ':' :: (typePrefix.toList ++ ':' :: key.toList) := by
  simp [joinKey, String.toList_append]

theorem not_mem_of_nsChar {s : List Char} {c : Char} (h : s.all nsChar = true) (hc : nsChar c = false) : c ∉ s := by
  intro hm
  rw [List.all_eq_true.mp h c hm] at hc
  cases hc

theorem nsChar_colon {s : List Char} (h : s.all nsChar = true) : ':' ∉ s := not_mem_of_nsChar h (by decide)

theorem nsRe_colon {s : List Char} (h : nsRe s = true) : ':' ∉ s := nsChar_colon (Bool.and_eq_true_iff.mp h).1

theorem pyBuildKey_ok {ns typePrefix key k : String} (h : pyBuildKey ns typePrefix key = .ok k) :
    k = joinKey ns typePrefix key ∧ nsRe ns.toList = true ∧ keyRe key.toList = true := by
  unfold pyBuildKey pyValidateNs pyValidateKey at h
  obtain ⟨_, hns, h⟩ := Fallible.bind_ok.mp h
  obtain ⟨_, hkey, h⟩ := Fallible.bind_ok.mp h
  cases h
  split at hns
  · rename_i h₁
    split at hkey
    · rename_i h₂
      exact ⟨rfl, h₁, h₂⟩
    · cases hkey
  · cases hns

theorem rustValidateNs_eq (ns : String) :
    rustValidateNs ns = if nsRe ns.toList then .ok () else .error (nsMessage ns) := by
  unfold rustValidateNs
  rw [validateNsInner_eq]
  cases nsRe ns.toList <;> rfl

theorem rustValidateKey_eq (key : String) :
    rustValidateKey key = if keyRe key.toList then .ok () else .error (keyMessage key) := by
  unfold rustValidateKey
  rw [validateKeyInner_eq]
  cases keyRe key.toList <;> rfl

theorem rustBuildKey_ok {ns typePrefix key k : String} (h : rustBuildKey ns typePrefix key = .ok k) :
    k = joinKey ns typePrefix key ∧ nsRe ns.toList = true ∧ keyRe key.toList = true := by
  unfold rustBuildKey at h
  rw [rustValidateNs_eq, rustValidateKey_eq] at h
  obtain ⟨_, hns, h⟩ := Fallible.bind_ok.mp h
  obtain ⟨_, hkey, h⟩ := Fallible.bind_ok.mp h
  cases h
  split at hns
  · rename_i h₁
    split at hkey
    · rename_i h₂
      exact ⟨rfl, h₁, h₂⟩
    · cases hkey
  · cases hns

/-- Both implementations build keys of valid parts only, by joining them. -/
theorem buildKey_valid {engine : Engine} {ns typePrefix key k : String} (h : buildKey engine ns typePrefix key = .ok k) :
    k = joinKey ns typePrefix key ∧ nsRe ns.toList = true ∧ keyRe key.toList = true := by
  cases engine with
  | python => exact pyBuildKey_ok h
  | rust =>
    simp only [buildKey] at h
    split at h
    · rename_i hk
      cases h
      exact rustBuildKey_ok hk
    · split at h <;> cases h

/-- A key that is built is the three parts joined, and its namespace has no colon. -/
theorem buildKey_ok {engine : Engine} {ns typePrefix key k : String} (h : buildKey engine ns typePrefix key = .ok k) :
    k = joinKey ns typePrefix key ∧ ':' ∉ ns.toList := by
  obtain ⟨hk, hns, -⟩ := buildKey_valid h
  exact ⟨hk, nsRe_colon hns⟩

theorem buildKey_nsRe {engine : Engine} {ns typePrefix key k : String} (h : buildKey engine ns typePrefix key = .ok k) :
    nsRe ns.toList = true := (buildKey_valid h).2.1

/-- The parts of a key: it is split at its first two colons. -/
theorem parseKey_eq_some {engine : Engine} {s a b c : String} :
    parseKey engine s = some (a, b, c) ↔ s = joinKey a b c ∧ ':' ∉ a.toList ∧ ':' ∉ b.toList := by
  have key : s = joinKey a b c ↔ s.toList = a.toList ++ ':' :: (b.toList ++ ':' :: c.toList) := by
    rw [← joinKey_toList, String.toList_inj]
  rw [key]
  cases engine with
  | python =>
    simp only [parseKey, pyParseKey]
    rw [← Text.split_two]
    constructor
    · intro h
      split at h
      · rename_i x y z hs
        simp only [Option.some.injEq, Prod.mk.injEq] at h
        obtain ⟨rfl, rfl, rfl⟩ := h
        simpa using hs
      · cases h
    · intro h
      rw [h]
      simp
  | rust =>
    simp only [parseKey, rustParseKey, Option.bind_eq_bind, Option.bind_eq_some_iff, Prod.exists,
      Option.pure_def, Option.some.injEq, Prod.mk.injEq, Text.cut_eq_some]
    constructor
    · rintro ⟨x, y, ⟨hs, hx⟩, z, w, ⟨rfl, hz⟩, rfl, rfl, rfl⟩
      simpa using ⟨hs, hx, hz⟩
    · rintro ⟨hs, ha, hb⟩
      exact ⟨_, _, ⟨hs, ha⟩, _, _, ⟨rfl, hb⟩, by simp, by simp, by simp⟩

theorem storagePrefixes_colon {p : String} (h : p ∈ storagePrefixes) : ':' ∉ p.toList := by
  revert p
  decide

/-! ### Type names and scan patterns -/

/-- URL type names and the storage prefixes they stand for. -/
def typePrefixMap : List (String × String) :=
  [("string", kvPrefix), ("kv", kvPrefix), ("hash", mapPrefix), ("map", mapPrefix),
   ("list", queuePrefix), ("queue", queuePrefix), ("set", groupPrefix), ("group", groupPrefix),
   ("zset", rankPrefix), ("rank", rankPrefix), ("stream", eventPrefix), ("event", eventPrefix),
   (queuePrefix, queuePrefix), (groupPrefix, groupPrefix), (eventPrefix, eventPrefix)]

def resolveTypePrefix (typeName : String) : Except Exn String :=
  match typePrefixMap.lookup typeName with
  | some p => .ok p
  | none =>
    let valid := ", ".intercalate ((typePrefixMap.map (·.1)).mergeSort fun a b => decide (a ≤ b))
    .error (error "INVALID_TYPE" s!"Unknown type '{typeName}'. Valid types: {valid}")

/-- Type names stand for storage prefixes. -/
theorem resolveTypePrefix_storage {t p : String} (h : resolveTypePrefix t = .ok p) : p ∈ storagePrefixes := by
  have hall : ∀ x ∈ typePrefixMap, x.2 ∈ storagePrefixes := by decide
  unfold resolveTypePrefix at h
  split at h
  · rename_i p' hlookup
    cases h
    obtain ⟨l₁, l₂, heq, -⟩ := List.lookup_eq_some_iff.mp hlookup
    exact hall (t, p) (heq ▸ List.mem_append_right _ List.mem_cons_self)
  · cases h

/-- The character class of scan patterns: `keyChar` and the wildcards. -/
def scanChar (c : Char) : Bool := keyChar c || c == '*' || c == '?'

/-- `_SCAN_PATTERN_RE.match`: the final `$` also matches before a newline at the end. -/
def scanPatternRe (s : List Char) : Bool := s.all scanChar || (s.getLast? == some '\n' && s.dropLast.all scanChar)

/-- `x if x else "*"`: neither `None` nor the empty text is a filter. -/
def filterOr (x : Option String) : Option String := x.filter (· ≠ "")

/-- The glob that SCAN gets: the three parts joined, `*` for a part that is not given. -/
def buildScanPattern (ns typeName : Option String) (pattern : String) : Except Exn String := do
  if !scanPatternRe pattern.toList then
    throw (error "INVALID_KEY" "Invalid scan pattern: only key chars and '*'/'?' are allowed")
  let typePrefix ← match filterOr typeName with
    | some t => resolveTypePrefix t
    | none => pure "*"
  return joinKey ((filterOr ns).getD "*") typePrefix pattern

end Redgw
