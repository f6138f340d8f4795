import Redgw.Api
import Redgw.Routers.Admin

/-! # Which keys a pattern selects

The intent is a match of three fields; the scan matches one flat glob, whose stars run over colons. Both
agree on the keys that can be cut in one way only. -/

namespace Redgw
open Redis Prog

/-! ### Patterns and cuts -/

/-- The query parameters of the endpoints. Neither a missing nor an empty one is a filter. -/
structure Query where
  ns : Option String
  typeName : Option String
  pattern : String

/-- The parts of a key are what the query asks for. -/
structure Query.Fits (q : Query) (ns typePrefix key : String) : Prop where
  ns : ∀ n, filterOr q.ns = some n → ns = n
  type : ∀ t, filterOr q.typeName = some t → resolveTypePrefix t = .ok typePrefix
  key : Glob.matches? q.pattern.toList key.toList = true

/-- The checks that the endpoints make pass, and give the glob. -/
structure Query.Accepted (engine : Engine) (q : Query) (glob : String) : Prop where
  ns : ∀ n, filterOr q.ns = some n → validateNs engine n = .ok n
  glob : buildScanPattern q.ns q.typeName q.pattern = .ok glob

/-- A stored key whose parts are what the query asks for. -/
def Wanted (engine : Engine) (q : Query) (k : String) : Prop :=
  ∃ ns typePrefix key, parseKey engine k = some (ns, typePrefix, key) ∧ typePrefix ∈ storagePrefixes ∧
    q.Fits ns typePrefix key

/-- A stored key whose parts are not what the query asks for, but which can be cut at later colons into
    parts that are. -/
def Stray (engine : Engine) (q : Query) (k : String) : Prop :=
  (∃ ns typePrefix key, parseKey engine k = some (ns, typePrefix, key) ∧ typePrefix ∈ storagePrefixes ∧
    ¬q.Fits ns typePrefix key) ∧
  ∃ a b c, k = joinKey a b c ∧ (':' ∈ a.toList ∨ ':' ∈ b.toList) ∧ q.Fits a b c

theorem literal_of_nsRe {ns : List Char} (h : nsRe ns = true) : Glob.Literal ns := by
  have hclass := (Bool.and_eq_true_iff.mp h).1
  exact ⟨not_mem_of_nsChar hclass (by decide), not_mem_of_nsChar hclass (by decide)⟩

theorem ne_star {w : List Char} (h : Glob.Literal w) : w ≠ ['*'] := by
  rintro rfl
  exact h.1 List.mem_cons_self

theorem storagePrefixes_literal {p : String} (h : p ∈ storagePrefixes) : Glob.Literal p.toList := by
  revert p
  decide

theorem Query.Accepted.eq_joinKey {engine : Engine} {q : Query} {glob : String} (h : q.Accepted engine glob) :
    ∃ typePart, glob = joinKey ((filterOr q.ns).getD "*") typePart q.pattern ∧
      (filterOr q.typeName = none ∧ typePart = "*" ∨
        ∃ t, filterOr q.typeName = some t ∧ resolveTypePrefix t = .ok typePart) := by
  have hg := h.glob
  unfold buildScanPattern at hg
  cases hre : scanPatternRe q.pattern.toList with
  | false =>
    rw [hre] at hg
    cases hg
  | true =>
    rw [hre] at hg
    cases ht : filterOr q.typeName with
    | none =>
      rw [ht] at hg
      cases hg
      exact ⟨"*", rfl, Or.inl ⟨rfl, rfl⟩⟩
    | some t =>
      rw [ht] at hg
      obtain ⟨p, hp, hg⟩ := Fallible.bind_ok.mp hg
      cases hg
      exact ⟨p, rfl, Or.inr ⟨t, rfl, hp⟩⟩

theorem glob_matches_iff {engine : Engine} {q : Query} {glob k : String} (h : q.Accepted engine glob) :
    Glob.matches? glob.toList k.toList = true ↔ ∃ a b c, k = joinKey a b c ∧ q.Fits a b c := by
  obtain ⟨typePart, rfl, htype⟩ := h.eq_joinKey
  have hns : ((filterOr q.ns).getD "*").toList = ['*'] ∨ Glob.Literal ((filterOr q.ns).getD "*").toList := by
    cases hf : filterOr q.ns with
    | none => exact Or.inl rfl
    | some n => exact Or.inr (literal_of_nsRe (validateNs_nsRe (h.ns n hf)))
  have hp : typePart.toList = ['*'] ∨ Glob.Literal typePart.toList := by
    rcases htype with ⟨-, rfl⟩ | ⟨t, -, ht⟩
    · exact Or.inl rfl
    · exact Or.inr (storagePrefixes_literal (resolveTypePrefix_storage ht))
  rw [joinKey_toList, Glob.matches?_field hns (by decide)]
  constructor
  · rintro ⟨a, t, hk, ha, ht⟩
    obtain ⟨b, c, rfl, hb, hc⟩ := (Glob.matches?_field hp (by decide)).mp ht
    refine ⟨.ofList a, .ofList b, .ofList c, ?_, ?_, ?_, ?_⟩
    · refine String.toList_inj.mp ?_
      rw [joinKey_toList, hk]
      simp
    · intro n hn
      rw [hn, Option.getD_some] at ha
      rcases ha with hstar | rfl
      · exact absurd hstar (ne_star (literal_of_nsRe (validateNs_nsRe (h.ns n hn))))
      · exact String.ofList_toList
    · intro t ht'
      rcases htype with ⟨hnone, -⟩ | ⟨t', hsome, hresolve⟩
      · rw [hnone] at ht'
        cases ht'
      · rw [hsome] at ht'
        cases ht'
        rcases hb with hstar | rfl
        · exact absurd hstar (ne_star (storagePrefixes_literal (resolveTypePrefix_storage hresolve)))
        · rw [String.ofList_toList]
          exact hresolve
    · simpa using hc
  · rintro ⟨a, b, c, rfl, hfit⟩
    refine ⟨a.toList, b.toList ++ ':' :: c.toList, joinKey_toList a b c, ?_, ?_⟩
    · cases hf : filterOr q.ns with
      | none => exact Or.inl rfl
      | some n => exact Or.inr (by rw [hfit.ns n hf]; rfl)
    · refine (Glob.matches?_field hp (by decide)).mpr ⟨b.toList, c.toList, rfl, ?_, hfit.key⟩
      rcases htype with ⟨-, rfl⟩ | ⟨t, hsome, hresolve⟩
      · exact Or.inl rfl
      · have hb := hfit.type t hsome
        rw [hresolve] at hb
        cases hb
        exact Or.inr rfl

theorem selected_iff {engine : Engine} {q : Query} {glob k : String} (h : q.Accepted engine glob) :
    (isStorageKey engine k = true ∧ Glob.matches? glob.toList k.toList = true) ↔
      Wanted engine q k ∨ Stray engine q k := by
  rw [glob_matches_iff h, parse_storage]
  constructor
  · rintro ⟨⟨ns, typePrefix, key, hparse, hp⟩, a, b, c, hk, hfit⟩
    by_cases hwanted : q.Fits ns typePrefix key
    · exact Or.inl ⟨ns, typePrefix, key, hparse, hp, hwanted⟩
    · refine Or.inr ⟨⟨ns, typePrefix, key, hparse, hp, hwanted⟩, a, b, c, hk, ?_, hfit⟩
      -- With no colon in the first two parts this is the cut that the key is parsed by.
      by_contra hcolon
      rw [not_or] at hcolon
      have hcut : parseKey engine k = some (a, b, c) := parseKey_eq_some.mpr ⟨hk, hcolon⟩
      rw [hparse] at hcut
      cases hcut
      exact hwanted hfit
  · rintro (⟨ns, typePrefix, key, hparse, hp, hfit⟩ | ⟨⟨ns, typePrefix, key, hparse, hp, -⟩, a, b, c, hk, -, hfit⟩)
    · exact ⟨⟨ns, typePrefix, key, hparse, hp⟩, ns, typePrefix, key, (parseKey_eq_some.mp hparse).1, hfit⟩
    · exact ⟨⟨ns, typePrefix, key, hparse, hp⟩, a, b, c, hk, hfit⟩

theorem Stray.not_wanted {engine : Engine} {q : Query} {k : String} (h : Stray engine q k) : ¬Wanted engine q k := by
  rintro ⟨ns, typePrefix, key, hparse, -, hfit⟩
  obtain ⟨⟨ns', typePrefix', key', hparse', -, hnot⟩, -⟩ := h
  rw [hparse] at hparse'
  cases hparse'
  exact hnot hfit

/-! ### The queries without stray keys -/

/-- The parts of a key with a colon in the first two cannot be all asked for, or the last one takes in
    anything in front. -/
def Query.Plain (q : Query) : Prop :=
  ((filterOr q.ns).isSome = true ∧ (filterOr q.typeName).isSome = true) ∨
    (filterOr q.typeName = none ∧ '*' ∈ Glob.leading q.pattern.toList)

theorem Query.Accepted.ns_colon {engine : Engine} {q : Query} {glob n : String} (h : q.Accepted engine glob)
    (hn : filterOr q.ns = some n) : ':' ∉ n.toList :=
  nsChar_colon (Bool.and_eq_true_iff.mp (validateNs_nsRe (h.ns n hn))).1

theorem cut_suffix {engine : Engine} {k ns typePrefix key a b c : String}
    (hparse : parseKey engine k = some (ns, typePrefix, key)) (hcut : k = joinKey a b c) : c.toList <:+ key.toList := by
  obtain ⟨rfl, hns, hp⟩ := parseKey_eq_some.mp hparse
  have hlist := congrArg String.toList hcut
  rw [joinKey_toList, joinKey_toList] at hlist
  obtain ⟨w, hw⟩ := Text.suffix_of_first hns hlist
  rw [← List.append_assoc] at hw
  exact Text.suffix_of_first hp hw.symm

theorem not_stray {engine : Engine} {q : Query} {glob : String} (h : q.Accepted engine glob) (hq : q.Plain) (k : String) :
    ¬Stray engine q k := by
  rintro ⟨⟨ns, typePrefix, key, hparse, hp, hnot⟩, a, b, c, hcut, hcolon, hfit⟩
  have ha : ∀ n, filterOr q.ns = some n → ':' ∉ a.toList := fun n hn => hfit.ns n hn ▸ h.ns_colon hn
  rcases hq with ⟨hns, htype⟩ | ⟨htype, hstar⟩
  · obtain ⟨n, hn⟩ := Option.isSome_iff_exists.mp hns
    obtain ⟨t, ht⟩ := Option.isSome_iff_exists.mp htype
    rcases hcolon with hcolon | hcolon
    · exact ha n hn hcolon
    · exact storagePrefixes_colon (resolveTypePrefix_storage (hfit.type t ht)) hcolon
  · refine hnot ⟨fun n hn => ?_, fun t ht => ?_, ?_⟩
    · -- Both cuts are at the first colon.
      obtain ⟨rfl, hcolon, -⟩ := parseKey_eq_some.mp hparse
      have hlist := congrArg String.toList hcut
      rw [joinKey_toList, joinKey_toList] at hlist
      obtain ⟨hsame, -⟩ := Text.cut_inj hcolon (ha n hn) hlist
      rw [← hfit.ns n hn, String.toList_inj.mp hsame]
    · rw [htype] at ht
      cases ht
    · obtain ⟨w, hw⟩ := cut_suffix hparse hcut
      rw [← hw]
      exact Glob.absorbs_of_leading hstar w c.toList hfit.key

/-- A type without a namespace: the type is found behind another one. -/
theorem stray_of_type {engine : Engine} {q : Query} {t p : String} (hns : filterOr q.ns = none)
    (ht : filterOr q.typeName = some t) (hp : resolveTypePrefix t = .ok p) : ∃ k, Stray engine q k := by
  obtain ⟨p', hp', hne⟩ : ∃ p' ∈ storagePrefixes, p' ≠ p := by
    by_cases hkv : p = kvPrefix
    · exact ⟨queuePrefix, by decide, by rw [hkv]; decide⟩
    · exact ⟨kvPrefix, by decide, Ne.symm hkv⟩
  have hparse : parseKey engine (joinKey "x" p' (p ++ ":" ++ q.pattern)) = some ("x", p', p ++ ":" ++ q.pattern) :=
    parseKey_eq_some.mpr ⟨rfl, by simp, storagePrefixes_colon hp'⟩
  refine ⟨_, ⟨"x", p', _, hparse, hp', fun hfit => ?_⟩, "x:" ++ p', p, q.pattern, ?_, Or.inl ?_, ?_, ?_, ?_⟩
  · have hfit := hfit.type t ht
    rw [hp] at hfit
    exact hne (Except.ok.inj hfit).symm
  · simp [joinKey, String.append_assoc]
  · simp [String.toList_append]
  · rw [hns]
    rintro n ⟨⟩
  · rw [ht]
    rintro _ ⟨⟩
    exact hp
  · exact Glob.matches?_self q.pattern.toList

/-- No type, and a pattern that does not begin with a star: the pattern is found behind a first part of the user key. -/
theorem stray_of_pattern {engine : Engine} {q : Query} {glob : String} (h : q.Accepted engine glob)
    (ht : filterOr q.typeName = none) (hstar : '*' ∉ Glob.leading q.pattern.toList) : ∃ k, Stray engine q k := by
  obtain ⟨c, hc, hmiss⟩ := Glob.not_matches?_of_leading hstar
  let w := String.ofList (List.replicate q.pattern.toList.length c)
  let n := (filterOr q.ns).getD "x"
  have hn : ∀ n', filterOr q.ns = some n' → n = n' := by
    intro n' hn'
    show (filterOr q.ns).getD "x" = n'
    rw [hn']
    rfl
  have hcolon : ':' ∉ n.toList := by
    cases hf : filterOr q.ns with
    | none =>
      have hx : n = "x" := by
        show (filterOr q.ns).getD "x" = "x"
        rw [hf]
        rfl
      rw [hx]
      simp
    | some n' => exact hn n' hf ▸ h.ns_colon hf
  have hparse : parseKey engine (joinKey n kvPrefix (w ++ ":" ++ q.pattern)) = some (n, kvPrefix, w ++ ":" ++ q.pattern) :=
    parseKey_eq_some.mpr ⟨rfl, hcolon, by decide⟩
  refine ⟨_, ⟨n, kvPrefix, _, hparse, by decide, fun hfit => ?_⟩, n, kvPrefix ++ ":" ++ w, q.pattern, ?_, Or.inr ?_, hn,
    ?_, ?_⟩
  · have hmatch := hfit.key
    have hw : (w ++ ":" ++ q.pattern).toList = List.replicate q.pattern.toList.length c ++ ':' :: q.pattern.toList := by
      simp [w, String.toList_append]
    rw [hw, hmiss _ _ (Nat.le_refl _)] at hmatch
    cases hmatch
  · simp [joinKey, String.append_assoc]
  · simp [String.toList_append]
  · rw [ht]
    rintro t ⟨⟩
  · exact Glob.matches?_self q.pattern.toList

theorem plain_iff {engine : Engine} {q : Query} {glob : String} (h : q.Accepted engine glob) :
    q.Plain ↔ ∀ k, ¬Stray engine q k := by
  constructor
  · exact not_stray h
  · intro hclean
    by_contra hq
    rw [Query.Plain, not_or] at hq
    have hstray : ∃ k, Stray engine q k := by
      obtain ⟨typePart, -, ⟨ht, -⟩ | ⟨t, ht, hp⟩⟩ := h.eq_joinKey
      · exact stray_of_pattern h ht fun hstar => hq.2 ⟨ht, hstar⟩
      · refine stray_of_type ?_ ht hp
        by_contra hns
        exact hq.1 ⟨Option.isSome_iff_ne_none.mpr hns, ht ▸ rfl⟩
    obtain ⟨k, hk⟩ := hstray
    exact hclean k hk

end Redgw
