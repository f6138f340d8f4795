import Redgw.Auth

/-! # API keys identify their owners

The check at startup leaves no key twice, so no entry of the key map is overwritten. -/

namespace Redgw

/-! ### The search for duplicates -/

/-- Nothing found so far: what was seen is each key once. -/
theorem keySearch_clear {keys : List String} {search : KeySearch} :
    (keys.foldl KeySearch.visit search).duplicates = [] ↔
      search.duplicates = [] ∧ keys.Nodup ∧ ∀ k ∈ keys, k ∉ search.seen := by
  induction keys generalizing search with
  | nil => simp
  | cons k keys ih =>
    rw [List.foldl_cons, ih, List.nodup_cons]
    unfold KeySearch.visit
    by_cases hseen : k ∈ search.seen
    · -- a key that was seen is a duplicate from here on
      have hfound : ¬∀ k' ∈ k :: keys, k' ∉ search.seen := fun h => h k List.mem_cons_self hseen
      simp only [if_pos hseen]
      constructor
      · rintro ⟨hnone, -⟩
        split at hnone
        · exact absurd hnone (by simp)
        · rename_i hk
          rw [hnone] at hk
          exact absurd List.not_mem_nil hk
      · rintro ⟨-, -, h⟩
        exact absurd h hfound
    · simp only [if_neg hseen, List.mem_cons, forall_eq_or_imp]
      constructor
      · rintro ⟨hnone, hnodup, h⟩
        refine ⟨hnone, ⟨fun hk => (h k hk) (.inl rfl), hnodup⟩, hseen, fun k' hk' hk'' => h k' hk' (.inr hk'')⟩
      · rintro ⟨hnone, ⟨hk, hnodup⟩, -, h⟩
        refine ⟨hnone, hnodup, fun k' hk' hk'' => ?_⟩
        rcases hk'' with rfl | hk''
        · exact hk hk'
        · exact h k' hk' hk''

theorem duplicateKeys_nil {st : Settings} : duplicateKeys st = [] ↔ (apiKeys st).Nodup := by
  unfold duplicateKeys
  rw [keySearch_clear]
  simp

theorem validateConfig_ok {word : Char → Bool} {environ : Dict String} {st : Settings} {warnings : List String}
    (h : validateConfig word environ st = .ok warnings) : (apiKeys st).Nodup := by
  unfold validateConfig at h
  split at h
  · cases h
  · rename_i hnone
    exact duplicateKeys_nil.mp (not_not.mp hnone)

/-! ### The key map -/

/-- The entry of the settings that the map may hold under a key. -/
def Registers (client : String × ClientConfig) (x : String) : Prop :=
  client.1 ≠ "admin" ∧ client.2.apiKey = x ∧ x ≠ ""

theorem lookup_mapClient {mapping : Dict ClientInfo} {client : String × ClientConfig} {x : String} {c : ClientInfo} :
    (mapClient mapping client).items.lookup x = some c ↔
      (Registers client x ∧ c = clientInfo client.1 client.2) ∨
        (¬Registers client x ∧ mapping.items.lookup x = some c) := by
  unfold mapClient Registers
  by_cases hid : client.1 = "admin"
  · simp [hid]
  · by_cases hkey : client.2.apiKey = ""
    · have : ¬(client.2.apiKey = x ∧ x ≠ "") := fun h => h.2 (h.1 ▸ hkey)
      simp [hid, hkey]
    · rw [if_neg hid, if_neg hkey, Dict.lookup_insert]
      by_cases hx : x = client.2.apiKey
      · subst hx
        simp [hid, hkey, eq_comm]
      · simp [hx, Ne.symm hx]

/-- Without a key twice, the map holds every entry that registers its key, and what it held before under the
    other keys. -/
theorem lookup_mapClients {clients : List (String × ClientConfig)} {mapping : Dict ClientInfo} {x : String}
    {c : ClientInfo} (hnodup : (clients.map (·.2.apiKey)).Nodup) :
    (clients.foldl mapClient mapping).items.lookup x = some c ↔
      (∃ client ∈ clients, Registers client x ∧ c = clientInfo client.1 client.2) ∨
        ((∀ client ∈ clients, ¬Registers client x) ∧ mapping.items.lookup x = some c) := by
  induction clients generalizing mapping with
  | nil => simp
  | cons client clients ih =>
    rw [List.map_cons, List.nodup_cons] at hnodup
    obtain ⟨hfirst, hnodup⟩ := hnodup
    -- no later entry has the key of this one
    have honly : Registers client x → ∀ other ∈ clients, ¬Registers other x := fun h other hother hx =>
      hfirst (List.mem_map.mpr ⟨other, hother, hx.2.1.trans h.2.1.symm⟩)
    rw [List.foldl_cons, ih hnodup, lookup_mapClient]
    simp only [List.mem_cons, exists_eq_or_imp, forall_eq_or_imp]
    constructor
    · rintro (h | ⟨hnone, ⟨h, hc⟩ | ⟨h, hc⟩⟩)
      · exact .inl (.inr h)
      · exact .inl (.inl ⟨h, hc⟩)
      · exact .inr ⟨⟨h, hnone⟩, hc⟩
    · rintro ((⟨h, hc⟩ | h) | ⟨⟨h, hnone⟩, hc⟩)
      · exact .inr ⟨honly h, .inl ⟨h, hc⟩⟩
      · exact .inl h
      · exact .inr ⟨hnone, .inr ⟨h, hc⟩⟩

/-- Whose key `x` is, by the settings. -/
inductive Owns (st : Settings) (x : String) : ClientInfo → Prop
  | admin (hset : st.admin.apiKey ≠ "") (hx : x = st.admin.apiKey) : Owns st x administrator
  | client {id : String} {cfg : ClientConfig} (hcfg : st.clients.items.lookup id = some cfg) (hid : id ≠ "admin")
    (hx : cfg.apiKey = x) (hset : x ≠ "") : Owns st x (clientInfo id cfg)

theorem resolveClient_iff {st : Settings} (hnodup : (apiKeys st).Nodup) {x : String} {c : ClientInfo} :
    resolveClient st x = some c ↔ Owns st x c := by
  unfold apiKeys at hnodup
  obtain ⟨hclients, -, hadmin⟩ := List.nodup_append.mp hnodup
  unfold resolveClient buildKeyMap
  rw [lookup_mapClients hclients]
  constructor
  · rintro (⟨⟨id, cfg⟩, hmem, ⟨hid, hx, hset⟩, rfl⟩ | ⟨-, hc⟩)
    · exact .client (Dict.mem_items.mp hmem) hid hx hset
    · split at hc
      · rename_i hset
        rw [Dict.lookup_insert] at hc
        split at hc
        · rename_i hx
          cases hc
          exact .admin hset hx
        · cases hc
      · cases hc
  · intro h
    cases h with
    | admin hset hx =>
      refine .inr ⟨fun client hmem hreg => ?_, ?_⟩
      · have := hadmin x (List.mem_map.mpr ⟨client, hmem, hreg.2.1⟩) x (by rw [if_pos hset, hx]; simp)
        exact this rfl
      · rw [if_pos hset, Dict.lookup_insert, if_pos hx]
    | client hcfg hid hx hset => exact .inl ⟨_, Dict.mem_items.mpr hcfg, ⟨hid, hx, hset⟩, rfl⟩

theorem Owns.not_empty {st : Settings} {c : ClientInfo} : ¬Owns st "" c := by
  intro h
  cases h with
  | admin hset hx => exact hset hx.symm
  | client _ _ _ hset => exact hset rfl

/-- Only the admin's key has the reserved id. -/
theorem Owns.admin_iff {st : Settings} {x : String} {c : ClientInfo} (h : Owns st x c) :
    c.clientId = "admin" ↔ c = administrator := by
  cases h with
  | admin => exact ⟨fun _ => rfl, fun _ => rfl⟩
  | client _ hid =>
    refine ⟨fun h => absurd h hid, fun h => ?_⟩
    rw [h]
    rfl

theorem owns_administrator {st : Settings} {x : String} :
    Owns st x administrator ↔ st.admin.apiKey ≠ "" ∧ x = st.admin.apiKey := by
  constructor
  · intro h
    generalize hc : administrator = c at h
    cases h with
    | admin hset hx => exact ⟨hset, hx⟩
    | client _ hid =>
      have : "admin" = _ := congrArg ClientInfo.clientId hc
      exact absurd this.symm hid
  · rintro ⟨hset, hx⟩
    exact .admin hset hx

theorem owns_client {st : Settings} {x id : String} (hid : id ≠ "admin") {c : ClientInfo} :
    Owns st x c ∧ c.clientId = id ↔
      ∃ cfg, st.clients.items.lookup id = some cfg ∧ cfg.apiKey = x ∧ x ≠ "" ∧ c = clientInfo id cfg := by
  constructor
  · rintro ⟨h, rfl⟩
    cases h with
    | admin => exact absurd rfl hid
    | client hcfg _ hx hset => exact ⟨_, hcfg, hx, hset, rfl⟩
  · rintro ⟨cfg, hcfg, hx, hset, rfl⟩
    exact ⟨.client hcfg hid hx hset, rfl⟩

theorem requireAdmin_pure {c : ClientInfo} : requireAdmin c = .pure () ↔ c.clientId = "admin" := by
  unfold requireAdmin
  split
  · rename_i hid
    exact ⟨fun _ => hid, fun _ => rfl⟩
  · rename_i hid
    exact ⟨fun h => (by cases h), fun h => absurd h hid⟩

/-- With settings that pass the check, a key stands for the administrator, for the one client that has it, or
    for nobody. -/
theorem keys_identify_owners {word : Char → Bool} {environ : Dict String} {st : Settings} {warnings : List String}
    (h : validateConfig word environ st = .ok warnings) (x : String) :
    (resolveClient st x = some administrator ↔ st.admin.apiKey ≠ "" ∧ x = st.admin.apiKey) ∧
    (∀ id ≠ "admin", ∀ c, resolveClient st x = some c ∧ c.clientId = id ↔
      ∃ cfg, st.clients.items.lookup id = some cfg ∧ cfg.apiKey = x ∧ x ≠ "" ∧ c = clientInfo id cfg) ∧
    (resolveClient st x = none ↔ ¬(st.admin.apiKey ≠ "" ∧ x = st.admin.apiKey) ∧
      ∀ id ≠ "admin", ∀ cfg, st.clients.items.lookup id = some cfg → cfg.apiKey = x → x = "") ∧
    resolveClient st "" = none ∧
    ∀ c, resolveClient st x = some c → (requireAdmin c = .pure () ↔ st.admin.apiKey ≠ "" ∧ x = st.admin.apiKey) := by
  have hiff {y : String} {c : ClientInfo} : resolveClient st y = some c ↔ Owns st y c :=
    resolveClient_iff (validateConfig_ok h)
  have hnone {y : String} : resolveClient st y = none ↔ ∀ c, ¬Owns st y c := by
    rw [Option.eq_none_iff_forall_ne_some]
    exact forall_congr' fun c => not_congr hiff
  refine ⟨hiff.trans owns_administrator, fun id hid c => ?_, ?_, hnone.mpr fun c => Owns.not_empty, fun c hc => ?_⟩
  · rw [hiff]
    exact owns_client hid
  · rw [hnone]
    constructor
    · intro hno
      refine ⟨fun hadmin => hno _ (owns_administrator.mpr hadmin), fun id hid cfg hcfg hx => ?_⟩
      by_contra hset
      exact hno _ (.client hcfg hid hx hset)
    · rintro ⟨hadmin, hclients⟩ c hc
      cases hc with
      | admin hset hx => exact hadmin ⟨hset, hx⟩
      | client hcfg hid hx hset => exact hset (hclients _ hid _ hcfg hx)
  · rw [requireAdmin_pure, (hiff.mp hc).admin_iff, ← owns_administrator]
    refine ⟨fun heq => heq ▸ hiff.mp hc, fun hadmin => ?_⟩
    exact Option.some.inj (hc.symm.trans (hiff.mpr hadmin))

/-- A client that took the reserved id, one without a key, one with a key. -/
def mixedSettings : Settings where
  clients := Dict.ofList [("admin", ⟨"k0", "", .empty⟩), ("idle", ⟨"", "", .empty⟩), ("app", ⟨"k1", "", .empty⟩)]
  admin := ⟨"root"⟩

theorem mixedSettings_valid : ∃ warnings, validateConfig Char.isAlphanum .empty mixedSettings = .ok warnings := ⟨_, rfl⟩

theorem keys_identify_owners_mixed : resolveClient mixedSettings "root" = some administrator := by
  obtain ⟨_, h⟩ := mixedSettings_valid
  exact (keys_identify_owners h "root").1.mpr ⟨by decide, rfl⟩

end Redgw
