import Redgw.Routers.Pubsub
import Redgw.Theorems.Engines
import Redgw.WebSocket

/-! # Keys and channels

A key that is built is taken apart into the parts it was built from, whichever engine does either. The
namespace of a channel is what is before its first colon. -/

namespace Redgw
open Prog

section Keys
variable {engine : Engine} {ns typePrefix key s : String}

/-- Valid parts are joined, and nothing else is. -/
theorem buildKey_eq_ok : buildKey engine ns typePrefix key = .ok s ↔
    s = joinKey ns typePrefix key ∧ nsRe ns.toList = true ∧ keyRe key.toList = true := by
  constructor
  · exact buildKey_valid
  · rintro ⟨rfl, hns, hkey⟩
    rw [buildKey_eq]
    unfold judged
    simp [hns, hkey]

theorem parseKey_joinKey (hns : nsRe ns.toList = true) (hp : typePrefix ∈ storagePrefixes) (key : String) :
    parseKey engine (joinKey ns typePrefix key) = some (ns, typePrefix, key) :=
  parseKey_eq_some.mpr ⟨rfl, nsRe_colon hns, storagePrefixes_colon hp⟩

theorem joinKey_inj {ns' typePrefix' key' : String} (hns : nsRe ns.toList = true) (hns' : nsRe ns'.toList = true)
    (hp : typePrefix ∈ storagePrefixes) (hp' : typePrefix' ∈ storagePrefixes)
    (h : joinKey ns typePrefix key = joinKey ns' typePrefix' key') : ns = ns' ∧ typePrefix = typePrefix' ∧ key = key' := by
  have hparts : parseKey .python (joinKey ns typePrefix key) = some (ns, typePrefix, key) := parseKey_joinKey hns hp key
  rw [h, parseKey_joinKey hns' hp'] at hparts
  cases hparts
  exact ⟨rfl, rfl, rfl⟩

theorem built_inj {k ns' p p' key' : String} (hp : p ∈ storagePrefixes) (hp' : p' ∈ storagePrefixes)
    (h : buildKey engine ns p key = .ok k) (h' : buildKey engine ns' p' key' = .ok k) : ns = ns' ∧ p = p' ∧ key = key' := by
  obtain ⟨rfl, hns, -⟩ := buildKey_eq_ok.mp h
  obtain ⟨heq, hns', -⟩ := buildKey_eq_ok.mp h'
  exact joinKey_inj hns hns' hp hp' heq

end Keys

section Channels
variable {ns other channel topic : String}

theorem channel_toList (ns channel : String) : s!"{ns}:{channel}".toList = ns.toList ++ ':' :: channel.toList := by
  show (ns ++ ":" ++ channel).toList = _
  simp [String.toList_append]

theorem channel_inj (hns : nsRe ns.toList = true) (hother : nsRe other.toList = true) (h : s!"{ns}:{channel}" = s!"{other}:{topic}") :
    ns = other ∧ channel = topic := by
  have htext := congrArg String.toList h
  rw [channel_toList, channel_toList] at htext
  obtain ⟨hn, hc⟩ := Text.cut_inj (nsRe_colon hns) (nsRe_colon hother) htext
  exact ⟨String.toList_inj.mp hn, String.toList_inj.mp hc⟩

theorem publishMessage_calls (st : Settings) (client : ClientInfo) (ns channel : String) (body : PublishRequest) :
    (publishMessage st client ns channel body).Calls fun c => ∀ full message, c = .redis (.publish full message) →
      full = s!"{ns}:{channel}" ∧ nsRe ns.toList = true ∧ keyRe channel.toList = true := by
  refine calls_guard (fun _ _ => nofun) (fun _ => nofun) fun _ => ?_
  refine Calls.ofExcept_bind fun n hn => Calls.ofExcept_bind fun k hk => Calls.ofExcept_bind fun _ _ => ?_
  refine Calls.bind (Calls.bind (calls_ask.mpr ?_) fun r => ?_) fun _ => trivial
  · rintro full message ⟨⟩
    exact ⟨rfl, validateNs_nsRe hn, validateKey_keyRe hk⟩
  · cases r <;> trivial

theorem accepted_valid {st : Settings} {c : WebSocket.Connect} (h : WebSocket.rejection st c = none) :
    nsRe c.ns.toList = true ∧ keyRe c.channel.toList = true := by
  unfold WebSocket.rejection at h
  split at h
  · cases h
  · split at h
    · cases h
    · split at h
      · cases h
      · split at h
        · rename_i hn hk
          exact ⟨validateNs_nsRe hn, validateKey_keyRe hk⟩
        · cases h

end Channels

/-- What either engine builds, either takes apart into the same parts; what is taken apart is the parts joined. Keys of different
    parts differ, and so do the channels of different names, for publishing and for subscribing. -/
theorem key_codec :
    (∀ (engine engine' : Engine) (ns typePrefix key : String), nsRe ns.toList = true → typePrefix ∈ storagePrefixes →
      keyRe key.toList = true → ∃ s, buildKey engine ns typePrefix key = .ok s ∧ parseKey engine' s = some (ns, typePrefix, key)) ∧
    (∀ (engine : Engine) (s a b c : String), parseKey engine s = some (a, b, c) →
      s = a ++ ":" ++ b ++ ":" ++ c ∧ ':' ∉ a.toList ∧ ':' ∉ b.toList ∧
      ∀ engine', nsRe a.toList = true → keyRe c.toList = true → buildKey engine' a b c = .ok s) ∧
    (∀ (engine engine' : Engine) (ns ns' typePrefix typePrefix' key key' s : String), typePrefix ∈ storagePrefixes →
      typePrefix' ∈ storagePrefixes → buildKey engine ns typePrefix key = .ok s → buildKey engine' ns' typePrefix' key' = .ok s →
      ns = ns' ∧ typePrefix = typePrefix' ∧ key = key') ∧
    (∀ ns other channel topic : String, nsRe ns.toList = true → nsRe other.toList = true → keyRe channel.toList = true →
      keyRe topic.toList = true → s!"{ns}:{channel}" = s!"{other}:{topic}" → ns = other ∧ channel = topic) ∧
    ∀ (st : Settings) (client : ClientInfo) (ns channel : String) (body : PublishRequest) (c : WebSocket.Connect),
      WebSocket.rejection st c = none → (publishMessage st client ns channel body).Calls fun call =>
        ∀ message, call = .redis (.publish c.fullChannel message) → ns = c.ns ∧ channel = c.channel := by
  refine ⟨?_, ?_, ?_, ?_, ?_⟩
  · intro engine engine' ns typePrefix key hns hp hkey
    exact ⟨_, buildKey_eq_ok.mpr ⟨rfl, hns, hkey⟩, parseKey_joinKey hns hp key⟩
  · intro engine s a b c hparse
    obtain ⟨hs, ha, hb⟩ := parseKey_eq_some.mp hparse
    exact ⟨hs, ha, hb, fun engine' hns hkey => buildKey_eq_ok.mpr ⟨hs, hns, hkey⟩⟩
  · intro engine engine' ns ns' typePrefix typePrefix' key key' s hp hp' hbuild hbuild'
    obtain ⟨hs, hns, -⟩ := buildKey_eq_ok.mp hbuild
    obtain ⟨hs', hns', -⟩ := buildKey_eq_ok.mp hbuild'
    exact joinKey_inj hns hns' hp hp' (hs.symm.trans hs')
  · intro ns other channel topic hns hother _ _ hsame
    exact channel_inj hns hother hsame
  · intro st client ns channel body c haccepted
    refine (publishMessage_calls st client ns channel body).mono fun call hcall message hpublish => ?_
    obtain ⟨hfull, hns, -⟩ := hcall c.fullChannel message hpublish
    exact channel_inj hns (accepted_valid haccepted).1 hfull.symm

/-- A key with colons at its ends and in its middle, and back from a text. -/
theorem key_codec_colons : (∃ s, buildKey .rust "app" kvPrefix ":a::b:" = .ok s ∧ parseKey .python s = some ("app", kvPrefix, ":a::b:")) ∧
    buildKey .python "app" "kv" "/x:" = .ok "app:kv:/x:" := by
  obtain ⟨hparse, hbuild, -⟩ := key_codec
  exact ⟨hparse .rust .python "app" kvPrefix ":a::b:" (by decide) (by decide) (by decide),
    (hbuild .rust "app:kv:/x:" "app" "kv" "/x:" (by decide +kernel)).2.2.2 .python (by decide) (by decide)⟩

end Redgw
