import Redgw.Handler

/-! # API keys

The clients of the settings by their keys, and the checks of the settings at startup. -/

namespace Redgw

/-! ### The key map -/

def administrator : ClientInfo := ⟨"admin", "Administrator", [("*", ["read", "write"])]⟩

def clientInfo (clientId : String) (cfg : ClientConfig) : ClientInfo :=
  ⟨clientId, cfg.description, cfg.namespaces.items⟩

/-- One round of the loop over `settings.clients`. -/
def mapClient (mapping : Dict ClientInfo) (client : String × ClientConfig) : Dict ClientInfo :=
  -- `admin` is a reserved id: that entry of the settings is ignored
  if client.1 = "admin" then mapping
  -- an empty key is not mapped, or an empty header would authenticate
  else if client.2.apiKey = "" then mapping
  else mapping.insert client.2.apiKey (clientInfo client.1 client.2)

def buildKeyMap (st : Settings) : Dict ClientInfo :=
  st.clients.items.foldl mapClient
    (if st.admin.apiKey ≠ "" then Dict.empty.insert st.admin.apiKey administrator else .empty)

/-- `_key_map.get(api_key)`, on the map that the first request builds. -/
def resolveClient (st : Settings) (apiKey : String) : Option ClientInfo := (buildKeyMap st).items.lookup apiKey

/-! ### Startup checks -/

structure SystemExit where
  message : String
deriving DecidableEq, Repr

/-- The keys that the search for duplicates has seen, and those it saw again. -/
structure KeySearch where
  seen : List String
  duplicates : List String

def KeySearch.visit (search : KeySearch) (k : String) : KeySearch :=
  if k ∈ search.seen then
    if k ∉ search.duplicates then { search with duplicates := search.duplicates ++ [k] } else search
  else { search with seen := k :: search.seen }

/-- All keys of the settings: those of every client, and the admin's when there is one. -/
def apiKeys (st : Settings) : List String :=
  st.clients.items.map (·.2.apiKey) ++ if st.admin.apiKey ≠ "" then [st.admin.apiKey] else []

def duplicateKeys (st : Settings) : List String := ((apiKeys st).foldl KeySearch.visit ⟨[], []⟩).duplicates

def placeholderPatterns : List String := ["xxxxxxxx", "CHANGE_ME"]

def looksLikePlaceholder (apiKey : String) : Bool :=
  placeholderPatterns.any fun p => Text.occurs p.toList apiKey.toList

def clientEnvPrefix := "REDGW_CLIENT_"

def clientEnvSuffix := "_API_KEY"

def clientEnvKey (clientId : String) : String := clientEnvPrefix ++ clientId ++ clientEnvSuffix

/-- The group of `re.fullmatch(r"REDGW_CLIENT_(\w+)_API_KEY", env_name)`, for a class `\w`. -/
def clientOfEnv (word : Char → Bool) (envName : String) : Option String :=
  let n := envName.toList.length - clientEnvPrefix.toList.length - clientEnvSuffix.toList.length
  let clientId := (envName.toList.drop clientEnvPrefix.toList.length).take n
  if envName = clientEnvKey (.ofList clientId) ∧ clientId ≠ [] ∧ clientId.all word then some (.ofList clientId) else none

section Warnings
variable (word : Char → Bool) (environ : Dict String) (st : Settings)

/-- `not os.environ.get(name)` -/
def envUnset (name : String) : Bool := (filterOr (environ.items.lookup name)).isNone

def placeholderWarnings : List String :=
  (st.clients.items.filter fun client => looksLikePlaceholder client.2.apiKey).map (fun client =>
    s!"Client '{client.1}' API key looks like a placeholder — set REDGW_CLIENT_{client.1}_API_KEY in .env") ++
  if st.admin.apiKey ≠ "" ∧ looksLikePlaceholder st.admin.apiKey then
    ["Admin API key looks like a placeholder — set REDGW_ADMIN_API_KEY in .env"] else []

def missingEnvWarnings : List String :=
  (st.clients.items.filter fun client => envUnset environ (clientEnvKey client.1)).map (fun client =>
    s!"Environment variable {clientEnvKey client.1} not set — client '{client.1}' uses config.yaml default key") ++
  if envUnset environ "REDGW_ADMIN_API_KEY" then
    ["Environment variable REDGW_ADMIN_API_KEY not set — admin uses config.yaml default key"] else []

def unusedEnvWarnings : List String :=
  environ.items.filterMap fun env => (clientOfEnv word env.1).bind fun cid =>
    if cid ∈ st.clients.items.map (·.1) then none
    else some s!"Environment variable {env.1} is set but client '{cid}' is not defined in config.yaml"

/-- The warnings; duplicate keys end the start. -/
def validateConfig : Except SystemExit (List String) :=
  if duplicateKeys st ≠ [] then
    .error ⟨"FATAL: Duplicate API keys detected — each client must have a unique key"⟩
  else .ok <|
    (if st.admin.apiKey = "" then ["admin.api_key is empty — admin endpoints are unprotected"] else []) ++
    (if st.clients.items = [] then ["No clients defined — only admin access will work"] else []) ++
    placeholderWarnings st ++ missingEnvWarnings environ st ++ unusedEnvWarnings word environ st

end Warnings

end Redgw
