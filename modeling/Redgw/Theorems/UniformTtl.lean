import Redgw.Theorems.RefusedTtl

/-! # What requests do to lifetimes

One rule for all requests: writes set the TTL, changes keep it, refusals touch none. -/

namespace Redgw
open Redis

/-- What a request that ends with `out` does to the lifetimes of keys. -/
structure TtlEffect (st : Settings) (now : Nat) (x : Endpoint) (out : Except Exn Json) (s t : Store) : Prop where
  /-- Every key that is written has the TTL of the body, else the default, and none below one second. -/
  written : ∀ ns o body, x = .data ns o → out = .ok body → ∀ keys ttl, o.ttlWrite = some (keys, ttl) →
    ∀ typePrefix, o.typePrefix = some typePrefix → ∀ key ∈ keys, ∀ k, buildKey st.engine ns typePrefix key = .ok k →
    remaining now (t k) = if 0 < ttl.getD st.defaults.ttl then ttl.getD st.defaults.ttl else -1
  kept : ∀ ns o body, x = .data ns o → out = .ok body → o.keepsTtl = true →
    ∀ k, (live now (s k)).isSome → (live now (t k)).isSome → deadlineOf now (t k) = deadlineOf now (s k)
  refused : 400 ≤ (Response.of out).status → (Response.of out).status < 500 → ∀ k, TtlKept now (s k) (t k)

/-- Every request, alone, on a store in which each key holds the type of its prefix. -/
theorem uniform_ttl {R : Server} (hR : R.Lawful) (hT : R.Lifetimes) (hW : R.Writes) (hL : R.Lists) (hF : R.Refusals)
    {st : Settings} {now : Nat} {s t : Store} (hs : s.Typed (StoredAs st.engine)) (hsolid : ∀ k, Solid (s k))
    {client : Option ClientInfo} {x : Endpoint} {out : Except Exn Json} (h : Alone R now (x.program st client) s = (out, t)) :
    TtlEffect st now x out s t where
  written ns o body hx hout keys ttl ho typePrefix hp key hkey k hk := by
    subst hx hout
    obtain ⟨v, hv⟩ := accepted_gives hR hT hW h ho hp hkey hk
    rw [hv]
    exact remaining_deadlineFor now _ v
  kept ns o body hx hout ho k _ hlive := by
    subst hx hout
    exact accepted_keeps hR hT hW h ho hlive
  refused hlow hhigh := by
    cases out with
    | ok body =>
      have hstatus : (Response.of (.ok body)).status = 200 := rfl
      omega
    | error e =>
      refine endpoint_spares hR hT hW hL hF hs hsolid client x e t h fun msg he => ?_
      subst he
      have hstatus : (Response.of (.error (.redis msg))).status = 500 := rfl
      omega

def mapWriter : ClientInfo := ⟨"app", "", [("app", ["read", "write"])]⟩

/-- A hash that expires after a minute. -/
def expiringMap : Store := Store.empty.set "app:map:a" (some ⟨.hash [("x", "1")], some 60000⟩)

def setField : Endpoint := .data "app" (.map (.setMapField "a" "y" ⟨"2", some 0⟩))

theorem expiringMap_typed : expiringMap.Typed (StoredAs .python) := by
  have hbuilt : buildKey .python "app" mapPrefix "a" = .ok "app:map:a" := rfl
  refine typed_single rfl hbuilt fun x hx => ?_
  cases hx
  rfl

theorem expiringMap_solid : ∀ k, Solid (expiringMap k) :=
  solid_set (fun _ => solid_none) (solid_some (List.cons_ne_nil _ _))

def fieldAnswer : Json := ok (.obj [("field", .str "y"), ("value", .str "2")]) "app" "a" "hash"

theorem setField_run : Alone reference 0 (setField.program {} (some mapWriter)) expiringMap =
    (.ok fieldAnswer, (Alone reference 0 (setField.program {} (some mapWriter)) expiringMap).2) := rfl

theorem uniform_ttl_map : TtlEffect {} 0 setField (.ok fieldAnswer) expiringMap
    (Alone reference 0 (setField.program {} (some mapWriter)) expiringMap).2 :=
  uniform_ttl reference_lawful reference_lifetimes reference_writes reference_lists reference_refusals
    expiringMap_typed expiringMap_solid setField_run

end Redgw
