import Redgw.Api
import Redgw.Lib.Percent

/-! # Addresses of items

The URL of an endpoint has the key and the field in its path. They are percent-encoded there, and the path is
decoded before the routes are tried, so that a slash of a key cuts the path like any other. -/

namespace Redgw
open Route

def itemRoutes : List Route := dataRoutes.filter fun r => Seg.param "key" ∈ r.segs

/-- The path of the URL: each segment behind a slash, percent-encoded. -/
def url (r : Route) (args : List String) : List UInt8 :=
  (fillSegs r.segs args).flatMap fun t => 47 :: Percent.encode (utf8 t)

/-- The path that the application gets of a URL, if the decoded bytes are text. -/
def serverPath (url : List UInt8) : Option String :=
  (Percent.decode url).toByteArray.utf8Decode?.map fun cs => .ofList cs.toList

def dispatchUrl (method : Method) (url : List UInt8) : Option (Route × List String) :=
  (serverPath url).bind (dispatch dataRoutes method)

/-- The endpoints before which a batch endpoint is registered that takes the key `batch` from them. -/
def batchShadowed : List Route :=
  [.underNs .PUT [.lit "kv", .param "key"], .underNs .PUT [.lit "map", .param "key"],
   .underNs .POST [.lit "group", .param "key"], .underNs .POST [.lit "rank", .param "key"]]

def setMapFieldRoute : Route := .underNs .PUT [.lit "map", .param "key", .param "field"]

def touchMapRoute : Route := .underNs .PUT [.lit "map", .param "key", .lit "touch"]

/-- No slash, no key `batch` where there is a batch endpoint, and no field `touch` to be set. -/
structure Addressable (r : Route) (key : String) (rest : List String) : Prop where
  keySlash : '/' ∉ key.toList
  restSlash : ∀ a ∈ rest, '/' ∉ a.toList
  batch : r ∈ batchShadowed → key ≠ "batch"
  touch : r = setMapFieldRoute → rest ≠ ["touch"] ∧ rest ≠ ["touch\n"]

/-! ### From the URL to the path -/

theorem decode_segments (ts : List String) : Percent.decode (ts.flatMap fun t => 47 :: Percent.encode (utf8 t)) =
    ts.flatMap fun t => 47 :: utf8 t := by
  induction ts with
  | nil => rfl
  | cons t ts ih =>
    rw [List.flatMap_cons, List.flatMap_cons, List.cons_append, List.cons_append,
      Percent.decode_plain (by decide), Percent.decode_encode, ih]

theorem serverPath_url (r : Route) (args : List String) : serverPath (url r args) = some (r.fill args) := by
  have hbytes : Percent.decode (url r args) = utf8 (r.fill args) := by
    unfold url utf8 fill
    rw [String.toList_ofList, List.flatMap_assoc]
    exact decode_segments (fillSegs r.segs args)
  have hencode : (utf8 (r.fill args)).toByteArray = (r.fill args).toList.utf8Encode := rfl
  unfold serverPath
  rw [hbytes, hencode, List.utf8Decode?_utf8Encode]
  simp

/-! ### The table of routes -/

theorem mem_item {r : Route} (h : r ∈ itemRoutes) : r ∈ dataRoutes := (List.mem_filter.mp h).1

def batchRoute (r : Route) : Route := ⟨r.method, r.segs.take 5 ++ [.lit "batch"]⟩

theorem rivals_item : ∀ r ∈ itemRoutes, rivals dataRoutes r =
    if r ∈ batchShadowed then [batchRoute r] else if r = setMapFieldRoute then [touchMapRoute] else [] := by
  decide +kernel

theorem literals_item {r : Route} (h : r ∈ itemRoutes) (s : String) (hs : .lit s ∈ r.segs) :
    '/' ∉ s.toList ∧ '\n' ∉ s.toList := by
  have hall : ∀ r ∈ itemRoutes, ∀ seg ∈ r.segs, '/' ∉ seg.literal.toList ∧ '\n' ∉ seg.literal.toList := by
    decide +kernel
  exact hall r h _ hs

/-! ### Valid keys and namespaces -/

theorem plain_of_ns {engine : Engine} {ns : String} (h : validateNs engine ns = .ok ns) : Plain ns := by
  have hre := Bool.and_eq_true_iff.mp (validateNs_nsRe h)
  constructor
  · rintro rfl
    exact absurd hre.2 (by decide)
  · exact not_mem_of_nsChar hre.1 (by decide)

theorem nonempty_of_key {engine : Engine} {key : String} (h : validateKey engine key = .ok key) :
    key ≠ "" ∧ '\n' ∉ key.toList := by
  have hre := Bool.and_eq_true_iff.mp (validateKey_keyRe h)
  constructor
  · rintro rfl
    exact absurd hre.2 (by decide)
  · intro hline
    exact absurd (List.all_eq_true.mp hre.1 '\n' hline) (by decide)

/-! ### What the rivals take -/

theorem batch_takes {r : Route} (hr : r ∈ batchShadowed) {ns key : String} (hns : ns ≠ "") (hkey : '\n' ∉ key.toList) :
    matchSegs (batchRoute r).segs ((fillSegs r.segs [ns, key]).map String.toList) = true ↔ key = "batch" := by
  have hlast : matchSegs [.lit "batch"] [key.toList] = true ↔ key = "batch" := by
    simp only [matchSegs, Bool.or_eq_true, beq_iff_eq, String.toList_inj]
    refine or_iff_left fun h => hkey ?_
    rw [h]
    simp
  have hlist : ns.toList.isEmpty = false := by simpa using hns
  rw [← hlast]
  simp only [batchShadowed, List.mem_cons, List.not_mem_nil, or_false] at hr
  rcases hr with rfl | rfl | rfl | rfl <;>
    simp only [batchRoute, underNs, fillSegs, matchSegs, List.take, List.cons_append, List.nil_append, List.map_cons,
      List.map_nil, hlist, beq_self_eq_true, Bool.not_false, Bool.true_and]

theorem touch_takes {ns key field : String} (hns : ns ≠ "") (hkey : key ≠ "") :
    matchSegs touchMapRoute.segs ((fillSegs setMapFieldRoute.segs [ns, key, field]).map String.toList) = true ↔
      field = "touch" ∨ field = "touch\n" := by
  have hline : "touch".toList ++ ['\n'] = "touch\n".toList := by decide
  have hlast : matchSegs [.lit "touch"] [field.toList] = true ↔ field = "touch" ∨ field = "touch\n" := by
    simp only [matchSegs, hline, Bool.or_eq_true, beq_iff_eq, String.toList_inj]
  have hns' : ns.toList.isEmpty = false := by simpa using hns
  have hkey' : key.toList.isEmpty = false := by simpa using hkey
  rw [← hlast]
  simp only [touchMapRoute, setMapFieldRoute, underNs, fillSegs, matchSegs, List.cons_append, List.nil_append,
    List.map_cons, List.map_nil, hns', hkey', beq_self_eq_true, Bool.not_false, Bool.true_and]

/-! ### Which items have an address -/

/-- The URL of an item is dispatched to its endpoint, with the segments it was built from, exactly when the key
    and the field have no slash and no endpoint registered before takes them for its own word. -/
theorem url_dispatched_iff (engine : Engine) {ns key : String} (hns : validateNs engine ns = .ok ns)
    (hkey : validateKey engine key = .ok key) {r : Route} (hr : r ∈ itemRoutes) {rest : List String}
    (hlen : rest.length + 2 = params r.segs) (hrest : ∀ a ∈ rest, a ≠ "") :
    dispatchUrl r.method (url r (ns :: key :: rest)) = some (r, ns :: key :: rest) ↔ Addressable r key rest := by
  have hplain := plain_of_ns hns
  obtain ⟨hempty, hline⟩ := nonempty_of_key hkey
  have hpath : dispatchUrl r.method (url r (ns :: key :: rest)) =
      dispatch dataRoutes r.method (r.fill (ns :: key :: rest)) := by
    unfold dispatchUrl
    rw [serverPath_url, Option.bind_some]
  rw [hpath]
  by_cases hslash : '/' ∉ key.toList ∧ ∀ a ∈ rest, '/' ∉ a.toList
  · have hargs : ∀ a ∈ ns :: key :: rest, Plain a := by
      intro a ha
      rcases List.mem_cons.mp ha with rfl | ha
      · exact hplain
      · rcases List.mem_cons.mp ha with rfl | ha
        · exact ⟨hempty, hslash.1⟩
        · exact ⟨hrest a ha, hslash.2 a ha⟩
    rw [dispatch_fill (mem_item hr) (literals_item hr) (by simpa using hlen) hargs, rivals_item r hr]
    by_cases hbatch : r ∈ batchShadowed
    · have hnil : rest = [] := by
        have htwo : ∀ r ∈ batchShadowed, params r.segs = 2 := by decide
        have := htwo r hbatch
        exact List.eq_nil_of_length_eq_zero (by omega)
      subst hnil
      have hfield : r ≠ setMapFieldRoute := by
        rintro rfl
        exact absurd hbatch (by decide)
      simp only [if_pos hbatch, List.mem_singleton, forall_eq, ← Bool.not_eq_true,
        batch_takes hbatch hplain.1 hline]
      constructor
      · intro h
        exact ⟨hslash.1, hslash.2, fun _ => h, fun h => absurd h hfield⟩
      · intro h
        exact h.batch hbatch
    · rw [if_neg hbatch]
      by_cases hfield : r = setMapFieldRoute
      · subst hfield
        obtain ⟨field, rfl⟩ : ∃ field, rest = [field] := List.length_eq_one_iff.mp (Nat.succ.inj (Nat.succ.inj hlen))
        simp only [if_true, List.mem_singleton, forall_eq, ← Bool.not_eq_true, touch_takes hplain.1 hempty]
        constructor
        · intro h
          exact ⟨hslash.1, hslash.2, fun h => absurd h hbatch, fun _ => by simpa using h⟩
        · intro h
          simpa using h.touch rfl
      · simp only [if_neg hfield, List.not_mem_nil, false_implies, implies_true, true_iff]
        exact ⟨hslash.1, hslash.2, fun h => absurd h hbatch, fun h => absurd h hfield⟩
  · constructor
    · intro h
      have hargs := dispatch_plain h
      refine absurd ⟨hargs key (by simp), fun a ha => hargs a ?_⟩ hslash
      exact List.mem_cons_of_mem _ (List.mem_cons_of_mem _ ha)
    · intro h
      exact absurd ⟨h.keySlash, h.restSlash⟩ hslash

theorem url_dispatched_iff_profile :
    dispatchUrl .PUT (url setMapFieldRoute ["app", "user:1", "full name"]) =
      some (setMapFieldRoute, ["app", "user:1", "full name"]) :=
  (url_dispatched_iff .python (by decide) (by decide) (by decide) (by decide) (by decide)).mpr
    ⟨by decide, by decide, by decide, by decide⟩

/-- A PUT for the key `a/nx` sets the key `a` if it is not there. -/
theorem slash_key_elsewhere :
    validateNs .python "app" = .ok "app" ∧ validateKey .python "a/nx" = .ok "a/nx" ∧
      Route.underNs .PUT [.lit "kv", .param "key"] ∈ itemRoutes ∧
      dispatchUrl .PUT (url (.underNs .PUT [.lit "kv", .param "key"]) ["app", "a/nx"]) =
        some (.underNs .PUT [.lit "kv", .param "key", .lit "nx"], ["app", "a"]) := by
  refine ⟨by decide, by decide, by decide, ?_⟩
  decide +kernel

end Redgw
