import Redgw.Lib.Text

/-! # Routes

A route is a method and a path of literal segments and parameters. A parameter stands for any text
without a slash, the empty one apart. -/

namespace Redgw

inductive Method
  | GET
  | PUT
  | POST
  | DELETE
deriving DecidableEq, Repr

inductive Seg
  | lit (s : String)
  | param (name : String)
deriving DecidableEq

def Seg.literal : Seg → String
  | .lit s => s
  | .param _ => ""

structure Route where
  method : Method
  segs : List Seg
deriving DecidableEq

namespace Route

def matchSegs : List Seg → List (List Char) → Bool
  | [], [] => true
  -- The final `$` of a compiled path also matches before a newline at the end.
  | [.lit s], [t] => t == s.toList || t == s.toList ++ ['\n']
  | .lit s :: segs, t :: ts => t == s.toList && matchSegs segs ts
  | .param _ :: segs, t :: ts => !t.isEmpty && matchSegs segs ts
  | _, _ => false

/-- The route is the one for the method, and its path has the form of the given one. -/
def accepts (r : Route) (method : Method) (path : String) : Bool :=
  decide (method = r.method) && match path.toList.splitOn '/' with
    | [] :: ts => matchSegs r.segs ts
    | _ => false

/-- The path with the parameters filled in. -/
def fillSegs : List Seg → List String → List String
  | .lit s :: segs, args => s :: fillSegs segs args
  | .param _ :: segs, a :: args => a :: fillSegs segs args
  | _, _ => []

def fill (r : Route) (args : List String) : String :=
  .ofList ((fillSegs r.segs args).flatMap fun t => '/' :: t.toList)

/-- `include_router(.., prefix="/api/v1")` with a path under `/ns/{ns}`. -/
def underNs (method : Method) (segs : List Seg) : Route :=
  ⟨method, [.lit "api", .lit "v1", .lit "ns", .param "ns"] ++ segs⟩

/-- The parameters of a path that the route accepts, in order. -/
def bindSegs : List Seg → List (List Char) → List String
  | .lit _ :: segs, _ :: ts => bindSegs segs ts
  | .param _ :: segs, t :: ts => .ofList t :: bindSegs segs ts
  | _, _ => []

/-- The first route whose method and path match, with its parameters. -/
def dispatch (routes : List Route) (method : Method) (path : String) : Option (Route × List String) :=
  (routes.find? (·.accepts method path)).map fun r => (r, bindSegs r.segs (path.toList.splitOn '/').tail)

/-! ### Filled paths match -/

def params : List Seg → Nat
  | [] => 0
  | .lit _ :: segs => params segs
  | .param _ :: segs => params segs + 1

/-- A parameter that a path can carry in one segment. -/
def Plain (a : String) : Prop := a ≠ "" ∧ '/' ∉ a.toList

instance : DecidablePred Plain := fun _ => inferInstanceAs (Decidable (_ ∧ _))

theorem matchSegs_fill {segs : List Seg} {args : List String} (hlen : args.length = params segs)
    (ha : ∀ a ∈ args, Plain a) : matchSegs segs ((fillSegs segs args).map String.toList) = true := by
  induction segs generalizing args with
  | nil => simp [fillSegs, matchSegs]
  | cons seg segs ih =>
    cases seg with
    | lit s =>
      have := ih hlen ha
      cases segs <;> simp_all [fillSegs, matchSegs]
    | param name =>
      cases args with
      | nil => simp [params] at hlen
      | cons a args =>
        have hne : a.toList ≠ [] := by simpa using (ha a List.mem_cons_self).1
        have := ih (by simpa [params] using hlen) fun b hb => ha b (List.mem_cons_of_mem _ hb)
        simpa [fillSegs, matchSegs, hne] using this

/-- The segments of a filled path are free of slashes when the literals and the parameters are. -/
theorem fillSegs_slash {segs : List Seg} {args : List String} (hs : ∀ s, .lit s ∈ segs → '/' ∉ s.toList)
    (ha : ∀ a ∈ args, Plain a) : ∀ t ∈ fillSegs segs args, '/' ∉ t.toList := by
  induction segs generalizing args with
  | nil => simp [fillSegs]
  | cons seg segs ih =>
    have hs' : ∀ s, Seg.lit s ∈ segs → '/' ∉ s.toList := fun s h => hs s (List.mem_cons_of_mem _ h)
    cases seg with
    | lit s =>
      intro t ht
      rcases List.mem_cons.mp ht with rfl | ht
      · exact hs t List.mem_cons_self
      · exact ih hs' ha t ht
    | param name =>
      cases args with
      | nil => simp [fillSegs]
      | cons a args =>
        intro t ht
        rcases List.mem_cons.mp ht with rfl | ht
        · exact (ha t List.mem_cons_self).2
        · exact ih hs' (fun b hb => ha b (List.mem_cons_of_mem _ hb)) t ht

/-- The segments of a filled path are the literals and the parameters. -/
theorem splitOn_fill {r : Route} {args : List String} (hs : ∀ s, .lit s ∈ r.segs → '/' ∉ s.toList)
    (ha : ∀ a ∈ args, Plain a) :
    (r.fill args).toList.splitOn '/' = [] :: (fillSegs r.segs args).map String.toList := by
  rw [← Text.splitOn_flatMap '/']
  · simp [fill, List.flatMap_map]
  · intro t ht
    obtain ⟨u, hu, rfl⟩ := List.mem_map.mp ht
    exact fillSegs_slash hs ha u hu

/-- A route accepts its own path with plain parameters filled in. -/
theorem accepts_fill {r : Route} {args : List String} (hs : ∀ s, .lit s ∈ r.segs → '/' ∉ s.toList)
    (hlen : args.length = params r.segs) (ha : ∀ a ∈ args, Plain a) : r.accepts r.method (r.fill args) = true := by
  rw [accepts, splitOn_fill hs ha]
  simpa using matchSegs_fill hlen ha

theorem bindSegs_fill {segs : List Seg} {args : List String} (hlen : args.length = params segs) :
    bindSegs segs ((fillSegs segs args).map String.toList) = args := by
  induction segs generalizing args with
  | nil => exact (List.eq_nil_of_length_eq_zero hlen).symm
  | cons seg segs ih =>
    cases seg with
    | lit s => exact ih hlen
    | param name =>
      cases args with
      | nil => cases hlen
      | cons a args =>
        simp only [fillSegs, List.map_cons, bindSegs, String.ofList_toList, ih (Nat.succ.inj hlen)]

/-- A parameter is one segment of the path. -/
theorem bindSegs_mem {segs : List Seg} {ts : List (List Char)} {a : String} (h : a ∈ bindSegs segs ts) :
    a.toList ∈ ts := by
  induction segs generalizing ts with
  | nil => cases h
  | cons seg segs ih =>
    cases ts with
    | nil => cases seg <;> cases h
    | cons t ts =>
      cases seg with
      | lit s => exact List.mem_cons_of_mem _ (ih h)
      | param name =>
        rcases List.mem_cons.mp h with rfl | h
        · simp
        · exact List.mem_cons_of_mem _ (ih h)

/-- Two forms of paths that some path may have both of. -/
def compatible : List Seg → List Seg → Bool
  | [], [] => true
  | .lit s :: segs, .lit t :: segs' => s == t && compatible segs segs'
  | _ :: segs, _ :: segs' => compatible segs segs'
  | _, _ => false

theorem matchSegs_lit {s : String} {segs : List Seg} {t : List Char} {ts : List (List Char)}
    (h : matchSegs (.lit s :: segs) (t :: ts) = true) :
    (t = s.toList ∨ t = s.toList ++ ['\n']) ∧ matchSegs segs ts = true := by
  cases segs with
  | nil =>
    cases ts with
    | nil => exact ⟨by simpa [matchSegs] using h, rfl⟩
    | cons t' ts => simp [matchSegs] at h
  | cons seg segs =>
    simp only [matchSegs, Bool.and_eq_true, beq_iff_eq] at h
    exact ⟨Or.inl h.1, h.2⟩

theorem matchSegs_param {name : String} {segs : List Seg} {t : List Char} {ts : List (List Char)}
    (h : matchSegs (.param name :: segs) (t :: ts) = true) : matchSegs segs ts = true := by
  simp only [matchSegs, Bool.and_eq_true] at h
  exact h.2

/-- Only a route of a compatible form accepts a filled path. -/
theorem compatible_of_match {segs segs' : List Seg} {args : List String}
    (hline : ∀ s, .lit s ∈ segs' → '\n' ∉ s.toList) (hlen : args.length = params segs')
    (h : matchSegs segs ((fillSegs segs' args).map String.toList) = true) : compatible segs segs' = true := by
  induction segs generalizing segs' args with
  | nil =>
    cases segs' with
    | nil => rfl
    | cons seg' segs' =>
      cases seg' with
      | lit t => simp [fillSegs, matchSegs] at h
      | param name =>
        cases args with
        | nil => cases hlen
        | cons a args => simp [fillSegs, matchSegs] at h
  | cons seg segs ih =>
    cases segs' with
    | nil => cases seg <;> simp [fillSegs, matchSegs] at h
    | cons seg' segs' =>
      have hline' : ∀ s, .lit s ∈ segs' → '\n' ∉ s.toList := fun s hs => hline s (List.mem_cons_of_mem _ hs)
      cases seg' with
      | lit t =>
        simp only [fillSegs, List.map_cons] at h
        cases seg with
        | lit s =>
          obtain ⟨ht, hrest⟩ := matchSegs_lit h
          have hsame : t.toList = s.toList := by
            refine ht.resolve_right fun hbreak => hline t List.mem_cons_self ?_
            rw [hbreak]
            simp
          simp only [compatible, String.toList_inj.mp hsame, beq_self_eq_true, Bool.true_and]
          exact ih hline' hlen hrest
        | param name => exact ih hline' hlen (matchSegs_param h)
      | param name' =>
        cases args with
        | nil => cases hlen
        | cons a args =>
          simp only [fillSegs, List.map_cons] at h
          cases seg with
          | lit s => exact ih hline' (Nat.succ.inj hlen) (matchSegs_lit h).2
          | param name => exact ih hline' (Nat.succ.inj hlen) (matchSegs_param h)

/-- The routes before `r` that may take a path of `r` from it. -/
def rivals (routes : List Route) (r : Route) : List Route :=
  (routes.takeWhile (· ≠ r)).filter fun x => x.method = r.method && compatible x.segs r.segs

theorem find?_iff {α : Type} [DecidableEq α] {p : α → Bool} {xs : List α} {a : α} :
    xs.find? p = some a ↔ a ∈ xs ∧ p a = true ∧ ∀ x ∈ xs.takeWhile (· ≠ a), p x = false := by
  induction xs with
  | nil => simp
  | cons x xs ih =>
    by_cases hx : x = a
    · subst hx
      cases hp : p x with
      | true => simp [hp]
      | false =>
        rw [List.find?_cons_of_neg (by simp [hp]), ih]
        simp [hp]
    · rw [List.takeWhile_cons_of_pos (by simpa using hx), List.forall_mem_cons]
      cases hp : p x with
      | true => simp [List.find?_cons_of_pos, hp, hx]
      | false =>
        rw [List.find?_cons_of_neg (by simp [hp]), ih]
        simp [Ne.symm hx]

/-- A filled path goes to its own route, with what was filled in, exactly when no rival matches it. -/
theorem dispatch_fill {routes : List Route} {r : Route} {args : List String} (hr : r ∈ routes)
    (hs : ∀ s, .lit s ∈ r.segs → '/' ∉ s.toList ∧ '\n' ∉ s.toList) (hlen : args.length = params r.segs)
    (ha : ∀ a ∈ args, Plain a) :
    dispatch routes r.method (r.fill args) = some (r, args) ↔
      ∀ x ∈ rivals routes r, matchSegs x.segs ((fillSegs r.segs args).map String.toList) = false := by
  have hsplit := splitOn_fill (fun s h => (hs s h).1) ha
  have haccepts : ∀ x : Route, x.accepts r.method (r.fill args) =
      (decide (r.method = x.method) && matchSegs x.segs ((fillSegs r.segs args).map String.toList)) := by
    intro x
    rw [accepts, hsplit]
  have hfind : dispatch routes r.method (r.fill args) = some (r, args) ↔
      routes.find? (·.accepts r.method (r.fill args)) = some r := by
    unfold dispatch
    rw [Option.map_eq_some_iff]
    constructor
    · rintro ⟨x, hx, he⟩
      rw [hx, (Prod.mk.inj he).1]
    · intro hx
      refine ⟨r, hx, ?_⟩
      rw [hsplit, List.tail_cons, bindSegs_fill hlen]
  rw [hfind, find?_iff]
  constructor
  · rintro ⟨-, -, hbefore⟩ x hx
    obtain ⟨hmem, hrival⟩ := List.mem_filter.mp hx
    have hmethod : x.method = r.method := of_decide_eq_true (Bool.and_eq_true _ _ ▸ hrival).1
    have hnot := hbefore x hmem
    rw [haccepts, hmethod] at hnot
    simpa using hnot
  · intro hnone
    refine ⟨hr, accepts_fill (fun s h => (hs s h).1) hlen ha, fun x hmem => ?_⟩
    rw [haccepts, Bool.and_eq_false_iff, or_iff_not_imp_left]
    intro hsame
    have hmethod : r.method = x.method := by simpa using hsame
    cases hmatch : matchSegs x.segs ((fillSegs r.segs args).map String.toList) with
    | false => rfl
    | true =>
      have hcompatible := compatible_of_match (fun s h => (hs s h).2) hlen hmatch
      have hrival : x ∈ rivals routes r := List.mem_filter.mpr ⟨hmem, by simp [hmethod, hcompatible]⟩
      rw [hnone x hrival] at hmatch
      cases hmatch

/-- What is dispatched has its parameters without slashes. -/
theorem dispatch_plain {routes : List Route} {m : Method} {path : String} {r : Route} {args : List String}
    (h : dispatch routes m path = some (r, args)) : ∀ a ∈ args, '/' ∉ a.toList := by
  obtain ⟨x, -, hx⟩ := Option.map_eq_some_iff.mp h
  obtain ⟨rfl, rfl⟩ := Prod.mk.inj hx
  intro a ha
  exact Text.not_mem_splitOn (List.mem_of_mem_tail (bindSegs_mem ha))

end Route
end Redgw
