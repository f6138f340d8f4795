import Redgw.Redis.Streams

/-! # Consumer groups

How far a group has read its stream, and what the commands for groups do to that. -/

namespace Redgw.Redis

def cursorOf (group : String) (x : Stream) : Option StreamId := (x.groups.find? (·.name == group)).map (·.lastDelivered)

/-- The entries that the group has not been given yet, up to `count`. -/
def unread (last : StreamId) (count : Int) (x : Stream) : List (StreamId × List (String × String)) :=
  (x.entries.filter fun y => last.lt y.1).take count.toNat

/-- The reply of XREADGROUP: nothing, or the entries under the name of the stream. -/
def groupReply (name : Json) (page : List (StreamId × List (String × String))) : Json :=
  if page.isEmpty then .arr [] else .arr [.arr [name, .arr (page.map entryJson)]]

/-- The cursor of a group that is given a page. -/
def cursorAfter (last : StreamId) (page : List (StreamId × List (String × String))) : StreamId := (page.getLast?.map (·.1)).getD last

/-- What the documentation of Redis promises of groups. -/
structure Server.Groups (R : Server) : Prop where
  /-- A new group starts before the first entry. A group that is there is refused. -/
  create : ∀ group now e, HasKind .stream e →
    (∃ msg, R.onKey (.xgroupCreate group "0" true) now e = (.error msg, e)) ∨
    cursorOf group (streamOf now e) = none ∧ ∃ x, x.entries = (streamOf now e).entries ∧ x.lastId = (streamOf now e).lastId ∧
      (∀ g, cursorOf g x = if g = group then some ⟨0, 0⟩ else cursorOf g (streamOf now e)) ∧
      R.onKey (.xgroupCreate group "0" true) now e = (.ok (.bool true), some ⟨.stream x, deadlineOf now e⟩)
  /-- A group is given the entries behind its cursor, whichever of its consumers asks. -/
  read : ∀ group consumer count now e, HasKind .stream e →
    (∃ msg, R.onKey (.xreadgroup group consumer count) now e = (.error msg, e)) ∨
    ∃ last name x, cursorOf group (streamOf now e) = some last ∧ x.entries = (streamOf now e).entries ∧
      x.lastId = (streamOf now e).lastId ∧
      (∀ g, cursorOf g x = if g = group then some (cursorAfter last (unread last count (streamOf now e)))
        else cursorOf g (streamOf now e)) ∧
      R.onKey (.xreadgroup group consumer count) now e =
        (.ok (groupReply name (unread last count (streamOf now e))), some ⟨.stream x, deadlineOf now e⟩)
  ack : ∀ group ids now e, HasKind .stream e → (R.onKey (.xack group ids) now e).2 = e ∨
    ∃ x, x.entries = (streamOf now e).entries ∧ x.lastId = (streamOf now e).lastId ∧
      (∀ g, cursorOf g x = cursorOf g (streamOf now e)) ∧ (R.onKey (.xack group ids) now e).2 = some ⟨.stream x, deadlineOf now e⟩

/-! ### The reference server -/

section Groups
variable {group : String} {x : Stream}

theorem find_map_group (f : Group → Group) (hf : ∀ g, (f g).name = g.name) (gs : List Group) (name : String) :
    (gs.map fun g => if g.name == group then f g else g).find? (·.name == name) =
      (gs.find? (·.name == name)).map fun g => if g.name == group then f g else g := by
  induction gs with
  | nil => rfl
  | cons g gs ih =>
    have hname : (if (g.name == group) = true then f g else g).name = g.name := by
      split
      · exact hf g
      · rfl
    rw [List.map_cons, List.find?_cons, List.find?_cons, hname]
    cases g.name == name with
    | true => rfl
    | false => exact ih

/-- A group changes, and the others stay where they are. -/
theorem cursorOf_onGroup {f : Group → Group} (hf : ∀ g, (f g).name = g.name) {g₀ : Group}
    (hg : x.groups.find? (·.name == group) = some g₀) (name : String) :
    cursorOf name (onGroup group x f) = if name = group then some (f g₀).lastDelivered else cursorOf name x := by
  unfold cursorOf onGroup
  dsimp only
  rw [find_map_group f hf]
  by_cases hname : name = group
  · subst hname
    have heq : g₀.name = name := beq_iff_eq.mp (List.find?_some (p := fun g : Group => g.name == name) hg)
    rw [hg, if_pos rfl]
    simp [heq]
  · rw [if_neg hname]
    cases hfound : x.groups.find? (·.name == name) with
    | none => rfl
    | some g =>
      have heq : g.name = name := beq_iff_eq.mp (List.find?_some (p := fun g : Group => g.name == name) hfound)
      simp [heq, hname]

/-- A new group is the last. -/
theorem cursorOf_append {g₀ : Group} (hg : cursorOf g₀.name x = none) (name : String) :
    cursorOf name { x with groups := x.groups ++ [g₀] } = if name = g₀.name then some g₀.lastDelivered else cursorOf name x := by
  unfold cursorOf at hg ⊢
  rw [List.find?_append]
  by_cases hname : name = g₀.name
  · subst hname
    rw [Option.map_eq_none_iff.mp hg]
    simp
  · cases hfound : x.groups.find? (·.name == name) with
    | none => simp [hname, Ne.symm hname]
    | some g => simp [hname]

theorem live_stream {e : Option Entry} (he : HasKind .stream e) (now : Nat) :
    live now e = none ∧ streamOf now e = .empty ∧ deadlineOf now e = none ∨
      live now e = some ⟨.stream (streamOf now e), deadlineOf now e⟩ := by
  unfold streamOf deadlineOf
  cases hl : live now e with
  | none => exact Or.inl ⟨rfl, rfl, rfl⟩
  | some x =>
    have hkind := he.live now x hl
    obtain ⟨v, d⟩ := x
    cases v <;> cases hkind
    exact Or.inr rfl

end Groups

theorem reference_groups : reference.Groups where
  create group now e he := by
    have hzero : parseId "0".toList = some ⟨0, 0⟩ := by decide +kernel
    have hcreate : reference.onKey (.xgroupCreate group "0" true) now e = xgroupCreate group "0" true now e := rfl
    rw [hcreate]
    unfold xgroupCreate
    rw [hzero]
    rcases live_stream he now with ⟨hl, hstream, hdeadline⟩ | hl
    · rw [hl, hstream, hdeadline]
      refine Or.inr ⟨rfl, { Stream.empty with groups := [⟨group, ⟨0, 0⟩, [], []⟩] }, rfl, rfl, fun g => ?_, rfl⟩
      exact cursorOf_append rfl g
    · rw [hl]
      dsimp only
      split
      · exact Or.inl ⟨_, rfl⟩
      · rename_i hany
        have hnone : cursorOf group (streamOf now e) = none := by
          unfold cursorOf
          rw [Option.map_eq_none_iff, List.find?_eq_none]
          exact fun g hg heq => hany (List.any_eq_true.mpr ⟨g, hg, heq⟩)
        refine Or.inr ⟨hnone, { streamOf now e with groups := (streamOf now e).groups ++ [⟨group, ⟨0, 0⟩, [], []⟩] }, rfl, rfl,
          fun g => ?_, rfl⟩
        exact cursorOf_append hnone g
  read group consumer count now e he := by
    have hread : reference.onKey (.xreadgroup group consumer count) now e = xreadgroup group consumer count now e := rfl
    rw [hread]
    unfold xreadgroup
    rcases live_stream he now with ⟨hl, -, -⟩ | hl
    · rw [hl]
      exact Or.inl ⟨_, rfl⟩
    · rw [hl]
      dsimp only
      cases hg : (streamOf now e).groups.find? (·.name == group) with
      | none => exact Or.inl ⟨_, rfl⟩
      | some g =>
        refine Or.inr ⟨g.lastDelivered, .null, onGroup group (streamOf now e) _, ?_, rfl, rfl, fun name => ?_, rfl⟩
        · rw [cursorOf, hg]
          rfl
        · rw [cursorOf_onGroup _ hg]
          · rfl
          · exact fun _ => rfl
  ack group ids now e he := by
    have hack : reference.onKey (.xack group ids) now e = xack group ids now e := rfl
    rw [hack]
    unfold xack
    rcases live_stream he now with ⟨hl, -, -⟩ | hl
    · rw [hl]
      cases ids.mapM fun id => parseId id.toList <;> exact Or.inl rfl
    · rw [hl]
      cases ids.mapM fun id => parseId id.toList with
      | none => exact Or.inl rfl
      | some as =>
        refine Or.inr ⟨onGroup group (streamOf now e) _, rfl, rfl, fun g => ?_, rfl⟩
        unfold cursorOf onGroup
        dsimp only
        rw [find_map_group, Option.map_map]
        · refine congrArg (Option.map · _) (funext fun g' => ?_)
          show (if _ then _ else _ : Group).lastDelivered = _
          split <;> rfl
        · exact fun _ => rfl

end Redgw.Redis
