import Redgw.Lib.Dict
import Redgw.Redis.Kinds
import Redgw.Redis.Writes

/-! # Sorted sets

What ZADD does to the scores of the members. -/

namespace Redgw.Redis

/-- The members with their scores that a command finds. -/
def ranking (now : Nat) (e : Option Entry) : List (String × Score) :=
  match live now e with
  | some ⟨.zset members, _⟩ => members
  | _ => []

/-- What the documentation of Redis promises of ZADD: each member gets its score, one after another. -/
structure Server.SortedSets (R : Server) : Prop where
  zadd : ∀ members now e, members ≠ [] → HasKind .zset e → (∀ x ∈ members, x.2 ≠ .nan) →
    ∃ v, R.onKey (.zadd members) now e = (.ok v, some ⟨.zset (members.foldl putField (ranking now e)), deadlineOf now e⟩)

section Put
variable {β : Type} {fs new : List (String × β)} {f g : String × β}

theorem any_putField : (putField fs f).any (·.1 == g.1) = (fs.any (·.1 == g.1) || f.1 == g.1) := by
  have hmap : ∀ fs : List (String × β), (fs.map fun g => if g.1 == f.1 then f else g).map (·.1) = fs.map (·.1) := by
    intro fs
    rw [List.map_map]
    refine List.map_congr_left fun x _ => ?_
    simp only [Function.comp_apply]
    split
    · rename_i hx
      exact (beq_iff_eq.mp hx).symm
    · rfl
  have hany : ∀ fs : List (String × β), fs.any (·.1 == g.1) = (fs.map (·.1)).any (· == g.1) := by
    intro fs
    rw [List.any_map]
    rfl
  unfold putField
  split
  · rename_i hthere
    rw [hany, hmap, ← hany]
    by_cases hfg : f.1 = g.1
    · rw [← hfg, hthere, Bool.true_or]
    · rw [beq_eq_false_iff_ne.mpr hfg, Bool.or_false]
  · rw [List.any_append]
    simp

theorem putField_twice (h : g.1 = f.1) : putField (putField fs g) f = putField fs f := by
  have hself : (putField fs g).any (·.1 == f.1) = true := by rw [any_putField, h, beq_self_eq_true, Bool.or_true]
  rw [putField, if_pos hself]
  unfold putField
  rw [h]
  split
  · rw [List.map_map]
    refine List.map_congr_left fun x _ => ?_
    simp only [Function.comp_apply]
    split
    · rw [h, beq_self_eq_true, if_pos rfl]
    · rfl
  · rename_i hnot
    have hkeep : ∀ x ∈ fs, (if (x.1 == f.1) = true then f else x) = x := fun x hx =>
      if_neg fun hxf => hnot (List.any_eq_true.mpr ⟨x, hx, hxf⟩)
    rw [List.map_append, List.map_congr_left hkeep, List.map_id'']
    · simp [h]
    · exact fun _ => rfl

/-- A member that is there keeps its place, whatever else is put. -/
theorem putField_comm (hthere : fs.any (·.1 == f.1) = true) (hne : g.1 ≠ f.1) :
    putField (putField fs g) f = putField (putField fs f) g := by
  have hf : (putField fs g).any (·.1 == f.1) = true := by rw [any_putField, hthere, Bool.true_or]
  have hg : (putField fs f).any (·.1 == g.1) = fs.any (·.1 == g.1) := by
    rw [any_putField, beq_eq_false_iff_ne.mpr (Ne.symm hne), Bool.or_false]
  rw [putField, if_pos hf]
  conv_rhs => rw [putField, hg]
  unfold putField
  rw [if_pos hthere]
  split
  · rw [List.map_map, List.map_map]
    refine List.map_congr_left fun x _ => ?_
    simp only [Function.comp_apply]
    by_cases hxf : x.1 = f.1
    · have hxg : x.1 ≠ g.1 := fun h => hne (h.symm.trans hxf)
      simp [hxf, Ne.symm hne]
    · by_cases hxg : x.1 = g.1
      · simp [hxg, hne]
      · simp [hxf, hxg]
  · rw [List.map_append]
    simp [hne]

theorem putField_last (hthere : fs.any (·.1 == f.1) = true) (hnot : f.1 ∉ new.map (·.1)) :
    putField (new.foldl putField fs) f = new.foldl putField (putField fs f) := by
  induction new generalizing fs with
  | nil => rfl
  | cons g new ih =>
    rw [List.map_cons, List.mem_cons, not_or] at hnot
    have hstill : (putField fs g).any (·.1 == f.1) = true := by rw [any_putField, hthere, Bool.true_or]
    rw [List.foldl_cons, List.foldl_cons, ih hstill hnot.2, putField_comm hthere (Ne.symm hnot.1)]

/-- To put what a dictionary holds with one more item is to put the item last. -/
theorem foldl_put {items : List (String × β)} (hnodup : (items.map (·.1)).Nodup) (fs : List (String × β)) :
    (Dict.put items f.1 f.2).foldl putField fs = putField (items.foldl putField fs) f := by
  induction items generalizing fs with
  | nil => rfl
  | cons g items ih =>
    obtain ⟨k, v⟩ := g
    rw [List.map_cons, List.nodup_cons] at hnodup
    rw [Dict.put]
    split
    · rename_i hk
      subst hk
      have hthere : (putField fs (f.1, v)).any (·.1 == f.1) = true := by
        have h := @any_putField _ fs (f.1, v) f
        rw [h]
        simp
      rw [List.foldl_cons, List.foldl_cons, putField_last hthere hnodup.1]
      have htwice : putField (putField fs (f.1, v)) f = putField fs f := putField_twice rfl
      rw [htwice]
    · exact ih hnodup.2 _

/-- A list puts what the dictionary puts that is made of it. -/
theorem foldl_ofList (members fs : List (String × β)) : (Dict.ofList members).items.foldl putField fs = members.foldl putField fs := by
  induction members using List.reverseRecOn with
  | nil => rfl
  | append_singleton members x ih =>
    have hinsert : Dict.ofList (members ++ [x]) = (Dict.ofList members).insert x.1 x.2 := by
      unfold Dict.ofList
      rw [List.foldl_append]
      rfl
    rw [hinsert, List.foldl_append, ← ih]
    exact foldl_put (Dict.ofList members).nodup fs

end Put

theorem reference_sortedSets : reference.SortedSets where
  zadd members now e hne he hnan := by
    have hscores : ∀ ms, zadd members ms = .ok (.int ((members.foldl putField ms).length - ms.length), members.foldl putField ms) := by
      intro ms
      refine if_neg fun hany => ?_
      obtain ⟨x, hx, hbad⟩ := List.any_eq_true.mp hany
      exact hnan x hx (beq_iff_eq.mp hbad)
    have hput : ∀ ms, putZset (members.foldl putField ms) = some (.zset (members.foldl putField ms)) := fun ms =>
      if_neg fun hnil => putFields_ne_nil hne (List.isEmpty_iff.mp hnil)
    have hrun : reference.onKey (.zadd members) now e = writing Value.zset? [] putZset now e (zadd members) := rfl
    rw [hrun]
    unfold writing ranking deadlineOf
    cases hl : live now e with
    | none => exact ⟨_, by simp only [hscores, hput]; rfl⟩
    | some x =>
      obtain ⟨v, d⟩ := x
      have hkind := he.live now _ hl
      cases v <;> cases hkind
      exact ⟨_, by simp only [Value.zset?, hscores, hput]; rfl⟩

end Redgw.Redis
