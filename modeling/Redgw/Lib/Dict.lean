import Mathlib.Data.List.Nodup

/-! # Dictionaries with text keys

Insertion-ordered dictionaries: each key once, in the order of its first insertion. -/

structure Dict (β : Type) where
  items : List (String × β)
  nodup : (items.map (·.1)).Nodup

namespace Dict

variable {β : Type}

def empty : Dict β := ⟨[], List.nodup_nil⟩

/-- `d[k] = v` on the items: in place when the key is there, else at the end. -/
def put : List (String × β) → String → β → List (String × β)
  | [], k, v => [(k, v)]
  | (k', v') :: items, k, v => if k' = k then (k, v) :: items else (k', v') :: put items k v

theorem mem_keys_put {items : List (String × β)} {k x : String} {v : β} :
    x ∈ (put items k v).map (·.1) ↔ x = k ∨ x ∈ items.map (·.1) := by
  induction items with
  | nil => simp [put]
  | cons i items ih =>
    obtain ⟨k', v'⟩ := i
    by_cases h : k' = k
    · subst h
      simp [put]
    · simp only [put, h, ↓reduceIte, List.map_cons, List.mem_cons, ih]
      tauto

theorem nodup_put {items : List (String × β)} (h : (items.map (·.1)).Nodup) (k : String) (v : β) :
    ((put items k v).map (·.1)).Nodup := by
  induction items with
  | nil => simp [put]
  | cons i items ih =>
    obtain ⟨k', v'⟩ := i
    rw [List.map_cons, List.nodup_cons] at h
    by_cases hk : k' = k
    · subst hk
      simpa [put] using h
    · simp only [put, if_neg hk, List.map_cons, List.nodup_cons, mem_keys_put, not_or]
      exact ⟨⟨hk, h.1⟩, ih h.2⟩

theorem lookup_put {items : List (String × β)} {k x : String} {v : β} :
    (put items k v).lookup x = if x = k then some v else items.lookup x := by
  induction items with
  | nil =>
    rw [put, List.lookup_cons]
    by_cases hx : x = k
    · rw [if_pos hx, beq_iff_eq.mpr hx]
    · rw [if_neg hx, beq_eq_false_iff_ne.mpr hx]
  | cons i items ih =>
    obtain ⟨k', v'⟩ := i
    rw [put]
    split
    · rename_i hk
      subst hk
      rw [List.lookup_cons, List.lookup_cons]
      by_cases hx : x = k'
      · rw [if_pos hx, beq_iff_eq.mpr hx]
      · rw [if_neg hx, beq_eq_false_iff_ne.mpr hx]
    · rename_i hk
      rw [List.lookup_cons, List.lookup_cons, ih]
      by_cases hx : x = k'
      · have hne : x ≠ k := fun h => hk (hx.symm.trans h)
        rw [if_neg hne, if_neg hne, beq_iff_eq.mpr hx]
      · rw [beq_eq_false_iff_ne.mpr hx]

def insert (d : Dict β) (k : String) (v : β) : Dict β := ⟨put d.items k v, nodup_put d.nodup k v⟩

/-- `{k: v for k, v in xs}`: a later value replaces an earlier one under the same key. -/
def ofList (xs : List (String × β)) : Dict β := xs.foldl (fun d x => d.insert x.1 x.2) empty

theorem mem_keys_insert {d : Dict β} {k x : String} {v : β} :
    x ∈ (d.insert k v).items.map (·.1) ↔ x = k ∨ x ∈ d.items.map (·.1) := mem_keys_put

theorem lookup_insert {d : Dict β} {k x : String} {v : β} :
    (d.insert k v).items.lookup x = if x = k then some v else d.items.lookup x := lookup_put

theorem mem_items {d : Dict β} {k : String} {v : β} : (k, v) ∈ d.items ↔ d.items.lookup k = some v := by
  obtain ⟨items, hnodup⟩ := d
  show (k, v) ∈ items ↔ items.lookup k = some v
  induction items with
  | nil => simp
  | cons i items ih =>
    obtain ⟨k', v'⟩ := i
    rw [List.map_cons, List.nodup_cons] at hnodup
    rw [List.lookup_cons, List.mem_cons, ih hnodup.2]
    by_cases hk : k = k'
    · subst hk
      have hnot : items.lookup k ≠ some v := fun h =>
        hnodup.1 (List.mem_map.mpr ⟨(k, v), (ih hnodup.2).mpr h, rfl⟩)
      simp [hnot, eq_comm]
    · simp [hk, beq_eq_false_iff_ne.mpr hk]

theorem mem_ofList {xs : List (String × β)} {x : String × β} (h : x ∈ (ofList xs).items) : x ∈ xs := by
  have hput : ∀ (items : List (String × β)) (k : String) (v : β), x ∈ put items k v → x ∈ items ∨ x = (k, v) := by
    intro items k v
    induction items with
    | nil =>
      intro hx
      exact .inr (List.mem_singleton.mp hx)
    | cons i items ih =>
      intro hx
      rw [put] at hx
      split at hx
      · rcases List.mem_cons.mp hx with hx | hx
        · exact .inr hx
        · exact .inl (List.mem_cons_of_mem _ hx)
      · rcases List.mem_cons.mp hx with hx | hx
        · exact .inl (hx ▸ List.mem_cons_self)
        · exact (ih hx).imp_left (List.mem_cons_of_mem _)
  have hfold : ∀ (xs : List (String × β)) (d : Dict β), x ∈ (xs.foldl (fun d x => d.insert x.1 x.2) d).items →
      x ∈ d.items ∨ x ∈ xs := by
    intro xs
    induction xs with
    | nil => exact fun d hx => .inl hx
    | cons y xs ih =>
      intro d hx
      rcases ih (d.insert y.1 y.2) hx with hx | hx
      · exact (hput d.items y.1 y.2 hx).imp_right fun h => List.mem_cons.mpr (.inl h)
      · exact .inr (List.mem_cons_of_mem _ hx)
  exact (hfold xs empty h).resolve_left fun hx => by cases hx

/-- The keys of a dictionary made from a list are those of the list. -/
theorem mem_keys_ofList {xs : List (String × β)} {x : String} :
    x ∈ (ofList xs).items.map (·.1) ↔ x ∈ xs.map (·.1) := by
  have h : ∀ (xs : List (String × β)) (d : Dict β),
      x ∈ (xs.foldl (fun d x => d.insert x.1 x.2) d).items.map (·.1) ↔
        x ∈ d.items.map (·.1) ∨ x ∈ xs.map (·.1) := by
    intro xs
    induction xs with
    | nil => simp
    | cons y xs ih =>
      intro d
      rw [List.foldl_cons, ih, mem_keys_insert, List.map_cons, List.mem_cons]
      tauto
  have hempty : (empty : Dict β).items.map (·.1) = [] := rfl
  rw [ofList, h, hempty]
  simp

def length (d : Dict β) : Nat := d.items.length

end Dict
