import Redgw.Lib.Pool

/-! # Programs that are taken out

Some programs of a run are taken out, with all that they have done. If their calls do not move what the others see of the
state, and the others take notice of nothing else, the run goes on without them, and nobody else can tell. -/

namespace Pool
open Prog

variable {C : Type} {R : C → Type} {ε α χ S Q : Type}

section Seen
variable (exec : (c : C) → χ → S → R c × S) (E : S → S → Prop)

/-- The call does not move what is seen. -/
def Silent (c : C) : Prop := ∀ x s t, E s t → E (exec c x s).2 t

/-- The program does not depend on more than is seen: where the same is seen it goes on the same way, and the same is seen
    after that. -/
def Respects : Prog C R ε α → Prop
  | .call c k =>
    (∀ x s t, E s t → E (exec c x s).2 (exec c x t).2 ∧ k (exec c x s).1 = k (exec c x t).1) ∧ ∀ r, Respects (k r)
  | _ => True

/-- The call is answered the same where the same is seen. -/
def Fair (c : C) : Prop := ∀ x s t, E s t → (exec c x s).1 = (exec c x t).1 ∧ E (exec c x s).2 (exec c x t).2

/-- The programs that stay. -/
def kept {A : Type} : List Bool → List A → List A
  | stays :: flags, a :: as => if stays then a :: kept flags as else kept flags as
  | _, _ => []

/-- The place of the `i`th program among those that stay. -/
def place (flags : List Bool) (i : Nat) : Nat := (flags.take i).count true

/-- The actions of the programs that stay; the flags tell which of the programs so far do. -/
def purge (keep : Q → Bool) : List Bool → List (Act Q χ) → List (Act Q χ)
  | _, [] => []
  | flags, .start q :: acts => (if keep q then [.start q] else []) ++ purge keep (flags ++ [keep q]) acts
  | flags, .resume i x :: acts => (if flags[i]? = some true then [.resume (place flags i) x] else []) ++ purge keep flags acts

/-- Two pools, the second one with only the programs that stay. -/
structure Purged (flags : List Bool) (t u : Pool C R ε α S) : Prop where
  state : E t.state u.state
  length : flags.length = t.programs.length
  programs : u.programs = kept flags t.programs
  seen : ∀ (i : Nat) p, flags[i]? = some true → t.programs[i]? = some p → Respects exec E p
  silent : ∀ (i : Nat) p, flags[i]? = some false → t.programs[i]? = some p → p.CallsOn (fun _ _ => True) (Silent exec E)

end Seen

/-! ### Programs that depend on what is seen -/

section Rules
variable {exec : (c : C) → χ → S → R c × S} {E : S → S → Prop} {β : Type}

theorem Respects.bind {p : Prog C R ε α} {f : α → Prog C R ε β} (hp : Respects exec E p) (hf : ∀ a, Respects exec E (f a)) :
    Respects exec E (p.bind f) := by
  induction p with
  | pure a => exact hf a
  | raise e => trivial
  | call c k ih =>
    refine ⟨fun x s t hst => ?_, fun r => ih r (hp.2 r)⟩
    obtain ⟨hstate, hk⟩ := hp.1 x s t hst
    exact ⟨hstate, congrArg (Prog.bind · f) hk⟩

theorem respects_of_fair {p : Prog C R ε α} (hp : p.Calls (Fair exec E)) : Respects exec E p := by
  induction p with
  | pure a => trivial
  | raise e => trivial
  | call c k ih =>
    refine ⟨fun x s t hst => ?_, fun r => ih r (hp.2 r)⟩
    obtain ⟨hreply, hstate⟩ := hp.1 x s t hst
    exact ⟨hstate, congrArg k hreply⟩

/-- A call whose reply nobody looks at. -/
theorem respects_blind {c : C} {p : Prog C R ε α} (hc : ∀ x s t, E s t → E (exec c x s).2 (exec c x t).2)
    (hp : Respects exec E p) : Respects exec E (.call c fun _ => p) :=
  ⟨fun x s t hst => ⟨hc x s t hst, rfl⟩, fun _ => hp⟩

end Rules

/-! ### Lists of programs of which some stay -/

section Kept
variable {A : Type} {flags : List Bool} {as : List A} {a : A} {i : Nat}

theorem kept_snoc (h : flags.length = as.length) (b : Bool) (a : A) :
    kept (flags ++ [b]) (as ++ [a]) = kept flags as ++ if b then [a] else [] := by
  induction flags generalizing as with
  | nil =>
    rw [List.length_nil, eq_comm, List.length_eq_zero_iff] at h
    subst h
    cases b <;> rfl
  | cons c flags ih =>
    cases as with
    | nil => cases h
    | cons a' as =>
      have hrest := ih (Nat.succ.inj h)
      cases c <;> simp [kept, hrest]

theorem kept_place (hflag : flags[i]? = some true) (ha : as[i]? = some a) : (kept flags as)[place flags i]? = some a := by
  induction flags generalizing as i with
  | nil => cases hflag
  | cons c flags ih =>
    cases as with
    | nil => cases ha
    | cons a' as =>
      cases i with
      | zero =>
        cases hflag
        cases ha
        rfl
      | succ i =>
        have hrest := ih (i := i) hflag ha
        cases c with
        | true =>
          rw [place, List.take_succ_cons, List.count_cons_self]
          exact hrest
        | false =>
          rw [place, List.take_succ_cons, List.count_cons_of_ne (by decide)]
          exact hrest

theorem kept_set_place (hflag : flags[i]? = some true) (b : A) :
    kept flags (as.set i b) = (kept flags as).set (place flags i) b := by
  induction flags generalizing as i with
  | nil => cases hflag
  | cons c flags ih =>
    cases as with
    | nil => rfl
    | cons a' as =>
      cases i with
      | zero =>
        cases hflag
        rfl
      | succ i =>
        have hrest : kept flags (as.set i b) = (kept flags as).set (place flags i) b := ih hflag
        cases c with
        | true =>
          rw [place, List.take_succ_cons, List.count_cons_self, List.set_cons_succ]
          exact congrArg (a' :: ·) hrest
        | false =>
          rw [place, List.take_succ_cons, List.count_cons_of_ne (by decide), List.set_cons_succ]
          exact hrest

theorem kept_set_other (hflag : flags[i]? = some false) (b : A) : kept flags (as.set i b) = kept flags as := by
  induction flags generalizing as i with
  | nil => cases hflag
  | cons c flags ih =>
    cases as with
    | nil => rfl
    | cons a' as =>
      cases i with
      | zero =>
        cases hflag
        rfl
      | succ i =>
        have hrest : kept flags (as.set i b) = kept flags as := ih hflag
        cases c with
        | true => exact congrArg (a' :: ·) hrest
        | false => exact hrest

end Kept

/-! ### Runs -/

section Run
variable {exec : (c : C) → χ → S → R c × S} {E : S → S → Prop} {body : Q → Prog C R ε α} {keep : Q → Bool}
  {flags : List Bool} {t t' u : Pool C R ε α S}

theorem purged_nil {s s' : S} (hs : E s s') : Purged exec E [] (⟨s, []⟩ : Pool C R ε α S) ⟨s', []⟩ where
  state := hs
  length := rfl
  programs := rfl
  seen i p h := by cases h
  silent i p h := by cases h

/-- The program that comes last, or one that was there before. -/
theorem getElem?_snoc_cases {A B : Type} {as : List A} {bs : List B} (hlen : as.length = bs.length) {a a' : A} {b b' : B} {i : Nat}
    (ha : (as ++ [a])[i]? = some a') (hb : (bs ++ [b])[i]? = some b') : as[i]? = some a' ∧ bs[i]? = some b' ∨ a' = a ∧ b' = b := by
  by_cases hi : i < as.length
  · rw [List.getElem?_append_left hi] at ha
    rw [List.getElem?_append_left (hlen ▸ hi)] at hb
    exact Or.inl ⟨ha, hb⟩
  · have hlast : i = as.length := by
      obtain ⟨hlt, -⟩ := List.getElem?_eq_some_iff.mp ha
      rw [List.length_append, List.length_singleton] at hlt
      omega
    subst hlast
    rw [List.getElem?_concat_length] at ha
    rw [hlen, List.getElem?_concat_length] at hb
    cases ha
    cases hb
    exact Or.inr ⟨rfl, rfl⟩

theorem Purged.start (h : Purged exec E flags t u) {p : Prog C R ε α} {stays : Bool} (hkeep : stays = true → Respects exec E p)
    (hother : stays = false → p.CallsOn (fun _ _ => True) (Silent exec E)) : Purged exec E (flags ++ [stays]) ⟨t.state, t.programs ++ [p]⟩
      ⟨u.state, u.programs ++ if stays then [p] else []⟩ where
  state := h.state
  length := by simp [h.length]
  programs := by rw [kept_snoc h.length, h.programs]
  seen i q hi hq := by
    rcases getElem?_snoc_cases h.length hi hq with ⟨hi, hq⟩ | ⟨hflag, rfl⟩
    · exact h.seen i q hi hq
    · exact hkeep hflag.symm
  silent i q hi hq := by
    rcases getElem?_snoc_cases h.length hi hq with ⟨hi, hq⟩ | ⟨hflag, rfl⟩
    · exact h.silent i q hi hq
    · exact hother hflag.symm

/-- A program that stays makes its step in both pools. -/
theorem Purged.resume_kept (h : Purged exec E flags t u) {i : Nat} {x : χ} (hi : flags[i]? = some true)
    (hstep : t.resume exec i x = some t') : ∃ u', u.resume exec (place flags i) x = some u' ∧ Purged exec E flags t' u' := by
  obtain ⟨c, k, hp, hstate, hprograms⟩ := resume_eq_some.mp hstep
  obtain ⟨hcall, hrest⟩ := h.seen i _ hi hp
  obtain ⟨hsame, hk⟩ := hcall x t.state u.state h.state
  have hplace : u.programs[place flags i]? = some (.call c k) := by
    rw [h.programs]
    exact kept_place hi hp
  refine ⟨⟨(exec c x u.state).2, u.programs.set (place flags i) (k (exec c x u.state).1)⟩,
    resume_eq_some.mpr ⟨c, k, hplace, rfl, rfl⟩, ?_, ?_, ?_, fun j q hj hq => ?_, fun j q hj hq => ?_⟩
  · rw [← hstate]
    exact hsame
  · rw [← hprograms, List.length_set]
    exact h.length
  · show u.programs.set (place flags i) (k (exec c x u.state).1) = kept flags t'.programs
    rw [← hprograms, kept_set_place hi, h.programs, hk]
  · rw [← hprograms] at hq
    rcases getElem?_set_cases hq with ⟨rfl, rfl⟩ | ⟨-, hq⟩
    · exact hrest _
    · exact h.seen j q hj hq
  · rw [← hprograms] at hq
    rcases getElem?_set_cases hq with ⟨rfl, rfl⟩ | ⟨-, hq⟩
    · rw [hi] at hj
      cases hj
    · exact h.silent j q hj hq

/-- A program that is taken out makes its step in the first pool only. -/
theorem Purged.resume_other (h : Purged exec E flags t u) {i : Nat} {x : χ} (hi : flags[i]? = some false)
    (hstep : t.resume exec i x = some t') : Purged exec E flags t' u := by
  obtain ⟨c, k, hp, hstate, hprograms⟩ := resume_eq_some.mp hstep
  obtain ⟨hc, hk⟩ := h.silent i _ hi hp
  refine ⟨?_, ?_, ?_, fun j q hj hq => ?_, fun j q hj hq => ?_⟩
  · rw [← hstate]
    exact hc x t.state u.state h.state
  · rw [← hprograms, List.length_set]
    exact h.length
  · rw [← hprograms, kept_set_other hi, h.programs]
  · rw [← hprograms] at hq
    rcases getElem?_set_cases hq with ⟨rfl, rfl⟩ | ⟨-, hq⟩
    · rw [hi] at hj
      cases hj
    · exact h.seen j q hj hq
  · rw [← hprograms] at hq
    rcases getElem?_set_cases hq with ⟨rfl, rfl⟩ | ⟨-, hq⟩
    · exact hk _ trivial
    · exact h.silent j q hj hq

/-- The run goes on without the programs that are taken out, and the others do the same in it. -/
theorem Purged.run {acts : List (Act Q χ)} (hkeep : ∀ q, .start q ∈ acts → keep q = true → Respects exec E (body q))
    (hother : ∀ q, .start q ∈ acts → keep q = false → (body q).CallsOn (fun _ _ => True) (Silent exec E)) (h : Purged exec E flags t u)
    (hrun : Runs.run (step exec body) t acts = some t') : ∃ u', Runs.run (step exec body) u (purge keep flags acts) = some u' ∧
      Purged exec E (flags ++ (started acts).map keep) t' u' := by
  induction acts generalizing flags t u with
  | nil =>
    cases hrun
    exact ⟨u, rfl, by simpa [started] using h⟩
  | cons a acts ih =>
    obtain ⟨v, hv, hvt⟩ := Runs.run_cons.mp hrun
    have hkeep' : ∀ q, .start q ∈ acts → keep q = true → Respects exec E (body q) := fun q hq => hkeep q (List.mem_cons_of_mem _ hq)
    have hother' : ∀ q, .start q ∈ acts → keep q = false → (body q).CallsOn (fun _ _ => True) (Silent exec E) :=
      fun q hq => hother q (List.mem_cons_of_mem _ hq)
    cases a with
    | start q =>
      cases hv
      obtain ⟨u', hu', hpurged⟩ := ih hkeep' hother' (h.start (hkeep q List.mem_cons_self) (hother q List.mem_cons_self)) hvt
      refine ⟨u', ?_, ?_⟩
      · cases hq : keep q with
        | true =>
          rw [hq] at hu'
          rw [purge, hq]
          exact Runs.run_cons.mpr ⟨_, rfl, hu'⟩
        | false =>
          rw [hq] at hu'
          rw [purge, hq]
          simpa using hu'
      · rw [List.append_assoc] at hpurged
        exact hpurged
    | resume i x =>
      have hlt : i < flags.length := by
        obtain ⟨c, k, hp, -⟩ := resume_eq_some.mp hv
        exact h.length ▸ (List.getElem?_eq_some_iff.mp hp).1
      cases hflag : flags[i] with
      | true =>
        have hi : flags[i]? = some true := List.getElem?_eq_some_iff.mpr ⟨hlt, hflag⟩
        obtain ⟨w, hw, hpurged⟩ := h.resume_kept hi hv
        obtain ⟨u', hu', hpurged'⟩ := ih hkeep' hother' hpurged hvt
        refine ⟨u', ?_, hpurged'⟩
        rw [purge, if_pos hi]
        exact Runs.run_cons.mpr ⟨w, hw, hu'⟩
      | false =>
        have hi : flags[i]? = some false := List.getElem?_eq_some_iff.mpr ⟨hlt, hflag⟩
        obtain ⟨u', hu', hpurged⟩ := ih hkeep' hother' (h.resume_other hi hv) hvt
        refine ⟨u', ?_, hpurged⟩
        rw [purge, if_neg (by simp [hi])]
        exact hu'

end Run

end Pool
