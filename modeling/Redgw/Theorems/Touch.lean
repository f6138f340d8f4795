import Redgw.Theorems.Executions
import Redgw.Theorems.Lifetimes

/-! # Touching a key

`touch_key` sends EXISTS, the command for the lifetime and TTL one after another, and others may send
theirs in between. -/

namespace Redgw
open Redis Prog

/-- What the answer to a touch says of its own commands. A touch that tells of a missing key has changed no
    deadline; one that succeeds has come to a key that was there, and the TTL that it answers is that of the
    deadline that it has given the key. -/
structure TouchHonest (R : Server) (k : String) (ttl : Int) (ns key : String) (steps : List CallStep) (o : Except Exn Json) :
    Prop where
  missing : o = .error (notFound key ns) → ∀ x ∈ steps, ∀ k',
    deadlineOf x.env ((execStore R x.call x.env x.before).2 k') = deadlineOf x.env (x.before k')
  touched : ∀ body, o = .ok body → ∃ x ∈ steps, ∃ y ∈ steps,
    x.call = .redis (.at k (lifetime k ttl).2) ∧ (live x.env (x.before k)).isSome ∧
    y.call = .redis (.at k .ttl) ∧ (live y.env (y.before k)).isSome ∧
    deadlineOf y.env (y.before k) = deadlineOf x.env ((execStore R x.call x.env x.before).2 k) ∧
    (body.field "meta").field "ttl" = .int (remaining y.env (y.before k))

/-- What the three commands come to. If EXISTS and TTL find the key, the command between them finds it as
    well, and the deadline that it gives is still there when TTL is answered; otherwise the command finds
    no key, or one that has this deadline already. -/
def Steady (R : Server) (k : String) (ttl : Int) : List CallStep → Prop
  | [a, b, c] =>
    (∃ msg, (R.onKey (lifetime k ttl).2 b.env (b.before k)).1 = .error msg) ∨
    ((live a.env (a.before k)).isSome ∧ (live c.env (c.before k)).isSome →
        (live b.env (b.before k)).isSome ∧ deadlineOf c.env (c.before k) = deadlineFor b.env ttl) ∧
      (¬((live a.env (a.before k)).isSome ∧ (live c.env (c.before k)).isSome) →
        ∀ x, live b.env (b.before k) = some x → x.deadline = deadlineFor b.env ttl)
  | _ => False

section Touch
variable {R : Server} {k : String} {ttl : Int} {ns key name : String}

/-- The commands of a touch, and how it ends. -/
theorem sees_touchKey (hT : R.Lifetimes) : (touchKey k ttl ns key name).Sees (execStore R) fun steps o =>
    ∃ a b c : CallStep, steps = [a, b, c] ∧ a.call = .redis (.at k .exists) ∧ b.call = .redis (.at k (lifetime k ttl).2) ∧
      c.call = .redis (.at k .ttl) ∧
      ((∃ msg, (R.onKey (lifetime k ttl).2 b.env (b.before k)).1 = .error msg ∧ o = .error (.redis msg)) ∨
        ((∀ msg, (R.onKey (lifetime k ttl).2 b.env (b.before k)).1 ≠ .error msg) ∧
          o = if (live a.env (a.before k)).isSome ∧ (live c.env (c.before k)).isSome then
              .ok (ok (.obj [("touched", .bool true)]) ns key name (.int (remaining c.env (c.before k))))
            else .error (notFound key ns))) := by
  intro t₁ s₁ t₂ s₂ t₃ s₃
  have hexists : (execStore R (.redis (.at k .exists)) t₁ s₁).1 = .ok (.int (if (live t₁ (s₁ k)).isSome then 1 else 0)) := by
    show (R.onKey .exists t₁ (s₁ k)).1 = _
    rw [hT.exists]
  have httl : (execStore R (.redis (.at k .ttl)) t₃ s₃).1 = .ok (.int (remaining t₃ (s₃ k))) := by
    show (R.onKey .ttl t₃ (s₃ k)).1 = _
    rw [hT.ttl]
  rw [hexists, httl]
  show ((Prog.ofExcept (raiseFirstError [.ok _, (R.onKey (lifetime k ttl).2 t₂ (s₂ k)).1, .ok _])).bind _ : Handler Json).Sees _ _
  cases hb : (R.onKey (lifetime k ttl).2 t₂ (s₂ k)).1 with
  | error msg => exact ⟨_, _, _, rfl, rfl, rfl, rfl, Or.inl ⟨msg, hb, rfl⟩⟩
  | ok v =>
    have hmissing : (Json.int (remaining t₃ (s₃ k))).isInt (-2) = (live t₃ (s₃ k)).isNone := by
      cases hl : live t₃ (s₃ k) with
      | none =>
        rw [remaining_missing.mpr hl]
        rfl
      | some x =>
        have hne : remaining t₃ (s₃ k) ≠ -2 := fun h => by
          rw [remaining_missing.mp h] at hl
          cases hl
        simpa [Json.isInt] using hne
    have hthere : (Json.int (if (live t₁ (s₁ k)).isSome then 1 else 0)).truthy = (live t₁ (s₁ k)).isSome := by
      cases (live t₁ (s₁ k)).isSome <;> rfl
    show (if !(Json.int (if (live t₁ (s₁ k)).isSome then 1 else 0)).truthy || (Json.int (remaining t₃ (s₃ k))).isInt (-2) then
        Prog.raise (notFound key ns)
      else Prog.pure (ok (.obj [("touched", .bool true)]) ns key name (.int (remaining t₃ (s₃ k)))) : Handler Json).Sees _ _
    rw [hthere, hmissing]
    have hok : ∀ msg, (R.onKey (lifetime k ttl).2 t₂ (s₂ k)).1 ≠ .error msg := by
      intro msg h
      rw [hb] at h
      cases h
    cases ha : (live t₁ (s₁ k)).isSome with
    | false =>
      refine ⟨_, _, _, rfl, rfl, rfl, rfl, Or.inr ⟨hok, ?_⟩⟩
      rw [if_neg]
      intro h
      rw [ha] at h
      exact absurd h.1 (by decide)
    | true =>
      cases hc : live t₃ (s₃ k) with
      | none =>
        refine ⟨_, _, _, rfl, rfl, rfl, rfl, Or.inr ⟨hok, ?_⟩⟩
        rw [if_neg]
        intro h
        rw [hc] at h
        exact absurd h.2 (by decide)
      | some x =>
        refine ⟨_, _, _, rfl, rfl, rfl, rfl, Or.inr ⟨hok, ?_⟩⟩
        rw [if_pos ⟨ha, by rw [hc]; rfl⟩]

theorem deadlines_kept {x : CallStep} {c : KeyCmd} (hx : x.call = .redis (.at k c)) :
    (∀ k', deadlineOf x.env ((execStore R x.call x.env x.before).2 k') = deadlineOf x.env (x.before k')) ↔
      deadlineOf x.env (R.onKey c x.env (x.before k)).2 = deadlineOf x.env (x.before k) := by
  obtain ⟨call, now, s⟩ := x
  cases hx
  have hself : (execStore R (.redis (.at k c)) now s).2 k = (R.onKey c now (s k)).2 := Server.atKey_self ..
  constructor
  · intro h
    rw [← hself]
    exact h k
  · intro h k'
    by_cases hk : k' = k
    · rw [hk, hself]
      exact h
    · have hne : (execStore R (.redis (.at k c)) now s).2 k' = s k' := Server.atKey_ne hk
      rw [hne]

theorem onOne_inj {c c' : KeyCmd} (h : Call.redis (.at k c) = .redis (.at k c')) : c = c' :=
  (Cmd.at.inj (Call.redis.inj h)).2

theorem lifetime_ne (k : String) (ttl : Int) : (lifetime k ttl).2 ≠ .exists ∧ (lifetime k ttl).2 ≠ .ttl := by
  unfold lifetime
  dsimp only
  split
  · exact ⟨by simp, by simp⟩
  · exact ⟨by simp, by simp⟩

/-- A touch is true to its answer if and only if its commands come to a steady key. -/
theorem touch_honest_iff (hT : R.Lifetimes) {steps : List CallStep} {o : Except Exn Json}
    (h : Path (execStore R) (touchKey k ttl ns key name) steps (Prog.ofExcept o)) :
    TouchHonest R k ttl ns key steps o ↔ Steady R k ttl steps := by
  have hsees := sees_ofExcept (h.sees (sees_touchKey hT))
  rw [List.append_nil] at hsees
  obtain ⟨a, b, c, rfl, ha, hb, hc, ho⟩ := hsees
  obtain ⟨hexists, httl⟩ := lifetime_ne k ttl
  rcases ho with ⟨msg, hmsg, rfl⟩ | ⟨hok, rfl⟩
  · exact ⟨fun _ => Or.inl ⟨msg, hmsg⟩, fun _ => ⟨fun h => (by cases h), fun _ h => by cases h⟩⟩
  have hafter : ∀ x, live b.env (b.before k) = some x →
      deadlineOf b.env (R.onKey (lifetime k ttl).2 b.env (b.before k)).2 = deadlineFor b.env ttl := by
    intro x hx
    rcases onKey_lifetime hT k ttl b.env (b.before k) with ⟨msg, hmsg⟩ | ⟨hnone, -⟩ | ⟨y, r, -, hset⟩
    · exact absurd (congrArg Prod.fst hmsg) (hok msg)
    · rw [hx] at hnone
      cases hnone
    · rw [hset, deadlineOf, live_deadlineFor]
      rfl
  have hself : (execStore R b.call b.env b.before).2 k = (R.onKey (lifetime k ttl).2 b.env (b.before k)).2 := by
    rw [hb]
    exact Server.atKey_self ..
  by_cases hboth : (live a.env (a.before k)).isSome ∧ (live c.env (c.before k)).isSome
  · rw [if_pos hboth]
    constructor
    · intro htrue
      refine Or.inr ⟨fun _ => ?_, fun h => absurd hboth h⟩
      obtain ⟨x, hx, y, hy, hxc, hxl, hyc, -, hdl, -⟩ := htrue.touched _ rfl
      have hxb : x = b := by
        simp only [List.mem_cons, List.not_mem_nil, or_false] at hx
        rcases hx with rfl | rfl | rfl
        · exact absurd (onOne_inj (ha.symm.trans hxc)).symm hexists
        · rfl
        · exact absurd (onOne_inj (hc.symm.trans hxc)).symm httl
      have hyc' : y = c := by
        simp only [List.mem_cons, List.not_mem_nil, or_false] at hy
        rcases hy with rfl | rfl | rfl
        · cases onOne_inj (ha.symm.trans hyc)
        · exact absurd (onOne_inj (hb.symm.trans hyc)) httl
        · rfl
      subst hxb hyc'
      refine ⟨hxl, ?_⟩
      obtain ⟨z, hz⟩ := Option.isSome_iff_exists.mp hxl
      rw [hdl, hself, hafter z hz]
    · intro hsteady
      refine ⟨fun h => (by cases h), fun body hbody => ?_⟩
      cases hbody
      rcases hsteady with ⟨msg, hmsg⟩ | hsteady
      · exact absurd hmsg (hok msg)
      obtain ⟨hlive, hdl⟩ := hsteady.1 hboth
      obtain ⟨z, hz⟩ := Option.isSome_iff_exists.mp hlive
      refine ⟨b, by simp, c, by simp, hb, hlive, hc, hboth.2, ?_, rfl⟩
      rw [hdl, hself, hafter z hz]
  · rw [if_neg hboth]
    have hread : ∀ x ∈ [a, c], ∀ k', deadlineOf x.env ((execStore R x.call x.env x.before).2 k') = deadlineOf x.env (x.before k') := by
      intro x hx
      rcases List.mem_pair.mp hx with rfl | rfl
      · rw [deadlines_kept ha, hT.exists]
      · rw [deadlines_kept hc, hT.ttl]
    constructor
    · intro htrue
      refine Or.inr ⟨fun h => absurd h hboth, fun _ x hx => ?_⟩
      have hkept := (deadlines_kept hb).mp (htrue.missing rfl b (by simp))
      rw [hafter x hx, deadlineOf, hx] at hkept
      exact hkept.symm
    · intro hsteady
      refine ⟨fun _ x hx => ?_, fun body hbody => by cases hbody⟩
      rcases hsteady with ⟨msg, hmsg⟩ | hsteady
      · exact absurd hmsg (hok msg)
      have hfound := hsteady.2 hboth
      simp only [List.mem_cons, List.not_mem_nil, or_false] at hx
      rcases hx with rfl | rfl | rfl
      · exact hread x (by simp)
      · rw [deadlines_kept hb]
        cases hl : live x.env (x.before k) with
        | none =>
          rcases onKey_lifetime hT k ttl x.env (x.before k) with ⟨msg, hmsg⟩ | ⟨-, r, hset⟩ | ⟨y, r, hy, -⟩
          · rw [hmsg]
          · rw [hset]
          · rw [hl] at hy
            cases hy
        | some y =>
          rw [hafter y hl, deadlineOf, hl]
          exact (hfound y hl).symm
      · exact hread x (by simp)

theorem steady_alone (hT : R.Lifetimes) (now : Nat) (s : Store) :
    Steady R k ttl [⟨.redis (.at k .exists), now, s⟩, ⟨.redis (.at k (lifetime k ttl).2), now, s⟩,
      ⟨.redis (.at k .ttl), now, (R.atKey k (lifetime k ttl).2 now s).2⟩] := by
  have hself : (R.atKey k (lifetime k ttl).2 now s).2 k = (R.onKey (lifetime k ttl).2 now (s k)).2 := Server.atKey_self ..
  rcases onKey_lifetime hT k ttl now (s k) with ⟨msg, hmsg⟩ | ⟨hnone, b, -⟩ | ⟨x, b, hx, hset⟩
  · exact Or.inl ⟨msg, by rw [hmsg]⟩
  · refine Or.inr ⟨fun h => ?_, fun _ x hx => ?_⟩
    · rw [hnone] at h
      cases h.1
    · rw [hnone] at hx
      cases hx
  · have hlive := live_deadlineFor now ttl x.value
    refine Or.inr ⟨fun _ => ⟨?_, ?_⟩, fun h => absurd ⟨?_, ?_⟩ h⟩
    · rw [hx]
      rfl
    · show deadlineOf now ((R.atKey k (lifetime k ttl).2 now s).2 k) = _
      rw [hself, hset, deadlineOf, hlive]
      rfl
    · rw [hx]
      rfl
    · show (live now ((R.atKey k (lifetime k ttl).2 now s).2 k)).isSome = true
      rw [hself, hset, hlive]
      rfl

end Touch

def keySet : Store := Store.empty.set "app:kv:a" (some ⟨.str "v", none⟩)

/-- EXISTS comes before another client sets the key, the command for the lifetime after that. -/
def createdBetween : List CallStep :=
  [⟨.redis (.at "app:kv:a" .exists), 0, Store.empty⟩, ⟨.redis (.at "app:kv:a" (.expire 60)), 0, keySet⟩,
    ⟨.redis (.at "app:kv:a" .ttl), 0, (reference.atKey "app:kv:a" (.expire 60) 0 keySet).2⟩]

theorem createdBetween_path : Path (execStore reference) (touchKey "app:kv:a" 60 "app" "a" "string") createdBetween
    (Prog.ofExcept (.error (notFound "a" "app"))) := .call (.call (.call (.stop _)))

theorem touch_honest_iff_created : TouchHonest reference "app:kv:a" 60 "app" "a" createdBetween (.error (notFound "a" "app")) ↔
    Steady reference "app:kv:a" 60 createdBetween := touch_honest_iff reference_lifetimes createdBetween_path

/-- The touch of a key that another client sets in the meantime answers that there is no such key, and has
    limited its life. -/
theorem touch_changes_missing_key : ∃ steps, Path (execStore reference) (touchKey "app:kv:a" 60 "app" "a" "string") steps
    (Prog.ofExcept (.error (notFound "a" "app"))) ∧
    ¬TouchHonest reference "app:kv:a" 60 "app" "a" steps (.error (notFound "a" "app")) := by
  refine ⟨createdBetween, createdBetween_path, fun htrue => ?_⟩
  have hkept := htrue.missing rfl ⟨.redis (.at "app:kv:a" (.expire 60)), 0, keySet⟩ (by simp [createdBetween]) "app:kv:a"
  exact absurd hkept (by decide)

end Redgw
