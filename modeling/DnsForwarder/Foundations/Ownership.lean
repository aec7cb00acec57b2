import Mathlib.Logic.Function.Basic

/-!
# Exclusive ownership

Resources such as file descriptors are handed from one owner to the next: an owner acquires a
resource that nobody has, passes it on, or releases it. An owner has at most one resource, and
`Exclusive` says that a resource is live as long as it has an owner, and that it has only one. The
three things an owner can do keep it so.
-/

namespace DnsForwarder.Ownership

variable {O R : Type*}

/-- What is live has exactly one owner, and what is not live has none. -/
structure Exclusive (owns : O → Option R) (live : R → Bool) : Prop where
  live_iff : ∀ r, live r = true ↔ ∃ o, owns o = some r
  unique : ∀ {r o p}, owns o = some r → owns p = some r → o = p

namespace Exclusive

variable {owns : O → Option R} {live : R → Bool} {o p : O} {r : R}

theorem live_of_owns (h : Exclusive owns live) (ho : owns o = some r) : live r = true :=
  (h.live_iff r).2 ⟨o, ho⟩

theorem existsUnique (h : Exclusive owns live) (hr : live r = true) : ∃! o, owns o = some r := by
  obtain ⟨o, ho⟩ := (h.live_iff r).1 hr
  exact ⟨o, ho, fun _ hp => h.unique hp ho⟩

theorem not_owns (h : Exclusive owns live) (hr : live r = false) (o : O) : owns o ≠ some r := by
  intro ho
  cases hr.symm.trans (h.live_of_owns ho)

/-- What has another owner is something else. -/
theorem ne (h : Exclusive owns live) (hne : o ≠ p) {r' : R} (ho : owns o = some r)
    (hp : owns p = some r') : r ≠ r' := by
  rintro rfl
  exact hne (h.unique ho hp)

variable [DecidableEq O] [DecidableEq R]

/-- An owner that has nothing acquires a resource that nobody has. -/
theorem acquire (h : Exclusive owns live) (ho : owns o = none) (hr : live r = false) :
    Exclusive (Function.update owns o (some r)) (Function.update live r true) where
  live_iff r' := by
    by_cases hr' : r' = r
    · subst hr'
      simp only [Function.update_self, true_iff]
      exact ⟨o, Function.update_self ..⟩
    · rw [Function.update_of_ne hr', h.live_iff]
      refine exists_congr fun u => ?_
      by_cases hu : u = o
      · subst hu
        simp [ho, Ne.symm hr']
      · rw [Function.update_of_ne hu]
  unique {r' u v} hu hv := by
    have hnew : ∀ w, w ≠ o → Function.update owns o (some r) w ≠ some r := fun w hw heq =>
      h.not_owns hr w (by rwa [Function.update_of_ne hw] at heq)
    by_cases huo : u = o <;> by_cases hvo : v = o
    · rw [huo, hvo]
    · subst huo
      rw [Function.update_self] at hu
      exact absurd (hv.trans hu.symm) (hnew v hvo)
    · subst hvo
      rw [Function.update_self] at hv
      exact absurd (hu.trans hv.symm) (hnew u huo)
    · rw [Function.update_of_ne huo] at hu
      rw [Function.update_of_ne hvo] at hv
      exact h.unique hu hv

/-- An owner releases what it has. -/
theorem release (h : Exclusive owns live) (ho : owns o = some r) :
    Exclusive (Function.update owns o none) (Function.update live r false) where
  live_iff r' := by
    by_cases hr' : r' = r
    · subst hr'
      simp only [Function.update_self, Bool.false_eq_true, false_iff, not_exists]
      intro u hu
      by_cases huo : u = o
      · subst huo
        cases (Function.update_self ..).symm.trans hu
      · rw [Function.update_of_ne huo] at hu
        exact huo (h.unique hu ho)
    · rw [Function.update_of_ne hr', h.live_iff]
      refine exists_congr fun u => ?_
      by_cases hu : u = o
      · subst hu
        simp [ho, Ne.symm hr']
      · rw [Function.update_of_ne hu]
  unique {r' u v} hu hv := by
    have hold : ∀ {w}, Function.update owns o none w = some r' → owns w = some r' := by
      intro w hw
      by_cases hwo : w = o
      · subst hwo
        cases (Function.update_self ..).symm.trans hw
      · rwa [Function.update_of_ne hwo] at hw
    exact h.unique (hold hu) (hold hv)

/-- An owner passes what it has on to one that has nothing. -/
theorem transfer (h : Exclusive owns live) (ho : owns o = some r) (hp : owns p = none) :
    Exclusive (Function.update (Function.update owns o none) p (some r)) live := by
  have hne : p ≠ o := by
    rintro rfl
    cases ho.symm.trans hp
  have hnone : Function.update owns o none p = none := by rw [Function.update_of_ne hne, hp]
  have hmoved := (h.release ho).acquire hnone (Function.update_self ..)
  have hlive : Function.update (Function.update live r false) r true = live := by
    rw [Function.update_idem, ← h.live_of_owns ho, Function.update_eq_self]
  rwa [hlive] at hmoved

end Exclusive

end DnsForwarder.Ownership
