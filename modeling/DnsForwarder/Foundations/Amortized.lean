import Mathlib.Algebra.GroupWithZero.Nat
import DnsForwarder.Foundations.Interleaving

/-!
# The length of a run

The moves of the processes in a run are listed by `Runs`. If every step lowers a potential by one,
up to a credit that depends on the move only, then the length of any run, in whatever order the
processes take their steps, is bounded by the potential at its start and the credits of its moves
(`Runs.length_le`). So processes that move for ever earn credits for ever.
-/

namespace DnsForwarder.Interleaving

variable {W σ π : Type*} [DecidableEq W]

/-- Steps lead from one configuration to the other; the list has the local states before and after
each of them. -/
inductive Runs (A : Action σ π) : Config W σ π → List (π × π) → Config W σ π → Prop
  | refl {c} : Runs A c [] c
  | step {c d moves} (w : W) {l : π} {s : σ} (h : Runs A c moves d)
    (hA : A (d.procs w) d.shared l s) :
    Runs A c (moves ++ [(d.procs w, l)]) ⟨s, Function.update d.procs w l⟩

variable {A : Action σ π} {c c' : Config W σ π} {moves : List (π × π)}

namespace Runs

theorem reaches (h : Runs A c moves c') : Reaches A Free c c' := by
  induction h with
  | refl => exact .refl
  | step w _ hA ih => exact ih.step trivial hA

/-- Every run has a list of its moves. -/
theorem of_reaches {C : W → Config W σ π → Prop} (h : Reaches A C c c') :
    ∃ moves, Runs A c moves c' := by
  induction h with
  | refl => exact ⟨[], .refl⟩
  | tail _ hs ih =>
    obtain ⟨moves, hr⟩ := ih
    obtain ⟨w, -, ⟨hA⟩⟩ := hs
    exact ⟨_, hr.step w hA⟩

section Potential

variable [Fintype W] {f : π → ℕ} {g : σ → ℕ} {credit : π × π → ℕ}

/-- **What a run takes and what it leaves is paid** by what there was and what it has earned, if so
it is for every step. -/
theorem amortized (h : Runs A c moves c')
    (hstep : ∀ l s l' s', A l s l' s' → f l' + g s' + 1 ≤ f l + g s + credit (l, l')) :
    moves.length + total f g c' ≤ total f g c + (moves.map credit).sum := by
  induction h with
  | refl => simp
  | @step d moves w l s _ hA ih =>
    have hs := hstep _ _ _ _ hA
    rw [total_eq_add_rest f g d w] at ih
    rw [total_update, List.length_append, List.map_append, List.sum_append, List.length_singleton,
      List.map_singleton, List.sum_singleton]
    omega

theorem length_le (h : Runs A c moves c')
    (hstep : ∀ l s l' s', A l s l' s' → f l' + g s' + 1 ≤ f l + g s + credit (l, l')) :
    moves.length ≤ total f g c + (moves.map credit).sum :=
  (Nat.le_add_right _ _).trans (h.amortized hstep)

end Potential

end Runs

/-! ## Credits by kinds of moves -/

/-- A credit of `k` for every move of one kind comes to `k` times their number. -/
theorem sum_credit {α : Type*} (kind : α → Bool) (k : ℕ) (moves : List α) :
    (moves.map fun x => k * (kind x).toNat).sum = k * moves.countP kind := by
  induction moves with
  | nil => rfl
  | cons x moves ih =>
    rw [List.map_cons, List.sum_cons, ih, List.countP_cons]
    cases kind x <;> simp [Nat.mul_add, Nat.add_comm]

end DnsForwarder.Interleaving
