import Mathlib.Data.Nat.Notation

/-!
# Loops that count their iterations

A loop is given by its body, which from a state either goes on to another state or leaves the loop
with a result. `Runs body s n r` says that the loop, started in `s`, leaves with `r` in its `n`-th
iteration. A loop ends if its body lowers a measure whenever it goes on, and the measure bounds the
number of its iterations (`exists_runs`). A budget of iterations that is no smaller changes nothing
(`Runs.budgeted_eq`).
-/

namespace DnsForwarder.Loop

variable {σ ρ : Type*}

/-- What an iteration does. -/
inductive Iteration (σ ρ : Type*)
  /-- It goes on from `s`. -/
  | again (s : σ)
  /-- It leaves the loop. -/
  | leave (r : ρ)

/-- The loop leaves with `r` in its `n`-th iteration. -/
inductive Runs (body : σ → Iteration σ ρ) : σ → ℕ → ρ → Prop
  | leave {s r} (h : body s = .leave r) : Runs body s 1 r
  | again {s t n r} (h : body s = .again t) (hrest : Runs body t n r) : Runs body s (n + 1) r

/-- The loop with a budget of iterations, and what it yields when that is used up. -/
def budgeted (body : σ → Iteration σ ρ) (out : ρ) : ℕ → σ → ρ
  | 0, _ => out
  | fuel + 1, s =>
    match body s with
    | .again t => budgeted body out fuel t
    | .leave r => r

variable {body : σ → Iteration σ ρ} {s : σ} {n : ℕ} {r : ρ}

/-- **A loop ends if a measure goes down** with every iteration after which it goes on. -/
theorem exists_runs (measure : σ → ℕ) (h : ∀ s t, body s = .again t → measure t < measure s)
    (s : σ) : ∃ n r, n ≤ measure s + 1 ∧ Runs body s n r := by
  induction hm : measure s using Nat.strongRecOn generalizing s with
  | ind m ih =>
    cases hs : body s with
    | leave r => exact ⟨1, r, Nat.le_add_left 1 m, .leave hs⟩
    | again t =>
      have hlt := hm ▸ h s t hs
      obtain ⟨n, r, hn, hrun⟩ := ih (measure t) hlt t rfl
      exact ⟨n + 1, r, Nat.succ_le_succ (Nat.le_trans hn hlt), .again hs hrun⟩

/-- A budget that is large enough does not matter. -/
theorem Runs.budgeted_eq (h : Runs body s n r) {out : ρ} {fuel : ℕ} (hfuel : n ≤ fuel) :
    budgeted body out fuel s = r := by
  induction h generalizing fuel with
  | leave hs =>
    obtain ⟨fuel, rfl⟩ := Nat.exists_eq_add_of_le' hfuel
    rw [budgeted, hs]
  | again hs _ ih =>
    cases fuel with
    | zero => cases hfuel
    | succ fuel =>
      rw [budgeted, hs]
      exact ih (Nat.le_of_succ_le_succ hfuel)

end DnsForwarder.Loop
