import Mathlib.Logic.Relation

/-!
# Refinement

A system with steps `T` refines one with steps `B` from related starting states if every step of
the first leads from a reached state that is related to a reached one of the second to such a state
again, the second taking any number of steps meanwhile. Then every state that the first reaches is
related to one that the second reaches (`Simulates.run`).
-/

namespace DnsForwarder.Refinement

open Relation

variable {γ α : Type*}

/-- Steps of `T` from `x` are matched by steps of `B` from `a` up to `R`. -/
structure Simulates (T : γ → γ → Prop) (B : α → α → Prop) (R : γ → α → Prop) (x : γ) (a : α) :
    Prop where
  start : R x a
  step : ∀ {y z b}, ReflTransGen T x y → ReflTransGen B a b → R y b → T y z →
    ∃ b', ReflTransGen B b b' ∧ R z b'

namespace Simulates

variable {T : γ → γ → Prop} {B : α → α → Prop} {R : γ → α → Prop} {x y : γ} {a : α}

/-- **Every run is matched.** -/
theorem run (h : Simulates T B R x a) (hy : ReflTransGen T x y) :
    ∃ b, ReflTransGen B a b ∧ R y b := by
  induction hy with
  | refl => exact ⟨a, .refl, h.start⟩
  | tail hy hz ih =>
    obtain ⟨b, hb, hR⟩ := ih
    obtain ⟨b', hb', hR'⟩ := h.step hy hb hR hz
    exact ⟨b', hb.trans hb', hR'⟩

end Simulates

end DnsForwarder.Refinement
