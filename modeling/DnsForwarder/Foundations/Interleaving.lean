import Mathlib.Logic.Relation
import Mathlib.Logic.Function.Basic
import Mathlib.Algebra.BigOperators.Group.Finset.Basic
import Mathlib.Algebra.Order.BigOperators.Group.Finset
import Mathlib.Data.Fintype.Basic

/-!
# Processes interleaved over a shared state

Any number of processes run the same code over one shared state. A step is taken by one process:
it reads its own local state and the shared state and writes both; the local states of the other
processes stay. `Reaches A C c c'` says that such steps lead from `c` to `c'`, the condition `C`
holding of every process and configuration that a step is taken from.

Three rules bring a proof about a run down to one step of one process:

* `Reaches.shared_invariant`: a fact about the shared state that every step keeps;
* `Reaches.local_invariant`: a fact about the local state of each process and the shared state,
  kept by the process that moves and stable under the moves of the others;
* `Reaches.total_eq`, `Reaches.total_le`: a quantity summed over all processes and the shared
  state, which every step moves between the two.

`Reaches.origin` finds the step with which something has begun to hold of a process.
`Reaches.solo` extends a run by steps of one process alone. `Reaches.map` carries a run along an
abstraction of both kinds of state, each step of which is matched by a step or by none.
-/

namespace DnsForwarder.Interleaving

variable {W σ π σ' π' : Type*}

/-- A configuration: the shared state and the local state of every process. -/
structure Config (W σ π : Type*) where
  shared : σ
  procs : W → π

/-- The atomic steps of a process, from a local and a shared state to a local and a shared
state. -/
abbrev Action (σ π : Type*) := π → σ → π → σ → Prop

variable [DecidableEq W]

/-- A step of process `w`. -/
inductive StepBy (A : Action σ π) (w : W) : Config W σ π → Config W σ π → Prop
  | mk {c : Config W σ π} {l : π} {s : σ} (h : A (c.procs w) c.shared l s) :
    StepBy A w c ⟨s, Function.update c.procs w l⟩

/-- A step of some process, taken where the condition `C` holds. -/
def Step (A : Action σ π) (C : W → Config W σ π → Prop) (c c' : Config W σ π) : Prop :=
  ∃ w, C w c ∧ StepBy A w c c'

/-- Steps lead from one configuration to the other, `C` holding wherever one is taken. -/
abbrev Reaches (A : Action σ π) (C : W → Config W σ π → Prop) :
    Config W σ π → Config W σ π → Prop :=
  Relation.ReflTransGen (Step A C)

/-- The condition that allows every step. -/
abbrev Free : W → Config W σ π → Prop := fun _ _ => True

variable {A : Action σ π} {C : W → Config W σ π → Prop} {c c' : Config W σ π}

namespace Reaches

/-- A step of process `w` after a run. -/
theorem step {w : W} {l : π} {s : σ} (h : Reaches A C c c') (hc : C w c')
    (ha : A (c'.procs w) c'.shared l s) : Reaches A C c ⟨s, Function.update c'.procs w l⟩ :=
  h.tail ⟨w, hc, .mk ha⟩

end Reaches

/-! ## A process on its own -/

/-- The steps of one process while the others stand still. -/
abbrev Solo (A : Action σ π) : π × σ → π × σ → Prop :=
  Relation.ReflTransGen fun x y => A x.1 x.2 y.1 y.2

theorem Solo.step {x : π × σ} {l l' : π} {s s' : σ} (h : Solo A x (l, s)) (ha : A l s l' s') :
    Solo A x (l', s') :=
  Relation.ReflTransGen.tail h ha

namespace Reaches

/-- After a run, process `w` goes on alone by steps of `B`, which the condition allows. -/
theorem solo_of {B : Action σ π} {w : W} {l l' : π} {s' : σ} (h : Reaches A C c c')
    (hw : c'.procs w = l) (hs : Solo B (l, c'.shared) (l', s'))
    (hB : ∀ d m t, B (d.procs w) d.shared m t → C w d ∧ A (d.procs w) d.shared m t) :
    Reaches A C c ⟨s', Function.update c'.procs w l'⟩ := by
  generalize hy : (l', s') = y at hs
  induction hs generalizing l' s' with
  | refl =>
    cases hy
    rw [← hw, Function.update_eq_self]
    exact h
  | @tail y z _ ha ih =>
    cases hy
    have hstep := hB ⟨y.2, Function.update c'.procs w y.1⟩ l' s' (by simpa using ha)
    simpa using (ih rfl).step hstep.1 hstep.2

/-- After a run, process `w` goes on alone, if the condition holds of it whatever it does. -/
theorem solo_allowed {w : W} {l l' : π} {s' : σ} (h : Reaches A C c c') (hw : c'.procs w = l)
    (hC : ∀ m t, C w ⟨t, Function.update c'.procs w m⟩)
    (hs : Solo A (l, c'.shared) (l', s')) :
    Reaches A C c ⟨s', Function.update c'.procs w l'⟩ := by
  generalize hy : (l', s') = y at hs
  induction hs generalizing l' s' with
  | refl =>
    cases hy
    rw [← hw, Function.update_eq_self]
    exact h
  | @tail y z _ ha ih =>
    cases hy
    simpa using (ih rfl).step (w := w) (hC y.1 y.2) (by simpa using ha)

/-- After a run, process `w` goes on alone. -/
theorem solo {w : W} {l l' : π} {s' : σ} (h : Reaches A Free c c') (hw : c'.procs w = l)
    (hs : Solo A (l, c'.shared) (l', s')) :
    Reaches A Free c ⟨s', Function.update c'.procs w l'⟩ :=
  h.solo_of hw hs fun _ _ _ ha => ⟨trivial, ha⟩

/-- After a run, process `w` goes on alone and comes back to where it was. -/
theorem solo_return {w : W} {l : π} {s' : σ} (h : Reaches A Free c c') (hw : c'.procs w = l)
    (hs : Solo A (l, c'.shared) (l, s')) : Reaches A Free c ⟨s', c'.procs⟩ := by
  have hsolo := h.solo hw hs
  rwa [← hw, Function.update_eq_self] at hsolo

/-- While only process `w` moves, the others stay where they are. -/
theorem procs_of_ne {v w : W} (h : Reaches A (fun u _ => u = w) c c') (hv : v ≠ w) :
    c'.procs v = c.procs v := by
  induction h with
  | refl => rfl
  | tail _ hs ih =>
    obtain ⟨u, rfl, ⟨_⟩⟩ := hs
    simpa [hv] using ih

/-! ## Invariants -/

/-- The rule of invariants, for a predicate on whole configurations. -/
theorem invariant {I : Config W σ π → Prop} (h : Reaches A C c c') (h0 : I c)
    (hstep : ∀ d w l s, Reaches A C c d → I d → C w d → A (d.procs w) d.shared l s →
      I ⟨s, Function.update d.procs w l⟩) : I c' := by
  induction h with
  | refl => exact h0
  | tail hr hs ih =>
    obtain ⟨w, hC, ⟨hA⟩⟩ := hs
    exact hstep _ w _ _ hr ih hC hA

/-- Another condition holds wherever a step is taken if it follows from what is known there. -/
theorem imp {D : W → Config W σ π → Prop} (h : Reaches A C c c')
    (hD : ∀ d w, Reaches A C c d → C w d → D w d) : Reaches A D c c' :=
  h.invariant (I := Reaches A D c) .refl fun d w _ _ hr hd hC hA => hd.step (hD d w hr hC) hA

/-- **A fact about the shared state holds throughout a run** if every step of a process keeps
it. -/
theorem shared_invariant {G : σ → Prop} (h : Reaches A C c c') (h0 : G c.shared)
    (hstep : ∀ d w l s, Reaches A C c d → G d.shared → C w d → A (d.procs w) d.shared l s → G s) :
    G c'.shared :=
  h.invariant (I := fun d => G d.shared) h0 hstep

/-- **A fact about each process and the shared state holds throughout a run** if the process
that moves establishes it for itself (`hown`) and keeps it for the others (`hstable`). -/
theorem local_invariant {L : π → σ → Prop} (h : Reaches A C c c')
    (h0 : ∀ v, L (c.procs v) c.shared)
    (hown : ∀ d w l s, Reaches A C c d → (∀ v, L (d.procs v) d.shared) → C w d →
      A (d.procs w) d.shared l s → L l s)
    (hstable : ∀ d w l s v, v ≠ w → Reaches A C c d → (∀ v, L (d.procs v) d.shared) → C w d →
      A (d.procs w) d.shared l s → L (d.procs v) s) :
    ∀ v, L (c'.procs v) c'.shared := by
  refine h.invariant (I := fun d => ∀ v, L (d.procs v) d.shared) h0 ?_
  intro d w l s hr hd hC hA v
  by_cases hv : v = w
  · subst hv
    simpa using hown d v l s hr hd hC hA
  · simpa [hv] using hstable d w l s v hv hr hd hC hA

/-- **An invariant of the shared state and a stable one of each process**: a fact about the shared
state together with a fact about each process and the shared state, both kept by the process that
moves, the second one stable under the moves of the others. -/
theorem invariant_of_stable {G : σ → Prop} {L : π → σ → Prop} (h : Reaches A C c c')
    (hG : G c.shared) (hL : ∀ v, L (c.procs v) c.shared)
    (hown : ∀ l s l' s', G s → L l s → A l s l' s' → G s' ∧ L l' s')
    (hstable : ∀ l s l' s' m, G s → L l s → A l s l' s' → L m s → L m s') :
    G c'.shared ∧ ∀ v, L (c'.procs v) c'.shared := by
  refine h.invariant (I := fun d => G d.shared ∧ ∀ v, L (d.procs v) d.shared) ⟨hG, hL⟩ ?_
  intro d w l s _ ⟨hGd, hLd⟩ _ hA
  refine ⟨(hown _ _ _ _ hGd (hLd w) hA).1, fun v => ?_⟩
  by_cases hv : v = w
  · subst hv
    simpa using (hown _ _ _ _ hGd (hLd v) hA).2
  · simpa [hv] using hstable _ _ _ _ _ hGd (hLd w) hA (hLd v)

/-- **What holds of a process has begun with a step of it**: if it does not hold at first, there is
a step of the process that has established it, and it has held ever since. -/
theorem origin {w : W} {Q : π → Prop} (h : Reaches A C c c') (h0 : ¬ Q (c.procs w))
    (hQ : Q (c'.procs w)) :
    ∃ d l s, Reaches A C c d ∧ C w d ∧ ¬ Q (d.procs w) ∧ A (d.procs w) d.shared l s ∧ Q l ∧
      Reaches A (fun v e => C v e ∧ Q (e.procs w)) ⟨s, Function.update d.procs w l⟩ c' := by
  induction h with
  | refl => exact absurd hQ h0
  | @tail d _ hr hs ih =>
    obtain ⟨v, hC, hA⟩ := hs
    by_cases hd : Q (d.procs w)
    · -- the step that has established it is an earlier one
      obtain ⟨e, l, s, he, hCe, hnot, hAe, hl, hrest⟩ := ih hd
      exact ⟨e, l, s, he, hCe, hnot, hAe, hl, hrest.tail ⟨v, ⟨hC, hd⟩, hA⟩⟩
    · obtain ⟨hA⟩ := hA
      by_cases hv : w = v
      · subst hv
        exact ⟨d, _, _, hr, hC, hd, hA, by simpa using hQ, .refl⟩
      · exact absurd (by simpa [hv] using hQ) hd

end Reaches

/-! ## Quantities shared out between the processes and the shared state -/

section Total

variable [Fintype W] (f : π → ℕ) (g q : σ → ℕ)

/-- What the processes hold together with what the shared state holds. -/
def total (c : Config W σ π) : ℕ := ∑ w, f (c.procs w) + g c.shared

/-- The total, with the part of one process written first. -/
theorem total_eq_add_rest (c : Config W σ π) (w : W) :
    total f g c = f (c.procs w) + g c.shared + ∑ v ∈ Finset.univ.erase w, f (c.procs v) := by
  rw [total, ← Finset.add_sum_erase _ _ (Finset.mem_univ w), add_right_comm]

/-- The total after process `w` has moved. -/
theorem total_update (c : Config W σ π) (w : W) (l : π) (s : σ) :
    total f g ⟨s, Function.update c.procs w l⟩ =
      f l + g s + ∑ v ∈ Finset.univ.erase w, f (c.procs v) := by
  have hrest : ∑ v ∈ Finset.univ.erase w, f (Function.update c.procs w l v) =
      ∑ v ∈ Finset.univ.erase w, f (c.procs v) :=
    Finset.sum_congr rfl fun v hv => by rw [Function.update_of_ne (Finset.ne_of_mem_erase hv)]
  rw [total_eq_add_rest f g _ w]
  simp only [hrest, Function.update_self]

/-- What one process and the shared state hold is at most the total. -/
theorem le_total (c : Config W σ π) (w : W) : f (c.procs w) + g c.shared ≤ total f g c := by
  rw [total_eq_add_rest f g c w]
  exact Nat.le_add_right _ _

/-- What two processes hold is at most the total. -/
theorem add_le_total (c : Config W σ π) {v w : W} (h : v ≠ w) :
    f (c.procs v) + f (c.procs w) ≤ total f g c := by
  rw [total_eq_add_rest f g c w,
    ← Finset.add_sum_erase _ _ (Finset.mem_erase.2 ⟨h, Finset.mem_univ v⟩)]
  omega

variable {f g q}

/-- **A total follows a quantity of the shared state** throughout a run if every step of a
process changes both alike. -/
theorem Reaches.total_eq (h : Reaches A C c c') (h0 : total f g c = q c.shared)
    (hstep : ∀ d w l s, Reaches A C c d → C w d → A (d.procs w) d.shared l s →
      f l + g s + q d.shared = f (d.procs w) + g d.shared + q s) :
    total f g c' = q c'.shared := by
  apply h.invariant (I := fun d => total f g d = q d.shared) h0
  intro d w l s hr hd hC hA
  have hs := hstep d w l s hr hC hA
  rw [total_eq_add_rest f g d w] at hd
  rw [total_update]
  simp only
  omega

/-- **A total stays below a quantity of the shared state** throughout a run if no step of a
process raises it by more. -/
theorem Reaches.total_le (h : Reaches A C c c') (h0 : total f g c ≤ q c.shared)
    (hstep : ∀ d w l s, Reaches A C c d → C w d → A (d.procs w) d.shared l s →
      f l + g s + q d.shared ≤ f (d.procs w) + g d.shared + q s) :
    total f g c' ≤ q c'.shared := by
  refine h.invariant (I := fun d => total f g d ≤ q d.shared) h0 ?_
  intro d w l s hr hd hC hA
  have hs := hstep d w l s hr hC hA
  rw [total_eq_add_rest f g d w] at hd
  rw [total_update]
  simp only
  omega

end Total

/-! ## Abstraction -/

/-- The configuration seen through an abstraction of the local and of the shared states. -/
def Config.map (α : π → π') (β : σ → σ') (c : Config W σ π) : Config W σ' π' :=
  ⟨β c.shared, fun w => α (c.procs w)⟩

omit [DecidableEq W] in
@[simp] theorem Config.map_shared (α : π → π') (β : σ → σ') (c : Config W σ π) :
    (c.map α β).shared = β c.shared := rfl

omit [DecidableEq W] in
@[simp] theorem Config.map_procs (α : π → π') (β : σ → σ') (c : Config W σ π) (w : W) :
    (c.map α β).procs w = α (c.procs w) := rfl

theorem Config.map_update (α : π → π') (β : σ → σ') (c : Config W σ π) (w : W) (l : π) (s : σ) :
    Config.map α β ⟨s, Function.update c.procs w l⟩ =
      ⟨β s, Function.update (c.map α β).procs w (α l)⟩ := by
  simp only [Config.map, Config.mk.injEq, true_and]
  funext v
  by_cases hv : v = w
  · subst hv; simp
  · simp [hv]

/-- **Runs are carried along an abstraction** under which every step of a process is a step of
its abstraction, or is not seen at all. -/
theorem Reaches.map {B : Action σ' π'} (α : π → π') (β : σ → σ') (h : Reaches A C c c')
    (hsim : ∀ d w l s, Reaches A C c d → C w d → A (d.procs w) d.shared l s →
      B (α (d.procs w)) (β d.shared) (α l) (β s) ∨ α l = α (d.procs w) ∧ β s = β d.shared) :
    Reaches B Free (c.map α β) (c'.map α β) := by
  apply h.invariant (I := fun d => Reaches B Free (c.map α β) (d.map α β)) .refl
  intro d w l s hr hd hC hA
  rw [Config.map_update]
  rcases hsim d w l s hr hC hA with hB | ⟨hl, hs⟩
  · exact hd.step trivial hB
  · have hsame : (⟨β s, Function.update (d.map α β).procs w (α l)⟩ : Config W σ' π') =
        d.map α β := by
      rw [hl, hs, ← Config.map_procs α β d w, Function.update_eq_self]
      rfl
    rw [hsame]
    exact hd

end DnsForwarder.Interleaving
