import DnsForwarder.Pool.TaskPool
import Mathlib.Algebra.BigOperators.Group.Finset.Basic
import Mathlib.Algebra.Order.BigOperators.Group.Finset
import Mathlib.Data.FinEnum

/-!
# Counting slots

How many slots hold a task of some kind, and how storing and clearing change that number.
-/

namespace DnsForwarder.TaskPool

variable {α : Type*} {p : TaskPool α} {q : α → Bool} {i j : UInt16} {a b : α}

/-- The number of slots whose task satisfies `q`. -/
def slots (q : α → Bool) (p : TaskPool α) : ℕ := ∑ i, ((p.pool i).any q).toNat

theorem slots_new : (new : TaskPool α).slots q = 0 := by simp [slots]

theorem slots_congr {p' : TaskPool α} (h : p'.pool = p.pool) : p'.slots q = p.slots q := by
  rw [slots, h, slots]

/-- The slots other than `i`. -/
theorem slots_eq_add_rest (q : α → Bool) (p : TaskPool α) (i : UInt16) :
    p.slots q = ((p.pool i).any q).toNat + ∑ j ∈ Finset.univ.erase i, ((p.pool j).any q).toNat :=
  (Finset.add_sum_erase _ (fun j => ((p.pool j).any q).toNat) (Finset.mem_univ i)).symm

/-- Storing into an empty slot. -/
theorem slots_storeTask (h : p.pool i = none) (a : α) :
    (p.storeTask i a).slots q = p.slots q + (q a).toNat := by
  have hrest : ∑ j ∈ Finset.univ.erase i, (((p.storeTask i a).pool j).any q).toNat =
      ∑ j ∈ Finset.univ.erase i, ((p.pool j).any q).toNat :=
    Finset.sum_congr rfl fun j hj => by rw [storeTask_pool, if_neg (Finset.ne_of_mem_erase hj)]
  rw [slots_eq_add_rest q _ i, slots_eq_add_rest q p i, hrest, storeTask_pool_self, h]
  simp [Nat.add_comm]

/-- Clearing an occupied slot. -/
theorem slots_clearTask (h : p.pool i = some a) :
    (p.clearTask i).slots q + (q a).toNat = p.slots q := by
  have hrest : ∑ j ∈ Finset.univ.erase i, (((p.clearTask i).pool j).any q).toNat =
      ∑ j ∈ Finset.univ.erase i, ((p.pool j).any q).toNat :=
    Finset.sum_congr rfl fun j hj => by rw [clearTask_pool, if_neg (Finset.ne_of_mem_erase hj)]
  rw [slots_eq_add_rest q _ i, slots_eq_add_rest q p i, hrest, clearTask_pool_self, h]
  simp [Nat.add_comm]

/-- A task in a slot is counted. -/
theorem toNat_le_slots (h : p.pool i = some a) : (q a).toNat ≤ p.slots q := by
  rw [slots_eq_add_rest q p i, h, Option.any_some]
  exact Nat.le_add_right _ _

theorem slots_pos (h : p.pool i = some a) (hq : q a = true) : 0 < p.slots q := by
  have hle : (q a).toNat ≤ p.slots q := toNat_le_slots h
  rwa [hq] at hle

/-- No slot is counted if none holds a task of the kind. -/
theorem slots_eq_zero : p.slots q = 0 ↔ ∀ i a, p.pool i = some a → q a = false := by
  simp only [slots, Finset.sum_eq_zero_iff, Finset.mem_univ, true_imp_iff, Bool.toNat_eq_zero]
  apply forall_congr'
  intro i
  cases p.pool i <;> simp

/-- Two slots that are counted are the same if at most one is. -/
theorem slot_unique (h : p.slots q ≤ 1) (hi : p.pool i = some a) (hj : p.pool j = some b)
    (ha : q a = true) (hb : q b = true) : i = j := by
  by_contra hne
  rw [slots_eq_add_rest q p i, hi, Option.any_some, ha,
    ← Finset.add_sum_erase _ _ (Finset.mem_erase.2 ⟨Ne.symm hne, Finset.mem_univ j⟩), hj,
    Option.any_some, hb] at h
  simp only [Bool.toNat_true] at h
  omega

/-- One slot is counted if and only if exactly one holds a task of the kind. -/
theorem existsUnique_of_slots (h : p.slots q = 1) : ∃! i, ∃ a, p.pool i = some a ∧ q a = true := by
  have hex : ∃ i a, p.pool i = some a ∧ q a = true := by
    by_contra hno
    push Not at hno
    have := slots_eq_zero.2 fun i a hi => Bool.eq_false_iff.2 (hno i a hi)
    omega
  obtain ⟨i, a, hi, ha⟩ := hex
  refine ⟨i, ⟨a, hi, ha⟩, ?_⟩
  rintro j ⟨b, hj, hb⟩
  exact slot_unique h.le hj hi hb ha

end DnsForwarder.TaskPool
