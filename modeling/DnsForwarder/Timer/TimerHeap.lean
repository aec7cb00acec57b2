import Mathlib.Data.Nat.Notation
import Mathlib.Data.List.Basic

/-!
# Timers and the heap of timers

`timer.h`. A `shared_ptr<Timer>` is modelled by the address of the object together with its
members `expire` and `index`, which are never written again; `valid`, which is, belongs to the
memory the threads share. `m_queue` is a `priority_queue`: its top is one of the timers that
expire first, and which one of several is not said.
-/

namespace DnsForwarder

/-- Readings of `steady_clock`, in nanoseconds. -/
abbrev Time := ℕ

/-- `TIMEOUT_SECONDS`. -/
abbrev timeoutSeconds : ℕ := 1

/-- `chrono::milliseconds(TIMEOUT_SECONDS * 1000)`. -/
def timeout : Time := timeoutSeconds * 1000 * 1000000

/-- Where an object is. An address is not used for a second object. -/
abbrev Addr := ℕ

structure Timer where
  addr : Addr
  expire : Time
  index : UInt16
  deriving DecidableEq

/-- `m_queue`. -/
abbrev TimerHeap := List Timer

namespace TimerHeap

variable (heap : TimerHeap)

/-- `m_queue.top()` may be `t`. -/
def IsTop (t : Timer) : Prop := t ∈ heap ∧ ∀ u ∈ heap, t.expire ≤ u.expire

/-- How often the timer at `a` is in the heap. -/
def countAt (a : Addr) : ℕ := heap.countP (·.addr == a)

variable {heap}

theorem IsTop.mem {t : Timer} (h : heap.IsTop t) : t ∈ heap := h.1

/-- The top depends on which timers there are, and not on their order. -/
theorem IsTop.congr {heap' : TimerHeap} {t : Timer} (h : heap.IsTop t)
    (hmem : ∀ u, u ∈ heap' ↔ u ∈ heap) : heap'.IsTop t :=
  ⟨(hmem t).2 h.1, fun u hu => h.2 u ((hmem u).1 hu)⟩

@[simp] theorem countAt_nil (a : Addr) : countAt [] a = 0 := rfl

@[simp] theorem countAt_cons (t : Timer) (a : Addr) :
    countAt (t :: heap) a = countAt heap a + (t.addr == a).toNat := by
  by_cases h : t.addr = a <;> simp [countAt, h]

theorem count_le_countAt (heap : TimerHeap) (t : Timer) : heap.count t ≤ heap.countAt t.addr := by
  apply List.countP_mono_left
  intro u _ hu
  rw [beq_iff_eq] at hu
  rw [hu, beq_self_eq_true]

/-- Taking a timer out of the heap. -/
theorem countAt_erase {t : Timer} (h : t ∈ heap) (a : Addr) :
    countAt (heap.erase t) a + (t.addr == a).toNat = countAt heap a := by
  rw [← countAt_cons]
  exact (List.perm_cons_erase h).symm.countP_eq _

end TimerHeap

end DnsForwarder
