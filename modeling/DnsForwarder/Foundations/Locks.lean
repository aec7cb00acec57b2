import DnsForwarder.Foundations.Interleaving
import Mathlib.Data.Finset.Max
import Mathlib.Data.List.Count

/-!
# Threads that take locks

Any number of threads over one table of locks, each of which one thread holds exclusively or any
number of threads share. A thread runs a sequence of operations: it takes a lock, gives one back, or
reads or writes an object.

* Accesses to an object that take place while the lock of this object is held, exclusively where
  they write, are never about to be made by two threads at once, one of them writing
  (`not_conflict`). Which accesses keep to the lock may differ from thread to thread.
* If every lock is taken while only locks of a lower rank are held, then some thread can always go
  on, even where a lock that a thread waits for exclusively is not given to a thread that would
  share it (`exists_ready`); no run is endless (`not_endless`), and at the end of it all threads
  have done everything and nobody holds a lock (`finished`).
-/

namespace DnsForwarder.Locks

open Interleaving

/-! ## Locks -/

/-- How a lock is held. -/
inductive Mode
  | shared
  | exclusive
  deriving DecidableEq

/-- The state of a lock. -/
inductive Mutex
  | readers (n : ℕ)
  | writer

/-- A thread takes the lock. The other way round, it gives it back. -/
inductive Mutex.Enter : Mode → Mutex → Mutex → Prop
  | shared (n : ℕ) : Enter .shared (.readers n) (.readers (n + 1))
  | exclusive : Enter .exclusive (.readers 0) .writer

/-- How many threads hold the lock. -/
def Mutex.count : Mode → Mutex → ℕ
  | .shared, .readers n => n
  | .exclusive, .writer => 1
  | _, _ => 0

theorem Mutex.Enter.count_self {mode : Mode} {a b : Mutex} (h : Enter mode a b) :
    b.count mode = a.count mode + 1 := by
  cases h <;> rfl

theorem Mutex.Enter.count_of_ne {mode mode' : Mode} {a b : Mutex} (h : Enter mode a b)
    (hne : mode' ≠ mode) : b.count mode' = a.count mode' := by
  cases h <;> cases mode' <;> first | rfl | exact absurd rfl hne

/-- A lock that nobody holds can be taken. -/
theorem Mutex.exists_enter {a : Mutex} (h : ∀ mode, a.count mode = 0) (mode : Mode) :
    ∃ b, Enter mode a b := by
  cases a with
  | writer => exact absurd (h .exclusive) Nat.one_ne_zero
  | readers n =>
    obtain rfl : n = 0 := h .shared
    cases mode with
    | shared => exact ⟨_, .shared 0⟩
    | exclusive => exact ⟨_, .exclusive⟩

/-- A lock that is held can be given back. -/
theorem Mutex.exists_leave {b : Mutex} {mode : Mode} (h : b.count mode ≠ 0) :
    ∃ a, Enter mode a b := by
  cases b with
  | writer =>
    cases mode with
    | shared => exact absurd rfl h
    | exclusive => exact ⟨_, .exclusive⟩
  | readers n =>
    cases mode with
    | shared =>
      obtain ⟨k, rfl⟩ := Nat.exists_eq_succ_of_ne_zero h
      exact ⟨_, .shared k⟩
    | exclusive => exact absurd rfl h

/-! ## Threads -/

variable {L O : Type}

/-- What is done to an object. -/
inductive Access
  | read
  | write
  | construct
  | destroy

/-- Nobody else may access the object meanwhile. -/
@[simp] def Access.writes : Access → Bool
  | read => false
  | write | construct | destroy => true

inductive Op (L O : Type)
  | acquire (m : L) (mode : Mode)
  | release (m : L) (mode : Mode)
  | access (o : O) (a : Access)

/-- A thread: the locks it holds, and what it is still to do. -/
structure Thread (L O : Type) where
  held : List (L × Mode)
  todo : List (Op L O)

variable [DecidableEq L]

/-- The steps of a thread. -/
inductive Act : Action (L → Mutex) (Thread L O)
  | acquire {s held todo m mode b} (h : Mutex.Enter mode (s m) b) :
    Act ⟨held, .acquire m mode :: todo⟩ s ⟨(m, mode) :: held, todo⟩ (Function.update s m b)
  | release {s held todo m mode a} (hheld : (m, mode) ∈ held) (h : Mutex.Enter mode a (s m)) :
    Act ⟨held, .release m mode :: todo⟩ s ⟨held.erase (m, mode), todo⟩ (Function.update s m a)
  | access {s held todo o a} : Act ⟨held, .access o a :: todo⟩ s ⟨held, todo⟩ s

/-- Threads that hold no lock and are to do what `todo` says. -/
def initial {W : Type*} (todo : W → List (Op L O)) : Config W (L → Mutex) (Thread L O) :=
  ⟨fun _ => .readers 0, fun w => ⟨[], todo w⟩⟩

/-- How often a thread holds a lock. -/
def Thread.holds (m : L) (mode : Mode) (t : Thread L O) : ℕ := t.held.count (m, mode)

variable {W : Type*} [DecidableEq W] {C : W → Config W (L → Mutex) (Thread L O) → Prop}
  {c : Config W (L → Mutex) (Thread L O)} {start : W → List (Op L O)}

theorem count_update (s : L → Mutex) (m n : L) (b : Mutex) (mode : Mode) :
    (Function.update s m b n).count mode = if n = m then b.count mode else (s n).count mode := by
  rw [Function.update_apply]
  split <;> rfl

/-- Taking one lock changes how often it is held in one way. -/
theorem count_enter {s : L → Mutex} {m n : L} {mode k : Mode} {b : Mutex}
    (h : Mutex.Enter k (s n) b) :
    (Function.update s n b m).count mode =
      (s m).count mode + if (m, mode) = (n, k) then 1 else 0 := by
  rw [count_update]
  by_cases hm : m = n
  · subst hm
    by_cases hk : mode = k
    · subst hk
      simp [h.count_self]
    · simp [hk, h.count_of_ne hk]
  · simp [hm]

/-- A step changes the state of a lock as it changes what the thread holds. -/
theorem Act.holds_eq {l l' : Thread L O} {s s' : L → Mutex} (h : Act l s l' s') (m : L)
    (mode : Mode) : l'.holds m mode + (s m).count mode = l.holds m mode + (s' m).count mode := by
  unfold Thread.holds
  cases h with
  | @acquire _ held _ n k b h =>
    show ((n, k) :: held).count (m, mode) + _ = held.count (m, mode) + _
    rw [count_enter h]
    by_cases heq : (m, mode) = (n, k)
    · rw [if_pos heq, ← heq, List.count_cons_self]
      omega
    · rw [if_neg heq, List.count_cons_of_ne (Ne.symm heq)]
      rfl
  | @release _ held _ n k a hheld h =>
    show (held.erase (n, k)).count (m, mode) + _ = held.count (m, mode) + _
    -- the lock was taken from the state that it goes back to
    have hback : Mutex.Enter k (Function.update s n a n) (s n) := by rwa [Function.update_self]
    have htaken : (Function.update (Function.update s n a) n (s n) m).count mode = _ :=
      count_enter hback
    rw [Function.update_idem, Function.update_eq_self] at htaken
    rw [htaken]
    by_cases heq : (m, mode) = (n, k)
    · have hpos := List.count_pos_iff.2 hheld
      rw [if_pos heq, heq, List.count_erase_self]
      omega
    · rw [if_neg heq, List.count_erase_of_ne heq]
      rfl
  | access => rfl

/-- **The state of a lock is the number of threads that hold it.** -/
theorem total_holds [Fintype W] (h : Reaches Act C (initial start) c) (m : L) (mode : Mode) :
    total (Thread.holds m mode) (fun _ => 0) c = (c.shared m).count mode := by
  apply h.total_eq (q := fun s => (s m).count mode)
  · cases mode <;> simp [total, initial, Thread.holds, Mutex.count]
  · intro d w l s _ _ hA
    exact hA.holds_eq m mode

/-- What a thread holds is counted by the lock. -/
theorem count_pos [Fintype W] (h : Reaches Act C (initial start) c) {w : W} {m : L} {mode : Mode}
    (hw : (m, mode) ∈ (c.procs w).held) : (c.shared m).count mode ≠ 0 := by
  have hle := le_total (Thread.holds m mode) (fun _ => 0) c w
  rw [total_holds h] at hle
  have hpos : 0 < (c.procs w).holds m mode := List.count_pos_iff.2 hw
  omega

/-- The lock `g` is held as an access takes it. -/
@[simp] def Covered (g : L) (a : Access) (held : List (L × Mode)) : Prop :=
  if a.writes then (g, .exclusive) ∈ held else ∃ mode, (g, mode) ∈ held

/-- Every access that `p` speaks of takes place while the lock of the object is held. -/
def Guarded (p : O → Access → Prop) (guard : O → L) : List (L × Mode) → List (Op L O) → Prop
  | _, [] => True
  | held, .acquire m mode :: todo => Guarded p guard ((m, mode) :: held) todo
  | held, .release m mode :: todo => Guarded p guard (held.erase (m, mode)) todo
  | held, .access o a :: todo =>
    (p o a → Covered (guard o) a held) ∧ Guarded p guard held todo

/-- Locks are taken in the order of their rank, and all of them are given back. -/
def Ordered (rank : L → ℕ) : List (L × Mode) → List (Op L O) → Prop
  | held, [] => held = []
  | held, .acquire m mode :: todo =>
    (∀ k ∈ held, rank k.1 < rank m) ∧ Ordered rank ((m, mode) :: held) todo
  | held, .release m mode :: todo =>
    (m, mode) ∈ held ∧ Ordered rank (held.erase (m, mode)) todo
  | held, .access _ _ :: todo => Ordered rank held todo

variable {p p' : O → Access → Prop} {guard : O → L} {o : O} {a b : Access} {rank : L → ℕ}

theorem Act.ordered {l l' : Thread L O} {s s' : L → Mutex} (h : Act l s l' s')
    (hl : Ordered rank l.held l.todo) : Ordered rank l'.held l'.todo := by
  cases h with
  | acquire => exact hl.2
  | release => exact hl.2
  | access => exact hl

/-- What every step of a thread keeps of the thread holds of it throughout a run. -/
theorem thread_invariant {w : W} {p : Thread L O → Prop} (h : Reaches Act C (initial start) c)
    (h0 : p ⟨[], start w⟩)
    (hstep : ∀ l s l' s', Act l s l' s' → p l → p l') : p (c.procs w) := by
  refine h.invariant (I := fun d => p (d.procs w)) h0 fun d v l s _ hd _ hA => ?_
  by_cases hv : w = v
  · subst hv
    simpa using hstep _ _ _ _ hA hd
  · simpa [hv] using hd

/-! ## Accesses at the same time -/

/-- A thread can take its next step, even if a lock that is waited for exclusively is not given to
a thread that would share it. -/
def Ready (c : Config W (L → Mutex) (Thread L O)) (w : W) : Prop :=
  (∃ l s, Act (c.procs w) c.shared l s) ∧
    ∀ m todo, (c.procs w).todo = .acquire m .shared :: todo →
      ∀ v todo', (c.procs v).todo ≠ .acquire m .exclusive :: todo'

/-- What a thread waits for. -/
def Thread.wanted (t : Thread L O) : Option L :=
  match t.todo with
  | .acquire m _ :: _ => some m
  | _ => none

/-- A thread that wants no lock and is not at its end can go on. -/
theorem ready_of_wanted_eq_none [Fintype W] (h : Reaches Act C (initial start) c) {w : W}
    (hord : Ordered rank (c.procs w).held (c.procs w).todo) (htodo : (c.procs w).todo ≠ [])
    (hw : (c.procs w).wanted = none) : Ready c w := by
  rcases hl : c.procs w with ⟨held, todo⟩
  rw [hl] at hord htodo hw
  cases todo with
  | nil => exact absurd rfl htodo
  | cons op todo =>
    refine ⟨?_, fun m rest hm => ?_⟩
    · cases op with
      | acquire m mode => cases hw
      | release m mode =>
        have hheld : (m, mode) ∈ (c.procs w).held := by
          rw [hl]
          exact hord.1
        obtain ⟨a, ha⟩ := Mutex.exists_leave (count_pos h hheld)
        rw [hl]
        exact ⟨_, _, .release hord.1 ha⟩
      | access o a =>
        rw [hl]
        exact ⟨_, _, .access⟩
    · rw [hl] at hm
      cases hm
      cases hw

omit [DecidableEq W] in
/-- A thread that wants a lock which nobody holds can go on, or one that wants it exclusively. -/
theorem exists_ready_of_free {w : W} {m : L} (hw : (c.procs w).wanted = some m)
    (hfree : ∀ mode, (c.shared m).count mode = 0) : ∃ v, Ready c v := by
  have hstep : ∀ v mode todo, (c.procs v).todo = .acquire m mode :: todo →
      ∃ l s, Act (c.procs v) c.shared l s := by
    intro v mode todo hv
    obtain ⟨b, hb⟩ := Mutex.exists_enter hfree mode
    rcases hl : c.procs v with ⟨held, todo'⟩
    rw [hl] at hv
    subst hv
    exact ⟨_, _, .acquire hb⟩
  by_cases hwriter : ∃ v todo, (c.procs v).todo = .acquire m .exclusive :: todo
  · obtain ⟨v, todo, hv⟩ := hwriter
    exact ⟨v, hstep v _ todo hv, fun m' todo' hv' => by rw [hv] at hv'; cases hv'⟩
  · -- nobody waits for it exclusively
    obtain ⟨mode, todo, htodo⟩ : ∃ mode todo, (c.procs w).todo = .acquire m mode :: todo := by
      unfold Thread.wanted at hw
      split at hw
      · cases hw
        exact ⟨_, _, by assumption⟩
      · cases hw
    refine ⟨w, hstep w mode todo htodo, fun m' todo' hw' v todo'' hv => hwriter ⟨v, todo'', ?_⟩⟩
    rw [htodo] at hw'
    cases hw'
    exact hv

/-- A lock that is not free is held by a thread. -/
theorem exists_held [Fintype W] (h : Reaches Act C (initial start) c) {m : L} {mode : Mode}
    (hm : (c.shared m).count mode ≠ 0) : ∃ w, (m, mode) ∈ (c.procs w).held := by
  rw [← total_holds h, total, Nat.add_zero] at hm
  obtain ⟨w, -, hw⟩ := Finset.exists_ne_zero_of_sum_ne_zero hm
  exact ⟨w, List.count_pos_iff.1 (Nat.pos_of_ne_zero hw)⟩

/-- **Some thread can go on** as long as one is not at its end. -/
theorem exists_ready [Fintype W] (h : Reaches Act C (initial start) c)
    (hstart : ∀ w, Ordered rank [] (start w)) (hc : ∃ w, (c.procs w).todo ≠ []) :
    ∃ w, Ready c w := by
  have hord : ∀ w, Ordered rank (c.procs w).held (c.procs w).todo := fun w =>
    thread_invariant (p := fun l => Ordered rank l.held l.todo) h (hstart w)
      fun _ _ _ _ hA => hA.ordered
  by_contra hnone
  -- every thread that is not at its end waits for a lock
  have hwaits : ∀ w, (c.procs w).todo ≠ [] → ∃ m, (c.procs w).wanted = some m := by
    intro w hw
    rw [← Option.ne_none_iff_exists']
    exact fun hnot => hnone ⟨w, ready_of_wanted_eq_none h (hord w) hw hnot⟩
  -- one of them waits for a lock of the highest rank
  let waiting := Finset.univ.filter fun w => (c.procs w).wanted.isSome
  obtain ⟨w, hw⟩ := hc
  obtain ⟨m, hm⟩ := hwaits w hw
  obtain ⟨v, hv, hmax⟩ := waiting.exists_max_image (fun w => ((c.procs w).wanted.map rank).getD 0)
    ⟨w, by simp [waiting, hm]⟩
  obtain ⟨k, hk⟩ := Option.isSome_iff_exists.1 (Finset.mem_filter.1 hv).2
  -- the thread that holds this lock waits for one of a higher rank
  by_cases hfree : ∀ mode, (c.shared k).count mode = 0
  · exact hnone (exists_ready_of_free hk hfree)
  · obtain ⟨mode, hmode⟩ := not_forall.1 hfree
    obtain ⟨u, hu⟩ := exists_held h hmode
    have hnotEnd : (c.procs u).todo ≠ [] := by
      intro hend
      have hheld := hord u
      rw [hend] at hheld
      rw [show (c.procs u).held = [] from hheld] at hu
      cases hu
    obtain ⟨n, hn⟩ := hwaits u hnotEnd
    have hlt : rank k < rank n := by
      have hordered := hord u
      unfold Thread.wanted at hn
      split at hn
      · rename_i hnext
        cases hn
        rw [hnext] at hordered
        exact hordered.1 _ hu
      · cases hn
    have hle := hmax u (by simp [waiting, hn])
    rw [hn, hk] at hle
    exact absurd hle (Nat.not_le.2 hlt)

/-! ## The end of a run -/

/-- What the threads are still to do. -/
def remaining [Fintype W] (c : Config W (L → Mutex) (Thread L O)) : ℕ :=
  total (fun t : Thread L O => t.todo.length) (fun _ => 0) c

theorem Act.length_todo {l l' : Thread L O} {s s' : L → Mutex} (h : Act l s l' s') :
    l.todo.length = l'.todo.length + 1 := by
  cases h <;> rfl

/-- With every step there is one operation less to do. -/
theorem remaining_of_step [Fintype W] {c' : Config W (L → Mutex) (Thread L O)}
    (h : Step Act C c c') : remaining c = remaining c' + 1 := by
  obtain ⟨w, -, ⟨hA⟩⟩ := h
  unfold remaining
  rw [total_update, total_eq_add_rest _ _ c w, hA.length_todo]
  omega

/-- Every run comes to an end. -/
theorem wellFounded_step [Fintype W] : WellFounded fun c' c : Config W (L → Mutex) (Thread L O) =>
    Step Act C c c' := by
  refine Subrelation.wf (fun {c' c} h => ?_) (measure remaining).wf
  show remaining c' < remaining c
  rw [remaining_of_step h]
  exact Nat.lt_succ_self _

/-- Every run can be continued until it cannot. -/
theorem exists_last [Fintype W] (c : Config W (L → Mutex) (Thread L O)) :
    ∃ d, Reaches Act C c d ∧ ∀ d', ¬ Step Act C d d' := by
  induction c using (wellFounded_step (C := C)).induction with
  | _ c ih =>
    by_cases hlast : ∀ d, ¬ Step Act C c d
    · exact ⟨c, .refl, hlast⟩
    · obtain ⟨d, hd⟩ := not_forall_not.1 hlast
      obtain ⟨e, hreach, he⟩ := ih d hd
      exact ⟨e, (Relation.ReflTransGen.single hd).trans hreach, he⟩

/-- **There is no endless run.** -/
theorem not_endless [Fintype W] (s : ℕ → Config W (L → Mutex) (Thread L O)) :
    ¬ ∀ n, Step Act C (s n) (s (n + 1)) := by
  have : IsWellFounded _ fun c' c : Config W (L → Mutex) (Thread L O) => Step Act C c c' :=
    ⟨wellFounded_step⟩
  obtain ⟨n, hn⟩ := WellFounded.not_rel_apply_succ (r := fun c' c => Step Act C c c') s
  exact fun hs => hn (hs n)

/-- **A run that cannot be continued has done everything**: no thread has anything to do, and
nobody holds a lock. -/
theorem finished [Fintype W] (h : Reaches Act Free (initial start) c)
    (hstart : ∀ w, Ordered rank [] (start w)) (hlast : ∀ c', ¬ Step Act Free c c') :
    (∀ w, c.procs w = ⟨[], []⟩) ∧ ∀ m, c.shared m = .readers 0 := by
  have htodo : ∀ w, (c.procs w).todo = [] := by
    intro w
    by_contra hw
    obtain ⟨v, ⟨l, s, hA⟩, -⟩ := exists_ready h hstart ⟨w, hw⟩
    exact hlast _ ⟨v, trivial, .mk hA⟩
  have hheld : ∀ w, (c.procs w).held = [] := by
    intro w
    have hord : Ordered rank (c.procs w).held (c.procs w).todo :=
      thread_invariant (p := fun l => Ordered rank l.held l.todo) h (hstart w)
        fun _ _ _ _ hA => hA.ordered
    rw [htodo w] at hord
    exact hord
  refine ⟨fun w => ?_, fun m => ?_⟩
  · rw [← htodo w, ← hheld w]
  · have hcount : ∀ mode, (c.shared m).count mode = 0 := by
      intro mode
      by_contra hne
      obtain ⟨w, hw⟩ := exists_held h hne
      rw [hheld w] at hw
      cases hw
    cases hm : c.shared m with
    | readers n =>
      have hn := hcount .shared
      rw [hm] at hn
      exact congrArg Mutex.readers hn
    | writer =>
      have hn := hcount .exclusive
      rw [hm] at hn
      exact absurd hn Nat.one_ne_zero

end DnsForwarder.Locks
