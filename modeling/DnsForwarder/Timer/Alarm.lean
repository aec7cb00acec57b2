import DnsForwarder.Timer.TimerHeap
import Mathlib.Logic.Function.Basic
import Mathlib.Logic.Relation
import Mathlib.Data.Int.Notation

/-!
# The alarm of the two timer heaps

`m_udp_timer_heap` and `m_tcp_timer_heap` share `ITIMER_REAL`: `Push` sets it when the timer it
has pushed is alone in its heap, `Tick` sets it for the timer that expires first, and stops it
when the heap of its own handler is empty. Here the handlers run one at a time; a `SIGALRM` makes
both timeout handlers run, one after the other.

`Step.safe_iff` says for every step exactly when it leaves the alarm running as long as there
are timers (`Input.Safe`), and `sound_of_safe` that runs of such steps never lose it. The second
timeout handler of a group may stop the alarm that the first one has set (`alarm_lost`).
-/

namespace DnsForwarder.Alarm

/-! ## The process-wide timer -/

inductive Protocol
  | udp
  | tcp
  deriving DecidableEq

namespace Protocol

def other : Protocol → Protocol
  | udp => tcp
  | tcp => udp

/-- Whether the loop of the timeout handler, which read the clock as `limit`, takes out a timer with
this `expire`. -/
def due : Protocol → Time → Time → Bool
  | udp, expire, limit => expire ≤ limit
  | tcp, expire, limit => expire < limit

end Protocol

structure State where
  /-- The two heaps. -/
  heap : Protocol → TimerHeap
  /-- When `ITIMER_REAL` expires, if it is armed. -/
  itimer : Option Time
  /-- The number of `SIGALRM`s whose handlers have not begun. -/
  pending : ℕ
  clock : Time
  /-- The timeout handlers of the last `SIGALRM` that have still to run. -/
  todo : List Protocol

/-- `it_value` of an `itimerval`. -/
structure ItValue where
  tvSec : ℤ
  tvUsec : ℤ
  deriving DecidableEq

/-- The value that `Push` and `Tick` compute from `expire - now`, in nanoseconds. `duration_cast`
and `%` round towards zero. -/
def itValue (left : ℤ) : ItValue where
  tvSec := left.tdiv 1000000000
  tvUsec := (left.tdiv 1000).tmod 1000000

theorem itValue_of_nonneg {left : ℤ} (h : 0 ≤ left) :
    itValue left = ⟨left / 1000000000, left / 1000 % 1000000⟩ := by
  rw [itValue, Int.tdiv_eq_ediv_of_nonneg h, Int.tdiv_eq_ediv_of_nonneg h,
    Int.tmod_eq_emod_of_nonneg (by omega)]

theorem itValue_neg (left : ℤ) :
    itValue (-left) = ⟨-(itValue left).tvSec, -(itValue left).tvUsec⟩ := by
  simp only [itValue, Int.neg_tdiv, Int.neg_tmod]

/-- Less than a microsecond makes the value zero. -/
theorem itValue_eq_zero {left : ℤ} (h : -1000 < left) (h' : left < 1000) :
    itValue left = ⟨0, 0⟩ := by
  by_cases h₀ : 0 ≤ left
  · rw [itValue_of_nonneg h₀, ItValue.mk.injEq]
    omega
  · obtain ⟨m, rfl⟩ : ∃ m, left = -m := ⟨-left, by omega⟩
    rw [itValue_neg, itValue_of_nonneg (by omega)]
    simp only [ItValue.mk.injEq]
    omega

namespace State

/-- The clock has moved on to `t`. -/
def elapse (s : State) (t : Time) : State :=
  match s.itimer with
  | some d =>
    if d ≤ t then { s with clock := t, itimer := none, pending := s.pending + 1 }
    else { s with clock := t }
  | none => { s with clock := t }

/-- `Wrapper::SetITimer`, called at `t`. A value out of range is refused, and it raises; a value of
zero stops the timer. -/
def setITimer (s : State) (value : ItValue) (t : Time) : State :=
  let s := s.elapse t
  if value.tvSec < 0 ∨ value.tvUsec < 0 ∨ 1000000 ≤ value.tvUsec then s
  else if value.tvSec = 0 ∧ value.tvUsec = 0 then { s with itimer := none }
  else { s with itimer := some (t + (value.tvSec * 1000000 + value.tvUsec).toNat * 1000) }

def setHeap (s : State) (p : Protocol) (heap : TimerHeap) : State :=
  { s with heap := Function.update s.heap p heap }

/-- `TimerHeap::Push`, which reads the clock as `now` and calls `SetITimer` at `t`. -/
def push (s : State) (p : Protocol) (timer : Timer) (now t : Time) : State :=
  let s := s.setHeap p (timer :: s.heap p)
  if (s.heap p).length = 1 then s.setITimer (itValue (timer.expire - now)) t else s.elapse t

end State

/-! ## The handlers -/

/-- Timers that are due are taken out of the heap, one after the other. -/
inductive Pops (due : Time → Bool) : TimerHeap → TimerHeap → Prop
  | done {heap} : Pops due heap heap
  | pop {heap rest : TimerHeap} {t} (ht : heap.IsTop t) (hd : due t.expire = true)
    (h : Pops due (heap.erase t) rest) : Pops due heap rest

/-- What happens next. -/
inductive Input
  | elapse (t : Time)
  /-- A `SIGALRM` is raised while another one is pending: there is only one. -/
  | coalesce
  /-- A request whose `Push` reads the clock as `now` and calls `SetITimer` at `t`. -/
  | request (p : Protocol) (timer : Timer) (now t : Time)
  /-- A response: the timer of its task stays where it is. -/
  | response (p : Protocol)
  /-- A `SIGALRM` is received. -/
  | sigalrm (first : Protocol)
  /-- A timeout handler reads the clock as `limit`, and in `Tick` as `now`, and calls `SetITimer`
  at `t`. -/
  | timeout (limit now t : Time)
  /-- A timeout handler raises at `t` because a packet cannot be sent, which leaves `rest` in its
  heap. -/
  | raise (limit t : Time) (rest : TimerHeap)

/-- The steps of the process. -/
inductive Step : Input → State → State → Prop
  | elapse {s t} (hc : s.clock ≤ t) : Step (.elapse t) s (s.elapse t)
  | coalesce {s n} (h : s.pending = n + 2) : Step .coalesce s { s with pending := n + 1 }
  | request {s p} {timer : Timer} {put now t} (hc : s.clock ≤ put)
    (he : timer.expire = put + timeout) (hn : put ≤ now) (ht : now ≤ t) :
    Step (.request p timer now t) s (s.push p timer now t)
  | response {s p} : Step (.response p) s s
  | sigalrm {s n p} (h : s.todo = []) (hp : s.pending = n + 1) :
    Step (.sigalrm p) s { s with pending := n, todo := [p, p.other] }
  | tickEmpty {s p ps limit now t} (h : s.todo = p :: ps) (hc : s.clock ≤ limit)
    (hl : limit ≤ now) (ht : now ≤ t) (hpops : Pops (p.due · limit) (s.heap p) []) :
    Step (.timeout limit now t) s ((({ s with todo := ps }).setHeap p []).setITimer ⟨0, 0⟩ t)
  | tickTop {s p ps limit now t rest} {top : Timer} (h : s.todo = p :: ps) (hc : s.clock ≤ limit)
    (hl : limit ≤ now) (ht : now ≤ t) (hpops : Pops (p.due · limit) (s.heap p) rest)
    (htop : TimerHeap.IsTop rest top) (hd : p.due top.expire limit = false) :
    Step (.timeout limit now t) s
      ((({ s with todo := ps }).setHeap p rest).setITimer (itValue (top.expire - now)) t)
  | raise {s p ps limit t rest} (h : s.todo = p :: ps) (hc : s.clock ≤ limit) (ht : limit ≤ t)
    (hpops : Pops (p.due · limit) (s.heap p) rest) :
    Step (.raise limit t rest) s ((({ s with todo := ps }).setHeap p rest).elapse t)

def initial : State where
  heap := fun _ => []
  itimer := none
  pending := 0
  clock := 0
  todo := []

/-! ## What a step does to the alarm -/

namespace State

variable (s : State) (t : Time) (p : Protocol) (heap : TimerHeap) (value : ItValue)

/-- The alarm will bring the timeout handlers to run. -/
def Alarmed : Prop := s.itimer ≠ none ∨ 0 < s.pending

/-- A `SIGALRM` is pending at `t`. -/
def Rings : Prop := 0 < s.pending ∨ ∃ d, s.itimer = some d ∧ d ≤ t

@[simp] theorem elapse_heap : (s.elapse t).heap = s.heap := by
  rw [elapse]; split <;> (try split) <;> rfl
@[simp] theorem elapse_todo : (s.elapse t).todo = s.todo := by
  rw [elapse]; split <;> (try split) <;> rfl
@[simp] theorem setITimer_heap : (s.setITimer value t).heap = s.heap := by
  simp only [setITimer]; split <;> (try split) <;> simp
@[simp] theorem setITimer_todo : (s.setITimer value t).todo = s.todo := by
  simp only [setITimer]; split <;> (try split) <;> simp
@[simp] theorem setHeap_todo : (s.setHeap p heap).todo = s.todo := rfl

theorem setHeap_heap_self : (s.setHeap p heap).heap p = heap := Function.update_self ..

theorem setHeap_heap_of_ne {q : Protocol} (h : q ≠ p) : (s.setHeap p heap).heap q = s.heap q :=
  Function.update_of_ne h ..

/-- An alarm that expires becomes a pending signal. -/
theorem elapse_alarmed : (s.elapse t).Alarmed ↔ s.Alarmed := by
  unfold elapse
  cases hd : s.itimer with
  | none => simp [Alarmed, hd]
  | some d =>
    simp only
    split <;> simp [Alarmed, hd]

theorem elapse_pending : 0 < (s.elapse t).pending ↔ s.Rings t := by
  unfold elapse
  cases hd : s.itimer with
  | none => simp [Rings, hd]
  | some d =>
    by_cases h : d ≤ t <;> simp [Rings, hd, h]

/-- Stopping the timer. -/
theorem setITimer_zero_alarmed : (s.setITimer ⟨0, 0⟩ t).Alarmed ↔ s.Rings t := by
  rw [← elapse_pending]
  simp [setITimer, Alarmed]

/-- What `SetITimer` needs to leave an alarm when it is called at `t` with the value for a timer
that expires in `left` nanoseconds: a microsecond is left, so that the timer is armed, or a signal
is pending anyway, or the timer is overdue by a microsecond, so that the call is refused, and the
alarm was armed before. -/
def SetSafe (left : ℤ) (t : Time) : Prop :=
  1000 ≤ left ∨ s.Rings t ∨ left ≤ -1000 ∧ s.itimer ≠ none

/-- A value that is in range and not zero sets the timer. -/
theorem setITimer_armed {left : ℤ} (h : 1000 ≤ left) :
    (s.setITimer (itValue left) t).itimer ≠ none := by
  rw [itValue_of_nonneg (by omega), setITimer]
  simp only
  rw [if_neg (by omega), if_neg (by omega)]
  exact Option.some_ne_none _

/-- A negative value is refused. -/
theorem setITimer_refused {left : ℤ} (h : left ≤ -1000) :
    s.setITimer (itValue left) t = s.elapse t := by
  obtain ⟨m, rfl⟩ : ∃ m, left = -m := ⟨-left, by omega⟩
  rw [itValue_neg, itValue_of_nonneg (by omega), setITimer]
  simp only
  rw [if_pos (by omega)]

/-- **Setting the timer.** -/
theorem setITimer_alarmed (left : ℤ) :
    (s.setITimer (itValue left) t).Alarmed ↔ s.SetSafe left t := by
  by_cases h : 1000 ≤ left
  · exact iff_of_true (.inl (s.setITimer_armed t h)) (.inl h)
  by_cases h' : left ≤ -1000
  · rw [s.setITimer_refused t h', elapse_alarmed]
    constructor
    · exact fun ha => .inr (ha.elim (fun hi => .inr ⟨h', hi⟩) fun hp => .inl (.inl hp))
    · rintro (h₀ | (hp | ⟨d, hd, -⟩) | ⟨-, hi⟩)
      · exact absurd h₀ h
      · exact .inr hp
      · exact .inl (by rw [hd]; exact Option.some_ne_none _)
      · exact .inl hi
  · rw [itValue_eq_zero (by omega) (by omega), setITimer_zero_alarmed, SetSafe]
    constructor
    · exact fun hr => .inr (.inl hr)
    · rintro (h₀ | hr | ⟨h₀, -⟩)
      · omega
      · exact hr
      · omega

end State

/-! ## Which timers a handler leaves -/

theorem Protocol.due_mono (p : Protocol) {e e' limit : Time} (h : e ≤ e')
    (hd : p.due e' limit = true) : p.due e limit = true := by
  cases p with
  | udp => exact decide_eq_true (Nat.le_trans h (of_decide_eq_true hd))
  | tcp => exact decide_eq_true (Nat.lt_of_le_of_lt h (of_decide_eq_true hd))

/-- Only timers that are due are taken out. -/
theorem Pops.mem {due : Time → Bool} {heap rest : TimerHeap} (h : Pops due heap rest) {u : Timer}
    (hu : u ∈ heap) : u ∈ rest ∨ due u.expire = true := by
  induction h with
  | done => exact .inl hu
  | @pop heap rest t ht hd h ih =>
    by_cases hut : u = t
    · exact .inr (hut ▸ hd)
    · exact ih ((List.mem_erase_of_ne hut).2 hu)

theorem Pops.subset {due : Time → Bool} {heap rest : TimerHeap} (h : Pops due heap rest)
    {u : Timer} (hu : u ∈ rest) : u ∈ heap := by
  induction h with
  | done => exact hu
  | pop ht hd h ih => exact List.mem_of_mem_erase (ih hu)

/-- If the top that is left is not due, what is left are the timers that are not due. -/
theorem Pops.mem_iff {p : Protocol} {limit : Time} {heap rest : TimerHeap} {top : Timer}
    (h : Pops (p.due · limit) heap rest) (htop : rest.IsTop top)
    (hd : p.due top.expire limit = false) (u : Timer) :
    u ∈ heap.filter (fun u => !p.due u.expire limit) ↔ u ∈ rest := by
  rw [List.mem_filter, Bool.not_eq_true']
  constructor
  · rintro ⟨hu, hnot⟩
    exact (h.mem hu).resolve_right (by simp [hnot])
  · refine fun hu => ⟨h.subset hu, ?_⟩
    by_contra hdue
    rw [Bool.not_eq_false] at hdue
    exact Bool.false_ne_true (hd.symm.trans (p.due_mono (htop.2 u hu) hdue))

/-! ## When the alarm is kept -/

/-- The condition under which a step keeps the alarm. Between two groups, a request that finds its
heap empty has to set the timer. At the end of a group, the last handler has to leave no timer in
the other heap, or a signal has to be pending, if it stops the timer; and it has to set the timer
for the first timer that it leaves. -/
def Input.Safe : Input → State → Prop
  | request p timer now t, s =>
    s.todo = [] → s.heap p = [] → s.SetSafe (timer.expire - now) t
  | timeout limit now t, s => ∀ p, s.todo = [p] →
    ((∀ u ∈ s.heap p, p.due u.expire limit = true) → s.heap p.other = [] ∨ s.Rings t) ∧
    ∀ u, TimerHeap.IsTop ((s.heap p).filter fun u => !p.due u.expire limit) u →
      s.SetSafe (u.expire - now) t
  | raise _ _ rest, s => ∀ p, s.todo = [p] → rest = [] ∧ s.heap p.other = [] ∨ s.Alarmed
  | _, _ => True

/-- If there is a timer in one of the heaps, the alarm is set or a signal is pending, unless the
handlers of a signal are still to run. -/
def State.Sound (s : State) : Prop := s.todo = [] → ∀ p, s.heap p ≠ [] → s.Alarmed

namespace State

variable {s : State} {p : Protocol}

/-- The end of a group, after which the last handler leaves `rest` in its heap. -/
theorem sound_setHeap {s' : State} {rest : TimerHeap} (htodo : s'.todo = [])
    (hheap : s'.heap = (s.setHeap p rest).heap) :
    s'.Sound ↔ (rest = [] ∧ s.heap p.other = [] ∨ s'.Alarmed) := by
  have hself : s'.heap p = rest := by rw [hheap, setHeap_heap_self]
  have hother : s'.heap p.other = s.heap p.other := by
    rw [hheap, setHeap_heap_of_ne]
    cases p <;> simp [Protocol.other]
  constructor
  · intro hs
    by_cases ha : s'.Alarmed
    · exact .inr ha
    · refine .inl ⟨?_, ?_⟩
      · rw [← hself]
        by_contra hne
        exact ha (hs htodo p hne)
      · rw [← hother]
        by_contra hne
        exact ha (hs htodo _ hne)
  · rintro (⟨hrest, ho⟩ | ha) - q hq
    · -- both heaps are empty
      have hempty : s'.heap q = [] := by
        cases p <;> cases q <;> simp_all [Protocol.other]
      exact absurd hempty hq
    · exact ha

/-- A request keeps the alarm if and only if its timer is set where it has to be. -/
theorem safe_request_iff {timer : Timer} {now t : Time} (hs : s.Sound) :
    (Input.request p timer now t).Safe s ↔ (s.push p timer now t).Sound := by
  by_cases hheap : s.heap p = []
  · have hpush : s.push p timer now t =
        (s.setHeap p [timer]).setITimer (itValue (timer.expire - now)) t := by
      simp [push, hheap, setHeap]
    rw [hpush]
    constructor
    · intro hsafe htodo q _
      rw [setITimer_alarmed]
      exact hsafe (by simpa using htodo) hheap
    · intro hsound htodo _
      have halarmed := hsound (by simpa using htodo) p (by simp [setHeap])
      rwa [setITimer_alarmed] at halarmed
  · have hpush : s.push p timer now t = (s.setHeap p (timer :: s.heap p)).elapse t := by
      simp [push, hheap, setHeap]
    rw [hpush]
    refine iff_of_true (fun _ h => absurd h hheap) fun htodo q _ => ?_
    rw [elapse_alarmed]
    exact hs (by simpa using htodo) p hheap

/-- The last handler of a group stops the timer. -/
theorem safe_tickEmpty_iff {limit now t : Time} (h : s.todo = [p])
    (hpops : Pops (p.due · limit) (s.heap p) []) :
    (Input.timeout limit now t).Safe s ↔
      ((({ s with todo := [] }).setHeap p []).setITimer ⟨0, 0⟩ t).Sound := by
  rw [sound_setHeap (s := { s with todo := [] }) (p := p) (by simp) (setITimer_heap ..),
    setITimer_zero_alarmed]
  have hdue (u : Timer) (hu : u ∈ s.heap p) : p.due u.expire limit = true :=
    (hpops.mem hu).resolve_left List.not_mem_nil
  constructor
  · intro hsafe
    exact ((hsafe p h).1 hdue).imp_left fun ho => ⟨rfl, ho⟩
  · intro hsound p' hp'
    obtain rfl : p = p' := by simpa [h] using hp'
    refine ⟨fun _ => hsound.imp_left And.right, fun u hu => ?_⟩
    have hmem := List.mem_filter.1 hu.mem
    simp [hdue u hmem.1] at hmem

/-- The last handler of a group sets the timer for the top that it leaves. -/
theorem safe_tickTop_iff {limit now t : Time} {rest : TimerHeap} {top : Timer}
    (h : s.todo = [p]) (hpops : Pops (p.due · limit) (s.heap p) rest) (htop : rest.IsTop top)
    (hd : p.due top.expire limit = false) :
    (Input.timeout limit now t).Safe s ↔
      ((({ s with todo := [] }).setHeap p rest).setITimer
        (itValue (top.expire - now)) t).Sound := by
  rw [sound_setHeap (s := { s with todo := [] }) (p := p) (by simp) (setITimer_heap ..),
    setITimer_alarmed]
  have hne : rest ≠ [] := List.ne_nil_of_mem htop.mem
  constructor
  · intro hsafe
    exact .inr ((hsafe p h).2 top (htop.congr (hpops.mem_iff htop hd)))
  · intro hsound p' hp'
    obtain rfl : p = p' := by simpa [h] using hp'
    refine ⟨fun hdue => ?_, fun u hu => ?_⟩
    · exact absurd (hdue top (hpops.subset htop.mem)) (by simp [hd])
    · -- both tops expire at the same time
      have hu' := hu.congr fun v => (hpops.mem_iff htop hd v).symm
      rw [Nat.le_antisymm (hu'.2 top htop.mem) (htop.2 u hu'.mem)]
      exact hsound.resolve_left fun hrest => hne hrest.1

/-- The last handler of a group is left by an exception. -/
theorem safe_raise_iff {limit t : Time} {rest : TimerHeap} (h : s.todo = [p]) :
    (Input.raise limit t rest).Safe s ↔
      ((({ s with todo := [] }).setHeap p rest).elapse t).Sound := by
  rw [sound_setHeap (s := { s with todo := [] }) (p := p) (by simp) (elapse_heap ..),
    elapse_alarmed]
  constructor
  · exact fun hsafe => hsafe p h
  · intro hsound p' hp'
    obtain rfl : p = p' := by simpa [h] using hp'
    exact hsound

end State

/-- **A step keeps the alarm if and only if the condition holds.** -/
theorem Step.safe_iff {i : Input} {s s' : State} (h : Step i s s') (hs : s.Sound) :
    i.Safe s ↔ s'.Sound := by
  cases h with
  | @elapse _ t =>
    refine iff_of_true trivial fun htodo p hp => ?_
    rw [State.elapse_todo] at htodo
    rw [State.elapse_heap] at hp
    exact (s.elapse_alarmed t).2 (hs htodo p hp)
  | coalesce => exact iff_of_true trivial fun _ _ _ => .inr (Nat.succ_pos _)
  | response => exact iff_of_true trivial hs
  | sigalrm => exact iff_of_true trivial fun htodo => by cases htodo
  | request => exact State.safe_request_iff hs
  -- while another handler of the group is still to run, nothing is asked of this one
  | @tickEmpty _ p ps limit now t h _ _ _ hpops =>
    cases ps with
    | cons q qs => exact iff_of_true (fun p' hp => by simp [h] at hp) fun htodo => by simp at htodo
    | nil => exact State.safe_tickEmpty_iff h hpops
  | @tickTop _ p ps limit now t rest top h _ _ _ hpops htop hd =>
    cases ps with
    | cons q qs => exact iff_of_true (fun p' hp => by simp [h] at hp) fun htodo => by simp at htodo
    | nil => exact State.safe_tickTop_iff h hpops htop hd
  | @raise _ p ps limit t rest h =>
    cases ps with
    | cons q qs => exact iff_of_true (fun p' hp => by simp [h] at hp) fun htodo => by simp at htodo
    | nil => exact State.safe_raise_iff h

/-! ## Runs -/

/-- A step that meets the condition. -/
def SafeStep (s s' : State) : Prop := ∃ i : Input, i.Safe s ∧ Step i s s'

/-- A step. -/
def AnyStep (s s' : State) : Prop := ∃ i, Step i s s'

/-- **The alarm is kept** in every run whose steps all meet the condition: between two groups of
handlers, if there is a timer in one of the heaps, `ITIMER_REAL` is armed or a `SIGALRM` is pending.
And the condition is exact: where it fails, the step loses the alarm. -/
theorem sound_of_safe {s : State} (h : Relation.ReflTransGen SafeStep initial s) :
    s.Sound ∧ ∀ i s', Step i s s' → (i.Safe s ↔ s'.Sound) := by
  have hsound : s.Sound := by
    induction h with
    | refl => exact fun _ p hp => absurd rfl hp
    | tail _ hstep ih =>
      obtain ⟨i, hsafe, hi⟩ := hstep
      exact (hi.safe_iff ih).1 hsafe
  exact ⟨hsound, fun i s' hi => hi.safe_iff hsound⟩

/-- The timers of two UDP requests, half a second apart. -/
def timerA : Timer := ⟨1, 0 + timeout, 0⟩
def timerB : Timer := ⟨3, 500000000 + timeout, 1⟩

/-- A request while nothing else is going on: the alarm is set. -/
theorem sound_of_safe_request :
    (initial.push .udp timerA 0 0).Sound ∧ (initial.push .udp timerA 0 0).heap .udp ≠ [] := by
  have hstep : Step (.request .udp timerA 0 0) initial (initial.push .udp timerA 0 0) :=
    .request (Nat.le_refl 0) rfl (Nat.le_refl 0) (Nat.le_refl 0)
  have hsafe : (Input.request .udp timerA 0 0).Safe initial := fun _ _ => .inl (by decide)
  refine ⟨(sound_of_safe (.single ⟨_, hsafe, hstep⟩)).1, ?_⟩
  decide

/-- The first timer expires one second after its request. `UdpTimeoutHandler` sets the alarm for the
second timer, and `TcpTimeoutHandler`, whose heap is empty, stops it. -/
theorem alarm_lost : ¬ ∀ s, Relation.ReflTransGen AnyStep initial s → s.Sound := by
  intro hclaim
  let s₁ := initial.push .udp timerA 0 0
  let s₂ := s₁.push .udp timerB 500000000 500000000
  let s₃ := s₂.elapse 1000000000
  let s₄ : State := { s₃ with pending := 0, todo := [.udp, .tcp] }
  let s₅ := (({ s₄ with todo := [.tcp] }).setHeap .udp [timerB]).setITimer
    (itValue (timerB.expire - (1000000000 : Time))) 1000000000
  let s₆ := (({ s₅ with todo := [] }).setHeap .tcp []).setITimer ⟨0, 0⟩ 1000000000
  have h₁ : Step (.request .udp timerA 0 0) initial s₁ :=
    .request (Nat.le_refl 0) rfl (Nat.le_refl 0) (Nat.le_refl 0)
  have h₂ : Step (.request .udp timerB 500000000 500000000) s₁ s₂ :=
    .request (Nat.zero_le 500000000) rfl (Nat.le_refl _) (Nat.le_refl _)
  have h₃ : Step (.elapse 1000000000) s₂ s₃ := .elapse (by decide)
  have h₄ : Step (.sigalrm .udp) s₃ s₄ := .sigalrm rfl rfl
  -- the first timer is due, the second one is not
  have htop : TimerHeap.IsTop [timerB, timerA] timerA := by simp [TimerHeap.IsTop, timerA, timerB]
  have hpops : Pops (Protocol.udp.due · 1000000000) [timerB, timerA] [timerB] :=
    .pop htop (by decide) .done
  have htop' : TimerHeap.IsTop [timerB] timerB := by simp [TimerHeap.IsTop]
  have h₅ : Step (.timeout 1000000000 1000000000 1000000000) s₄ s₅ :=
    .tickTop rfl (by decide) (Nat.le_refl _) (Nat.le_refl _) hpops htop' (by decide)
  have h₆ : Step (.timeout 1000000000 1000000000 1000000000) s₅ s₆ :=
    .tickEmpty rfl (by decide) (Nat.le_refl _) (Nat.le_refl _) .done
  have hrun : Relation.ReflTransGen AnyStep initial s₆ :=
    ((((((Relation.ReflTransGen.refl.tail ⟨_, h₁⟩).tail ⟨_, h₂⟩).tail ⟨_, h₃⟩).tail ⟨_, h₄⟩).tail
      ⟨_, h₅⟩).tail ⟨_, h₆⟩)
  have halarmed := hclaim s₆ hrun rfl .udp (by decide)
  exact absurd halarmed (by unfold State.Alarmed; decide)

end DnsForwarder.Alarm
