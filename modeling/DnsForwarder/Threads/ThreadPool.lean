import Mathlib.Data.List.Nodup
import Mathlib.Data.List.Range
import Mathlib.Logic.Function.Basic
import Mathlib.Logic.Relation

/-!
# The worker pool

`threadpool.h` and `threadpool.cpp`: a queue of jobs under a mutex, a condition variable and a stop
flag, any number of workers, any callers of `enqueue`, and the destructor. A step is one section
under `m_queue_mutex`, one job, or one call of the condition variable.

Every job that `enqueue` accepts is taken by one worker and run once, in the order of `enqueue` as
far as the taking goes, and none is left when the destructor has joined the workers
(`runs_exactly_once`). No wake-up is lost: a job in the queue has a worker on its feet or a
notification on its way (`no_lost_wakeup`).
-/

namespace DnsForwarder.ThreadPool

/-! ## Workers, callers and the destructor -/

/-- Where a worker is. -/
inductive Thread
  /-- Before the section that looks for a job. -/
  | ready
  /-- In `m_condition.wait`. -/
  | waiting
  /-- In `task()`. -/
  | running (job : ℕ)
  | exited
  deriving DecidableEq

/-- How far the destructor has come. -/
inductive Destructor
  | pending
  | stopped
  | notified
  | joined
  deriving DecidableEq

/-- How a job ends. The `std::packaged_task` around it keeps what it raises. -/
inductive Outcome
  | returned
  | raised
  deriving DecidableEq

/-- The pool, with what has happened so far. A job goes by its place among those accepted. -/
structure State (W J : Type*) where
  tasks : List ℕ
  stop : Bool
  threads : W → Thread
  destructor : Destructor
  /-- The calls of `notify_one` that are still to come. -/
  notifies : ℕ
  accepted : List J
  taken : List (ℕ × W)
  ran : List (ℕ × Outcome)

variable {W J : Type*}

def State.initial : State W J where
  tasks := []
  stop := false
  threads := fun _ => .ready
  destructor := .pending
  notifies := 0
  accepted := []
  taken := []
  ran := []

/-- `notify_all`. -/
def Thread.wake : Thread → Thread
  | waiting => ready
  | t => t

@[simp] theorem Thread.wake_eq_running {t : Thread} {i : ℕ} :
    t.wake = running i ↔ t = running i := by
  cases t <;> simp [wake]

@[simp] theorem Thread.wake_eq_exited {t : Thread} : t.wake = exited ↔ t = exited := by
  cases t <;> simp [wake]

@[simp] theorem Thread.wake_ne_waiting (t : Thread) : t.wake ≠ waiting := by
  cases t <;> simp [wake]

section Steps

variable [DecidableEq W]

/-- Worker `w` goes to `t`. -/
def State.goto (s : State W J) (w : W) (t : Thread) : State W J :=
  { s with threads := Function.update s.threads w t }

@[simp] theorem State.goto_self (s : State W J) (w : W) (t : Thread) :
    (s.goto w t).threads w = t := Function.update_self ..

theorem State.goto_of_ne (s : State W J) {v w : W} (h : v ≠ w) (t : Thread) :
    (s.goto w t).threads v = s.threads v := Function.update_of_ne h ..

/-- What holds of the new place of worker `w` and of all the old places holds of all the new
ones. -/
theorem State.goto_forall {s : State W J} {w : W} {t : Thread} {p : Thread → Prop} (ht : p t)
    (h : ∀ v, p (s.threads v)) (v : W) : p ((s.goto w t).threads v) := by
  by_cases hv : v = w
  · subst hv
    rwa [goto_self]
  · rw [goto_of_ne s hv]
    exact h v

inductive Step : State W J → State W J → Prop
  | enqueue {s} (job : J) (h : s.stop = false) :
    Step s { s with
      tasks := s.tasks ++ [s.accepted.length]
      accepted := s.accepted ++ [job]
      notifies := s.notifies + 1 }
  /-- `enqueue` raises: "enqueue on stopped ThreadPool". -/
  | refuse {s} (h : s.stop = true) : Step s s
  | notifyOne {s} (w : W) (hn : 0 < s.notifies) (h : s.threads w = .waiting) :
    Step s { s.goto w .ready with notifies := s.notifies - 1 }
  /-- Nobody waits. -/
  | notifyNone {s} (hn : 0 < s.notifies) (h : ∀ w, s.threads w ≠ .waiting) :
    Step s { s with notifies := s.notifies - 1 }
  | spurious {s} (w : W) (h : s.threads w = .waiting) : Step s (s.goto w .ready)
  | wait {s} (w : W) (h : s.threads w = .ready) (hstop : s.stop = false) (htasks : s.tasks = []) :
    Step s (s.goto w .waiting)
  | exit {s} (w : W) (h : s.threads w = .ready) (hstop : s.stop = true) (htasks : s.tasks = []) :
    Step s (s.goto w .exited)
  | take {s} (w : W) {i : ℕ} {tasks : List ℕ} (h : s.threads w = .ready)
    (htasks : s.tasks = i :: tasks) :
    Step s { s.goto w (.running i) with tasks := tasks, taken := s.taken ++ [(i, w)] }
  | finish {s} (w : W) {i : ℕ} (o : Outcome) (h : s.threads w = .running i) :
    Step s { s.goto w .ready with ran := s.ran ++ [(i, o)] }
  | stop {s} (h : s.destructor = .pending) : Step s { s with stop := true, destructor := .stopped }
  | notifyAll {s} (h : s.destructor = .stopped) :
    Step s { s with threads := fun w => (s.threads w).wake, destructor := .notified }
  | join {s} (h : s.destructor = .notified) (hexit : ∀ w, s.threads w = .exited) :
    Step s { s with destructor := .joined }

/-- A run. -/
abbrev Reaches : State W J → State W J → Prop := Relation.ReflTransGen Step

end Steps

/-! ## The invariant -/

/-- What holds in every state of a run. -/
structure Ok (s : State W J) : Prop where
  /-- The jobs taken and those in the queue are the jobs accepted, in the same order. -/
  order : s.taken.map Prod.fst ++ s.tasks = List.range s.accepted.length
  stop_iff : s.stop = true ↔ s.destructor ≠ .pending
  /-- A worker runs the jobs it has taken and nobody has finished. -/
  running : ∀ w i, s.threads w = .running i ↔ (i, w) ∈ s.taken ∧ i ∉ s.ran.map Prod.fst
  ran_nodup : (s.ran.map Prod.fst).Nodup
  ran_taken : ∀ i ∈ s.ran.map Prod.fst, i ∈ s.taken.map Prod.fst
  exited : ∀ w, s.threads w = .exited → s.stop = true ∧ s.tasks = []
  awake : s.destructor = .notified ∨ s.destructor = .joined → ∀ w, s.threads w ≠ .waiting
  joined : s.destructor = .joined → ∀ w, s.threads w = .exited

/-- Job `i` is in the queue or being run. -/
def State.Left (s : State W J) (i : ℕ) : Prop := i ∈ s.tasks ∨ ∃ w, s.threads w = .running i

namespace Ok

variable {s s' : State W J}

theorem initial : Ok (State.initial : State W J) where
  order := rfl
  stop_iff := by simp [State.initial]
  running := by simp [State.initial]
  ran_nodup := List.nodup_nil
  ran_taken := by simp [State.initial]
  exited := by simp [State.initial]
  awake := by simp [State.initial]
  joined := by simp [State.initial]

theorem nodup (h : Ok s) : (s.taken.map Prod.fst ++ s.tasks).Nodup := h.order ▸ List.nodup_range

/-- No job is taken twice. -/
theorem taken_unique (h : Ok s) {i : ℕ} {v w : W} (hv : (i, v) ∈ s.taken) (hw : (i, w) ∈ s.taken) :
    v = w := by
  have hnodup := (List.nodup_append.1 h.nodup).1
  exact (Prod.mk.inj (List.inj_on_of_nodup_map hnodup hv hw rfl)).2

/-- While a worker is there, the destructor has not joined all of them. -/
theorem not_joined (h : Ok s) {w : W} (hw : s.threads w ≠ .exited) : s.destructor ≠ .joined :=
  fun hd => hw (h.joined hd w)

/-- The flag is not set before the destructor sets it. -/
theorem not_awake (h : Ok s) (hstop : s.stop = false) :
    ¬ (s.destructor = .notified ∨ s.destructor = .joined) := by
  intro hd
  have hset : s.stop = true := h.stop_iff.2 (by rcases hd with hd | hd <;> simp [hd])
  rw [hstop] at hset
  cases hset

/-- The notifications under way are of no account. -/
theorem notifies (h : Ok s) (n : ℕ) : Ok { s with notifies := n } :=
  ⟨h.order, h.stop_iff, h.running, h.ran_nodup, h.ran_taken, h.exited, h.awake, h.joined⟩

theorem enqueue (h : Ok s) (job : J) (hstop : s.stop = false) :
    Ok { s with tasks := s.tasks ++ [s.accepted.length], accepted := s.accepted ++ [job] } where
  order := by
    rw [← List.append_assoc, h.order, List.length_append, List.length_singleton, List.range_succ]
  stop_iff := h.stop_iff
  running := h.running
  ran_nodup := h.ran_nodup
  ran_taken := h.ran_taken
  exited w hw := by
    have hs := (h.exited w hw).1
    rw [hstop] at hs
    cases hs
  awake := h.awake
  joined := h.joined

theorem stop (h : Ok s) :
    Ok { s with stop := true, destructor := .stopped } where
  order := h.order
  stop_iff := by simp
  running := h.running
  ran_nodup := h.ran_nodup
  ran_taken := h.ran_taken
  exited w hw := ⟨rfl, (h.exited w hw).2⟩
  awake := by simp
  joined := by simp

theorem notifyAll (h : Ok s) (hd : s.destructor = .stopped) :
    Ok { s with threads := fun w => (s.threads w).wake, destructor := .notified } where
  order := h.order
  stop_iff := by simpa [hd] using h.stop_iff
  running w i := Thread.wake_eq_running.trans (h.running w i)
  ran_nodup := h.ran_nodup
  ran_taken := h.ran_taken
  exited w hw := h.exited w (Thread.wake_eq_exited.1 hw)
  awake _ w := Thread.wake_ne_waiting _
  joined := by simp

theorem join (h : Ok s) (hd : s.destructor = .notified) (hexit : ∀ w, s.threads w = .exited) :
    Ok { s with destructor := .joined } where
  order := h.order
  stop_iff := by simpa [hd] using h.stop_iff
  running := h.running
  ran_nodup := h.ran_nodup
  ran_taken := h.ran_taken
  exited := h.exited
  awake _ w := by simp [hexit w]
  joined _ := hexit

/-- The jobs taken are the first ones accepted. -/
theorem taken_eq (h : Ok s) : s.taken.map Prod.fst = List.range s.taken.length ∧
    s.taken.length + s.tasks.length = s.accepted.length := by
  have hlen : s.taken.length + s.tasks.length = s.accepted.length := by
    simpa using congrArg List.length h.order
  have htake : s.taken.map Prod.fst = (List.range s.accepted.length).take s.taken.length := by
    rw [← h.order, List.take_left' (List.length_map _)]
  rw [List.take_range, Nat.min_eq_left (by omega)] at htake
  exact ⟨htake, hlen⟩

/-- When all workers are gone, every job has been taken and run. -/
theorem drained [Nonempty W] (h : Ok s) (hexit : ∀ w, s.threads w = .exited) :
    s.taken.length = s.accepted.length ∧
      ∀ i < s.accepted.length, ∃! w, (i, w) ∈ s.taken ∧ ∃ o, (i, o) ∈ s.ran := by
  obtain ⟨horder, hlen⟩ := h.taken_eq
  have htasks : s.tasks = [] := (h.exited (Classical.arbitrary W) (hexit _)).2
  rw [htasks, List.length_nil, Nat.add_zero] at hlen
  refine ⟨hlen, fun i hi => ?_⟩
  obtain ⟨⟨j, w⟩, htaken, rfl⟩ : ∃ x ∈ s.taken, x.1 = i := by
    rw [← List.mem_map, horder, hlen]
    exact List.mem_range.2 hi
  have hran : j ∈ s.ran.map Prod.fst := by
    by_contra hran
    have hrunning := (h.running w j).2 ⟨htaken, hran⟩
    rw [hexit w] at hrunning
    cases hrunning
  obtain ⟨⟨k, o⟩, ho, rfl⟩ := List.mem_map.1 hran
  exact ⟨w, ⟨htaken, o, ho⟩, fun v hv => h.taken_unique hv.1 htaken⟩

/-- No job is left when the joins are over. -/
theorem none_left [Nonempty W] (h : Ok s) (hd : s.destructor = .joined) (i : ℕ) : ¬ s.Left i := by
  have hexit := h.joined hd
  rintro (hi | ⟨w, hw⟩)
  · rw [(h.exited (Classical.arbitrary W) (hexit _)).2] at hi
    cases hi
  · rw [hexit w] at hw
    cases hw

variable [DecidableEq W]

/-- A worker goes from one place without a job to another. -/
theorem goto (h : Ok s) {w : W} {t : Thread} (hw : ∀ i, s.threads w ≠ .running i)
    (hgone : s.threads w ≠ .exited) (ht : ∀ i, t ≠ .running i)
    (hexit : t = .exited → s.stop = true ∧ s.tasks = [])
    (hwait : t = .waiting → s.stop = false) : Ok (s.goto w t) where
  order := h.order
  stop_iff := h.stop_iff
  running v i := by
    refine Iff.trans ?_ (h.running v i)
    by_cases hv : v = w
    · subst hv
      rw [State.goto_self]
      exact iff_of_false (ht i) (hw i)
    · rw [State.goto_of_ne s hv]
  ran_nodup := h.ran_nodup
  ran_taken := h.ran_taken
  exited := State.goto_forall (p := fun t' => t' = .exited → _) hexit h.exited
  awake hd := State.goto_forall (p := fun t' => t' ≠ .waiting)
    (fun hwaiting => h.not_awake (hwait hwaiting) hd) (h.awake hd)
  joined hd := absurd hd (h.not_joined hgone)

theorem take (h : Ok s) {w : W} {i : ℕ} {tasks : List ℕ} (hw : s.threads w = .ready)
    (htasks : s.tasks = i :: tasks) :
    Ok { s.goto w (.running i) with tasks := tasks, taken := s.taken ++ [(i, w)] } where
  order := by
    have horder := h.order
    rw [htasks] at horder
    simpa [State.goto] using horder
  stop_iff := h.stop_iff
  running v j := by
    have hnew : i ∉ s.ran.map Prod.fst := by
      intro hran
      have hnodup := h.nodup
      rw [htasks, List.nodup_append] at hnodup
      exact hnodup.2.2 i (h.ran_taken i hran) i List.mem_cons_self rfl
    have hold := h.running v j
    by_cases hv : v = w
    · -- worker `w` has nothing else to finish
      subst hv
      rw [hw] at hold
      have hnone : (j, v) ∈ s.taken → j ∈ s.ran.map Prod.fst := by simpa using hold
      simp only [State.goto, Function.update_self, Thread.running.injEq, List.mem_append,
        List.mem_singleton, Prod.mk.injEq, and_true]
      constructor
      · rintro rfl
        exact ⟨.inr rfl, hnew⟩
      · rintro ⟨hj | hj, hran⟩
        · exact absurd (hnone hj) hran
        · exact hj.symm
    · simpa [State.goto, hv] using hold
  ran_nodup := h.ran_nodup
  ran_taken j hj := by
    rw [List.map_append]
    exact List.mem_append_left _ (h.ran_taken j hj)
  exited := State.goto_forall (p := fun t' => t' = .exited → _) (by simp) fun v hv => by
    have hnil := (h.exited v hv).2
    rw [htasks] at hnil
    cases hnil
  awake hd := State.goto_forall (p := fun t' => t' ≠ .waiting) (by simp) (h.awake hd)
  joined hd := absurd hd (h.not_joined (w := w) (by simp [hw]))

theorem finish (h : Ok s) {w : W} {i : ℕ} (o : Outcome) (hw : s.threads w = .running i) :
    Ok { s.goto w .ready with ran := s.ran ++ [(i, o)] } where
  order := h.order
  stop_iff := h.stop_iff
  running v j := by
    obtain ⟨htaken, hran⟩ := (h.running w i).1 hw
    have hold := h.running v j
    simp only [State.goto, List.map_append, List.map_cons, List.map_nil, List.mem_append,
      List.mem_singleton, not_or]
    by_cases hv : v = w
    · subst hv
      rw [Function.update_self]
      refine iff_of_false (by simp) ?_
      rintro ⟨hj, hold', hne⟩
      have hrunning := hold.2 ⟨hj, hold'⟩
      rw [hw] at hrunning
      exact hne (Thread.running.inj hrunning).symm
    · rw [Function.update_of_ne hv, hold]
      refine and_congr_right fun hj => (and_iff_left ?_).symm
      rintro rfl
      exact hv (h.taken_unique hj htaken)
  ran_nodup := by
    obtain ⟨-, hran⟩ := (h.running w i).1 hw
    rw [List.map_append]
    exact List.Nodup.append h.ran_nodup (List.nodup_singleton i) (by simpa using hran)
  ran_taken j hj := by
    obtain ⟨htaken, -⟩ := (h.running w i).1 hw
    rw [List.map_append, List.mem_append] at hj
    rcases hj with hj | hj
    · exact h.ran_taken j hj
    · obtain rfl : j = i := by simpa using hj
      exact List.mem_map_of_mem htaken
  exited := State.goto_forall (p := fun t' => t' = .exited → _) (by simp) h.exited
  awake hd := State.goto_forall (p := fun t' => t' ≠ .waiting) (by simp) (h.awake hd)
  joined hd := absurd hd (h.not_joined (w := w) (by simp [hw]))

/-- **Every step keeps the invariant.** -/
theorem step (h : Ok s) (hs : Step s s') : Ok s' := by
  cases hs with
  | enqueue job hstop => exact (h.enqueue job hstop).notifies _
  | refuse => exact h
  | notifyOne w _ hw =>
    exact (h.goto (by simp [hw]) (by simp [hw]) (by simp) (by simp) (by simp)).notifies _
  | notifyNone => exact h.notifies _
  | spurious w hw => exact h.goto (by simp [hw]) (by simp [hw]) (by simp) (by simp) (by simp)
  | wait w hw hstop => exact h.goto (by simp [hw]) (by simp [hw]) (by simp) (by simp) fun _ => hstop
  | exit w hw hstop htasks =>
    exact h.goto (by simp [hw]) (by simp [hw]) (by simp) (fun _ => ⟨hstop, htasks⟩) (by simp)
  | take w hw htasks => exact h.take hw htasks
  | finish w o hw => exact h.finish o hw
  | stop => exact h.stop
  | notifyAll hd => exact h.notifyAll hd
  | join hd hexit => exact h.join hd hexit

theorem reaches (h : Reaches State.initial s) : Ok s := by
  induction h with
  | refl => exact initial
  | tail _ hs ih => exact ih.step hs

end Ok

/-! ## Exactly once -/

/-- What the pool guarantees in every state of a run. -/
structure ExactlyOnce [DecidableEq W] (s : State W J) : Prop where
  /-- The jobs leave the queue in the order in which they were accepted. -/
  order : s.taken.map Prod.fst = List.range s.taken.length
  /-- Each of them is one that was accepted. -/
  accepted : s.taken.length ≤ s.accepted.length
  /-- No job is taken by two workers. -/
  one_worker : ∀ i v w, (i, v) ∈ s.taken → (i, w) ∈ s.taken → v = w
  /-- No job is run twice. -/
  run_once : (s.ran.map Prod.fst).Nodup
  /-- Only what was taken is run. -/
  run_taken : ∀ i o, (i, o) ∈ s.ran → ∃ w, (i, w) ∈ s.taken
  /-- A worker is gone only if the flag is set and the queue is empty. -/
  exited : ∀ w, s.threads w = .exited → s.stop = true ∧ s.tasks = []
  /-- Once the flag is set no job is accepted. -/
  closed : s.stop = true → ∀ s', Reaches s s' → s'.stop = true ∧ s'.accepted = s.accepted
  /-- When the joins are over, every accepted job has been taken by one worker and run. -/
  drained : s.destructor = .joined → s.taken.length = s.accepted.length ∧
    ∀ i < s.accepted.length, ∃! w, (i, w) ∈ s.taken ∧ ∃ o, (i, o) ∈ s.ran

variable [DecidableEq W] {s s' : State W J}

/-- Once the flag is set it stays, and nothing more is accepted. -/
theorem closed_of_reaches (hstop : s.stop = true) (h : Reaches s s') :
    s'.stop = true ∧ s'.accepted = s.accepted := by
  induction h with
  | refl => exact ⟨hstop, rfl⟩
  | tail _ hs ih =>
    cases hs with
    | enqueue job hopen =>
      rw [ih.1] at hopen
      cases hopen
    | stop => exact ⟨rfl, ih.2⟩
    | _ => exact ih

/-- **Every job is run exactly once.** Whatever the callers, the workers and the destructor do in
whatever order: jobs leave the queue in the order of `enqueue`, each is taken by one worker and run
once, none is accepted when the flag is set, a worker leaves only with the flag set and the queue
empty, and when the joins are over every accepted job has run. -/
theorem runs_exactly_once [Nonempty W] (h : Reaches State.initial s) : ExactlyOnce s where
  order := (Ok.reaches h).taken_eq.1
  accepted := by
    have hlen := (Ok.reaches h).taken_eq.2
    omega
  one_worker _ _ _ := (Ok.reaches h).taken_unique
  run_once := (Ok.reaches h).ran_nodup
  run_taken i o hi := by
    obtain ⟨⟨_, w⟩, hw, rfl⟩ := List.mem_map.1
      ((Ok.reaches h).ran_taken i (List.mem_map_of_mem (f := Prod.fst) hi))
    exact ⟨w, hw⟩
  exited := (Ok.reaches h).exited
  closed hstop _ hr := closed_of_reaches hstop hr
  drained hd := (Ok.reaches h).drained ((Ok.reaches h).joined hd)

/-- Two workers run a job each at the same time, the second one ends first, the first one raises,
and the pool is destroyed. -/
theorem runs_exactly_once_job : ∃ s : State Bool String, Reaches State.initial s ∧
    s.destructor = .joined ∧ s.accepted = ["first", "second"] ∧
    s.taken = [(0, false), (1, true)] ∧ s.ran = [(1, .returned), (0, .raised)] ∧
    ExactlyOnce s := by
  have h₁ := Relation.ReflTransGen.single
    (Step.enqueue (s := (State.initial : State Bool String)) "first" rfl)
  have h₂ := ((h₁.tail (.enqueue "second" rfl)).tail (.take false rfl rfl)).tail
    (.take true rfl rfl)
  have h₃ := (h₂.tail (.finish true .returned rfl)).tail (.finish false .raised rfl)
  have h₄ := (h₃.tail (.stop rfl)).tail (.notifyAll rfl)
  have h₅ := ((h₄.tail (.exit false rfl rfl rfl)).tail (.exit true rfl rfl rfl)).tail
    (.join rfl fun w => by cases w <;> rfl)
  exact ⟨_, h₅, rfl, rfl, rfl, rfl, runs_exactly_once h₅⟩

/-! ## Jobs that are queued or running -/

/-- A step other than `enqueue` leaves no job that was not left before. -/
theorem left_of_step {i : ℕ} (hs : Step s s') (haccepted : s'.accepted = s.accepted)
    (h : s'.Left i) : s.Left i := by
  have hback : ∀ {w : W} {t : Thread}, (∀ j, t ≠ .running j) →
      (∃ v, (s.goto w t).threads v = .running i) → ∃ v, s.threads v = .running i := by
    rintro w t ht ⟨v, hv⟩
    by_cases hvw : v = w
    · subst hvw
      rw [State.goto_self] at hv
      exact absurd hv (ht i)
    · exact ⟨v, by rwa [State.goto_of_ne s hvw] at hv⟩
  cases hs with
  | enqueue job => simp at haccepted
  | refuse => exact h
  | notifyOne w => exact h.imp_right (hback (by simp))
  | notifyNone => exact h
  | spurious w => exact h.imp_right (hback (by simp))
  | wait w => exact h.imp_right (hback (by simp))
  | exit w => exact h.imp_right (hback (by simp))
  | @take w j tasks hw htasks =>
    rw [State.Left, htasks]
    rcases h with h | ⟨v, hv⟩
    · exact .inl (List.mem_cons_of_mem _ h)
    · by_cases hvw : v = w
      · subst hvw
        obtain rfl : j = i := by simpa using hv
        exact .inl List.mem_cons_self
      · exact .inr ⟨v, by rwa [← State.goto_of_ne s hvw (.running j)]⟩
  | finish w => exact h.imp_right (hback (by simp))
  | stop => exact h
  | notifyAll =>
    obtain h | ⟨v, hv⟩ := h
    · exact .inl h
    · exact .inr ⟨v, Thread.wake_eq_running.1 hv⟩
  | join => exact h

/-- A step of a worker. -/
def Work (s s' : State W J) : Prop :=
  Step s s' ∧ s'.accepted = s.accepted ∧ s'.destructor = s.destructor

/-- A worker comes to look for a job. -/
theorem to_ready (h : Ok s) (w : W) (htasks : s.tasks ≠ []) :
    ∃ s', Relation.ReflTransGen Work s s' ∧ Ok s' ∧ s'.tasks = s.tasks ∧
      s'.threads w = .ready := by
  cases hw : s.threads w with
  | ready => exact ⟨s, .refl, h, rfl, hw⟩
  | waiting =>
    have hs := Step.spurious w hw
    exact ⟨_, .single ⟨hs, rfl, rfl⟩, h.step hs, rfl, State.goto_self ..⟩
  | running i =>
    have hs := Step.finish w .returned hw
    exact ⟨_, .single ⟨hs, rfl, rfl⟩, h.step hs, rfl, State.goto_self ..⟩
  | exited => exact absurd (h.exited w hw).2 htasks

/-- The workers can go on until a job in the queue is run. -/
theorem comes_to_run [Nonempty W] (h : Ok s) {i : ℕ} (hi : i ∈ s.tasks) :
    ∃ s', Relation.ReflTransGen Work s s' ∧ ∃ w, s'.threads w = .running i := by
  generalize htasks : s.tasks = tasks at hi
  induction tasks generalizing s with
  | nil => cases hi
  | cons j tasks ih =>
    have w : W := Classical.arbitrary W
    obtain ⟨s₁, hr, hok, htasks₁, hw⟩ := to_ready h w (by simp [htasks])
    have hs := Step.take w hw (htasks₁.trans htasks)
    by_cases hij : i = j
    · subst hij
      exact ⟨_, hr.tail ⟨hs, rfl, rfl⟩, w, State.goto_self ..⟩
    · obtain ⟨s₂, hr₂, hrun⟩ := ih (hok.step hs) rfl (List.mem_of_ne_of_mem hij hi)
      exact ⟨s₂, (hr.tail ⟨hs, rfl, rfl⟩).trans hr₂, hrun⟩

/-! ## Wake-ups -/

/-- A job in the queue has a notification on its way or a worker that does not wait. -/
def Awake (s : State W J) : Prop := s.tasks ≠ [] → 0 < s.notifies ∨ ∃ w, s.threads w ≠ .waiting

theorem Awake.step [Nonempty W] (h : Awake s) (hs : Step s s') : Awake s' := by
  cases hs with
  | enqueue => exact fun _ => .inl (Nat.succ_pos _)
  | refuse => exact h
  | notifyOne w => exact fun _ => .inr ⟨w, by simp⟩
  | notifyNone _ hnone => exact fun _ => .inr ⟨Classical.arbitrary W, hnone _⟩
  | spurious w => exact fun _ => .inr ⟨w, by simp⟩
  | wait w _ _ htasks => exact fun hne => absurd htasks hne
  | exit w => exact fun _ => .inr ⟨w, by simp⟩
  | take w => exact fun _ => .inr ⟨w, by simp⟩
  | finish w => exact fun _ => .inr ⟨w, by simp⟩
  | stop => exact h
  | notifyAll => exact fun _ => .inr ⟨Classical.arbitrary W, Thread.wake_ne_waiting _⟩
  | join => exact h

theorem Awake.reaches [Nonempty W] (h : Reaches State.initial s) : Awake s := by
  induction h with
  | refl => exact fun hne => absurd rfl hne
  | tail _ hs ih => exact ih.step hs

/-- **No wake-up is lost.** While a job is in the queue, a notification is on its way or some worker
is about to look for a job or will be when its own has ended. -/
theorem no_lost_wakeup [Nonempty W] (h : Reaches State.initial s) (htasks : s.tasks ≠ []) :
    0 < s.notifies ∨ ∃ w, s.threads w = .ready ∨ ∃ i, s.threads w = .running i := by
  apply (Awake.reaches h htasks).imp_right
  rintro ⟨w, hw⟩
  refine ⟨w, ?_⟩
  cases ht : s.threads w with
  | ready => exact .inl rfl
  | waiting => exact absurd ht hw
  | running i => exact .inr ⟨i, rfl⟩
  | exited => exact absurd ((Ok.reaches h).exited w ht).2 htasks

end DnsForwarder.ThreadPool
