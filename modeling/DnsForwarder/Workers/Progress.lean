import DnsForwarder.Foundations.Amortized
import DnsForwarder.Workers.Expiry

/-!
# How much the workers do, and where they stop

The loops of the handlers end, under any interleaving: between them the workers take no more steps
than a constant for every handler that is started and for every message that is received
(`work_bounded`), though a handler may find in the heap what others are just pushing. And the
workers do not stop half-way, but where C++ gives the next operation no meaning or an encoding does
not end (`Worker.Stuck`, `handlers_finish`): the one mutex that is held for longer than a step is
held by a worker that can go on.
-/

namespace DnsForwarder

open Interleaving

variable {P : Transport}

/-! ## What a handler has left to do -/

namespace Worker

/-- The steps between the end of the look-up and the end of the iteration, with the loop behind it:
`TimeoutHandler` has yet to look at the heap and to set the alarm. -/
def loopLeft : Job P → ℕ
  | .response _ _ => 1
  | .expiry _ _ => 4

/-- The most steps that a worker takes before it is idle or receives another message, when a query
goes to `m` nameservers at most. A timer in the heap accounts for 11 more. -/
def left (m : ℕ) : Worker P → ℕ
  | idle => 0
  | serverLoop => 1
  | putPop _ => m + 19
  | putStore _ _ => m + 18
  | pushInsert _ _ => m + 17
  | pushSize _ _ => m + 5
  | pushArm _ _ => m + 4
  | encode _ _ => m + 3
  | forward _ _ todo => todo.length + 2
  | clientLoop => 1
  | heapEmpty _ => 4
  | heapTop _ => 3
  | heapPop _ => 2
  | timerValid _ _ => 12
  | tickEmpty => 2
  | tickTop => 1
  | hasTask job => loopLeft job + 7
  | getTask job => loopLeft job + 6
  | compare job _ => loopLeft job + 5
  | delTask job _ => loopLeft job + 4
  | delPush job _ => loopLeft job + 3
  | answer job _ => loopLeft job + 2
  | answered job _ => loopLeft job + 1

theorem left_skip_le (m : ℕ) (job : Job P) : job.skip.left m ≤ loopLeft job := by
  cases job with
  | response => exact Nat.zero_le _
  | expiry => exact le_rfl

theorem left_again (m : ℕ) (job : Job P) : job.again.left m = loopLeft job := by
  cases job <;> rfl

/-! ## What is added to it -/

/-- A handler is started. -/
def Starts : Worker P × Worker P → Bool
  | (idle, _) => true
  | _ => false

/-- A message is received and made into a task. -/
def ReceivesQuery : Worker P × Worker P → Bool
  | (serverLoop, putPop _) => true
  | _ => false

/-- A message is received and looked up. -/
def ReceivesResponse : Worker P × Worker P → Bool
  | (clientLoop, hasTask _) => true
  | _ => false

/-- The move neither starts a handler nor receives a message. -/
def Quiet (move : Worker P × Worker P) : Bool :=
  !Starts move && !ReceivesQuery move && !ReceivesResponse move

/-- What a move adds to the work, the move included. -/
def credit (m : ℕ) (move : Worker P × Worker P) : ℕ :=
  5 * (Starts move).toNat + 8 * (ReceivesResponse move).toNat +
    (m + 19) * (ReceivesQuery move).toNat

variable {l l' : Worker P} {s s' : Shared P} {m : ℕ}

theorem Move.left_le {now : Time} (hm : ∀ todo, P.targets todo → todo.length ≤ m)
    (h : Move s now l l') : l'.left m + 1 ≤ l.left m + credit m (l, l') := by
  cases h with
  | encode _ ht =>
    have hle := hm _ ht
    simp only [left]
    omega
  | clientReceive => simp [left, loopLeft, credit, Starts, ReceivesResponse, ReceivesQuery]
  | @hasTaskFalse job =>
    have hle := left_skip_le m job
    show job.skip.left m + 1 ≤ loopLeft job + 7 + credit m _
    omega
  | startServer | startClient | startTimeout =>
    simp only [left, credit, Starts, Bool.toNat_true]
    omega
  | _ => simp only [left, loopLeft]; omega

theorem Drop.left_le {t : Task P.Client} (h : Drop l t l') : l'.left m + 1 ≤ l.left m := by
  cases h with
  | @compareOther job =>
    have hle := left_skip_le m job
    show job.skip.left m + 1 ≤ loopLeft job + 5
    omega
  | answerGone | answeredEnd =>
    rw [left_again]
    simp only [left]
    omega
  | _ => simp only [left]; omega

/-- **A step does one step of the work.** -/
theorem Act.left_le (hm : ∀ todo, P.targets todo → todo.length ≤ m) (h : Act l s l' s') :
    l'.left m + 11 * s'.timerHeap.length + 1 ≤
      l.left m + 11 * s.timerHeap.length + credit m (l, l') := by
  cases h with
  | move _ h =>
    have hle := h.left_le hm
    simp only
    omega
  | serverReceive =>
    simp only [left, credit, Starts, ReceivesResponse, ReceivesQuery, Shared.makeTask_timerHeap]
    simp
    omega
  | pushInsert =>
    simp only [left, List.length_cons]
    omega
  | heapPop h =>
    have hlen := List.length_erase_of_mem h.mem
    have hpos := List.length_pos_of_mem h.mem
    simp only [left]
    omega
  | drop h =>
    have hle := h.left_le (m := m)
    rw [Shared.release_timerHeap]
    omega
  | _ => simp [left]; omega

end Worker

theorem Worker.sum_credit (m : ℕ) (moves : List (Worker P × Worker P)) :
    (moves.map (Worker.credit m)).sum = 5 * moves.countP Worker.Starts +
      8 * moves.countP Worker.ReceivesResponse + (m + 19) * moves.countP Worker.ReceivesQuery := by
  unfold Worker.credit
  rw [List.sum_map_add, List.sum_map_add, Interleaving.sum_credit, Interleaving.sum_credit,
    Interleaving.sum_credit]

theorem Worker.sum_credit_of_quiet {m : ℕ} {moves : List (Worker P × Worker P)}
    (h : ∀ move ∈ moves, Worker.Quiet move = true) : (moves.map (Worker.credit m)).sum = 0 := by
  refine List.sum_eq_zero fun k hk => ?_
  obtain ⟨move, hmove, rfl⟩ := List.mem_map.1 hk
  have hquiet := h move hmove
  simp only [Worker.Quiet, Bool.and_eq_true, Bool.not_eq_true'] at hquiet
  simp [Worker.credit, hquiet.1.1, hquiet.1.2, hquiet.2]

/-- A query goes to each nameserver once at most. -/
theorem udp_targets_le {remoteAddr4 : List SockAddrIn} {remoteAddr6 : List SockAddrIn6} :
    ∀ todo, (Transport.udp remoteAddr4 remoteAddr6).targets todo →
      todo.length ≤ remoteAddr4.length + remoteAddr6.length := by
  rintro todo rfl
  have hlen : (remoteAddr4.map SockAddr.v4 ++ remoteAddr6.map SockAddr.v6).length =
      remoteAddr4.length + remoteAddr6.length := by simp
  exact hlen.le

/-- **The work is bounded.** In every run of any number of UDP workers, in any order, the number of
steps is at most 5 for every handler that was started, 8 for every response and `m + 19` for every
query that was received, with `m` nameservers. -/
theorem work_bounded {W : Type*} [DecidableEq W] [Fintype W] {remoteAddr4 : List SockAddrIn}
    {remoteAddr6 : List SockAddrIn6}
    {c : Config W (Shared (.udp remoteAddr4 remoteAddr6)) (Worker (.udp remoteAddr4 remoteAddr6))}
    {moves : List (Worker (.udp remoteAddr4 remoteAddr6) × Worker (.udp remoteAddr4 remoteAddr6))}
    (h : Runs Worker.Act (initial _ W) moves c) :
    moves.length ≤ 5 * moves.countP Worker.Starts + 8 * moves.countP Worker.ReceivesResponse +
      (remoteAddr4.length + remoteAddr6.length + 19) * moves.countP Worker.ReceivesQuery := by
  have hle := h.length_le (f := Worker.left (remoteAddr4.length + remoteAddr6.length))
    (g := fun s => 11 * s.timerHeap.length) fun _ _ _ _ hA => hA.left_le udp_targets_le
  rw [Worker.sum_credit] at hle
  have hzero : total (Worker.left (remoteAddr4.length + remoteAddr6.length))
      (fun s => 11 * s.timerHeap.length)
      (initial (.udp remoteAddr4 remoteAddr6) W) = 0 := by
    simp [total, initial, Shared.initial, Worker.left]
  rwa [hzero, Nat.zero_add] at hle

/-- A query and its answer, by two workers. -/
theorem work_bounded_root : ∃ moves, ∃ c : Config Bool (Shared oneServer) (Worker oneServer),
    Runs Worker.Act (initial oneServer Bool) moves c ∧
      (∃ data, .answer 0 stub (rootQuery 7) data ∈ c.shared.log) ∧
      moves.length ≤ 5 * moves.countP Worker.Starts + 8 * moves.countP Worker.ReceivesResponse +
        20 * moves.countP Worker.ReceivesQuery := by
  obtain ⟨s, hreach, out, l, hlog⟩ := answered_run false true
  obtain ⟨moves, hruns⟩ := Runs.of_reaches hreach
  exact ⟨moves, _, hruns, ⟨out, by simp [hlog]⟩, work_bounded hruns⟩

/-! ## Where a worker stops -/

namespace Worker

/-- The places where a worker has no next step: what C++ gives no meaning, and encodings that do not
end. -/
inductive Stuck (s : Shared P) : Worker P → Prop
  /-- `front` of an empty index queue. -/
  | noIndex {task} (h : s.taskPool.indexQueue = []) : Stuck s (.putPop task)
  | noQuery {task index} (h : ∀ data, ¬ (task.queryPacket.withId index).Serializes data) :
    Stuck s (.encode task index)
  /-- `top` of an empty heap. -/
  | heapTop {limit} (h : s.timerHeap = []) : Stuck s (.heapTop limit)
  /-- `pop` of an empty heap. -/
  | heapPop {limit} (h : s.timerHeap = []) : Stuck s (.heapPop limit)
  | tickTop (h : s.timerHeap = []) : Stuck s .tickTop
  /-- A member of a null task. -/
  | noTask {job} (h : s.taskPool.pool job.index = none) (hm : s.taskPool.poolMutex = false) :
    Stuck s (.getTask job)
  /-- `questions[0]` of a packet without questions. -/
  | noQuestion {job task} (h : job.accepts task = true) (hq : ¬ job.Readable) :
    Stuck s (.compare job task)
  | noAnswer {job task} (hP : P.mayDepart = false)
    (h : ∀ junk data, ¬ (job.reply junk task).Serializes data) : Stuck s (.answer job task)

/-- Before a section of the pool. -/
def Waits : Worker P → Prop
  | putStore _ _ | hasTask _ | getTask _ | delTask _ _ => True
  | _ => False

/-- In `DelTask`, with the pool mutex. -/
def HoldsPool : Worker P → Prop
  | delPush _ _ => True
  | _ => False

variable {l l' : Worker P} {s s' : Shared P}

theorem HoldsPool.exists_act (h : l.HoldsPool) :
    ∃ l' s', Act l s l' s' ∧ Quiet (l, l') = true := by
  cases l <;> first | exact h.elim | exact ⟨_, _, .delPush, rfl⟩

/-- Where a worker is stuck it has no step. -/
theorem Stuck.not_act (h : l.Stuck s) (hA : Act l s l' s') : False := by
  cases h with
  | noIndex h =>
    cases hA with
    | popIndex hpop => rw [(TaskPool.popIndex_eq_some hpop).1] at h; cases h
    | move _ h => cases h
    | drop h => cases h
  | noQuery h =>
    cases hA with
    | move _ hmove => cases hmove with | encode hdata => exact h _ hdata
    | drop h => cases h
  | heapTop h =>
    cases hA with
    | move _ hmove =>
      cases hmove with
      | heapTopDue htop | heapTopNotDue htop => exact List.ne_nil_of_mem htop.mem h
    | drop h => cases h
  | heapPop h =>
    cases hA with
    | heapPop htop => exact List.ne_nil_of_mem htop.mem h
    | move _ h => cases h
    | drop h => cases h
  | tickTop h =>
    cases hA with
    | move _ hmove => cases hmove with | tickTop htop => exact List.ne_nil_of_mem htop.mem h
    | drop h => cases h
  | noTask h =>
    cases hA with
    | getTask _ hget => cases hget.symm.trans h
    | move _ h => cases h
    | drop h => cases h
  | noQuestion h hq =>
    cases hA with
    | move _ hmove => cases hmove with | compareSame _ hread => exact hq hread
    | drop hdrop => cases hdrop with | compareOther hother => rw [h] at hother; cases hother
  | noAnswer hP h =>
    cases hA with
    | answer junk hdata => exact h _ _ hdata
    | move _ h => cases h
    | drop hdrop => cases hdrop with | answerGone hgone => rw [hP] at hgone; cases hgone

/-- A worker in a handler that neither is stuck nor waits for the pool has a step. -/
theorem exists_act (hP : ∃ todo, P.targets todo) (hidle : l ≠ .idle) (hstuck : ¬ l.Stuck s)
    (hwait : l.Waits → s.taskPool.poolMutex = false) :
    ∃ l' s', Act l s l' s' ∧ Quiet (l, l') = true := by
  cases l with
  | idle => exact absurd rfl hidle
  | serverLoop => exact ⟨_, _, .move le_rfl .serverReturn, rfl⟩
  | putPop task =>
    cases hq : s.taskPool.indexQueue with
    | nil => exact absurd (.noIndex hq) hstuck
    | cons i q => exact ⟨_, _, .popIndex (i := i) (by rw [TaskPool.popIndex, hq]), rfl⟩
  | putStore task i => exact ⟨_, _, .storeTask s.clock le_rfl (hwait trivial), rfl⟩
  | pushInsert task timer => exact ⟨_, _, .pushInsert, rfl⟩
  | pushSize task timer =>
    by_cases hone : s.timerHeap.length = 1
    · exact ⟨_, _, .move le_rfl (.pushSizeOne hone), rfl⟩
    · exact ⟨_, _, .move le_rfl (.pushSizeMany hone), rfl⟩
  | pushArm task timer => exact ⟨_, _, .move le_rfl .pushArm, rfl⟩
  | encode task index =>
    obtain ⟨todo, htodo⟩ := hP
    by_cases hdata : ∃ data, (task.queryPacket.withId index).Serializes data
    · obtain ⟨data, hdata⟩ := hdata
      exact ⟨_, _, .move le_rfl (.encode hdata htodo), rfl⟩
    · exact absurd (.noQuery (not_exists.1 hdata)) hstuck
  | forward task data todo => exact ⟨_, _, .drop .forwardRaise, rfl⟩
  | clientLoop => exact ⟨_, _, .move le_rfl .clientReturn, rfl⟩
  | heapEmpty limit =>
    by_cases hnil : s.timerHeap = []
    · exact ⟨_, _, .move le_rfl (.heapEmptyTrue hnil), rfl⟩
    · exact ⟨_, _, .move le_rfl (.heapEmptyFalse hnil), rfl⟩
  | heapTop limit =>
    obtain ⟨t, ht⟩ := TimerHeap.exists_isTop fun h => hstuck (.heapTop h)
    cases hdue : P.due t.expire limit with
    | true => exact ⟨_, _, .move le_rfl (.heapTopDue ht hdue), rfl⟩
    | false => exact ⟨_, _, .move le_rfl (.heapTopNotDue ht hdue), rfl⟩
  | heapPop limit =>
    obtain ⟨t, ht⟩ := TimerHeap.exists_isTop fun h => hstuck (.heapPop h)
    exact ⟨_, _, .heapPop ht, rfl⟩
  | timerValid timer limit =>
    cases hv : s.valid timer.addr with
    | true => exact ⟨_, _, .move le_rfl (.timerValidTrue hv), rfl⟩
    | false => exact ⟨_, _, .move le_rfl (.timerValidFalse hv), rfl⟩
  | tickEmpty =>
    by_cases hnil : s.timerHeap = []
    · exact ⟨_, _, .move le_rfl (.tickEmptyTrue hnil), rfl⟩
    · exact ⟨_, _, .move le_rfl (.tickEmptyFalse hnil), rfl⟩
  | tickTop =>
    obtain ⟨t, ht⟩ := TimerHeap.exists_isTop fun h => hstuck (.tickTop h)
    exact ⟨_, _, .move le_rfl (.tickTop ht), rfl⟩
  | hasTask job =>
    cases hhas : s.taskPool.hasTask job.index with
    | true => exact ⟨_, _, .move le_rfl (.hasTaskTrue (hwait trivial) hhas), rfl⟩
    | false => exact ⟨_, _, .move le_rfl (.hasTaskFalse (hwait trivial) hhas), rfl⟩
  | getTask job =>
    cases hpool : s.taskPool.pool job.index with
    | none => exact absurd (.noTask hpool (hwait trivial)) hstuck
    | some task => exact ⟨_, _, .getTask (hwait trivial) hpool, rfl⟩
  | compare job task =>
    cases haccepts : job.accepts task with
    | true =>
      by_cases hread : job.Readable
      · exact ⟨_, _, .move le_rfl (.compareSame haccepts hread), rfl⟩
      · exact absurd (.noQuestion haccepts hread) hstuck
    | false => exact ⟨_, _, .drop (.compareOther haccepts), rfl⟩
  | delTask job task =>
    cases hpool : s.taskPool.pool job.index with
    | none => exact ⟨_, _, .move le_rfl (.delTaskNone (hwait trivial) hpool), rfl⟩
    | some t => exact ⟨_, _, .delTaskSome (hwait trivial) hpool, rfl⟩
  | delPush job task => exact ⟨_, _, .delPush, rfl⟩
  | answer job task =>
    cases hgone : P.mayDepart with
    | true => exact ⟨_, _, .drop (.answerGone hgone), rfl⟩
    | false =>
      by_contra hnone
      refine hstuck (.noAnswer hgone fun junk data hdata => hnone ?_)
      exact ⟨_, _, .answer junk hdata, rfl⟩
  | answered job task => exact ⟨_, _, .drop .answeredEnd, rfl⟩

theorem not_holdsPool_skip (job : Job P) : ¬ job.skip.HoldsPool := by cases job <;> exact id
theorem not_holdsPool_again (job : Job P) : ¬ job.again.HoldsPool := by cases job <;> exact id

theorem Drop.not_holdsPool {t : Task P.Client} (h : Drop l t l') :
    ¬ l.HoldsPool ∧ ¬ l'.HoldsPool := by
  cases h <;>
    first | exact ⟨id, id⟩ | exact ⟨id, not_holdsPool_skip _⟩ | exact ⟨id, not_holdsPool_again _⟩

theorem Move.not_holdsPool {now : Time} (h : Move s now l l') : ¬ l.HoldsPool ∧ ¬ l'.HoldsPool := by
  cases h <;> first | exact ⟨id, id⟩ | exact ⟨id, not_holdsPool_skip _⟩

/-- A step takes the pool mutex, releases it, or leaves it. -/
theorem Act.holdsPool (h : Act l s l' s') :
    l'.HoldsPool ∧ s.taskPool.poolMutex = false ∧ s'.taskPool.poolMutex = true ∨
      l.HoldsPool ∧ ¬ l'.HoldsPool ∧ s'.taskPool.poolMutex = false ∨
      ¬ l.HoldsPool ∧ ¬ l'.HoldsPool ∧ s'.taskPool.poolMutex = s.taskPool.poolMutex := by
  cases h with
  | move _ h => exact .inr (.inr ⟨h.not_holdsPool.1, h.not_holdsPool.2, rfl⟩)
  | drop h => exact .inr (.inr ⟨h.not_holdsPool.1, h.not_holdsPool.2, by simp⟩)
  | delTaskSome hm => exact .inl ⟨trivial, hm, by rw [Shared.clearTask_taskPool]; rfl⟩
  | delPush => exact .inr (.inl ⟨trivial, id, rfl⟩)
  | popIndex h => exact .inr (.inr ⟨id, id, (TaskPool.popIndex_eq_some h).2.2⟩)
  | _ => exact .inr (.inr ⟨id, id, by simp⟩)

end Worker

section Run

variable {W : Type*} [DecidableEq W] {C : W → Config W (Shared P) (Worker P) → Prop}
  {c : Config W (Shared P) (Worker P)}

/-- The pool mutex is held if and only if one worker, and only one, holds it. -/
theorem poolMutex_iff (h : Reaches Worker.Act C (initial P W) c) :
    (c.shared.taskPool.poolMutex = true ↔ ∃ v, (c.procs v).HoldsPool) ∧
      ∀ v w, (c.procs v).HoldsPool → (c.procs w).HoldsPool → v = w := by
  refine h.invariant (I := fun d => (d.shared.taskPool.poolMutex = true ↔
    ∃ v, (d.procs v).HoldsPool) ∧ ∀ v w, (d.procs v).HoldsPool → (d.procs w).HoldsPool → v = w)
    ⟨iff_of_false (fun h => by cases h) fun ⟨_, h⟩ => h, fun _ _ h => h.elim⟩ ?_
  intro d w l s _ ⟨hiff, hone⟩ _ hA
  rcases hA.holdsPool with ⟨hl, hfree, hheld⟩ | ⟨hd, hl, hfree⟩ | ⟨hd, hl, heq⟩
  · -- no other worker holds what was free
    have hother : ∀ v, v ≠ w → ¬ (Function.update d.procs w l v).HoldsPool := by
      intro v hv hholds
      rw [Function.update_of_ne hv] at hholds
      rw [hiff.2 ⟨v, hholds⟩] at hfree
      cases hfree
    refine ⟨iff_of_true hheld ⟨w, by simpa using hl⟩, fun u v hu hv => ?_⟩
    rw [not_imp_not.1 (hother u) hu, not_imp_not.1 (hother v) hv]
  · have hnone : ∀ v, ¬ (Function.update d.procs w l v).HoldsPool := by
      intro v hholds
      by_cases hv : v = w
      · subst hv
        exact hl (by simpa using hholds)
      · rw [Function.update_of_ne hv] at hholds
        exact hv (hone v w hholds hd)
    exact ⟨iff_of_false (by simp [hfree]) fun ⟨v, hv⟩ => hnone v hv,
      fun u _ hu => absurd hu (hnone u)⟩
  · have hsame : ∀ v, (Function.update d.procs w l v).HoldsPool ↔ (d.procs v).HoldsPool := by
      intro v
      by_cases hv : v = w
      · subst hv
        simpa using iff_of_false hl hd
      · rw [Function.update_of_ne hv]
    simp only [hsame, heq]
    exact ⟨hiff, hone⟩

/-- A worker in a handler that is not stuck has a step, or waits for one that has. -/
theorem exists_quiet (hP : ∃ todo, P.targets todo) (h : Reaches Worker.Act C (initial P W) c)
    {w : W} (hidle : c.procs w ≠ .idle) (hstuck : ¬ (c.procs w).Stuck c.shared) :
    ∃ v l s, Worker.Act (c.procs v) c.shared l s ∧ Worker.Quiet (c.procs v, l) = true := by
  by_cases hwait : (c.procs w).Waits → c.shared.taskPool.poolMutex = false
  · exact ⟨w, Worker.exists_act hP hidle hstuck hwait⟩
  · have hheld : c.shared.taskPool.poolMutex = true := by
      by_contra hfree
      exact hwait fun _ => eq_false_of_ne_true hfree
    obtain ⟨v, hv⟩ := (poolMutex_iff h).1.1 hheld
    exact ⟨v, hv.exists_act⟩

end Run

/-- **The handlers come to their ends.** From every state that any number of UDP workers reach, in
whatever order they go on, they take only so many steps without a handler being started or a message
received; and when they have no such step left, each worker is idle or stuck, with no step in this
state. -/
theorem handlers_finish {W : Type*} [DecidableEq W] [Fintype W] {remoteAddr4 : List SockAddrIn}
    {remoteAddr6 : List SockAddrIn6}
    {c : Config W (Shared (.udp remoteAddr4 remoteAddr6)) (Worker (.udp remoteAddr4 remoteAddr6))}
    (h : Reaches Worker.Act Free (initial _ W) c) :
    ∃ bound, ∀ moves d, Runs Worker.Act c moves d → (∀ move ∈ moves, Worker.Quiet move = true) →
      moves.length ≤ bound ∧
      ((∀ w l s, Worker.Act (d.procs w) d.shared l s → Worker.Quiet (d.procs w, l) = false) →
        ∀ w, d.procs w = .idle ∨
          (d.procs w).Stuck d.shared ∧ ∀ l s, ¬ Worker.Act (d.procs w) d.shared l s) := by
  refine ⟨total (Worker.left (remoteAddr4.length + remoteAddr6.length))
    (fun s => 11 * s.timerHeap.length) c, fun moves d hrun hquiet => ⟨?_, fun hend w => ?_⟩⟩
  · refine (hrun.length_le (f := Worker.left (remoteAddr4.length + remoteAddr6.length))
      (g := fun s => 11 * s.timerHeap.length)
      fun _ _ _ _ hA => hA.left_le udp_targets_le).trans_eq ?_
    rw [Worker.sum_credit_of_quiet hquiet, Nat.add_zero]
  · by_contra hnot
    rw [not_or] at hnot
    obtain ⟨hidle, hstuck⟩ := hnot
    have hstuck' : ¬ (d.procs w).Stuck d.shared := fun hs => hstuck ⟨hs, fun _ _ => hs.not_act⟩
    obtain ⟨v, l, s, hA, hq⟩ := exists_quiet ⟨_, rfl⟩ (h.trans hrun.reaches) hidle hstuck'
    rw [hend v l s hA] at hq
    cases hq

/-- Two workers that are idle while a query is outstanding. -/
theorem handlers_finish_root : ∃ s : Shared oneServer, s.taskPool.pool 0 = some rootTask ∧
    ∃ bound, ∀ moves d, Runs Worker.Act (⟨s, fun _ => .idle⟩ : Config Bool _ _) moves d →
      (∀ move ∈ moves, Worker.Quiet move = true) → moves.length ≤ bound := by
  obtain ⟨s, hreach, -, hpool, -⟩ := outstanding_run false
  obtain ⟨bound, hbound⟩ := handlers_finish hreach
  exact ⟨s, hpool, bound, fun moves d hrun hquiet => (hbound moves d hrun hquiet).1⟩

end DnsForwarder
