import DnsForwarder.Foundations.Refinement
import DnsForwarder.Workers.History
import DnsForwarder.Workers.Runs

/-!
# What the forwarder is for

A table of the queries that wait for an answer, by the ID under which they were forwarded, with the
IDs that are free: a query takes the first free ID, and is settled by a response with this ID and
its questions, or once its time is over (`Table.Step`). The slots, the index queue, the timers with
their `valid` members, the use counts and the critical sections of the handlers come to this, as
long as one handler runs at a time: between two handlers, what has been sent is what a run of the
table has sent, and the slots hold what waits in the table (`table_refined`).
-/

namespace DnsForwarder

open Interleaving Relation

variable {P : Transport}

/-! ## The table -/

/-- What passes between the forwarder and the network. -/
inductive Traffic (P : Transport)
  | query (client : P.Client) (packet : DnsPacket)
  | forward (remote : P.Remote) (data : Bytes)
  | answer (client : P.Client) (data : Bytes)

/-- A query that waits for its answer. -/
structure Pending (Client : Type) where
  client : Client
  packet : DnsPacket
  deadline : Time

/-- The free IDs, the queries that wait, and what has passed, the latest first. -/
structure Table (P : Transport) where
  free : List UInt16
  pending : UInt16 → Option (Pending P.Client)
  clock : Time
  traffic : List (Traffic P)

namespace Table

def new : Table P where
  free := (List.range (TaskPool.maxIndex + 1)).map UInt16.ofNat
  pending := fun _ => none
  clock := 0
  traffic := []

/-- The query under ID `i` waits no more. -/
def settle (t : Table P) (i : UInt16) : Table P :=
  { t with free := t.free ++ [i], pending := Function.update t.pending i none }

/-- What settles the query `q` under ID `i`, with the reply to it. -/
inductive Settles (t : Table P) (i : UInt16) (q : Pending P.Client) : DnsPacket → Prop
  | response {packet : DnsPacket} (hid : packet.header.id = i)
    (hq : sameQuestions packet.questions q.packet.questions = true) :
    Settles t i q (packet.withId q.packet.header.id)
  | timeout {limit} {reply : DnsPacket} (hl : limit ≤ t.clock) (hd : P.due q.deadline limit = true)
    (hid : reply.header.id = q.packet.header.id) (hqr : reply.header.qr = 1)
    (hrcode : reply.header.rcode = 2) (hq : reply.questions = q.packet.questions)
    (hrrs : reply.rrs = []) : Settles t i q reply

inductive Step : Table P → Table P → Prop
  | tick {t now} (h : t.clock ≤ now) : Step t { t with clock := now }
  | query {t i free client} {packet : DnsPacket} (h : t.free = i :: free)
    (hq : packet.questions ≠ []) :
    Step t { t with
      free
      pending := Function.update t.pending i (some ⟨client, packet, t.clock + timeout⟩)
      traffic := .query client packet :: t.traffic }
  | forward {t i remotes remote data} {q : Pending P.Client} (h : t.pending i = some q)
    (hr : P.targets remotes) (hmem : remote ∈ remotes)
    (hdata : (q.packet.withId i).Serializes data) :
    Step t { t with traffic := .forward remote data :: t.traffic }
  | answer {t : Table P} {i q reply data} (h : t.pending i = some q) (hs : t.Settles i q reply)
    (hdata : reply.Serializes data) :
    Step t { t.settle i with traffic := .answer q.client data :: t.traffic }
  /-- The client has left. -/
  | depart {t : Table P} {i q reply} (h : t.pending i = some q) (hs : t.Settles i q reply)
    (hP : P.mayDepart = true) : Step t (t.settle i)

end Table

/-! ## The shared state as a table -/

/-- A task that has its timer waits until that expires. -/
def Task.pending {Client : Type} (task : Task Client) : Option (Pending Client) :=
  task.timer.map fun tm => ⟨task.client, task.queryPacket, tm.expire⟩

/-- The events that the network sees. -/
def Event.traffic : Event P → Option (Traffic P)
  | query _ client packet => some (.query client packet)
  | put _ _ => none
  | forward _ remote data => some (.forward remote data)
  | answer _ client _ data => some (.answer client data)

namespace Shared

/-- The queries that wait in the slots. -/
def pending (s : Shared P) (i : UInt16) : Option (Pending P.Client) :=
  (s.taskPool.pool i).bind Task.pending

theorem pending_congr {s s' : Shared P} (h : s'.taskPool.pool = s.taskPool.pool) :
    s'.pending = s.pending := by
  funext i
  rw [pending, h, pending]

theorem pending_storeTask (s : Shared P) (i : UInt16) (task : Task P.Client) (now : Time) :
    (s.storeTask i task now).pending =
      Function.update s.pending i (some ⟨task.client, task.queryPacket, now + timeout⟩) := by
  funext j
  rw [pending, storeTask_taskPool, TaskPool.storeTask_pool]
  by_cases hj : j = i
  · subst hj
    simp [Task.pending, makeTimer]
  · simp [hj, pending]

theorem clearTask_clock (s : Shared P) (i : UInt16) : (s.clearTask i).clock = s.clock := by
  rw [clearTask, releaseSlot]
  split <;> rfl

theorem pending_clearTask (s : Shared P) (i : UInt16) :
    (s.clearTask i).pending = Function.update s.pending i none := by
  funext j
  rw [pending, clearTask_taskPool, TaskPool.clearTask_pool]
  by_cases hj : j = i
  · subst hj
    simp
  · simp [hj, pending]

end Shared

/-- What a handler looks a task up for is not premature. -/
def Job.Due (clock : Time) : Job P → Prop
  | response _ _ => True
  | expiry timer limit => limit ≤ clock ∧ P.due timer.expire limit = true

/-- The task is the one that the handler looks for. -/
def Job.Fits : Job P → Task P.Client → Prop
  | response _ packet, task => sameQuestions packet.questions task.queryPacket.questions = true
  | expiry timer _, task => task.timer = some timer

theorem Job.Due.mono {clock clock' : Time} {job : Job P} (h : job.Due clock)
    (hle : clock ≤ clock') : job.Due clock' := by
  cases job with
  | response => trivial
  | expiry => exact ⟨h.1.trans hle, h.2⟩

/-- A job that fits settles the query. -/
theorem Job.Fits.settles {t : Table P} {job : Job P} {task : Task P.Client} {q : Pending P.Client}
    (h : job.Fits task) (hdue : job.Due t.clock) (hq : task.pending = some q) (junk : DnsHeader) :
    t.Settles job.index q (job.reply junk task) := by
  obtain ⟨tm, htimer, rfl⟩ := Option.map_eq_some_iff.1 hq
  cases job with
  | response source packet => exact .response rfl h
  | expiry timer limit =>
    obtain rfl : tm = timer := Option.some.inj (htimer.symm.trans h)
    exact .timeout hdue.1 hdue.2 rfl rfl rfl rfl rfl

namespace Worker

/-! ## A worker in the middle of a handler -/

/-- What the only worker in a handler knows. -/
def Knows (s : Shared P) : Worker P → Prop
  | putPop t | putStore t _ =>
    s.log.head? = some (.query t.addr t.client t.queryPacket) ∧ t.queryPacket.questions ≠ []
  | pushInsert t timer | pushSize t timer | pushArm t timer =>
    s.taskPool.pool timer.index = some t
  | encode t i => s.taskPool.pool i = some t
  | forward t data todo => ∃ i remotes, s.taskPool.pool i = some t ∧
      (t.queryPacket.withId i).Serializes data ∧ P.targets remotes ∧ todo ⊆ remotes
  | heapEmpty limit | heapTop limit => limit ≤ s.clock
  | heapPop limit => limit ≤ s.clock ∧ ∀ t, s.timerHeap.IsTop t → P.due t.expire limit = true
  | timerValid timer limit => limit ≤ s.clock ∧ P.due timer.expire limit = true
  | hasTask job | getTask job | answered job _ => job.Due s.clock
  | compare job t => job.Due s.clock ∧ s.taskPool.pool job.index = some t
  | delTask job t => job.Due s.clock ∧ s.taskPool.pool job.index = some t ∧ job.Fits t
  | delPush job t | answer job t =>
    job.Due s.clock ∧ s.taskPool.pool job.index = none ∧ job.Fits t ∧ t.timer.isSome = true
  | _ => True

/-- The free IDs: an index that has been popped is free until it is stored, and one that has been
returned is not free before the answer. -/
def Free (s : Shared P) (free : List UInt16) : Worker P → Prop
  | putStore _ i => free = i :: s.taskPool.indexQueue
  | answer job _ => free ++ [job.index] = s.taskPool.indexQueue
  | _ => free = s.taskPool.indexQueue

/-- The queries that wait: until the answer also the one whose slot is empty already. -/
def waiting (s : Shared P) : Worker P → UInt16 → Option (Pending P.Client)
  | delPush job t | answer job t => Function.update s.pending job.index t.pending
  | _ => s.pending

/-- The events that have been taken note of: a query when it is stored. -/
def noted (s : Shared P) : Worker P → List (Event P)
  | putPop _ | putStore _ _ => s.log.tail
  | _ => s.log

/-- The worker and the shared state are a table. -/
structure Represents (l : Worker P) (s : Shared P) (t : Table P) : Prop where
  clock : t.clock = s.clock
  traffic : t.traffic = (l.noted s).filterMap Event.traffic
  free : l.Free s t.free
  pending : t.pending = l.waiting s
  knows : l.Knows s

variable {l l' : Worker P} {s s' : Shared P} {t : Table P} {now : Time}

theorem knows_skip {job : Job P} (h : job.Due s.clock) : job.skip.Knows s := by
  cases job with
  | response => trivial
  | expiry => exact h.1

theorem knows_again {job : Job P} (h : job.Due s.clock) : job.again.Knows s := by
  cases job with
  | response => trivial
  | expiry => exact h.1

/-- Where the worker is neither in `PutTask` nor in `DelTask`, the shared state is the table. -/
def Plain : Worker P → Prop
  | putPop _ | putStore _ _ | delPush _ _ | answer _ _ => False
  | _ => True

theorem plain_skip (job : Job P) : job.skip.Plain := by cases job <;> trivial
theorem plain_again (job : Job P) : job.again.Plain := by cases job <;> trivial

theorem represents_iff (hl : l.Plain) : l.Represents s t ↔ t.clock = s.clock ∧
    t.traffic = s.log.filterMap Event.traffic ∧ t.free = s.taskPool.indexQueue ∧
    t.pending = s.pending ∧ l.Knows s := by
  constructor
  · intro h
    obtain ⟨h₁, h₂, h₃, h₄, h₅⟩ := h
    cases l <;> first | exact hl.elim | exact ⟨h₁, h₂, h₃, h₄, h₅⟩
  · rintro ⟨h₁, h₂, h₃, h₄, h₅⟩
    cases l <;> first | exact hl.elim | exact ⟨h₁, h₂, h₃, h₄, h₅⟩

/-! ## Steps -/

/-- A move does nothing to the table but read the clock. -/
theorem Move.represents (h : Move s now l l') (hs : s.Consistent) (hheld : l.Held s)
    (hl : l.Represents s t) (hc : s.clock ≤ now) :
    l'.Represents { s with clock := now } { t with clock := now } := by
  have hplain : l.Plain ∧ l'.Plain := by
    cases h with
    | hasTaskFalse => exact ⟨trivial, plain_skip _⟩
    | delTaskNone _ hnone => cases hl.knows.2.1.symm.trans hnone
    | _ => exact ⟨trivial, trivial⟩
  obtain ⟨-, htraffic, hfree, hpending, hknows⟩ := (represents_iff hplain.1).1 hl
  refine (represents_iff hplain.2).2 ⟨rfl, htraffic, hfree, hpending, ?_⟩
  cases h with
  | pushSizeOne => exact hknows
  | pushSizeMany => exact hknows
  | pushArm => exact hknows
  | encode hdata hr => exact ⟨_, _, hknows, hdata, hr, List.Subset.refl _⟩
  | startTimeout => exact le_rfl
  | heapEmptyFalse => exact hknows.trans hc
  | heapTopDue htop hd =>
    refine ⟨hknows.trans hc, fun u hu => ?_⟩
    rw [le_antisymm (hu.2 _ htop.1) (htop.2 _ hu.1)]
    exact hd
  | timerValidTrue => exact ⟨hknows.1.trans hc, hknows.2⟩
  | timerValidFalse => exact hknows.1.trans hc
  | hasTaskTrue => exact hknows.mono hc
  | hasTaskFalse => exact knows_skip (hknows.mono hc)
  | @compareSame job task haccepts =>
    refine ⟨hknows.1.mono hc, hknows.2, ?_⟩
    cases job with
    | response => exact haccepts
    | expiry timer limit =>
      -- timers at one address are one timer
      obtain ⟨tm, htimer, -, hput⟩ := hs.slot_put hknows.2
      obtain ⟨a, hput'⟩ : ∃ a, .put a timer ∈ s.log := hheld.timer_put rfl
      simp only [Job.accepts, htimer, Option.map_some, beq_iff_eq, Option.some.injEq] at haccepts
      obtain ⟨-, rfl⟩ := hs.put_inj hput hput' haccepts
      exact htimer
  | delTaskNone _ hnone => cases hknows.2.1.symm.trans hnone
  | _ => trivial

/-- The end of an iteration at which no answer was due. -/
theorem Drop.represents {task : Task P.Client} (h : Drop l task l') (hl : l.Represents s t)
    (hplain : l.Plain) : l'.Represents (s.release task) t := by
  have hplain' : l'.Plain := by
    cases h with
    | compareOther => exact plain_skip _
    | answerGone => exact hplain.elim
    | answeredEnd => exact plain_again _
    | _ => exact trivial
  obtain ⟨hclock, htraffic, hfree, hpending, hknows⟩ := (represents_iff hplain).1 hl
  refine (represents_iff hplain').2 ⟨hclock, htraffic, hfree, hpending, ?_⟩
  cases h with
  | compareOther => exact knows_skip (s := s.release task) hknows.1
  | answerGone => exact hplain.elim
  | answeredEnd => exact knows_again (s := s.release task) hknows
  | _ => trivial

/-- What the answer does to the table. -/
theorem Represents.settle {job : Job P} {task : Task P.Client}
    (hl : (answer job task).Represents s t) : ∃ q, t.pending job.index = some q ∧
      q.client = task.client ∧ (∀ junk, t.Settles job.index q (job.reply junk task)) ∧
      (t.settle job.index).free = s.taskPool.indexQueue ∧
      (t.settle job.index).pending = s.pending := by
  obtain ⟨hclock, -, hfree, hpending, hdue, hnone, hfits, htimer⟩ := hl
  obtain ⟨tm, htm⟩ := Option.isSome_iff_exists.1 htimer
  have hq : task.pending = some ⟨task.client, task.queryPacket, tm.expire⟩ := by
    rw [Task.pending, htm, Option.map_some]
  have hwaits : t.pending job.index = task.pending := by
    rw [hpending]
    exact Function.update_self ..
  have hempty : s.pending job.index = none := by rw [Shared.pending, hnone, Option.bind_none]
  refine ⟨_, hwaits.trans hq, rfl, hfits.settles (hclock.symm ▸ hdue) hq, hfree, ?_⟩
  show Function.update t.pending job.index none = s.pending
  rw [hpending, waiting, Function.update_idem, ← hempty, Function.update_eq_self]

/-- **A step of the only worker in a handler is a step of the table, or several, or none.** -/
theorem Act.represents (h : Act l s l' s') (hs : s.Consistent) (hheld : l.Held s)
    (hl : l.Represents s t) : ∃ t', ReflTransGen Table.Step t t' ∧ l'.Represents s' t' := by
  obtain ⟨hclock, htraffic, hfree, hpending, hknows⟩ := id hl
  cases h with
  | move hc h =>
    exact ⟨_, .single (.tick (hclock.trans_le hc)), h.represents hs hheld hl hc⟩
  | @serverReceive s client data junk packet _ h hq =>
    exact ⟨t, .refl, hclock, htraffic, hfree, hpending, rfl, hq⟩
  | @popIndex s task i p h =>
    obtain ⟨hqueue, hpool, -⟩ := TaskPool.popIndex_eq_some h
    refine ⟨t, .refl, hclock, htraffic, hfree.trans hqueue, hpending.trans ?_, hknows⟩
    have hsame : Shared.pending { s with taskPool := p } = s.pending := Shared.pending_congr hpool
    exact hsame.symm
  | @storeTask s task i now hc hm =>
    have hstep := @Table.Step.query P { t with clock := now } i s.taskPool.indexQueue task.client
      task.queryPacket hfree hknows.2
    refine ⟨_, (ReflTransGen.single (.tick (hclock.trans_le hc))).tail hstep, rfl, ?_, rfl, ?_, ?_⟩
    · obtain ⟨log, hlog⟩ := List.head?_eq_some_iff.1 hknows.1
      have hnoted : t.traffic = log.filterMap Event.traffic := by simp [htraffic, noted, hlog]
      show Traffic.query task.client task.queryPacket :: t.traffic =
        (Event.put task.addr (s.makeTimer i now) :: s.log).filterMap Event.traffic
      rw [hnoted, hlog]
      rfl
    · exact (congrArg (Function.update · i _) hpending).trans (s.pending_storeTask i task now).symm
    · simp [Knows]
  | pushInsert => exact ⟨t, .refl, hclock, htraffic, hfree, hpending, hknows⟩
  | @forward s task data r todo =>
    obtain ⟨i, remotes, hpool, hdata, hr, hsub⟩ := hknows
    obtain ⟨tm, htm, -, -⟩ := hs.slot_put hpool
    have hwaits : t.pending i = some ⟨task.client, task.queryPacket, tm.expire⟩ := by
      rw [hpending]
      simp [waiting, Shared.pending, hpool, Task.pending, htm]
    refine ⟨_, .single (.forward hwaits hr (hsub List.mem_cons_self) hdata), hclock, ?_, hfree,
      hpending, i, remotes, hpool, hdata, hr, List.subset_of_cons_subset hsub⟩
    exact congrArg (Traffic.forward r data :: ·) htraffic
  | @heapPop s limit timer h =>
    exact ⟨t, .refl, hclock, htraffic, hfree, hpending, hknows.1, hknows.2 _ h⟩
  | @getTask s job task hm h =>
    exact ⟨t, .refl, hclock, htraffic, hfree, hpending, hknows, h⟩
  | @delTaskSome s job task u hm h =>
    obtain ⟨hdue, hpool, hfits⟩ := hknows
    obtain ⟨tm, htm, -, -⟩ := hs.slot_put hpool
    refine ⟨t, .refl, hclock.trans (s.clearTask_clock _).symm, ?_, hfree, ?_, ?_, ?_, hfits, ?_⟩
    · exact htraffic.trans (congrArg (List.filterMap _) (s.clearTask_log _).symm)
    · have hwaits : s.pending job.index = task.pending := by
        rw [Shared.pending, hpool, Option.bind_some]
      show t.pending = Function.update (s.clearTask job.index).pending job.index task.pending
      rw [Shared.pending_clearTask, Function.update_idem, ← hwaits, Function.update_eq_self]
      exact hpending
    · rw [s.clearTask_clock]
      exact hdue
    · simp
    · rw [htm, Option.isSome_some]
  | @delPush s job task =>
    refine ⟨t, .refl, hclock, htraffic, ?_, hpending, hknows⟩
    exact congrArg (· ++ [job.index]) hfree
  | @answer s job task junk data hdata =>
    obtain ⟨q, hwaits, hclient, hsettles, hfree', hpending'⟩ := hl.settle
    refine ⟨_, .single (.answer hwaits (hsettles junk) hdata), hclock, ?_, hfree', hpending',
      hknows.1⟩
    rw [hclient]
    exact congrArg (Traffic.answer task.client data :: ·) htraffic
  | @drop l l' s task h =>
    cases h with
    | @answerGone job task hP =>
      obtain ⟨q, hwaits, -, hsettles, hfree', hpending'⟩ := hl.settle
      refine ⟨_, .single (.depart hwaits (hsettles task.queryPacket.header) hP), ?_⟩
      refine (represents_iff (plain_again job)).2 ⟨hclock, htraffic, hfree', hpending', ?_⟩
      exact knows_again (s := s.release task) hknows.1
    | pushArmRaise => exact ⟨t, .refl, Drop.pushArmRaise.represents hl trivial⟩
    | forwardRaise => exact ⟨t, .refl, Drop.forwardRaise.represents hl trivial⟩
    | forwardEnd => exact ⟨t, .refl, Drop.forwardEnd.represents hl trivial⟩
    | compareOther h => exact ⟨t, .refl, (Drop.compareOther h).represents hl trivial⟩
    | answeredEnd => exact ⟨t, .refl, Drop.answeredEnd.represents hl trivial⟩
    | answeredRaise => exact ⟨t, .refl, Drop.answeredRaise.represents hl trivial⟩

end Worker

/-! ## Runs -/

section Run

variable {W : Type*}

/-- No other worker is in a handler. -/
def Alone (w : W) (c : Config W (Shared P) (Worker P)) : Prop :=
  ∀ v, v ≠ w → c.procs v = .idle

/-- The configuration is the table, seen from whichever worker may be in a handler. -/
def Represents (c : Config W (Shared P) (Worker P)) (t : Table P) : Prop :=
  ∀ w, Alone w c → (c.procs w).Represents c.shared t

theorem represents_initial : Represents (initial P W) .new := by
  intro w _
  show Worker.Represents .idle (Shared.initial P) .new
  have hplain : (Worker.idle : Worker P).Plain := trivial
  refine (Worker.represents_iff hplain).2 ⟨rfl, rfl, ?_, rfl, trivial⟩
  show Table.new.free = (TaskPool.new : TaskPool (Task P.Client)).indexQueue
  rw [TaskPool.new_indexQueue, Table.new]

variable [DecidableEq W]

/-- **Handlers that run one at a time are steps of the table.** -/
theorem simulates_table : Refinement.Simulates (Step Worker.Act (Alone (P := P) (W := W)))
    Table.Step Represents (initial P W) .new where
  start := represents_initial
  step := by
    rintro c d t hc - ht ⟨w, halone, ⟨hA⟩⟩
    obtain ⟨hs, hheld⟩ := history hc
    obtain ⟨t', hsteps, ht'⟩ := hA.represents hs (hheld w) (ht w halone)
    refine ⟨t', hsteps, fun u hu => ?_⟩
    by_cases huw : u = w
    · subst huw
      simpa using ht'
    · -- another worker is alone too only if both are idle
      have hw := hu w (Ne.symm huw)
      simp only [Function.update_self] at hw
      simp only [Function.update_of_ne huw, halone u huw, ← hw]
      exact ht'

/-- **The forwarder is such a table.** In every run of any number of workers over UDP or TCP in
which one handler runs at a time, and between two handlers: there is a run of the table with exactly
the queries, the forwarded queries and the answers of that run, in their order, after which the
queries that wait, with their IDs, clients and deadlines, are those in the slots, and the free IDs
those in the index queue. -/
theorem table_refined [Nonempty W] {c : Config W (Shared P) (Worker P)}
    (h : Reaches Worker.Act Alone (initial P W) c) (hidle : ∀ w, c.procs w = .idle) :
    ∃ t : Table P, ReflTransGen Table.Step .new t ∧
      t.traffic = c.shared.log.filterMap Event.traffic ∧
      t.free = c.shared.taskPool.indexQueue ∧
      ∀ i, t.pending i = (c.shared.taskPool.pool i).bind Task.pending := by
  obtain ⟨t, ht, hrep⟩ := simulates_table.run h
  obtain ⟨w⟩ := ‹Nonempty W›
  have hw := hrep w fun v _ => hidle v
  rw [hidle w] at hw
  exact ⟨t, ht, hw.traffic, hw.free, fun i => congrFun hw.pending i⟩

end Run

/-- A query that waits under the ID 0. -/
theorem table_refined_root : ∃ t : Table oneServer, ReflTransGen Table.Step .new t ∧
    t.pending 0 = some ⟨stub, rootQuery 7, timeout⟩ ∧
      ∃ l, t.traffic = l ++ [.query stub (rootQuery 7)] := by
  obtain ⟨s, hreach, -, hpool, -, -, l, hlog⟩ := outstanding_run ()
  have halone : Reaches Worker.Act Alone (initial oneServer Unit) ⟨s, fun _ => .idle⟩ :=
    hreach.imp fun d w _ _ v hv => absurd (Subsingleton.elim v w) hv
  obtain ⟨t, ht, htraffic, -, hpending⟩ := table_refined halone fun _ => rfl
  refine ⟨t, ht, ?_, l.filterMap Event.traffic, ?_⟩
  · rw [hpending, hpool]
    rfl
  · rw [htraffic, hlog, List.filterMap_append]
    rfl

end DnsForwarder
