import DnsForwarder.Foundations.Interleaving
import DnsForwarder.Codec.Packet
import DnsForwarder.Pool.TaskPool
import DnsForwarder.Timer.TimerHeap

/-!
# The workers of the thread pool

The handlers of `handler.cpp` that use a task pool, as the atomic steps of a worker: one for each
critical section of the task pool and of the timer heap, and for what a worker does on its own
between two of them. Any number of workers run them over one pool and one heap.

The UDP and the TCP handlers differ in what an answer is sent to, in the comparison of a timer
with the clock, in that `ReceiveFrom` hands no empty datagram over, and in that a TCP client may
have left; `Transport` says which. Both kinds of
handler that take a task out of the pool, `ClientRecvHandler` and `TimeoutHandler`, do so by the
same sequence of `HasTask`, `GetTask`, a comparison and `DelTask`, with a different `Job`.

A `shared_ptr<UdpTask>` is modelled by the address of the object and its members, none of which
is written after `PutTask` has set `timer`. The use counts of the tasks and the member `valid` of
the timers are written by all workers and belong to `Shared`, as does `log`, the history of what
was accepted, stored and sent. Where C++ gives an operation no meaning (the front of an empty
queue, a null task, the top of an empty heap) the worker has no step.
-/

namespace DnsForwarder

open Interleaving

/-! ## Transports -/

structure SockAddrIn where
  sinAddr : UInt32
  sinPort : UInt16
  deriving DecidableEq

structure SockAddrIn6 where
  sin6Addr : BitVec 128
  sin6Port : UInt16
  sin6Flowinfo : UInt32
  sin6ScopeId : UInt32
  deriving DecidableEq

/-- The union `addr`, `addr6` of `UdpTask` with its tag `is_ipv6`. -/
inductive SockAddr
  | v4 (addr : SockAddrIn)
  | v6 (addr : SockAddrIn6)
  deriving DecidableEq

/-- The union `tcp_server4`, `tcp_server6` of `TcpTask` with its tag `is_ipv6`: a pointer to the
connection. The connections to the nameservers are told apart in the same way. -/
inductive TcpPtr
  | v4 (ptr : Addr)
  | v6 (ptr : Addr)
  deriving DecidableEq

/-- In what the UDP and the TCP handlers differ. -/
structure Transport where
  /-- What an answer is sent to. -/
  Client : Type
  /-- What a query is forwarded to. -/
  Remote : Type
  /-- Whether a timer with this `expire` is due at this reading of the clock. -/
  due : Time → Time → Bool
  /-- The receivers a query may be forwarded to, in order. -/
  targets : List Remote → Prop
  /-- The messages that a handler parses. -/
  receives : Bytes → Prop
  /-- Whether the handlers look up the client before they send, and skip the answer if it left. -/
  mayDepart : Bool

/-- The UDP handlers, with the nameservers of `m_remote_addr4` and `m_remote_addr6`. -/
def Transport.udp (remoteAddr4 : List SockAddrIn) (remoteAddr6 : List SockAddrIn6) :
    Transport where
  Client := SockAddr
  Remote := SockAddr
  due expire now := expire ≤ now
  targets l := l = remoteAddr4.map .v4 ++ remoteAddr6.map .v6
  receives data := data ≠ []
  mayDepart := false

/-- The TCP handlers; a query goes to the connections that the two sets hold at the time. -/
def Transport.tcp : Transport where
  Client := TcpPtr
  Remote := TcpPtr
  due expire now := expire < now
  targets _ := True
  receives _ := True
  mayDepart := true

/-! ## The shared state -/

/-- A `shared_ptr` to a `UdpTask` or `TcpTask`; `timer` is null until `PutTask` has set it. -/
structure Task (Client : Type) where
  addr : Addr
  queryPacket : DnsPacket
  client : Client
  timer : Option Timer

/-- What has happened. Queries and answers are listed under the address of the task. -/
inductive Event (P : Transport)
  /-- A query was received and a task was made for it. -/
  | query (task : Addr) (client : P.Client) (packet : DnsPacket)
  /-- `PutTask` has put the task into a slot and has given it a timer. -/
  | put (task : Addr) (timer : Timer)
  /-- `data` was handed to `SendTo` or `Send` for a nameserver (TCP: behind its length). -/
  | forward (task : Addr) (remote : P.Remote) (data : Bytes)
  /-- `data`, the encoding of `packet`, was handed to `SendTo` or `Send` for the client (TCP:
  behind its length). -/
  | answer (task : Addr) (client : P.Client) (packet : DnsPacket) (data : Bytes)

structure Shared (P : Transport) where
  taskPool : TaskPool (Task P.Client)
  timerHeap : TimerHeap
  /-- The use counts of the tasks. What a worker lends to a callee, such as the parameter of
  `PutTask`, is not counted: the worker keeps its own pointer for longer. -/
  useCount : Addr → ℕ
  /-- The members `valid` of the timers. -/
  valid : Addr → Bool
  /-- The first address that was not given to an object yet. -/
  next : Addr
  /-- The last reading of the clock. -/
  clock : Time
  /-- The history, the latest event first. -/
  log : List (Event P)

variable {P : Transport}

namespace Shared

/-- A worker copies a `shared_ptr` to the task at `a`. -/
def share (s : Shared P) (a : Addr) : Shared P :=
  { s with useCount := Function.update s.useCount a (s.useCount a + 1) }

/-- A `shared_ptr` to a task goes out of scope. The last one runs `~UdpTask` or `~TcpTask`. -/
def release (s : Shared P) (task : Task P.Client) : Shared P :=
  let n := s.useCount task.addr - 1
  { s with
    useCount := Function.update s.useCount task.addr n
    valid := match task.timer with
      | some t => if n = 0 then Function.update s.valid t.addr false else s.valid
      | none => s.valid }

/-- The `shared_ptr` in slot `i` is overwritten. -/
def releaseSlot (s : Shared P) (i : UInt16) : Shared P :=
  match s.taskPool.pool i with
  | some task => s.release task
  | none => s

/-- `make_shared<UdpTask>(packet, addr)`. -/
def makeTask (s : Shared P) (client : P.Client) (packet : DnsPacket) : Shared P :=
  { s with
    useCount := Function.update s.useCount s.next 1
    next := s.next + 1
    log := .query s.next client packet :: s.log }

/-- The timer that `PutTask` makes at this reading of the clock. -/
def makeTimer (s : Shared P) (i : UInt16) (now : Time) : Timer := ⟨s.next, now + timeout, i⟩

/-- The pool section of `PutTask`. -/
def storeTask (s : Shared P) (i : UInt16) (task : Task P.Client) (now : Time) : Shared P :=
  let timer := s.makeTimer i now
  let s' := (s.releaseSlot i).share task.addr
  { s' with
    taskPool := s.taskPool.storeTask i { task with timer := some timer }
    valid := Function.update s'.valid timer.addr true
    next := s.next + 1
    clock := now
    log := .put task.addr timer :: s.log }

/-- `DelTask` up to the queue mutex. -/
def clearTask (s : Shared P) (i : UInt16) : Shared P :=
  { s.releaseSlot i with taskPool := s.taskPool.clearTask i }

end Shared

/-! ## Jobs: what a task is taken out of the pool for -/

/-- What a handler looks a task up for. -/
inductive Job (P : Transport)
  /-- `ClientRecvHandler`, with a message from `source`. -/
  | response (source : P.Remote) (packet : DnsPacket)
  /-- `TimeoutHandler`, which read the clock as `limit`, with the timer it has popped. -/
  | expiry (timer : Timer) (limit : Time)

/-- The packet that a timeout handler sends. Its declaration leaves the header uninitialised:
the members that are not assigned keep what `junk` has. -/
def serverFailure (junk : DnsHeader) (task : Task P.Client) : DnsPacket where
  header := { junk with
    id := task.queryPacket.header.id
    qr := 1
    ra := 1
    rcode := 2
    ancount := 0
    nscount := 0
    arcount := 0 }
  questions := task.queryPacket.questions
  rrs := []

namespace Job

/-- The index that is looked up. -/
def index : Job P → UInt16
  | response _ packet => packet.header.id
  | expiry timer _ => timer.index

/-- The comparison with the task that `GetTask` returned. -/
def accepts : Job P → Task P.Client → Bool
  | response _ packet, task => sameQuestions packet.questions task.queryPacket.questions
  | expiry timer _, task => task.timer.map Timer.addr == some timer.addr

/-- `packet.questions[0]`, which is read for the log after the comparison, has to exist. -/
def Readable : Job P → Prop
  | response _ packet => packet.questions ≠ []
  | expiry _ _ => True

/-- The packet that is sent to the client. -/
def reply (junk : DnsHeader) : Job P → Task P.Client → DnsPacket
  | response _ packet, task => packet.withId task.queryPacket.header.id
  | expiry _ _, task => serverFailure junk task

end Job

/-! ## Workers -/

/-- Where a worker is, with its local variables. -/
inductive Worker (P : Transport)
  /-- In no handler. -/
  | idle
  /-- `ServerRecvHandler`: before the next message. -/
  | serverLoop
  /-- Before the queue section of `PutTask`. -/
  | putPop (task : Task P.Client)
  /-- Before the pool section of `PutTask`. -/
  | putStore (task : Task P.Client) (index : UInt16)
  /-- Before the insertion of `TimerHeap::Push`. -/
  | pushInsert (task : Task P.Client) (timer : Timer)
  /-- Before `Size` in `TimerHeap::Push`. -/
  | pushSize (task : Task P.Client) (timer : Timer)
  /-- Before `SetITimer` in `TimerHeap::Push`. -/
  | pushArm (task : Task P.Client) (timer : Timer)
  /-- Before `serialize`. -/
  | encode (task : Task P.Client) (index : UInt16)
  /-- Before sending `data` to the receivers in `todo`. -/
  | forward (task : Task P.Client) (data : Bytes) (todo : List P.Remote)
  /-- `ClientRecvHandler`: before the next message. -/
  | clientLoop
  /-- `TimeoutHandler`, which read the clock as `limit`: before `Empty`. -/
  | heapEmpty (limit : Time)
  /-- Before `Top`. -/
  | heapTop (limit : Time)
  /-- Before `Pop`. -/
  | heapPop (limit : Time)
  /-- Before the test of `valid`. -/
  | timerValid (timer : Timer) (limit : Time)
  /-- Before `Empty` in `TimerHeap::Tick`. -/
  | tickEmpty
  /-- Before `Top` in `TimerHeap::Tick`. -/
  | tickTop
  /-- Before `HasTask`. -/
  | hasTask (job : Job P)
  /-- Before `GetTask`. -/
  | getTask (job : Job P)
  /-- `GetTask` has returned `task`. -/
  | compare (job : Job P) (task : Task P.Client)
  /-- Before `DelTask`. -/
  | delTask (job : Job P) (task : Task P.Client)
  /-- In `DelTask`, before its queue section. -/
  | delPush (job : Job P) (task : Task P.Client)
  /-- After `DelTask`, before the answer is sent. -/
  | answer (job : Job P) (task : Task P.Client)
  /-- The answer has been handed over. -/
  | answered (job : Job P) (task : Task P.Client)

namespace Job

/-- `return` in `ClientRecvHandler`, `continue` in `TimeoutHandler`. -/
def skip : Job P → Worker P
  | response _ _ => .idle
  | expiry _ limit => .heapEmpty limit

/-- The next iteration of the loop. -/
def again : Job P → Worker P
  | response _ _ => .clientLoop
  | expiry _ limit => .heapEmpty limit

end Job

namespace Worker

/-- The steps of a worker that leave the shared state as it is, but for the clock, which is
read as `now`. -/
inductive Move (s : Shared P) (now : Time) : Worker P → Worker P → Prop
  | startServer : Move s now .idle .serverLoop
  | serverReturn : Move s now .serverLoop .idle
  | pushSizeOne {task timer} (h : s.timerHeap.length = 1) :
    Move s now (.pushSize task timer) (.pushArm task timer)
  | pushSizeMany {task timer} (h : s.timerHeap.length ≠ 1) :
    Move s now (.pushSize task timer) (.encode task timer.index)
  | pushArm {task timer} : Move s now (.pushArm task timer) (.encode task timer.index)
  | encode {task index data todo}
    (h : (task.queryPacket.withId index).Serializes data) (ht : P.targets todo) :
    Move s now (.encode task index) (.forward task data todo)
  | startClient : Move s now .idle .clientLoop
  | clientReturn : Move s now .clientLoop .idle
  | clientReceive (source : P.Remote) (data : Bytes) (junk : Junk) {packet}
    (hd : P.receives data) (h : DnsPacket.ofBytes junk data = .ok packet) :
    Move s now .clientLoop (.hasTask (.response source packet))
  | startTimeout : Move s now .idle (.heapEmpty now)
  | heapEmptyTrue {limit} (h : s.timerHeap = []) : Move s now (.heapEmpty limit) .tickEmpty
  | heapEmptyFalse {limit} (h : s.timerHeap ≠ []) :
    Move s now (.heapEmpty limit) (.heapTop limit)
  | heapTopDue {limit t} (h : s.timerHeap.IsTop t) (hd : P.due t.expire limit = true) :
    Move s now (.heapTop limit) (.heapPop limit)
  | heapTopNotDue {limit t} (h : s.timerHeap.IsTop t) (hd : P.due t.expire limit = false) :
    Move s now (.heapTop limit) .tickEmpty
  | timerValidTrue {timer limit} (h : s.valid timer.addr = true) :
    Move s now (.timerValid timer limit) (.hasTask (.expiry timer limit))
  | timerValidFalse {timer limit} (h : s.valid timer.addr = false) :
    Move s now (.timerValid timer limit) (.heapEmpty limit)
  -- `SetITimer` follows in both cases; whether it raises or not, the handler ends
  | tickEmptyTrue (h : s.timerHeap = []) : Move s now .tickEmpty .idle
  | tickEmptyFalse (h : s.timerHeap ≠ []) : Move s now .tickEmpty .tickTop
  | tickTop {t} (h : s.timerHeap.IsTop t) : Move s now .tickTop .idle
  | hasTaskTrue {job} (hm : s.taskPool.poolMutex = false)
    (h : s.taskPool.hasTask job.index = true) : Move s now (.hasTask job) (.getTask job)
  | hasTaskFalse {job} (hm : s.taskPool.poolMutex = false)
    (h : s.taskPool.hasTask job.index = false) : Move s now (.hasTask job) job.skip
  | compareSame {job task} (h : job.accepts task = true) (hq : job.Readable) :
    Move s now (.compare job task) (.delTask job task)
  | delTaskNone {job task} (hm : s.taskPool.poolMutex = false)
    (h : s.taskPool.pool job.index = none) : Move s now (.delTask job task) (.answer job task)

/-- The ends of an iteration, where the worker gives up the task it holds. -/
inductive Drop : Worker P → Task P.Client → Worker P → Prop
  /-- `SetITimer` raises. -/
  | pushArmRaise {task timer} : Drop (.pushArm task timer) task .idle
  /-- `SendTo`, `Send` or `EpollModFd` raises. -/
  | forwardRaise {task data todo} : Drop (.forward task data todo) task .idle
  | forwardEnd {task data} : Drop (.forward task data []) task .serverLoop
  | compareOther {job task} (h : job.accepts task = false) : Drop (.compare job task) task job.skip
  | answerGone {job task} (h : P.mayDepart = true) : Drop (.answer job task) task job.again
  | answeredEnd {job task} : Drop (.answered job task) task job.again
  /-- `SendTo`, `Send` or `EpollModFd` raises. -/
  | answeredRaise {job task} : Drop (.answered job task) task .idle

/-- The atomic steps of a worker. -/
inductive Act : Action (Shared P) (Worker P)
  | move {l l' s now} (hc : s.clock ≤ now) (h : Move s now l l') :
    Act l s l' { s with clock := now }
  | serverReceive {s} (client : P.Client) (data : Bytes) (junk : Junk) {packet}
    (hd : P.receives data) (h : DnsPacket.ofBytes junk data = .ok packet)
    (hq : packet.questions ≠ []) :
    Act .serverLoop s (.putPop ⟨s.next, packet, client, none⟩) (s.makeTask client packet)
  | popIndex {s task i p} (h : s.taskPool.popIndex = some (i, p)) :
    Act (.putPop task) s (.putStore task i) { s with taskPool := p }
  | storeTask {s task i} (now : Time) (hc : s.clock ≤ now) (hm : s.taskPool.poolMutex = false) :
    Act (.putStore task i) s
      (.pushInsert { task with timer := some (s.makeTimer i now) } (s.makeTimer i now))
      (s.storeTask i task now)
  | pushInsert {s task timer} :
    Act (.pushInsert task timer) s (.pushSize task timer)
      { s with timerHeap := timer :: s.timerHeap }
  | forward {s task data r todo} :
    Act (.forward task data (r :: todo)) s (.forward task data todo)
      { s with log := .forward task.addr r data :: s.log }
  | heapPop {s limit t} (h : s.timerHeap.IsTop t) :
    Act (.heapPop limit) s (.timerValid t limit) { s with timerHeap := s.timerHeap.erase t }
  | getTask {s job task} (hm : s.taskPool.poolMutex = false)
    (h : s.taskPool.getTask job.index = some task) :
    Act (.getTask job) s (.compare job task) (s.share task.addr)
  | delTaskSome {s job task t} (hm : s.taskPool.poolMutex = false)
    (h : s.taskPool.pool job.index = some t) :
    Act (.delTask job task) s (.delPush job task) (s.clearTask job.index)
  | delPush {s job task} :
    Act (.delPush job task) s (.answer job task)
      { s with taskPool := s.taskPool.pushIndex job.index }
  | answer {s job task} (junk : DnsHeader) {data : Bytes}
    (h : (job.reply junk task).Serializes data) :
    Act (.answer job task) s (.answered job task)
      { s with log := .answer task.addr task.client (job.reply junk task) data :: s.log }
  | drop {l l' s task} (h : Drop l task l') : Act l s l' (s.release task)

end Worker

/-- The state before the first handler runs. -/
def Shared.initial (P : Transport) : Shared P where
  taskPool := .new
  timerHeap := []
  useCount := fun _ => 0
  valid := fun _ => false
  next := 0
  clock := 0
  log := []

/-- Workers over a shared state, before the first handler runs. -/
def initial (P : Transport) (W : Type*) : Config W (Shared P) (Worker P) :=
  ⟨.initial P, fun _ => .idle⟩

end DnsForwarder
