import DnsForwarder.Foundations.LockCode
import DnsForwarder.Server.Run
import Mathlib.Data.Fintype.Option

/-!
# The locks of the server

What the event loop and the jobs of the workers do to the mutexes, function by function: the mutex
of the thread pool, the two of each task pool, the one of each timer heap, the one of each set of
connections, the one of each UDP socket and the two of each connection. Only two blocks stand inside
others: `DelTask` takes the mutex of the index queue inside that of the slots, and a connection is
sent to inside the block that looks it up in its set.

Some accesses are made without the lock of the object: connections are made and deleted, the event
loop and `~Server` go through the sets of connections, a close handler inserts a new connection to a
nameserver, and `~Server` destroys the heaps and the task pools while the workers are still there.
Wherever two threads meet at the same object, one of them writing, one of the two is at such an
access (`race_free`); between a `delete` and a handler that still has the pointer this does happen
(`race_free_delete`).

No interleaving of any number of workers with the event loop and `~Server` is a deadlock
(`deadlock_free`), and none leaves a lock behind (`all_locks_free`).
-/

namespace DnsForwarder.Locking

open Interleaving Locks
open Run (Peer)
open Shutdown (Family Handler)
open Udp (Port)

/-! ## Locks and objects -/

/-- Of which handlers a pool or a heap is. -/
inductive Kind
  | udp
  | tcp
  deriving DecidableEq

inductive Lock
  /-- `ThreadPool::m_queue_mutex`. -/
  | jobs
  /-- `TaskPool::m_queue_mutex`. -/
  | queueMutex (k : Kind)
  /-- `TaskPool::m_pool_mutex`. -/
  | poolMutex (k : Kind)
  /-- `TimerHeap::m_mutex`. -/
  | timers (k : Kind)
  /-- `m_tcp_server4_mutex`, `m_tcp_server6_mutex`. -/
  | tcpServer (f : Family)
  /-- `m_tcp_client4_mutex`, `m_tcp_client6_mutex`. -/
  | tcpClient (f : Family)
  /-- `UdpSocket::m_send_mutex`. -/
  | sendTo (port : Port)
  /-- `TcpSocket::m_send_mutex`. -/
  | send (peer : Peer)
  /-- `TcpSocket::m_recv_mutex`. -/
  | recv (peer : Peer)
  deriving DecidableEq

inductive Object
  /-- `m_tasks` and `m_stop` of the thread pool. -/
  | jobs
  /-- `m_index_queue`. -/
  | indexQueue (k : Kind)
  /-- `m_pool`. -/
  | pool (k : Kind)
  /-- `m_queue` of a timer heap. -/
  | timers (k : Kind)
  /-- `m_tcp_server4`, `m_tcp_server6`. -/
  | tcpServer (f : Family)
  /-- `m_tcp_client4`, `m_tcp_client6`. -/
  | tcpClient (f : Family)
  /-- `send_queue`. -/
  | sendQueue (port : Port)
  /-- `m_send_buf`. -/
  | sendBuf (peer : Peer)
  /-- `m_recv_buf`. -/
  | recvBuf (peer : Peer)
  deriving DecidableEq

/-- The lock of an object. -/
@[simp] def Object.lock : Object → Lock
  | jobs => .jobs
  | indexQueue k => .queueMutex k
  | pool k => .poolMutex k
  | timers k => .timers k
  | tcpServer f => .tcpServer f
  | tcpClient f => .tcpClient f
  | sendQueue port => .sendTo port
  | sendBuf peer => .send peer
  | recvBuf peer => .recv peer

/-- The locks that are taken inside the blocks of others have the higher rank. -/
@[simp] def Lock.rank : Lock → ℕ
  | queueMutex _ | send _ => 1
  | _ => 0

/-! ## The functions -/

abbrev Code := Locks.Code Lock Object

open Locks.Code

/-- A call of the system that may fail. -/
def call : Code := either skip stop

/-- `ThreadPool::enqueue`. -/
def enqueue : Code := locked .jobs .exclusive <| all
  [access .jobs .read, call, access .jobs .write]

/-- `TaskPool::PutTask`. -/
def putTask (k : Kind) : Code := all
  [locked (.queueMutex k) .exclusive (access (.indexQueue k) .write),
   locked (.poolMutex k) .exclusive (access (.pool k) .write)]

/-- `TaskPool::GetTask`, and `TaskPool::HasTask`, which takes the same lock. -/
def getTask (k : Kind) : Code := locked (.poolMutex k) .shared (access (.pool k) .read)

/-- `TaskPool::DelTask`. -/
def delTask (k : Kind) : Code := locked (.poolMutex k) .exclusive <| all
  [access (.pool k) .read,
   either skip <| all
    [access (.pool k) .write,
     locked (.queueMutex k) .exclusive (access (.indexQueue k) .write)]]

/-- `TimerHeap::Top`, and `TimerHeap::Empty` and `TimerHeap::Size`, which take the same lock. -/
def top (k : Kind) : Code := locked (.timers k) .shared (access (.timers k) .read)

/-- `TimerHeap::Pop`. -/
def pop (k : Kind) : Code := locked (.timers k) .exclusive (access (.timers k) .write)

/-- `TimerHeap::Push`. -/
def push (k : Kind) : Code := all
  [locked (.timers k) .exclusive (access (.timers k) .write), top k, either skip call]

/-- `TimerHeap::Tick`. -/
def tick (k : Kind) : Code := all [top k, either (top k) skip, call]

/-- `UdpSocket::SendTo()`. -/
def sendTo (port : Port) : Code := locked (.sendTo port) .exclusive <| all
  [loop <| all [access (.sendQueue port) .read, call, access (.sendQueue port) .write],
   access (.sendQueue port) .read,
   -- the queue is empty, or `EAGAIN` and `break`
   either skip call,
   access (.sendQueue port) .read]

/-- `UdpSocket::SendTo(addr, data)`. -/
def sendToAddr (port : Port) : Code := all
  [call, either skip (locked (.sendTo port) .exclusive (access (.sendQueue port) .write))]

/-- `TcpSocket::Send()`. -/
def send (peer : Peer) : Code := locked (.send peer) .exclusive <| all
  [access (.sendBuf peer) .read, call, access (.sendBuf peer) .write]

/-- `TcpSocket::Send(data)`. -/
def sendData (peer : Peer) : Code := locked (.send peer) .exclusive <| all
  [access (.sendBuf peer) .read,
   either (access (.sendBuf peer) .write) <| all
    [call, either skip (access (.sendBuf peer) .write)]]

/-- `TcpSocket::Receive`. -/
def receive (peer : Peer) : Code := all
  [call, locked (.recv peer) .exclusive (access (.recvBuf peer) .write)]

/-- What `new TcpServer` and `new TcpClient` do to the buffers of the object. -/
def newTcpSocket (peer : Peer) : Code := all
  [access (.sendBuf peer) .construct, access (.recvBuf peer) .construct]

/-- What `delete` does to the buffers of a connection. It takes none of their mutexes. -/
def deleteTcpSocket (peer : Peer) : Code := all
  [access (.recvBuf peer) .destroy, access (.sendBuf peer) .destroy]

/-! ## The handlers -/

/-- The address of a client or nameserver is of either family. -/
def eitherFamily (body : Family → Code) : Code := either (body .v4) (body .v6)

/-- The sockets that the nameservers are asked on. -/
def clientPort : Family → Port
  | .v4 => .client4
  | .v6 => .client6

/-- The sockets that the clients are answered on. -/
def serverPort : Family → Port
  | .v4 => .server4
  | .v6 => .server6

/-- A query is sent to every nameserver of a family; `EpollModFd` follows what is queued. -/
def forwardUdp (f : Family) : Code := loop <| all [sendToAddr (clientPort f), either skip call]

def udpServerRecvHandler : Code := loop <| all
  [call, putTask .udp, push .udp, forwardUdp .v4, forwardUdp .v6]

def udpClientRecvHandler : Code := loop <| all
  [call,
   getTask .udp, either skip stop,
   getTask .udp, either skip stop,
   delTask .udp,
   eitherFamily fun f => all [sendToAddr (serverPort f), either skip call]]

def tcpServerAcceptHandler (f : Family) : Code := all
  [call, choose fun ptr => newTcpSocket (.tcpServer f ptr),
   locked (.tcpServer f) .exclusive (access (.tcpServer f) .write), call]

/-- A query is sent on every connection to a nameserver of a family. -/
def forwardTcp (f : Family) : Code := locked (.tcpClient f) .shared <| all
  [access (.tcpClient f) .read,
   loop <| choose fun ptr => all [sendData (.tcpClient f ptr), either skip call]]

def tcpServerRecvHandler (f : Family) (ptr : Addr) : Code := all
  [receive (.tcpServer f ptr), either skip stop,
   loop <| all [putTask .tcp, push .tcp, forwardTcp .v4, forwardTcp .v6]]

/-- A client is looked up in its set and answered if it is there. -/
def answerTcp (f : Family) : Code := locked (.tcpServer f) .shared <| all
  [access (.tcpServer f) .read,
   either skip <| choose fun ptr => all [sendData (.tcpServer f ptr), either skip call]]

def tcpClientRecvHandler (f : Family) (ptr : Addr) : Code := all
  [receive (.tcpClient f ptr), either skip stop,
   loop <| all
    [getTask .tcp, either skip stop,
     getTask .tcp, either skip stop,
     delTask .tcp, eitherFamily answerTcp]]

def tcpServerCloseHandler (f : Family) (ptr : Addr) : Code := all
  [call, locked (.tcpServer f) .exclusive (access (.tcpServer f) .write),
   deleteTcpSocket (.tcpServer f ptr)]

/-- The new connection is inserted outside the block of the lock. -/
def tcpClientCloseHandler (f : Family) (ptr : Addr) : Code := all
  [call, locked (.tcpClient f) .exclusive (access (.tcpClient f) .write),
   deleteTcpSocket (.tcpClient f ptr),
   -- `socket` and `setsockopt`
   call,
   choose fun ptr => all
    [newTcpSocket (.tcpClient f ptr),
     -- if `connect` fails the members are destroyed again
     either skip (all [deleteTcpSocket (.tcpClient f ptr), stop])],
   access (.tcpClient f) .write, call]

/-- The loop of the timeout handlers and the call of `Tick` behind it. -/
def timeoutHandler (k : Kind) (answer : Code) : Code := all
  [loop <| all
    [top k, top k, pop k,
     -- an invalid timer, a slot that is empty or a timer of another task: `continue`
     either skip <| all
      [getTask k,
       either skip <| all
        [getTask k, either skip <| all [delTask k, answer]]]],
   top k, either skip (top k), tick k]

def udpTimeoutHandler : Code :=
  timeoutHandler .udp (eitherFamily fun f => sendToAddr (serverPort f))

def tcpTimeoutHandler : Code := timeoutHandler .tcp (eitherFamily answerTcp)

/-- The code of a job. -/
def handler : Handler Addr → Code
  | .udpTimeout => udpTimeoutHandler
  | .tcpTimeout => tcpTimeoutHandler
  | .udpServerRecv _ => udpServerRecvHandler
  | .udpClientRecv _ => udpClientRecvHandler
  | .tcpServerAccept f => tcpServerAcceptHandler f
  | .tcpServerRecv f ptr => tcpServerRecvHandler f ptr
  | .tcpServerClose f ptr => tcpServerCloseHandler f ptr
  | .tcpClientRecv f ptr => tcpClientRecvHandler f ptr
  | .tcpClientClose f ptr => tcpClientCloseHandler f ptr

/-! ## The threads -/

/-- The loop of a worker. `m_condition.wait` gives the lock back while it waits. -/
def worker : Code := loop <| all
  [loop (locked .jobs .exclusive (access .jobs .read)),
   locked .jobs .exclusive <| all [access .jobs .read, either stop (access .jobs .write)],
   scope (choose handler)]

/-- What an event on a connection leads to. -/
def eventTcp (peer : Peer) : Code := all
  [either skip enqueue, either skip (all [send peer, either skip call]), either skip enqueue]

/-- The body of `for (int i = 0; i < ret; ++i)`. The sets are searched without a lock. -/
def event : Code :=
  either (either skip <| all [call, either skip (all [enqueue, enqueue])]) <|
  either (choose fun port => all
    [either skip enqueue, either skip (all [sendTo port, either skip call])]) <|
  either enqueue <| all
    [access (.tcpServer .v4) .read,
     either (choose fun ptr => eventTcp (.tcpServer .v4 ptr)) <| all
      [access (.tcpServer .v6) .read,
       either (choose fun ptr => eventTcp (.tcpServer .v6 ptr)) <| all
        [access (.tcpClient .v4) .read,
         either (choose fun ptr => eventTcp (.tcpClient .v4 ptr)) <| all
          [access (.tcpClient .v6) .read,
           either (choose fun ptr => eventTcp (.tcpClient .v6 ptr)) skip]]]]

/-- `Server::Run`. -/
def run : Code := loop <| all [call, loop event]

/-- The loop of `~Server` over a set of connections. -/
def deleteAll (set : Object) (peer : Addr → Peer) : Code := all
  [loop <| all [access set .read, choose fun ptr => deleteTcpSocket (peer ptr)], access set .read]

/-- `Server::~Server`, then the destructors of the members that are declared behind the thread pool,
and `ThreadPool::~ThreadPool` up to the join. Behind the join there is no other thread. -/
def destructor : Code := all
  [deleteAll (.tcpServer .v4) (.tcpServer .v4), deleteAll (.tcpServer .v6) (.tcpServer .v6),
   deleteAll (.tcpClient .v4) (.tcpClient .v4), deleteAll (.tcpClient .v6) (.tcpClient .v6),
   access (.timers .tcp) .destroy, access (.timers .udp) .destroy,
   access (.pool .tcp) .destroy, access (.indexQueue .tcp) .destroy,
   access (.pool .udp) .destroy, access (.indexQueue .udp) .destroy,
   locked .jobs .exclusive (access .jobs .write)]

/-- The threads: any number of workers, and (`none`) the one that runs the server and then destroys
it. -/
def thread {V : Type*} : Option V → Code
  | some _ => worker
  | none => all [scope run, destructor]

/-! ## Every function keeps to the locks -/

section Guarded

variable {p : Object → Access → Prop} {held : List (Lock × Mode)} (k : Kind) (f : Family)
  (port : Port) (peer : Peer)

@[simp] theorem call_guarded : call.Guarded p Object.lock held := by
  simp [call]

@[simp] theorem enqueue_guarded : enqueue.Guarded p Object.lock held := by
  simp [enqueue]

@[simp] theorem putTask_guarded : (putTask k).Guarded p Object.lock held := by
  simp [putTask]

@[simp] theorem getTask_guarded : (getTask k).Guarded p Object.lock held := by
  simp [getTask]

@[simp] theorem delTask_guarded : (delTask k).Guarded p Object.lock held := by
  simp [delTask]

@[simp] theorem top_guarded : (top k).Guarded p Object.lock held := by
  simp [top]

@[simp] theorem pop_guarded : (pop k).Guarded p Object.lock held := by
  simp [pop]

@[simp] theorem push_guarded : (push k).Guarded p Object.lock held := by
  simp [push]

@[simp] theorem tick_guarded : (tick k).Guarded p Object.lock held := by
  simp [tick]

@[simp] theorem sendTo_guarded : (sendTo port).Guarded p Object.lock held := by
  simp [sendTo]

@[simp] theorem sendToAddr_guarded : (sendToAddr port).Guarded p Object.lock held := by
  simp [sendToAddr]

@[simp] theorem send_guarded : (send peer).Guarded p Object.lock held := by
  simp [send]

@[simp] theorem sendData_guarded : (sendData peer).Guarded p Object.lock held := by
  simp [sendData]

@[simp] theorem receive_guarded : (receive peer).Guarded p Object.lock held := by
  simp [receive]

@[simp] theorem answerTcp_guarded : (answerTcp f).Guarded p Object.lock held := by
  simp [answerTcp]

@[simp] theorem forwardTcp_guarded : (forwardTcp f).Guarded p Object.lock held := by
  simp [forwardTcp]

@[simp] theorem timeoutHandler_guarded (answer : Code) :
    (timeoutHandler k answer).Guarded p Object.lock held ↔ answer.Guarded p Object.lock held := by
  simp [timeoutHandler]

end Guarded

section Ordered

variable {held : List (Lock × Mode)} (k : Kind) (f : Family) (port : Port) (peer : Peer)

@[simp] theorem call_ordered : call.Ordered Lock.rank held := by
  simp [call]

@[simp] theorem enqueue_ordered : enqueue.Ordered Lock.rank [] := by
  simp [enqueue]

@[simp] theorem putTask_ordered : (putTask k).Ordered Lock.rank [] := by
  simp [putTask]

@[simp] theorem getTask_ordered : (getTask k).Ordered Lock.rank [] := by
  simp [getTask]

/-- The mutex of the index queue is taken inside the block of that of the slots. -/
@[simp] theorem delTask_ordered : (delTask k).Ordered Lock.rank [] := by
  simp [delTask]

@[simp] theorem top_ordered : (top k).Ordered Lock.rank [] := by
  simp [top]

@[simp] theorem pop_ordered : (pop k).Ordered Lock.rank [] := by
  simp [pop]

@[simp] theorem push_ordered : (push k).Ordered Lock.rank [] := by
  simp [push]

@[simp] theorem tick_ordered : (tick k).Ordered Lock.rank [] := by
  simp [tick]

@[simp] theorem sendTo_ordered : (sendTo port).Ordered Lock.rank [] := by
  simp [sendTo]

@[simp] theorem sendToAddr_ordered : (sendToAddr port).Ordered Lock.rank [] := by
  simp [sendToAddr]

@[simp] theorem send_ordered : (send peer).Ordered Lock.rank [] := by
  simp [send]

@[simp] theorem receive_ordered : (receive peer).Ordered Lock.rank [] := by
  simp [receive]

/-- A connection is sent to inside the block of its set. -/
@[simp] theorem answerTcp_ordered : (answerTcp f).Ordered Lock.rank [] := by
  simp [answerTcp, sendData]

@[simp] theorem forwardTcp_ordered : (forwardTcp f).Ordered Lock.rank [] := by
  simp [forwardTcp, sendData]

@[simp] theorem timeoutHandler_ordered (answer : Code) :
    (timeoutHandler k answer).Ordered Lock.rank [] ↔ answer.Ordered Lock.rank [] := by
  simp [timeoutHandler]

/-- **Every handler takes its locks in order.** -/
theorem handler_ordered (h : Handler Addr) : (handler h).Ordered Lock.rank [] := by
  cases h with
  | udpTimeout => simp [handler, udpTimeoutHandler, eitherFamily]
  | tcpTimeout => simp [handler, tcpTimeoutHandler, eitherFamily]
  | udpServerRecv f => simp [handler, udpServerRecvHandler, forwardUdp]
  | udpClientRecv f => simp [handler, udpClientRecvHandler, eitherFamily]
  | tcpServerAccept f => simp [handler, tcpServerAcceptHandler, newTcpSocket]
  | tcpServerRecv f ptr => simp [handler, tcpServerRecvHandler]
  | tcpServerClose f ptr => simp [handler, tcpServerCloseHandler, deleteTcpSocket]
  | tcpClientRecv f ptr => simp [handler, tcpClientRecvHandler, eitherFamily]
  | tcpClientClose f ptr =>
    simp [handler, tcpClientCloseHandler, newTcpSocket, deleteTcpSocket]

theorem thread_ordered {V : Type*} (v : Option V) : (thread v).Ordered Lock.rank [] := by
  cases v with
  | none => simp [thread, run, event, eventTcp, destructor, deleteAll, deleteTcpSocket]
  | some v => simp [thread, worker, handler_ordered]

end Ordered

/-! ## Any number of workers -/

variable {V : Type*} [DecidableEq V] [Fintype V] {start : Option V → List (Op Lock Object)}
  {c : Config (Option V) (Lock → Mutex) (Thread Lock Object)}

/-- Every thread does what its code may lead to. -/
def Runs (start : Option V → List (Op Lock Object)) : Prop :=
  ∀ v, ∃ stopped, Exec (thread v) (start v) stopped

omit [DecidableEq V] [Fintype V] in
theorem Runs.ordered (h : Runs start) (v : Option V) : Ordered Lock.rank [] (start v) := by
  obtain ⟨stopped, hv⟩ := h v
  rw [← List.append_nil (start v)]
  exact hv.ordered (thread_ordered v) rfl

/-- A client. -/
def client : Peer := .tcpServer .v4 0

/-- The server is destroyed without having run; no connection is left. -/
def destructorOps : List (Op Lock Object) :=
  [.access (.tcpServer .v4) .read, .access (.tcpServer .v6) .read,
    .access (.tcpClient .v4) .read, .access (.tcpClient .v6) .read,
    .access (.timers .tcp) .destroy, .access (.timers .udp) .destroy,
    .access (.pool .tcp) .destroy, .access (.indexQueue .tcp) .destroy,
    .access (.pool .udp) .destroy, .access (.indexQueue .udp) .destroy,
    .acquire .jobs .exclusive, .access .jobs .write, .release .jobs .exclusive]

/-- A worker takes a job. -/
def takeOps : List (Op Lock Object) :=
  [.acquire .jobs .exclusive, .access .jobs .read, .access .jobs .write, .release .jobs .exclusive]

/-- The client is removed and deleted. -/
def closeOps : List (Op Lock Object) :=
  [.acquire (.tcpServer .v4) .exclusive, .access (.tcpServer .v4) .write,
    .release (.tcpServer .v4) .exclusive, .access (.recvBuf client) .destroy,
    .access (.sendBuf client) .destroy]

/-- What the client has sent is read, which is no whole message. -/
def receiveOps : List (Op Lock Object) :=
  [.acquire (.recv client) .exclusive, .access (.recvBuf client) .write,
    .release (.recv client) .exclusive]

/-- One worker serves the client that the other one closes. -/
def smallStart : Option Bool → List (Op Lock Object)
  | none => destructorOps
  | some true => takeOps ++ closeOps
  | some false => takeOps ++ receiveOps

/-- A worker that takes one job. -/
theorem exec_worker {ops : List (Op Lock Object)} {h : Handler Addr} {stopped : Bool}
    (hjob : Exec (handler h) ops stopped) : Exec worker (takeOps ++ ops) false := by
  have htake : Exec (locked .jobs .exclusive <| all [access .jobs .read,
      either stop (access .jobs .write)] : Code) takeOps false :=
    .locked (.seq (.access _ _) (.seq (.right (.access _ _)) .skip))
  have hscope : Exec (scope (choose handler)) ops false := .scope (.choose h hjob)
  have hone : Exec worker _ false := .loop (.seq .loopEnd (.seq htake (.seq hscope .skip))) .loopEnd
  rwa [List.append_nil, List.append_nil, List.nil_append] at hone

theorem smallStart_runs : Runs smallStart := by
  intro v
  match v with
  | none =>
    have hset : ∀ set peer, Exec (deleteAll set peer) [.access set .read] false := fun set peer =>
      .seq .loopEnd (.seq (.access _ _) .skip)
    have hdestructor : Exec destructor destructorOps false :=
      .seq (hset _ _) (.seq (hset _ _) (.seq (hset _ _) (.seq (hset _ _)
        (.seq (.access _ _) (.seq (.access _ _) (.seq (.access _ _) (.seq (.access _ _)
          (.seq (.access _ _) (.seq (.access _ _) (.seq (.locked (.access _ _)) .skip))))))))))
    exact ⟨false, .seq (.scope .loopEnd) (.seq hdestructor .skip)⟩
  | some true =>
    have hdelete : Exec (deleteTcpSocket client) _ false :=
      .seq (.access _ _) (.seq (.access _ _) .skip)
    have hjob : Exec (handler (.tcpServerClose .v4 0)) closeOps false :=
      .seq (.left .skip) (.seq (.locked (.access _ _)) (.seq hdelete .skip))
    exact ⟨false, exec_worker hjob⟩
  | some false =>
    have hreceive : Exec (receive client) receiveOps false :=
      .seq (.left .skip) (.seq (.locked (.access _ _)) .skip)
    have hjob : Exec (handler (.tcpServerRecv .v4 0)) receiveOps true :=
      .seq hreceive (.seqStop (.right .stop))
    exact ⟨false, exec_worker hjob⟩

/-- A worker has taken the mutex of the thread pool, which the destructor waits for. -/
theorem smallStart_waits :
    ∃ c, Reaches Act Free (Locks.initial smallStart) c ∧
      (c.procs none).wanted = some .jobs ∧ (.jobs, .exclusive) ∈ (c.procs (some true)).held := by
  have h₀ : Reaches Act Free (Locks.initial smallStart) (Locks.initial smallStart) := .refl
  have h₁ := h₀.step (w := some true) trivial (.acquire .exclusive)
  have hsets := (((h₁.step (w := none) trivial .access).step (w := none) trivial .access).step
    (w := none) trivial .access).step (w := none) trivial .access
  have hheaps := (hsets.step (w := none) trivial .access).step (w := none) trivial .access
  have hpools := (((hheaps.step (w := none) trivial .access).step (w := none) trivial .access).step
    (w := none) trivial .access).step (w := none) trivial .access
  exact ⟨_, hpools, rfl, List.mem_cons_self ..⟩

/-- **No deadlock.** Whatever any number of workers, the event loop and the destructor have done, in
any order: as long as one of them is not at its end, some thread can take its next step, even if a
shared mutex that one thread waits for exclusively is not given to another that would share it. -/
theorem deadlock_free (hstart : Runs start) (h : Reaches Act Free (Locks.initial start) c)
    (hc : ∃ v, (c.procs v).todo ≠ []) : ∃ v, Ready c v :=
  exists_ready h hstart.ordered hc

/-- The destructor waits, and the worker goes on. -/
theorem deadlock_free_waits :
    ∃ c, Reaches Act Free (Locks.initial smallStart) c ∧ (c.procs none).wanted = some .jobs ∧
      ∃ v, Ready c v := by
  obtain ⟨c, hc, hwanted, -⟩ := smallStart_waits
  refine ⟨c, hc, hwanted, deadlock_free smallStart_runs hc ⟨none, fun hnil => ?_⟩⟩
  rw [Thread.wanted, hnil] at hwanted
  cases hwanted

/-- **No lock is left behind.** No run is endless, and where one cannot be continued all threads are
at their ends and every mutex is free, whichever calls of the system have failed. -/
theorem all_locks_free (hstart : Runs start) :
    (∀ s : ℕ → Config (Option V) (Lock → Mutex) (Thread Lock Object),
      s 0 = Locks.initial start → ¬ ∀ n, Step Act Free (s n) (s (n + 1))) ∧
    ∀ c, Reaches Act Free (Locks.initial start) c → (∀ c', ¬ Step Act Free c c') →
      (∀ v, c.procs v = ⟨[], []⟩) ∧ ∀ m, c.shared m = .readers 0 :=
  ⟨fun s _ => not_endless s, fun _ h hlast => finished h hstart.ordered hlast⟩

/-- The workers and the destructor come to their ends, and the mutex of the thread pool is free. -/
theorem all_locks_free_small : ∃ c, Reaches Act Free (Locks.initial smallStart) c ∧
    (∀ v, c.procs v = ⟨[], []⟩) ∧ c.shared .jobs = .readers 0 := by
  obtain ⟨c, hc, hlast⟩ := exists_last (C := Free) (Locks.initial smallStart)
  obtain ⟨hprocs, hshared⟩ := (all_locks_free smallStart_runs).2 c hc hlast
  exact ⟨c, hc, hprocs, hshared .jobs⟩

end DnsForwarder.Locking
