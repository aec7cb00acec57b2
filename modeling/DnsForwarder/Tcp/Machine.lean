import DnsForwarder.Workers.Basic

/-!
# The connections of the TCP clients

The life of the `TcpServer` objects: `TcpServerAcceptHandler` makes one for each connection and
puts its address into `m_tcp_server4` or `m_tcp_server6`; the event loop looks the address of an
event up in these sets and enqueues `TcpServerRecvHandler` and `TcpServerCloseHandler`; and the
latter deletes the object. The tasks of the pool remember the address of the connection that their
query came from.

The machine runs the event loop and any number of workers. A worker that executes the handlers of
`Workers/Machine.lean` takes the steps of `Worker.Act`; what is added here is the connection it
takes them for, and every access to a `TcpServer` object. An access through an address whose
object has been deleted in the meantime is recorded in `dangling`.
-/

namespace DnsForwarder

open Interleaving

/-- The address as the allocator knows it. -/
def TcpPtr.addr : TcpPtr → Addr
  | v4 a | v6 a => a

namespace Tcp

/-- A `TcpServer *`. The number of the accept event for which its object was made is no part of
the program: it tells the objects apart that were at one address one after the other. -/
structure Connection where
  ptr : TcpPtr
  accept : ℕ
  deriving DecidableEq

/-- The TCP handlers; the clients are the accepted connections. -/
abbrev transport : Transport := { Transport.tcp with Client := Connection }

/-- The events that `epoll_wait` reports for a connection. -/
structure Events where
  epollin : Bool
  epollout : Bool
  epollrdhup : Bool

/-- A job of the thread pool that was enqueued for a client connection. -/
inductive Enqueued
  /-- `TcpServerRecvHandler`. -/
  | recv (tcpServer : Connection)
  /-- `TcpServerCloseHandler`. -/
  | close (tcpServer : Connection)

/-- The connection a job was enqueued for. -/
def Enqueued.tcpServer : Enqueued → Connection
  | recv c | close c => c

structure Server where
  shared : Shared transport
  /-- The `TcpServer` objects: at which address there is one, and from which accept event. -/
  object : TcpPtr → Option ℕ
  /-- `m_tcp_server4` and `m_tcp_server6`. -/
  tcpServer : TcpPtr → Bool
  /-- `m_tasks` of the thread pool, as far as the client connections are concerned. -/
  tasks : List Enqueued
  /-- How many connections were accepted. -/
  accepts : ℕ
  /-- Whether an object was accessed after it had been deleted. -/
  dangling : Bool
  /-- The tasks that were answered, each with the accept event of the connection on which the
  answer was sent; the latest first. -/
  sent : List (Addr × ℕ)

namespace Server

/-- The object a pointer was taken from exists. -/
def Valid (s : Server) (c : Connection) : Prop := s.object c.ptr = some c.accept

instance (s : Server) (c : Connection) : Decidable (s.Valid c) :=
  inferInstanceAs (Decidable (_ = _))

/-- The object at `c` is accessed. -/
def touch (s : Server) (c : Connection) : Server :=
  { s with dangling := s.dangling || !decide (s.Valid c) }

/-- `new TcpServer` has returned `p`, which is inserted into the set before anybody else knows
it. -/
def accept (s : Server) (p : TcpPtr) : Server :=
  { s with
    object := Function.update s.object p (some s.accepts)
    tcpServer := Function.update s.tcpServer p true
    accepts := s.accepts + 1 }

/-- `m_thread_pool.enqueue` if the event was reported. -/
def enqueueIf (s : Server) (b : Bool) (job : Enqueued) : Server :=
  { s with tasks := if b then s.tasks ++ [job] else s.tasks }

def erase (s : Server) (c : Connection) : Server :=
  { s with tcpServer := Function.update s.tcpServer c.ptr false }

def delete (s : Server) (c : Connection) : Server :=
  { s with object := Function.update s.object c.ptr none }

end Server

/-- The event loop or a worker. -/
inductive Thread
  /-- The event loop before `epoll_wait`. -/
  | epollWait
  /-- It has found the address of an event in the set: before it tests for `EPOLLIN`. -/
  | epollin (tcpServer : Connection) (events : Events)
  /-- Before it tests for `EPOLLOUT`. -/
  | epollout (tcpServer : Connection) (events : Events)
  /-- `Send()` has returned false: before `EpollModFd`. -/
  | epollModFd (tcpServer : Connection) (events : Events)
  /-- Before it tests for `EPOLLRDHUP`. -/
  | epollrdhup (tcpServer : Connection) (events : Events)
  /-- A worker in no handler, in `TcpClientRecvHandler` or in `TcpTimeoutHandler`. -/
  | worker (l : Worker transport)
  /-- A worker with an answer for the client of `task`, before it looks the client up. -/
  | lookup (job : Job transport) (task : Task Connection)
  /-- `TcpServerAcceptHandler` before `new TcpServer`, which is to return `tcpServer`. -/
  | accept (tcpServer : TcpPtr)
  /-- `TcpServerRecvHandler` before `Receive`. -/
  | receive (tcpServer : Connection)
  /-- `TcpServerRecvHandler` in its loop over the frames. -/
  | frames (tcpServer : Connection) (l : Worker transport)
  /-- `TcpServerCloseHandler` before `EpollDelFd`. -/
  | epollDelFd (tcpServer : Connection)
  /-- Before `fd()` for the log. -/
  | closeLog (tcpServer : Connection)
  /-- Before `erase`. -/
  | erase (tcpServer : Connection)
  /-- Before `delete`. -/
  | delete (tcpServer : Connection)

namespace Thread

/-- The atomic steps of the event loop and of the workers. -/
inductive Act : Action Server Thread
  -- the event loop; if `Send()` or `EpollModFd` raises there, the program ends
  | event {s c events} (h : s.tcpServer c.ptr = true) (ho : s.Valid c) :
    Act .epollWait s (.epollin c events) s
  | epollin {s c events} :
    Act (.epollin c events) s (.epollout c events) (s.enqueueIf events.epollin (.recv c))
  | sendMore {s c events} (h : events.epollout = true) :
    Act (.epollout c events) s (.epollrdhup c events) (s.touch c)
  | sendAll {s c events} (h : events.epollout = true) :
    Act (.epollout c events) s (.epollModFd c events) (s.touch c)
  | noEpollout {s c events} (h : events.epollout = false) :
    Act (.epollout c events) s (.epollrdhup c events) s
  | epollModFd {s c events} : Act (.epollModFd c events) s (.epollrdhup c events) (s.touch c)
  | epollrdhup {s c events} :
    Act (.epollrdhup c events) s .epollWait (s.enqueueIf events.epollrdhup (.close c))
  -- `TcpServerAcceptHandler`; the allocator returns an address at which there is no object
  | acceptStart {s p} : Act (.worker .idle) s (.accept p) s
  | accept {s p} (h : ∀ q : TcpPtr, q.addr = p.addr → s.object q = none) :
    Act (.accept p) s (.worker .idle) (s.accept p)
  -- `TcpServerRecvHandler`; it works on the object that is at its address now
  | recvStart {s c tasks} (h : s.tasks = .recv c :: tasks) :
    Act (.worker .idle) s (.receive c) { s with tasks }
  | receive {s c n} (ho : s.object c.ptr = some n) :
    Act (.receive c) s (.frames ⟨c.ptr, n⟩ .serverLoop) (s.touch c)
  | receiveRaise {s c} : Act (.receive c) s (.worker .idle) (s.touch c)
  | frame {s c task s'} (h : Worker.Act .serverLoop s.shared (.putPop task) s')
    (hc : task.client = c) :
    Act (.frames c .serverLoop) s (.frames c (.putPop task)) { s.touch c with shared := s' }
  | frames {s c l l' s'} (h : Worker.Act l s.shared l' s') (hl : l ≠ .idle)
    (hl' : ∀ task, l' ≠ .putPop task) :
    Act (.frames c l) s (.frames c l') { s with shared := s' }
  | recvEnd {s c} : Act (.frames c .idle) s (.worker .idle) s
  -- `TcpClientRecvHandler` and `TcpTimeoutHandler`
  | worker {s l l' s'} (h : Worker.Act l s.shared l' s') (hl : ∀ job task, l ≠ .answer job task)
    (hl' : l' ≠ .serverLoop) : Act (.worker l) s (.worker l') { s with shared := s' }
  /-- `fd()` for the log, after `serialize`. -/
  | answerLog {s job task junk data} (h : (job.reply junk task).Serializes data) :
    Act (.worker (.answer job task)) s (.lookup job task) (s.touch task.client)
  /-- Under the mutex of the set: `find`, `Send` and `EpollModFd`. -/
  | send {s job task n s'} (h : Worker.Act (.answer job task) s.shared (.answered job task) s')
    (hset : s.tcpServer task.client.ptr = true) (ho : s.object task.client.ptr = some n) :
    Act (.lookup job task) s (.worker (.answered job task))
      { s.touch task.client with shared := s', sent := (task.addr, n) :: s.sent }
  | gone {s job task s'} (h : Worker.Act (.answer job task) s.shared job.again s')
    (hset : s.tcpServer task.client.ptr = false) :
    Act (.lookup job task) s (.worker job.again) { s with shared := s' }
  -- `TcpServerCloseHandler`
  | closeStart {s c tasks} (h : s.tasks = .close c :: tasks) :
    Act (.worker .idle) s (.epollDelFd c) { s with tasks }
  | epollDelFd {s c} : Act (.epollDelFd c) s (.closeLog c) (s.touch c)
  | epollDelFdRaise {s c} : Act (.epollDelFd c) s (.worker .idle) (s.touch c)
  | closeLog {s c} : Act (.closeLog c) s (.erase c) (s.touch c)
  | erase {s c} : Act (.erase c) s (.delete c) (s.erase c)
  | delete {s c} : Act (.delete c) s (.worker .idle) ((s.touch c).delete c)

end Thread

/-- Before the first connection is accepted. -/
def Server.initial : Server where
  shared := .initial transport
  object := fun _ => none
  tcpServer := fun _ => false
  tasks := []
  accepts := 0
  dangling := false
  sent := []

/-- The event loop and the workers `W` before the first connection is accepted. -/
def initial (W : Type*) : Config (Option W) Server Thread :=
  ⟨.initial, fun t => t.elim .epollWait fun _ => .worker .idle⟩

end Tcp

end DnsForwarder
