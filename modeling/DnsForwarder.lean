import DnsForwarder.Foundations.Interleaving
import DnsForwarder.Codec.Stream
import DnsForwarder.Codec.Packet
import DnsForwarder.Codec.Parse
import DnsForwarder.Codec.Serialize
import DnsForwarder.Codec.Wire
import DnsForwarder.Codec.Transparency
import DnsForwarder.Codec.RoundTrip
import DnsForwarder.Codec.Comparison
import DnsForwarder.Codec.Progress
import DnsForwarder.Codec.Termination
import DnsForwarder.Codec.Overrun
import DnsForwarder.Pool.TaskPool
import DnsForwarder.Pool.Partition
import DnsForwarder.Pool.Slots
import DnsForwarder.Pool.Capacity
import DnsForwarder.Timer.TimerHeap
import DnsForwarder.Timer.Alarm
import DnsForwarder.Workers.Machine
import DnsForwarder.Workers.Basic
import DnsForwarder.Workers.Runs
import DnsForwarder.Workers.Pool
import DnsForwarder.Workers.History
import DnsForwarder.Workers.Routing
import DnsForwarder.Workers.Answers
import DnsForwarder.Workers.Races
import DnsForwarder.Workers.Timers
import DnsForwarder.Workers.Serial
import DnsForwarder.Workers.Exhaustion
import DnsForwarder.Workers.Responses
import DnsForwarder.Workers.Relays
import DnsForwarder.Workers.Expiry
import DnsForwarder.Codec.Extent
import DnsForwarder.Codec.Leaks
import DnsForwarder.Tcp.Framing
import DnsForwarder.Tcp.Relay
import DnsForwarder.Tcp.Socket
import DnsForwarder.Tcp.Wakeup
import DnsForwarder.Tcp.Machine
import DnsForwarder.Tcp.Basic
import DnsForwarder.Tcp.Runs
import DnsForwarder.Tcp.Lifetime
import DnsForwarder.Tcp.Clients
import DnsForwarder.Udp.Wakeup
import DnsForwarder.Threads.ThreadPool
import DnsForwarder.Threads.Shutdown
import DnsForwarder.Tcp.Reconnect
import DnsForwarder.Server.Run
import DnsForwarder.Server.Drain
import DnsForwarder.Foundations.Loop
import DnsForwarder.Codec.Iterations
import DnsForwarder.Pool.Reuse
import DnsForwarder.Timer.Interval
import DnsForwarder.Timer.Arming
import DnsForwarder.Tcp.Order
import DnsForwarder.Tcp.Bounds
import DnsForwarder.Workers.ServerFailure
import DnsForwarder.Workers.EarlyExpiry
import DnsForwarder.Workers.Questions
import DnsForwarder.Foundations.Locks
import DnsForwarder.Foundations.LockCode
import DnsForwarder.Foundations.Amortized
import DnsForwarder.Foundations.Refinement
import DnsForwarder.Foundations.Ownership
import DnsForwarder.Foundations.Epoll
import DnsForwarder.Server.Locking
import DnsForwarder.Server.Descriptors
import DnsForwarder.Server.Teardown
import DnsForwarder.Server.Startup
import DnsForwarder.Workers.UseCounts
import DnsForwarder.Workers.Forwards
import DnsForwarder.Workers.EndToEnd
import DnsForwarder.Workers.Progress
import DnsForwarder.Workers.Table
import DnsForwarder.Tcp.Channel
import DnsForwarder.Udp.Queue
import DnsForwarder.Codec.NormalForm
