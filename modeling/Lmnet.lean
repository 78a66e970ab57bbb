import Lmnet.Darwin.CloseOrder
import Lmnet.Darwin.KernelFilters
import Lmnet.Darwin.LifeCycle
import Lmnet.Darwin.SendLoop
import Lmnet.Darwin.ServerStop
import Lmnet.Darwin.TcpClient
import Lmnet.Darwin.UdpReceive
import Lmnet.Epoll.ByteTransparency
import Lmnet.Epoll.DescriptorReceive
import Lmnet.Epoll.DescriptorTransfer
import Lmnet.Epoll.InterestList
import Lmnet.Epoll.SendTurn
import Lmnet.Epoll.ServerTables
import Lmnet.Epoll.StaleEvent
import Lmnet.Epoll.TcpClient
import Lmnet.Epoll.UdpReceive
import Lmnet.Epoll.WakeUp
import Lmnet.IoUring.ClientConnections
import Lmnet.IoUring.DescriptorReceive
import Lmnet.IoUring.DescriptorSend
import Lmnet.IoUring.FdOwnership
import Lmnet.IoUring.ListenerProtocol
import Lmnet.IoUring.Manager
import Lmnet.IoUring.Nesting
import Lmnet.IoUring.RequestLifeCycle
import Lmnet.IoUring.Resubmission
import Lmnet.IoUring.Shutdown
import Lmnet.IoUring.ShutdownAccounts
import Lmnet.IoUring.ShutdownReturns
import Lmnet.IoUring.UdpEndpoint
import Lmnet.IoUring.UnixCloses
import Lmnet.IoUring.UnixOrder
import Lmnet.IoUring.WriteFailures
import Lmnet.Lib.Progress
import Lmnet.Linux.DescriptorTable
import Lmnet.Linux.UnixClients
import Lmnet.Posix.PortAllocation
import Lmnet.Reactor.UdpReads
import Lmnet.Windows.CloseTurn
import Lmnet.Windows.ConnectAttempt
import Lmnet.Windows.IocpShutdown
import Lmnet.Windows.IocpWrite
import Lmnet.Windows.PacketTimeout
import Lmnet.Windows.PacketWindow
import Lmnet.Windows.PendingIo
import Lmnet.Windows.PortUtils
import Lmnet.Windows.ServerIsolation
import Lmnet.Windows.ServerSlots
import Lmnet.Windows.UdpReceive
import Lmnet.Windows.WriteAccounting
