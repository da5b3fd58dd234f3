import CppWorkspace.CIOCPServer.Connection
import CppWorkspace.CIOCPServer.ReadOrder
import CppWorkspace.CIOCPServer.Delivery
import CppWorkspace.CIOCPServer.Lifetime
import CppWorkspace.CIOCPServer.GracefulClose
import CppWorkspace.CIOCPServer.Window
import CppWorkspace.CIOCPServer.Echo
import CppWorkspace.Lib.Framing
import CppWorkspace.LibeventServer.Conn
import CppWorkspace.LibeventServer.DoRead
import CppWorkspace.LibeventServer.Stream
import CppWorkspace.CIOCPServer.BufferPool
import CppWorkspace.CIOCPServer.Reclaim
import CppWorkspace.CIOCPServer.PendingAccepts
import CppWorkspace.CIOCPServer.Holding
import CppWorkspace.CIOCPServer.Conservation
import CppWorkspace.LibeventServer.Isolation
import CppWorkspace.LibeventServer.Pool
import CppWorkspace.Lib.Programs
import CppWorkspace.TcpServer.Contexts
import CppWorkspace.TcpServer.Server
import CppWorkspace.TcpServer.Ownership
import CppWorkspace.TcpServer.Functions
import CppWorkspace.TcpServer.Places
import CppWorkspace.TcpServer.Isolation
import CppWorkspace.TcpServer.Replenish
import CppWorkspace.TcpServer.SendStream
import CppWorkspace.UdpServer.Echo
import CppWorkspace.Lib.Stamps
import CppWorkspace.OrderedServer.Socket
import CppWorkspace.OrderedServer.Order
import CppWorkspace.OrderedServer.Echo
import CppWorkspace.OrderedServer.Settled
import CppWorkspace.OrderedServer.Wrap
import CppWorkspace.UdpServer.Conservation
import CppWorkspace.ThrottledServer.Server
import CppWorkspace.ThrottledServer.Buffers
import CppWorkspace.ThrottledServer.Sockets
import CppWorkspace.ThrottledServer.World
import CppWorkspace.ThrottledServer.Operations
import CppWorkspace.ThrottledServer.Commands
import CppWorkspace.ThrottledServer.Functions
import CppWorkspace.ThrottledServer.Events
import CppWorkspace.ThrottledServer.Lifetime
import CppWorkspace.ThrottledServer.Echo
import CppWorkspace.ThrottledServer.PendingAccepts
import CppWorkspace.ThrottledServer.Throttle
import CppWorkspace.BoostAsioServer
import CppWorkspace.IocpSocket
import CppWorkspace.Lib.Ledgers
import CppWorkspace.SelectServer
import CppWorkspace.CompletionPortServer
import CppWorkspace.CIOCPServer.Wrap
import CppWorkspace.CIOCPServer.Connections
import CppWorkspace.CIOCPServer.Admission
import CppWorkspace.CIOCPServer.CloseNotification
import CppWorkspace.CIOCPServer.IdleScan
import CppWorkspace.OrderedServer.IdleAccepts
import CppWorkspace.TcpServer.PoolLife
import CppWorkspace.Lib.Stages
import CppWorkspace.OrderedServer.Threads
import CppWorkspace.OrderedServer.Lifetime
import CppWorkspace.Lib.Solo
import CppWorkspace.OrderedServer.AcceptFailures
import CppWorkspace.OrderedServer.SendList
import CppWorkspace.LibeventServer.ParseLoop
import CppWorkspace.Lib.Atomic
import CppWorkspace.LibeventServer.FreeQueue
import CppWorkspace.TcpServer.AcceptSockets
import CppWorkspace.SendLoops
import CppWorkspace.TcpServer.PoolDestroy
import CppWorkspace.IocpClient.Client
import CppWorkspace.IocpClient.SendQuota
import CppWorkspace.IocpClient.Reclaim
import CppWorkspace.Lib.Turns
import CppWorkspace.ThrottledServer.Kept
import CppWorkspace.ThrottledServer.Reclaim
import CppWorkspace.LibeventServer.Workers
import CppWorkspace.Lib.Tables
import CppWorkspace.EventSelectServer
import CppWorkspace.OverlappedEventServer
import CppWorkspace.LibeventServer.Client
import CppWorkspace.LibeventServer.Startup
import CppWorkspace.LibeventServer.Sockets
import CppWorkspace.AceProactorClient
import CppWorkspace.AceProactorServer
import CppWorkspace.IocpEchoServer
import CppWorkspace.Lib.Fairness
import CppWorkspace.TcpServer.Shutdown
import CppWorkspace.TcpServer.StopReturns
import CppWorkspace.Lib.OrderedMaps
import CppWorkspace.SequenceNumbers
import CppWorkspace.Terminators
import CppWorkspace.IteratorImpl
import CppWorkspace.Epoll2
import CppWorkspace.SemaphoreTurns
import CppWorkspace.ConditionQueue
import CppWorkspace.PollServer
import CppWorkspace.SelectEcho
import CppWorkspace.Lib.Stacks
import CppWorkspace.CompletionRoutineServer
import CppWorkspace.Lib.Refinement
import CppWorkspace.TcpServer.ContextStack
import CppWorkspace.ThrottledServer.PendingSends
import CppWorkspace.Lib.DoublyLinked
import CppWorkspace.IocpClient.ConnectionList
import CppWorkspace.IocpClient.CommandLine
import CppWorkspace.Lib.FreeLists
import CppWorkspace.CIOCPServer.FreePools
import CppWorkspace.Libevent.ChainOps
import CppWorkspace.Libevent.Draining
import CppWorkspace.Libevent.Evbuffers
import CppWorkspace.Lib.Searching
import CppWorkspace.Libevent.Lines
import CppWorkspace.Libevent.Tagging
import CppWorkspace.Libevent.MinHeap
