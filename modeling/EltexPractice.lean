import EltexPractice.Broker.Backpressure
import EltexPractice.Broker.CleanExit
import EltexPractice.Broker.Commands
import EltexPractice.Broker.Delivery
import EltexPractice.Broker.Publication
import EltexPractice.Broker.Registry
import EltexPractice.Broker.RegistrySpec
import EltexPractice.Broker.Shutdown
import EltexPractice.Broker.TopicKeys
import EltexPractice.Broker.Unsubscribe
import EltexPractice.Copier.Arguments
import EltexPractice.Copier.Calls
import EltexPractice.Copier.Copied
import EltexPractice.Copier.CopyFile
import EltexPractice.Copier.CopyName
import EltexPractice.Copier.Handshake
import EltexPractice.Copier.PipeEnds
import EltexPractice.Copier.ShortCalls
import EltexPractice.Copier.ShortMoves
import EltexPractice.Copier.Survival
import EltexPractice.Copier.Transfer
import EltexPractice.Foundations.ByteMemory
import EltexPractice.Foundations.CString
import EltexPractice.Foundations.CheckedMemory
import EltexPractice.Foundations.DottedQuad
import EltexPractice.Foundations.Entries
import EltexPractice.Foundations.Fairness
import EltexPractice.Foundations.Interleaving
import EltexPractice.Foundations.LineInput
import EltexPractice.Foundations.LinkedList
import EltexPractice.Foundations.Mailbox
import EltexPractice.Foundations.Namespace
import EltexPractice.Foundations.OnesComplement
import EltexPractice.Foundations.OptionScan
import EltexPractice.Foundations.OrderedSet
import EltexPractice.Foundations.PriorityQueue
import EltexPractice.Foundations.ReadRounds
import EltexPractice.Foundations.Schedule
import EltexPractice.Foundations.Sessions
import EltexPractice.Foundations.Table
import EltexPractice.Foundations.Timer
import EltexPractice.Foundations.Words
import EltexPractice.KernelModules.CharDevice
import EltexPractice.KernelModules.DeviceSessions
import EltexPractice.KernelModules.ProcFile
import EltexPractice.KernelModules.SerialCalls
import EltexPractice.Netfilter.Blacklist
import EltexPractice.Netfilter.Concurrency
import EltexPractice.Netfilter.Grammar
import EltexPractice.Netfilter.Linearizable
import EltexPractice.Netfilter.Listing
import EltexPractice.Netfilter.Nodes
import EltexPractice.P2pChat.Chat
import EltexPractice.P2pChat.Exit
import EltexPractice.P2pChat.Joining
import EltexPractice.P2pChat.QueueNames
import EltexPractice.P2pChat.Queues
import EltexPractice.P2pChat.ReceiveBuffer
import EltexPractice.P2pChat.WakeUp
import EltexPractice.SharedList.Agreement
import EltexPractice.SharedList.Alignment
import EltexPractice.SharedList.Attach
import EltexPractice.SharedList.Chain
import EltexPractice.SharedList.Consumer
import EltexPractice.SharedList.ExactlyOnce
import EltexPractice.SharedList.Layout
import EltexPractice.SharedList.Ledger
import EltexPractice.SharedList.LockRemoved
import EltexPractice.SharedList.Model
import EltexPractice.SharedList.Producer
import EltexPractice.SharedList.Steps
import EltexPractice.SharedList.System
import EltexPractice.Sniffer.Bounds
import EltexPractice.Sniffer.ChatLog
import EltexPractice.Sniffer.Dispatch
import EltexPractice.Sniffer.Encapsulation
import EltexPractice.Sniffer.Parser
import EltexPractice.Sniffer.PayloadDump
import EltexPractice.Sniffer.PayloadReads
import EltexPractice.Sniffer.Session
import EltexPractice.Taxi.BusyPeriods
import EltexPractice.Taxi.Console
import EltexPractice.Taxi.Driver
import EltexPractice.Taxi.FullFifos
import EltexPractice.Taxi.RequestResponse
import EltexPractice.Taxi.Server
import EltexPractice.TcpChat.Blocking
import EltexPractice.TcpChat.Broadcast
import EltexPractice.TcpChat.ConcurrentUploads
import EltexPractice.TcpChat.Contents
import EltexPractice.TcpChat.Conversation
import EltexPractice.TcpChat.Descriptors
import EltexPractice.TcpChat.FileTransfer
import EltexPractice.TcpChat.Framing
import EltexPractice.TcpChat.Packet
import EltexPractice.TcpChat.Presence
import EltexPractice.TcpChat.Process
import EltexPractice.TcpChat.ReceivedNames
import EltexPractice.TcpChat.Server
import EltexPractice.TcpChat.User
import EltexPractice.TcpChat.WholePackets
import EltexPractice.UdpChat.EchoSuppression
import EltexPractice.UdpChat.Packet
import EltexPractice.UdpChat.Session
import EltexPractice.UdpChat.StaleMemory
import EltexPractice.UdpEcho.Capacity
import EltexPractice.UdpEcho.Checksum
import EltexPractice.UdpEcho.Client
import EltexPractice.UdpEcho.ClientTable
import EltexPractice.UdpEcho.EndToEnd
import EltexPractice.UdpEcho.Numbering
import EltexPractice.UdpEcho.Packet
import EltexPractice.UdpEcho.RequestReply
import EltexPractice.UdpEcho.Server
import EltexPractice.UdpEcho.Tolerance
import EltexPractice.KernelModules.LedMask
import EltexPractice.KernelModules.Leds
