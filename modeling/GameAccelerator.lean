import GameAccelerator.ArrayEngine
import GameAccelerator.ArrayHistory
import GameAccelerator.ArraySlots
import GameAccelerator.Buckets
import GameAccelerator.Buffer
import GameAccelerator.CString
import GameAccelerator.CheckedLoop
import GameAccelerator.ClientSession
import GameAccelerator.ClientStore
import GameAccelerator.ClientText
import GameAccelerator.Continuation
import GameAccelerator.ConvAllocation
import GameAccelerator.ConvLedger
import GameAccelerator.Conversation
import GameAccelerator.Coroutines
import GameAccelerator.Countdown
import GameAccelerator.Drain
import GameAccelerator.EndToEnd
import GameAccelerator.EngineChoice
import GameAccelerator.EpollEntry
import GameAccelerator.EventLoop
import GameAccelerator.GatewayLedger
import GameAccelerator.GatewayLoop
import GameAccelerator.GatewayMoves
import GameAccelerator.HashAtomicity
import GameAccelerator.HashContents
import GameAccelerator.HashEngine
import GameAccelerator.HashInvariant
import GameAccelerator.HashLock
import GameAccelerator.HashProvenance
import GameAccelerator.HashServer
import GameAccelerator.IdleReaping
import GameAccelerator.Ikcp
import GameAccelerator.IkcpChannel
import GameAccelerator.IkcpDelivery
import GameAccelerator.IkcpEndpoint
import GameAccelerator.IkcpFormat
import GameAccelerator.IkcpFrame
import GameAccelerator.IkcpInvariant
import GameAccelerator.IkcpLibrary
import GameAccelerator.IkcpOutput
import GameAccelerator.IkcpProgress
import GameAccelerator.IkcpReceivable
import GameAccelerator.IkcpReceive
import GameAccelerator.IkcpTiming
import GameAccelerator.IkcpTransmit
import GameAccelerator.IntervalTimer
import GameAccelerator.Isolation
import GameAccelerator.Kcp
import GameAccelerator.KcpGateway
import GameAccelerator.KvClient
import GameAccelerator.KvStore
import GameAccelerator.LosslessKcp
import GameAccelerator.MemPool
import GameAccelerator.NetUtils
import GameAccelerator.NodeAddress
import GameAccelerator.Platform
import GameAccelerator.PoolBalance
import GameAccelerator.PoolConservation
import GameAccelerator.Probing
import GameAccelerator.RbBookkeeping
import GameAccelerator.RbChecked
import GameAccelerator.RbCheckedFixup
import GameAccelerator.RbContents
import GameAccelerator.RbDeleteFixup
import GameAccelerator.RbDescent
import GameAccelerator.RbDestroy
import GameAccelerator.RbEngine
import GameAccelerator.RbFocus
import GameAccelerator.RbInsertFixup
import GameAccelerator.RbInvariant
import GameAccelerator.RbLink
import GameAccelerator.RbRotate
import GameAccelerator.RbSentinel
import GameAccelerator.RbShape
import GameAccelerator.RbUpdate
import GameAccelerator.RedBlack
import GameAccelerator.ReferenceMap
import GameAccelerator.Registration
import GameAccelerator.RegistrationAgreement
import GameAccelerator.RegistrationIdempotence
import GameAccelerator.Relay
import GameAccelerator.RelayFidelity
import GameAccelerator.RelayRun
import GameAccelerator.RelaySteps
import GameAccelerator.ReplySource
import GameAccelerator.RequestSafety
import GameAccelerator.RequestText
import GameAccelerator.Requests
import GameAccelerator.RouteLookup
import GameAccelerator.Serial
import GameAccelerator.SerialList
import GameAccelerator.SessionFrame
import GameAccelerator.SessionIndex
import GameAccelerator.SessionInvariant
import GameAccelerator.SessionManager
import GameAccelerator.StoreAtomicity
import GameAccelerator.Switchboard
import GameAccelerator.Tables
import GameAccelerator.TickTimer
import GameAccelerator.TokenBounds
import GameAccelerator.Tokens
import GameAccelerator.TunnelBounds
import GameAccelerator.TunnelClient
import GameAccelerator.TunnelMessages
import GameAccelerator.TunnelProtocol
import GameAccelerator.WhileLoop
import GameAccelerator.Writes
