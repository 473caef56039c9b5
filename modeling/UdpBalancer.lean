import UdpBalancer.LazyCache
import UdpBalancer.Loop
import UdpBalancer.Backends
import UdpBalancer.MaglevTable
import UdpBalancer.Transition
import UdpBalancer.MaglevLookup
import UdpBalancer.MaglevRuns
import UdpBalancer.F64
import UdpBalancer.FirstMax
import UdpBalancer.MaglevThreads
import UdpBalancer.Rendezvous
import UdpBalancer.Rotation
import UdpBalancer.Wrr
import UdpBalancer.WrrScan
import UdpBalancer.HitWindow
import UdpBalancer.WrrFairness
import UdpBalancer.SessionIsolation
import UdpBalancer.SessionReplies
import UdpBalancer.LogMoments
import UdpBalancer.PowerRace
import UdpBalancer.GridShares
import UdpBalancer.RendezvousShares
import UdpBalancer.RendezvousChoice
import UdpBalancer.RendezvousRaise
import UdpBalancer.MaglevTrap
import UdpBalancer.MaglevTurns
import UdpBalancer.MaglevShares
import UdpBalancer.OnesComplement
import UdpBalancer.RawSocket
import UdpBalancer.RawSource
import UdpBalancer.NetParse
import UdpBalancer.Config
import UdpBalancer.UdpBackend
import UdpBalancer.Translation
import UdpBalancer.WrrFloats
import UdpBalancer.Preconditions
import UdpBalancer.ListenerWorker
import UdpBalancer.HeadOfLine
import UdpBalancer.HashKey
import UdpBalancer.RawChecksums
import UdpBalancer.WrrGcd
import UdpBalancer.SessionStickiness
import UdpBalancer.WrrFlips
import UdpBalancer.Forwarding
import UdpBalancer.AddressText
import UdpBalancer.SeriesLabels
import UdpBalancer.Linearizable
import UdpBalancer.MaglevCalls
import UdpBalancer.MaglevWork
import UdpBalancer.Moments
import UdpBalancer.RendezvousMoments
import UdpBalancer.WrrCalls
import UdpBalancer.WrrMoments
import UdpBalancer.WrrSharedLoad
import UdpBalancer.SessionOnce
import UdpBalancer.Startup
import UdpBalancer.WrrChurn
import UdpBalancer.BooksBalance
import UdpBalancer.SessionSweeps
import UdpBalancer.Shutdown
import UdpBalancer.StatusApi
import UdpBalancer.ConfigErrors
import UdpBalancer.WrrHealth
import UdpBalancer.RendezvousFlows
import UdpBalancer.WorkerOrder
import UdpBalancer.FlowSockets
import UdpBalancer.FlowAnswers
import UdpBalancer.LiveBooks
