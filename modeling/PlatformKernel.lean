import PlatformKernel.Lib.Runs
import PlatformKernel.Lib.Keyed
import PlatformKernel.Lib.Slots
import PlatformKernel.Lib.BestFit
import PlatformKernel.AdsprpcShared
import PlatformKernel.ContextTable
import PlatformKernel.Transport
import PlatformKernel.TxBuffers
import PlatformKernel.Answers
import PlatformKernel.RxBuffers
import PlatformKernel.MapRuns
import PlatformKernel.MapClose
import PlatformKernel.Buffers
import PlatformKernel.MapFds
import PlatformKernel.MapUndo
import PlatformKernel.HybridMarshal
import PlatformKernel.VirtioMarshal
import PlatformKernel.ActiveCtxs
import PlatformKernel.DspSignals
import PlatformKernel.SignalCancels
import PlatformKernel.SignalCounts
import PlatformKernel.Sessions
import PlatformKernel.Capabilities
import PlatformKernel.AccessControl
import PlatformKernel.PdTypes
import PlatformKernel.OpenClose
import PlatformKernel.HybridHandlers
import PlatformKernel.SessionSetup
import PlatformKernel.MapLocks
import PlatformKernel.ChannelAccess
import PlatformKernel.RestartWaits
import PlatformKernel.RestartRuns
import PlatformKernel.AsyncJobs
import PlatformKernel.InterruptedCalls
import PlatformKernel.UnmapFds
import PlatformKernel.AsyncQueue
import PlatformKernel.SmmuMaps
import PlatformKernel.HybridPlaces
import PlatformKernel.HybridImages
import PlatformKernel.HybridBytes
import PlatformKernel.HybridHeader
import PlatformKernel.HybridRefines
import PlatformKernel.HybridReturns
import PlatformKernel.VirtioMessage
import PlatformKernel.VirtioRoundTrip
import PlatformKernel.VirtioAgree
import PlatformKernel.HandleReads
import PlatformKernel.HandleBalance
import PlatformKernel.MmapUndo
import PlatformKernel.BootMarkers
import PlatformKernel.ReservedEntries
import PlatformKernel.ProcessIds
import PlatformKernel.BufferOwners
import PlatformKernel.BufferRuns
import PlatformKernel.DeclaredLimits
import PlatformKernel.SentJobs
import PlatformKernel.MapAttrs
import PlatformKernel.KeptMaps
import PlatformKernel.MappedFlags
import PlatformKernel.PdStatus
import PlatformKernel.SilentMode
import PlatformKernel.VirtioBounds
import PlatformKernel.CreateLeaks
import PlatformKernel.UnmapRefusals
import PlatformKernel.VirtioReads
import PlatformKernel.StaleInternal
import PlatformKernel.Lib.Sweep
import PlatformKernel.MappedPages
import PlatformKernel.OverlapSweep
import PlatformKernel.CopyRoom
import PlatformKernel.CompleteMessage
import PlatformKernel.CopyPlaces
import PlatformKernel.StaleBytes
import PlatformKernel.SleepClock
import PlatformKernel.MarkerCharsum
import PlatformKernel.DramEnd
import PlatformKernel.MemOnline
import PlatformKernel.KpiReader
import PlatformKernel.PageArrays
import PlatformKernel.Lib.Vmap
import PlatformKernel.ScatterLists
import PlatformKernel.BufferAgree
import PlatformKernel.SessInfoBytes
import PlatformKernel.SubsystemNotif
import PlatformKernel.SubsystemProbe
import PlatformKernel.SilentBoot
import PlatformKernel.Lib.Numerals
import PlatformKernel.Lib.Kstrto
import PlatformKernel.Lib.Histories
import PlatformKernel.NotifQueue
import PlatformKernel.Lib.Ledger
import PlatformKernel.Lib.NotifierChain
import PlatformKernel.DriverProbe
import PlatformKernel.WakeupMarker
import PlatformKernel.AopSetDdr
import PlatformKernel.RestartNotifier
import PlatformKernel.XblLog
import PlatformKernel.Lib.RingBuffer
import PlatformKernel.TransportLog
import PlatformKernel.Lib.LockOrder
import PlatformKernel.DriverLocks
import PlatformKernel.MapMutexes
import PlatformKernel.SessionLifetime
import PlatformKernel.AsyncDelivery
