import WinMaliKmd.Runs
import WinMaliKmd.RadixTree
import WinMaliKmd.SlotMask
import WinMaliKmd.Lpae
import WinMaliKmd.AsSlots
import WinMaliKmd.VmPageTable
import WinMaliKmd.VmPageTableMap
import WinMaliKmd.AsSlotsInvariant
import WinMaliKmd.VmTable
import WinMaliKmd.AsRestart
import WinMaliKmd.FifoRing
import WinMaliKmd.Scheduler
import WinMaliKmd.SchedulerOnce
import WinMaliKmd.FencePipeline
import WinMaliKmd.SchedulerOrder
import WinMaliKmd.CsfSubmit
import WinMaliKmd.CsfRecovery
import WinMaliKmd.CsfRing
import WinMaliKmd.CsgLease
import WinMaliKmd.CsgIsolation
import WinMaliKmd.VmLeafWrites
import WinMaliKmd.BlockCover
import WinMaliKmd.BoTable
import WinMaliKmd.HeapBlocks
import WinMaliKmd.PageLifetime
import WinMaliKmd.ObjectTable
import WinMaliKmd.SyncWait
import WinMaliKmd.ObjectTableOnce
import WinMaliKmd.ObjectTableRefs
import WinMaliKmd.IntrusiveList
import WinMaliKmd.DeviceRundown
import WinMaliKmd.ContextSlots
import WinMaliKmd.DeviceTables
import WinMaliKmd.ReservedWindows
import WinMaliKmd.FlushCoverage
import WinMaliKmd.ApertureRoots
import WinMaliKmd.PreemptBoundary
import WinMaliKmd.LateFirmware
import WinMaliKmd.EscapeBuffer
import WinMaliKmd.EscapeHandlers
import WinMaliKmd.EscapeBounds
import WinMaliKmd.ApertureAtomic
import WinMaliKmd.TableGrowth
import WinMaliKmd.UnmapGrowth
import WinMaliKmd.TlbFlush
import WinMaliKmd.BindCoverage
import WinMaliKmd.PagingBuffer
import WinMaliKmd.FirmwareImage
import WinMaliKmd.GroupFaults
import WinMaliKmd.SubmitSound
import WinMaliKmd.McuPageTable
import WinMaliKmd.McuPageTableMap
import WinMaliKmd.CsfBuffers
import WinMaliKmd.CsfFrees
import WinMaliKmd.CsfBootstrap
import WinMaliKmd.CsfRelease
import WinMaliKmd.SubmitOrder
import WinMaliKmd.SyncObjWait
import WinMaliKmd.SectionCopy
import WinMaliKmd.Trampoline
import WinMaliKmd.CsfIfaces
import WinMaliKmd.ApertureWalk
import WinMaliKmd.ResidencyStash
import WinMaliKmd.PagingTree
import WinMaliKmd.AllocSizes
import WinMaliKmd.BoHandles
import WinMaliKmd.L2Power
import WinMaliKmd.PresentBlt
import WinMaliKmd.WaitBlocks
import WinMaliKmd.PresentBounds
import WinMaliKmd.PresentAgree
import WinMaliKmd.BoundedFifo
import WinMaliKmd.SubmitFifo
import WinMaliKmd.HeapStamps
import WinMaliKmd.HeapLayout
import WinMaliKmd.HeapChains
import WinMaliKmd.AsRegisters
import WinMaliKmd.AsTranslation
import WinMaliKmd.CachedWalk
import WinMaliKmd.TlbCoherence
import WinMaliKmd.Doorbells
import WinMaliKmd.DeviceResources
import WinMaliKmd.ResourceBooks
import WinMaliKmd.Interrupts
import WinMaliKmd.SchedulerDrain
import WinMaliKmd.KmdObjects
import WinMaliKmd.KmdLifetimes
import WinMaliKmd.StandardAllocs
