import HarlinKernel.TransitionSystem
import HarlinKernel.RingBuffer
import HarlinKernel.PipeTable
import HarlinKernel.MessageQueue
import HarlinKernel.PipeBlocking
import HarlinKernel.Ethernet
import HarlinKernel.Tcp
import HarlinKernel.TcpSequence
import HarlinKernel.Bitmap
import HarlinKernel.PageAllocator
import HarlinKernel.BitmapReads
import HarlinKernel.LabelledWalk
import HarlinKernel.PageTable
import HarlinKernel.PageMapping
import HarlinKernel.PageClear
import HarlinKernel.AddressSpace
import HarlinKernel.AddressIsolation
import HarlinKernel.Kmalloc
import HarlinKernel.KmallocBlocks
import HarlinKernel.KmallocSafety
import HarlinKernel.SysKfree
import HarlinKernel.Spinlock
import HarlinKernel.TcpReceive
import HarlinKernel.ProcessTable
import HarlinKernel.UserCopy
import HarlinKernel.UserPages
import HarlinKernel.UserUnmap
import HarlinKernel.PageEffects
import HarlinKernel.ProcessFrames
import HarlinKernel.FrameSupply
import HarlinKernel.FrameDrain
import HarlinKernel.ForkOwnership
import HarlinKernel.ProcessCreation
import HarlinKernel.ProcessLeaks
import HarlinKernel.PagedCreation
import HarlinKernel.KernelRegions
import HarlinKernel.UserAccounting
import HarlinKernel.DeviceWindows
import HarlinKernel.DeviceIsolation
import HarlinKernel.LinkedTree
import HarlinKernel.MemFs
import HarlinKernel.MemFsTree
import HarlinKernel.RecursiveLock
import HarlinKernel.MemFsLeaks
import HarlinKernel.PageFault
import HarlinKernel.CpuPlacement
import HarlinKernel.BlockingWindow
import HarlinKernel.Fat32
import HarlinKernel.Fat32Paths
import HarlinKernel.FatTable
import HarlinKernel.FatChains
import HarlinKernel.FatRollback
import HarlinKernel.FatDirectory
import HarlinKernel.FatBounds
import HarlinKernel.FatReopen
import HarlinKernel.FatWrites
import HarlinKernel.PathNormalize
import HarlinKernel.CowFs
import HarlinKernel.CowRuns
import HarlinKernel.CowFork
import HarlinKernel.CowSnapshots
import HarlinKernel.CowOwners
import HarlinKernel.ReadCache
import HarlinKernel.Ipc
import HarlinKernel.IpcWaits
import HarlinKernel.Semaphore
import HarlinKernel.MessageWakeup
import HarlinKernel.IpcDestroy
import HarlinKernel.MessageBytes
import HarlinKernel.Arp
import HarlinKernel.OnesComplement
import HarlinKernel.TcpChecksum
import HarlinKernel.TcpPadding
import HarlinKernel.Dhcp
import HarlinKernel.PageSearch
import HarlinKernel.TcpTable
import HarlinKernel.Http
import HarlinKernel.BoundedReads
import HarlinKernel.ElfParse
import HarlinKernel.PipeHandles
import HarlinKernel.ElfBounds
import HarlinKernel.ElfLoad
import HarlinKernel.UserWindow
import HarlinKernel.ElfCreation
import HarlinKernel.ElfFaithful
import HarlinKernel.FatWalks
import HarlinKernel.FatReads
import HarlinKernel.DecimalText
import HarlinKernel.Keyboard
import HarlinKernel.TextScreen
import HarlinKernel.UsbTransfer
