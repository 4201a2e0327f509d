import Wrmos.Lib.Outcome
import Wrmos.Lib.Bits
import Wrmos.Lib.RangeLoop
import Wrmos.Lib.NodeList
import Wrmos.Arch
import Wrmos.Mmu
import Wrmos.Ptable
import Wrmos.PtableMap
import Wrmos.PtableUnmap
import Wrmos.PtableExact
import Wrmos.KernTables
import Wrmos.KernTablesSpec
import Wrmos.PtableWalk
import Wrmos.PtableReadBack
import Wrmos.MmuCells
import Wrmos.MemoryControl
import Wrmos.SenderSelection
import Wrmos.IpcRegisters
import Wrmos.Region
import Wrmos.RegionSpec
import Wrmos.RegionSearch
import Wrmos.RegionRuns
import Wrmos.Kmem
import Wrmos.KmemSpec
import Wrmos.L4Types
import Wrmos.L4TypesSpec
import Wrmos.Aspace
import Wrmos.AspaceSpec
import Wrmos.AspaceReach
import Wrmos.MapItem
import Wrmos.MapItemSpec
import Wrmos.MapRights
import Wrmos.Transfer
import Wrmos.AspaceAgree
import Wrmos.MemCall
import Wrmos.KernWindow
import Wrmos.Threads
import Wrmos.ThreadsSpec
import Wrmos.ThreadsRun
import Wrmos.ThreadsEffect
import Wrmos.IoBitmap
import Wrmos.IoBitmapSpec
import Wrmos.Kern
import Wrmos.KernSpec
import Wrmos.Preempt
import Wrmos.Timeouts
import Wrmos.Lib.RoundRobin
import Wrmos.TimeSharing
import Wrmos.Ipc
import Wrmos.KernStep
import Wrmos.IpcSpec
import Wrmos.ClosedReceive
import Wrmos.Lib.IrqLine
import Wrmos.Interrupts
import Wrmos.Lib.Extents
import Wrmos.MemoryPool
import Wrmos.MemoryPoolSpec
import Wrmos.PagePoolSpec
import Wrmos.MemoryPoolAlloc
import Wrmos.HeapSpec
import Wrmos.Lib.Ring
import Wrmos.CbufSpec
import Wrmos.Semaphore
import Wrmos.SemaphoreSpec
import Wrmos.SemValue
import Wrmos.PthreadMutex
import Wrmos.PthreadMutexSpec
import Wrmos.Bitmap
import Wrmos.BitmapSpec
import Wrmos.BitmapSet
import Wrmos.StaticPool
import Wrmos.Task
import Wrmos.Syscalls
import Wrmos.Startup
import Wrmos.SyscallsSpec
import Wrmos.SyscallsAtomic
import Wrmos.SlotReuse
import Wrmos.LifeCycle
import Wrmos.HandoverSpec
import Wrmos.AppSpec
import Wrmos.AppSplit
import Wrmos.MemNamed
import Wrmos.TcpipParse
import Wrmos.TcpipTcp
import Wrmos.TcpipServer
import Wrmos.TcpipParseSpec
import Wrmos.TcpipFrames
import Wrmos.TcpipSend
import Wrmos.TcpipCases
import Wrmos.TcpipChecksum
import Wrmos.TcpipRequests
import Wrmos.TcpipSteps
import Wrmos.TcpipStreams
import Wrmos.TcpipDemux
import Wrmos.TcpipClients
import Wrmos.TcpipReplies
import Wrmos.TcpipDiscipline
import Wrmos.TcpipUdpSpec
import Wrmos.TcpipArp
import Wrmos.TcpipTx
import Wrmos.TcpipClose
import Wrmos.TcpipPool
import Wrmos.TcpipEmitted
import Wrmos.SysClockSpec
import Wrmos.GrethSpec
import Wrmos.AlphaAppsSpec
import Wrmos.IoFault
import Wrmos.AlphaParse
import Wrmos.AlphaParseSpec
import Wrmos.NamedThreadsSpec
import Wrmos.ElfSpec
import Wrmos.ListTRuns
import Wrmos.LdrSpec
import Wrmos.ConsoleSpec
import Wrmos.UartTxSpec
import Wrmos.VideoSpec
import Wrmos.ShellSpec
import Wrmos.AlphaDevicesSpec
import Wrmos.PrintfSpec
import Wrmos.LogSpec
import Wrmos.MemOpsSpec
import Wrmos.StrtoulSpec
import Wrmos.PrintfInt
import Wrmos.StdoutSpec
import Wrmos.ScanfSpec
import Wrmos.ScanfPrintf
import Wrmos.InetText
import Wrmos.TimeAccountSpec
import Wrmos.SpinlockSpec
