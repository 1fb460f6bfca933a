import X64HK.Config
import X64HK.Debug.Panic
import X64HK.Boot.Multiboot
import X64HK.Lib.Bitmap
import X64HK.Lib.ByteMemory
import X64HK.Lib.Buddy
import X64HK.Lib.BuddySizes
import X64HK.Lib.IntrusiveQueue
import X64HK.Lib.RecordWalk
import X64HK.Lib.RingBuffer
import X64HK.Lib.Terminal
import X64HK.Lib.Transition
import X64HK.Lib.TicketQueue
import X64HK.Lib.Locking
import X64HK.Lib.WordStack
import X64HK.Lib.String
import X64HK.Lib.OutputStream
import X64HK.Lib.Queue
import X64HK.Lib.RingBufferSteps
import X64HK.Boot.MultibootParse
import X64HK.Boot.MultibootWalk
import X64HK.Boot.MultibootRoundTrip
import X64HK.Memory.Frame
import X64HK.Memory.FrameLemmas
import X64HK.Memory.FrameReserved
import X64HK.Memory.FrameRuns
import X64HK.Memory.FrameInitial
import X64HK.Memory.LoaderMemory
import X64HK.Memory.LoaderAccess
import X64HK.Memory.BitmapPlace
import X64HK.Memory.KernelStackSlots
import X64HK.Memory.Paging
import X64HK.Memory.PagingEntry
import X64HK.Memory.PagingTree
import X64HK.Memory.PagingMap
import X64HK.Memory.PagingFlat
import X64HK.Memory.PagingLeaves
import X64HK.Memory.Room
import X64HK.Memory.BootCalls
import X64HK.Memory.Heap
import X64HK.Memory.HeapInvariant
import X64HK.Memory.HeapRuns
import X64HK.Memory.HeapCanonical
import X64HK.Memory.HeapSizes
import X64HK.Memory.HeapComplete
import X64HK.Memory.HeapReallocate
import X64HK.Memory.HeapDoubleFree
import X64HK.Memory.KernelMemory
import X64HK.User.Task
import X64HK.User.LoadSteps
import X64HK.User.Isolation
import X64HK.User.LoadEffect
import X64HK.Memory.KernelStacks
import X64HK.Memory.DirectMap
import X64HK.Boot.BootMap
import X64HK.User.LoadReads
import X64HK.User.LoadTrace
import X64HK.User.CopyIn
import X64HK.User.LoadedPages
import X64HK.User.LoadedImage
import X64HK.Memory.Protection
import X64HK.Interrupt.Handlers
import X64HK.Interrupt.FaultIsolation
import X64HK.Interrupt.FaultStatus
import X64HK.Sync.TicketLock
import X64HK.Sync.Bellringer
import X64HK.Thread.Scheduler
import X64HK.Thread.Roster
import X64HK.Thread.Refinement
import X64HK.Thread.SchedulerRuns
import X64HK.Sync.SemaphoreTokens
import X64HK.Thread.Fairness
import X64HK.Sync.HandOff
import X64HK.Interrupt.Preemption
import X64HK.Interrupt.Guard
import X64HK.Interrupt.GuardSafety
import X64HK.Device.KeyDecoder
import X64HK.Device.KeyPipeline
import X64HK.Sync.LockedCode
import X64HK.Sync.LockOrder
import X64HK.Arch.Acpi
import X64HK.Arch.Madt
import X64HK.Boot.SmpBoot
import X64HK.Arch.TextWindow
import X64HK.Arch.Syscall
import X64HK.Arch.SyscallPath
import X64HK.Arch.SyscallSketch
import X64HK.Arch.SyscallStacks
import X64HK.Arch.SyscallTransparency
import X64HK.ABI.WriteAll
