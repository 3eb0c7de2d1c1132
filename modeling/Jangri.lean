import Jangri.Lib.Memory
import Jangri.Lib.Tiling
import Jangri.Lib.Run
import Jangri.Lib.RoundRobin
import Jangri.Lib.WP
import Jangri.Lib.Utf8
import Jangri.Lib.Forest
import Jangri.Lib.Rv64
import Jangri.Rust
import Jangri.Hal.Constants
import Jangri.Allocator.Bitmap
import Jangri.Allocator.BitmapSet
import Jangri.Allocator.LinkedList
import Jangri.Allocator.Chain
import Jangri.Allocator.Removing
import Jangri.Allocator.PageAllocator
import Jangri.Allocator.Invariant
import Jangri.Allocator.Operations
import Jangri.Allocator.Runs
import Jangri.Allocator.FreeLists
import Jangri.Allocator.Agreement
import Jangri.Allocator.Clients
import Jangri.Arch.Pte
import Jangri.Hal.PageTable
import Jangri.Arch.Vm
import Jangri.Arch.Tables
import Jangri.Arch.Grow
import Jangri.Arch.Translate
import Jangri.Arch.Mapping
import Jangri.Arch.MapRuns
import Jangri.Arch.Supply
import Jangri.Arch.Chart
import Jangri.Arch.Hardware
import Jangri.Arch.Teardown
import Jangri.Arch.Recorded
import Jangri.Arch.Forest
import Jangri.Arch.Unmapping
import Jangri.Arch.TeardownCalls
import Jangri.Arch.Outline
import Jangri.Arch.Tearing
import Jangri.Arch.Trampoline
import Jangri.Arch.SupervisorTraps
import Jangri.Arch.Mmu
import Jangri.Janglib.Syscall
import Jangri.Janglib.WordLayout
import Jangri.Kernel.GlobalState
import Jangri.Janglib.Memory
import Jangri.Kernel.Process
import Jangri.Kernel.Syscall
import Jangri.Kernel.Traps
import Jangri.Kernel.Transmit
import Jangri.Kernel.DeviceTree
import Jangri.Kernel.Scheduling
import Jangri.Kernel.Quiet
import Jangri.Kernel.Refinement
import Jangri.Kernel.Runs
import Jangri.Kernel.Blocking
import Jangri.Kernel.Creation
import Jangri.Kernel.Ownership
import Jangri.Kernel.AddressSpace
import Jangri.Kernel.Loading
import Jangri.Kernel.Isolation
import Jangri.Kernel.Serving
import Jangri.Kernel.Separation
import Jangri.Kernel.Confinement
import Jangri.Kernel.Answering
import Jangri.Kernel.HeapGrants
import Jangri.Kernel.Disclosure
import Jangri.Kernel.Slices
import Jangri.Kernel.Family
import Jangri.Kernel.Reclaiming
import Jangri.Kernel.Outcomes
import Jangri.Kernel.Records
import Jangri.Kernel.LazyHeap
import Jangri.Kernel.HeapFaults
import Jangri.Kernel.HeapStart
import Jangri.Kernel.Stock
import Jangri.Kernel.Image
import Jangri.Kernel.Fidelity
import Jangri.Kernel.HeapRoom
import Jangri.Kernel.Vm
import Jangri.Kernel.Creations
import Jangri.Kernel.KernelStacks
import Jangri.Kernel.Queue
import Jangri.Kernel.RoundRobin
import Jangri.Kernel.Survival
import Jangri.Kernel.Switching
import Jangri.Kernel.Equipment
import Jangri.Kernel.Reserve
import Jangri.Kernel.Watching
import Jangri.Kernel.Ram
import Jangri.Kernel.KernelSpace
import Jangri.Kernel.Crossing
import Jangri.Kernel.Upkeep
import Jangri.Kernel.Progress
import Jangri.Kernel.Computer
import Jangri.Kernel.Preemption
import Jangri.Janglib.Console
import Jangri.Janglib.RamFs
import Jangri.Janglib.RamFsNames
import Jangri.Janglib.RamFsIter
import Jangri.Sync.Nesting
import Jangri.Sync.Mutex
import Jangri.Sync.RwLock
import Jangri.Sync.TryLock
import Jangri.Janglib.Wrappers
import Jangri.Kernel.Replies
import Jangri.Kernel.UserMemory
import Jangri.Kernel.FirstRun
