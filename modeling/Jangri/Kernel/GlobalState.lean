import Jangri.Allocator.PageAllocator
import Jangri.Arch.Vm
import Jangri.Janglib.Syscall

/-! `GlobalState`: the process table, the run queue, the allocator and the locks around them.

One hart runs the kernel (`number_of_harts` is 1 and the other cores loop), so a mutex is held or
free, and locking one that is held is the panic in `Mutex::lock`. Process objects live behind
`Arc`s that nothing ever drops the last of; a handle is the process id. -/

namespace Jangri

open Lib

/-- What a trap left in `scause`, with the numbers of the privileged specification. -/
inductive Trap
  | interrupt (code : Nat)
  | exception (code : Nat)
  deriving DecidableEq, Repr

def Trap.debug : Trap → String
  | interrupt code => "Interrupt(" ++ toString code ++ ")"
  | exception code => "Exception(" ++ toString code ++ ")"

/-- The values that end up in a `Box<dyn Debug>` of a return value. -/
inductive Fault
  | error (e : Error)
  | cause (trap : Trap)
  deriving DecidableEq

inductive ProcessState
  | ready
  | running
  | terminated (returnValue : Except Fault Nat)
  | notUsed
  | waiting (waitingFor : Nat)
  deriving DecidableEq

/-- Where a switched-out kernel thread goes on, with the locals it still needs: the return address
in its `Context` and the part of its kernel stack that matters. -/
inductive Context
  | unset
  | prepareFirstTimeExecution
  | yieldInUserTrap (trapframe : Nat)
  | yieldInHandle (trapframe pageTable : Nat)
  | exit
  deriving DecidableEq

structure Process where
  id : Nat
  name : List UInt8
  kernelStack : Nat
  processState : ProcessState
  context : Context
  pageTable : Nat
  trapframe : Nat
  heapStart : Nat
  heapEnd : Nat
  currentlyUnmappedStart : Nat
  parent : Option Nat
  children : List Nat
  deriving DecidableEq

def Process.default (id : Nat) : Process where
  id := id
  name := []
  kernelStack := 0
  processState := .notUsed
  context := .unset
  pageTable := 0
  trapframe := 0
  heapStart := 0
  heapEnd := 0
  currentlyUnmappedStart := 0
  parent := none
  children := []

/-- The kernel's mutexes. `numReaders` is the one inside the `RwLock` around the process table. -/
inductive Lock
  | allocator
  | pids
  | currentProcess
  | arch
  | numReaders
  | inputBuffer
  | process (pid : Nat)
  deriving DecidableEq

structure ProgramHeader where
  pType : Nat
  pFlags : Nat
  pOffset : Nat
  pVaddr : Nat
  pFilesz : Nat
  pMemsz : Nat
  deriving DecidableEq

structure ElfFile where
  segments : Option (List ProgramHeader)
  entry : Nat

/-- What the kernel is linked against and runs on: the `elf` crate, the layout the compiler chose,
the firmware behind an `ecall` from supervisor mode, and addresses fixed before the first process
is created. -/
structure Platform where
  minimalParse : List UInt8 → Option ElfFile
  layout : Layout
  firmware : Memory → Option Memory
  kernelStart : Nat
  endOfKernelText : Nat
  kernelEnd : Nat
  text : kernelStart ≤ endOfKernelText
  rest : endOfKernelText ≤ kernelEnd
  kernelPageTable : Nat
  trampolineCodeAddress : Nat
  userTrapAddress : Nat
  /-- The frame that the kernel's own page table maps at `KUCOM_PAGE`: a page of stack slot 0. -/
  kernelKucom : Nat
  /-- Where the text that is being printed lies. -/
  textAddress : Nat
  parameterAddress : Nat

structure GlobalState where
  memory : Memory
  nodeId : Nat
  allocator : PageAllocator
  object : Nat → Process
  processes : List Nat
  numReaders : Nat
  pids : List Nat
  currentProcess : Option Nat
  pid : Nat
  held : List Lock
  inputBuffer : List UInt8
  cursorPosition : Nat
  console : List UInt8

instance : HasMemory GlobalState where
  memory := GlobalState.memory
  setMemory := fun s m => { s with memory := m }
  memory_setMemory := fun _ _ => rfl

abbrev Kernel := Stateful GlobalState

abbrev KernelResult := Fallible GlobalState

def lock (mutex : Lock) : Kernel Unit := fun s =>
  if mutex ∈ s.held then .error (.panic (.deadlock 0))
  else .ok ((), { s with held := mutex :: s.held })

def unlock (mutex : Lock) : Kernel Unit := fun s =>
  .ok ((), { s with held := s.held.erase mutex })

def withLock {α : Type} (mutex : Lock) (body : Kernel α) : Kernel α := do
  lock mutex
  let a ← body
  unlock mutex
  pure a

def guarded {α : Type} (mutex : Lock) (body : KernelResult α) : KernelResult α :=
  ExceptT.mk (withLock mutex body.run)

def unwrapResult {α : Type} (x : KernelResult α) : Kernel α := do
  match ← x.run with
  | .ok a => pure a
  | .error _ => halt (.panic .unwrapErr)

def expectResult {α : Type} (text : String) (x : KernelResult α) : Kernel α := do
  match ← x.run with
  | .ok a => pure a
  | .error _ => halt (.panic (.message text))

def getObject (pid : Nat) : Kernel Process := fun s => .ok (s.object pid, s)

def modifyObject (pid : Nat) (f : Process → Process) : Kernel Unit := fun s =>
  .ok ((), { s with object := Function.update s.object pid (f (s.object pid)) })

def storeWord (addr value : Nat) : Kernel Unit := fun s =>
  .ok ((), { s with memory := s.memory.write addr 8 value })

def loadWord (addr : Nat) : Kernel Nat := fun s => .ok (s.memory.read addr 8, s)

def storeBytes (addr : Nat) (bytes : List UInt8) : Kernel Unit := fun s =>
  .ok ((), { s with memory := s.memory.store addr bytes })

/-- The bytes lie in RAM, which the kernel's page table maps from the kernel image up to `RAM_STOP`,
where the memory of the allocator ends. -/
def GlobalState.InRam (s : GlobalState) (low addr count : Nat) : Prop :=
  count = 0 ∨ low ≤ addr ∧ addr + count ≤ s.allocator.memoryEnd

instance (s : GlobalState) (low addr count : Nat) : Decidable (s.InRam low addr count) :=
  inferInstanceAs (Decidable (_ ∨ _))

def loadBytes (addr count : Nat) : Kernel (List UInt8) := fun s =>
  .ok (s.memory.load addr count, s)

def allocatorAllocate (size : Nat) : KernelResult Nat := ExceptT.mk fun s =>
  match s.allocator.allocate ⟨s.memory, s.nodeId⟩ size with
  | .error e => .error e
  | .ok (result, allocator, store) =>
      .ok (match result with
        | some start => .ok start
        | none => .error .memoryNotAvailable,
        { s with allocator, memory := store.memory, nodeId := store.nodeId })

def allocatorDeallocate (start size : Nat) : Kernel Unit := fun s =>
  match s.allocator.deallocate ⟨s.memory, s.nodeId⟩ start size with
  | .error e => .error e
  | .ok (allocator, store) =>
      .ok ((), { s with allocator, memory := store.memory, nodeId := store.nodeId })

/-- The architecture object that `initialise` builds, with its two callbacks. -/
def arch (plat : Platform) : Riscv GlobalState where
  allocate := fun size => guarded .allocator do
    (liftRust (assert (size ≥ pageSize) "assertion failed: size >= PAGE_SIZE") : Kernel Unit)
    allocatorAllocate size
  deallocate := fun addr size => withLock .allocator (allocatorDeallocate addr size)
  parameterAddress := plat.parameterAddress

def insertProcess (id : Nat) : Kernel Unit := fun s =>
  .ok ((), { s with processes := id :: s.processes })

def takeProcess (pid : Nat) : Kernel Unit := fun s =>
  if pid ∈ s.processes then .ok ((), { s with processes := s.processes.erase pid })
  else .error (.panic .unwrapNone)

def pushPid (id : Nat) : Kernel Unit := fun s => .ok ((), { s with pids := s.pids ++ [id] })

/-- `RwLock::lock_exclusive` keeps the mutex while there are no readers and spins otherwise. -/
def lockExclusive : Kernel Unit := do
  lock .numReaders
  fun s => if s.numReaders = 0 then .ok ((), s) else .error .diverge

def changeReaders (f : Nat → Rust Nat) : Kernel Unit := fun s =>
  (f s.numReaders).map fun n => ((), { s with numReaders := n })

def lockShared : Kernel Unit := withLock .numReaders (changeReaders (usizeAdd · 1))

def unlockShared : Kernel Unit := withLock .numReaders (changeReaders (usizeSub · 1))

def withReadLock {α : Type} (body : Kernel α) : Kernel α := do
  lockShared
  let a ← body
  unlockShared
  pure a

def rotatePids : Kernel (Option Nat) := fun s =>
  match s.pids with
  | [] => .ok (none, s)
  | pid :: rest => .ok (some pid, { s with pids := rest ++ [pid] })

/-- `processes.get(&pid).unwrap()`. -/
def lookUp (pid : Nat) : Kernel Unit := fun s =>
  if pid ∈ s.processes then .ok ((), s) else .error (.panic .unwrapNone)

def isReady (pid : Nat) : Kernel Bool := do
  lookUp pid
  withLock (.process pid) do
    let process ← getObject pid
    pure (process.processState = .ready)

def searchReady : (iterations : Nat) → Kernel (Option Nat)
  | 0 => pure none
  | iterations + 1 => do
      match ← rotatePids with
      | some pid => if ← isReady pid then pure (some pid) else searchReady iterations
      | none => searchReady iterations

namespace GlobalState

def allocate (size : Nat) : KernelResult Nat := guarded .allocator (allocatorAllocate size)

def addProcess (id : Nat) : Kernel Unit := do
  lockExclusive
  insertProcess id
  withLock .pids (pushPid id)
  unlock .numReaders

def removeProcess (pid : Nat) : Kernel Unit := do
  lockExclusive
  takeProcess pid
  unlock .numReaders

def getCurrentProcess : Kernel (Option Nat) :=
  withLock .currentProcess fun s => .ok (s.currentProcess, s)

def setCurrentProcess (process : Nat) : Kernel Unit :=
  withLock .currentProcess fun s => .ok ((), { s with currentProcess := some process })

def getProcess (id : Nat) : Kernel (Option Nat) := withReadLock fun s =>
  .ok (if id ∈ s.processes then some id else none, s)

def findReadyProcess : Kernel (Option Nat) := withReadLock <| withLock .pids do
  let length ← (fun s => .ok (s.pids.length, s) : Kernel Nat)
  searchReady length

def map (plat : Platform) (pageTable va pa size : Nat) (read write execute user : Bool) :
    KernelResult Unit :=
  guarded .arch ((arch plat).map pageTable va pa size read write execute user)

def cleanupPageTable (plat : Platform) (pageTable : Nat) : KernelResult Unit :=
  guarded .arch ((arch plat).cleanUpPageTable pageTable)

def va2pa (plat : Platform) (pageTable va : Nat) : KernelResult Nat :=
  guarded .arch ((arch plat).va2pa pageTable va)

end GlobalState

end Jangri
