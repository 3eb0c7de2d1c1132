import Jangri.Kernel.Process

/-! System calls: `handle` and what it dispatches to.

A function that may switch to the scheduler says so in its result: `true` when it returns to its
caller, `false` when control has left for the scheduler. -/

namespace Jangri

open Lib

def translate (plat : Platform) (va pageTable : Nat) : KernelResult Nat :=
  GlobalState.va2pa plat pageTable va

def currentProcess : Kernel Nat := do
  liftRust (unwrap (← GlobalState.getCurrentProcess))

/-- `str::from_utf8(..)`, which fails for bytes that are no UTF-8. -/
def fromUtf8 (bytes : List UInt8) : Option (List UInt8) :=
  if ByteArray.validateUTF8 ⟨bytes.toArray⟩ then some bytes else none

def setParent (child parent : Nat) : Kernel Unit :=
  withLock (.process child) (modifyObject child ({ · with parent := some parent }))

def adoptChild (child childPid : Nat) (wait : Bool) (process : Process) : Process :=
  { process with
    children := process.children ++ [child]
    processState := if wait then .waiting childPid else process.processState }

def spawn (plat : Platform) (caller nameStart nameLen start len : Nat) (wait : Bool)
    (pageTable : Nat) : KernelResult Nat := do
  let name ← (UserMemorySlice.read ⟨nameStart, pageTable, nameLen⟩ plat (translate plat) :
    Kernel (List UInt8))
  let name ← (liftRust (expect "Invalid UTF 8" (fromUtf8 name)) : Kernel (List UInt8))
  let image ← (UserMemorySlice.read ⟨start, pageTable, len⟩ plat (translate plat) : Kernel (List UInt8))
  let child ← assignProcess plat name image
  (setParent child caller : Kernel Unit)
  guarded (.process caller) do
    let childPid ← (withLock (.process child) (do
      let process ← getObject child
      pure process.id) : Kernel Nat)
    (modifyObject caller (adoptChild child childPid wait) : Kernel Unit)
    pure childPid

def extendHeap (caller size : Nat) : KernelResult (Nat × Nat) := do
  let process ← (getObject caller : Kernel Process)
  let va := process.heapEnd
  (liftRust (assert (size % pageSize = 0) "assertion failed: size % PAGE_SIZE == 0") : Kernel Unit)
  let bytes ← (liftRust (usizeMul (size / pageSize) pageSize) : Kernel Nat)
  let heapEnd ← (liftRust (usizeAdd va bytes) : Kernel Nat)
  if heapEnd ≥ stackGuard then throw .memoryNotAvailable
  else
    (modifyObject caller ({ · with heapEnd }) : Kernel Unit)
    let start ← (liftRust (usizeSub heapEnd bytes) : Kernel Nat)
    pure (start, size)

def wantMemory (size : Nat) : KernelResult (Nat × Nat) := do
  let caller ← (currentProcess : Kernel Nat)
  guarded (.process caller) (extendHeap caller size)

/-- `parent.children.extend(..)`, and the wake-up of a parent that waits for this process. The
`filter_map` of `remove_from_vec` is never consumed, so nothing is removed. -/
def inheritChildren (children : List Nat) (pid : Nat) (parent : Process) : Process :=
  { parent with
    children := parent.children ++ children
    processState := if parent.processState = .waiting pid then .ready else parent.processState }

def terminate (pid : Nat) (status : Except Fault Nat) : Kernel (Option Nat × Nat) :=
  withLock (.process pid) do
    modifyObject pid ({ · with processState := .terminated status })
    let process ← getObject pid
    pure (process.parent, process.id)

/-- The two branches on the parent. Without a parent the children are only mapped lazily. -/
def notifyParent (current id : Nat) : (parent : Option Nat) → Kernel Unit
  | some parent => withLock (.process parent) do
      let children ← withLock (.process current) (do
        let process ← getObject current
        pure process.children)
      modifyObject parent (inheritChildren children id)
  | none => withLock (.process current) (pure ())

def releaseTables (plat : Platform) (pid : Nat) : Kernel Unit :=
  withLock (.process pid) do
    modifyObject pid ({ · with children := [] })
    let process ← getObject pid
    unwrapResult (GlobalState.cleanupPageTable plat process.pageTable)

def exit (plat : Platform) (status : Except Fault Nat) : Kernel Unit := do
  let current ← currentProcess
  let (parent, id) ← terminate current status
  notifyParent current id parent
  releaseTables plat current
  switchToSchedulerContext .exit

def handleSyscall (trapframe : Nat) : Kernel Unit := do
  let sepc ← loadWord (trapframe + TrapFrame.sepc)
  let next ← liftRust (usizeAdd sepc 4)
  storeWord (trapframe + TrapFrame.sepc) next

def readRequest (plat : Platform) (pageTable : Nat) : Kernel SyscallInfo := do
  let bytes ← UserMemorySlice.read ⟨kucomPage, pageTable, pageSize⟩ plat (translate plat)
  pure (plat.layout.decode (bytes.take plat.layout.size))

def writeResult (plat : Platform) (pageTable : Nat) (result : SyscallResult) : Kernel Unit :=
  UserMemorySlice.write ⟨kucomPage, pageTable, pageSize⟩ plat (translate plat)
    (plat.layout.encode (.syscallResult result))

def consoleBytes (text : List UInt8) : List UInt8 :=
  text.flatMap fun byte =>
    if byte = 10 ∨ byte = 13 then [10, 13]
    else if byte = 0x7f ∨ byte = 0x08 then [0x7f, 32, 0x7f]
    else [byte]

def consoleWrite (text : List UInt8) : Kernel Unit := fun s =>
  .ok ((), { s with console := s.console ++ consoleBytes text })

def dequeueInput : Kernel (Option Char) := withLock .inputBuffer fun s =>
  match s.inputBuffer with
  | [] => .ok (none, s)
  | byte :: rest => .ok (some (Char.ofNat byte.toNat), { s with inputBuffer := rest })

def exitStatus : Except Error Nat → Except Fault Nat
  | .ok v => .ok v
  | .error e => .error (.error e)

def perform (plat : Platform) (caller trapframe pageTable : Nat) : Syscall → Kernel Bool
  | .wantMemory size => do
      let result ← (wantMemory size).run
      writeResult plat pageTable (.wantMemory result)
      pure true
  | .write start len => do
      let bytes ← UserMemorySlice.read ⟨start, pageTable, len⟩ plat (translate plat)
      let text ← liftRust (unwrap (fromUtf8 bytes))
      consoleWrite text
      writeResult plat pageTable (.write (.ok len))
      pure true
  | .readChar => do
      let char ← dequeueInput
      writeResult plat pageTable (.readChar (.ok char))
      pure true
  | .exit status => do
      exit plat (exitStatus status)
      pure false
  | .spawn nameStart nameLen start len wait => do
      let result ← (spawn plat caller nameStart nameLen start len wait pageTable).run
      writeResult plat pageTable (.spawn result)
      pure true
  | .yield => do
      yieldCpu (.yieldInHandle trapframe pageTable)
      pure false
  | .shutdown => halt .shutdown

def handle (plat : Platform) : Kernel Bool := do
  let caller ← (do
    liftRust (expect "Syscalld but no running process" (← GlobalState.getCurrentProcess)) : Kernel Nat)
  let process ← withLock (.process caller) (getObject caller)
  handleSyscall process.trapframe
  match ← readRequest plat process.pageTable with
  | .syscall request => perform plat caller process.trapframe process.pageTable request
  | .syscallResult _ =>
      halt (.panic (.message "Expected Syscall, found SyscallInfo::SyscallResult\n"))
  | .empty => halt (.panic (.message "Expected Syscall, found SyscallInfo::Empty\n"))

def SpawnsAndWaits (plat : Platform) (s : GlobalState) (child : Nat) : Prop :=
  ∃ p nameStart nameLen start len s₁ s₂ s₃, s.currentProcess = some p ∧
    handleSyscall (s.object p).trapframe s = .ok ((), s₁) ∧
    readRequest plat (s.object p).pageTable s₁ =
      .ok (.syscall (.spawn nameStart nameLen start len true), s₂) ∧
    (spawn plat p nameStart nameLen start len true (s.object p).pageTable).run s₂ =
      .ok (.ok child, s₃)

def AsksToExit (plat : Platform) (s : GlobalState) : Prop :=
  ∃ p status s₁ s₂, s.currentProcess = some p ∧
    handleSyscall (s.object p).trapframe s = .ok ((), s₁) ∧
    readRequest plat (s.object p).pageTable s₁ = .ok (.syscall (.exit status), s₂)

end Jangri
