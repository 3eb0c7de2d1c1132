import Jangri.Janglib.Memory

namespace Jangri

open Lib

def sv48 : Nat := 9 <<< 60

def maximumProcess : Nat := 64

def ptLoad : Nat := 1

def pfX : Nat := 1

def pfW : Nat := 2

def pfR : Nat := 4

namespace TrapFrame

def sp : Nat := 8

def sepc : Nat := 248

def pageTable : Nat := 256

def kernelStack : Nat := 264

def kernelPageTable : Nat := 272

def userTrapAddress : Nat := 280

def satp : Nat := 288

def bytes : Nat := 304

/-- `handle_traps_from_user_mode` stores the bytes of the registers `x1` to `x31`, and `sepc`. -/
def save (m : Memory) (trapframe : Nat) (registers : List UInt8) (pc : Nat) : Memory :=
  (m.store trapframe (registers.take sepc)).write (trapframe + sepc) 8 pc

theorem save_elsewhere (m : Memory) (trapframe : Nat) (registers : List UInt8) (pc x : Nat)
    (outside : x < trapframe ∨ trapframe + pageTable ≤ x) : save m trapframe registers pc x = m x := by
  have short : (registers.take sepc).length ≤ sepc := List.length_take_le _ _
  have apart : ∀ bytes : List UInt8, bytes.length ≤ sepc → m.store trapframe bytes x = m x := by
    intro bytes small
    apply if_neg
    simp only [sepc, pageTable] at *
    omega
  have kept : ¬ (trapframe + sepc ≤ x ∧ x < trapframe + sepc + 8) := by
    simp only [sepc, pageTable] at *
    omega
  rw [save, Memory.write, if_neg kept]
  exact apart _ short

theorem read_sepc_save (m : Memory) (trapframe : Nat) (registers : List UInt8) (pc : Nat)
    (word : pc < usizeBound) : (save m trapframe registers pc).read (trapframe + sepc) 8 = pc :=
  Memory.read_write_same _ _ _ _ word

end TrapFrame

def kernelStackAddress (pid : Nat) : Rust Nat := do
  let next ← usizeAdd pid 1
  let slots ← usizeMul 5 next
  let offset ← usizeMul slots pageSize
  usizeSub trampoline offset

/-- `switch_to_scheduler_context` up to the switch itself; `context` is where the thread goes on
when it is switched back to. -/
def switchToSchedulerContext (context : Context) : Kernel Unit := do
  let process ← (do liftRust (unwrap (← GlobalState.getCurrentProcess)) : Kernel Nat)
  withLock (.process process) (pure ())
  modifyObject process ({ · with context })

def readyIfRunning (process : Process) : Process :=
  if process.processState = .running then { process with processState := .ready } else process

def yieldCpu (context : Context) : Kernel Unit := do
  let process ← (do
    liftRust (expect "YIELD FAILED - NO CURRENT PROCESS" (← GlobalState.getCurrentProcess)) : Kernel Nat)
  withLock (.process process) (modifyObject process readyIfRunning)
  switchToSchedulerContext context

def initialiseTrapframe (plat : Platform) (trapframe pageTable : Nat) : Kernel Unit := do
  storeBytes trapframe (List.replicate TrapFrame.bytes 0)
  storeWord (trapframe + TrapFrame.pageTable) pageTable
  storeWord (trapframe + TrapFrame.satp) (sv48 ||| pageTable >>> 12)
  storeWord (trapframe + TrapFrame.kernelPageTable) (sv48 ||| plat.kernelPageTable >>> 12)
  storeWord (trapframe + TrapFrame.userTrapAddress) plat.userTrapAddress

def sliceImage (image : List UInt8) (offset stop : Nat) : Rust (List UInt8) :=
  if offset ≤ stop ∧ stop ≤ image.length then pure ((image.drop offset).take (stop - offset))
  else panic .indexOutOfBounds

def copySegment (image : List UInt8) (segment : ProgramHeader) (pt : Nat) : Kernel Unit := do
  liftRust (fromRawParts pt segment.pFilesz)
  let stop ← liftRust (usizeAdd segment.pOffset segment.pFilesz)
  let bytes ← liftRust (sliceImage image segment.pOffset stop)
  storeBytes pt bytes

/-- `heap_start.checked_add(code_page_start + PAGE_SIZE).unwrap()` where the segment lies at or
above the heap start. -/
def raiseHeap (heapStart codePageStart : Nat) : Rust Nat :=
  if heapStart ≤ codePageStart then do
    let next ← usizeAdd codePageStart pageSize
    unwrap (if heapStart + next < usizeBound then some (heapStart + next) else none)
  else pure heapStart

def loadSegment (plat : Platform) (pid pageTable : Nat) (image : List UInt8)
    (segment : ProgramHeader) : KernelResult Unit := do
  let codePageStart ← (liftRust (alignToPageSize segment.pVaddr) : Kernel Nat)
  let memsz ← (liftRust (alignToPageSize segment.pMemsz) : Kernel Nat)
  let pt ← GlobalState.allocate memsz
  GlobalState.map plat pageTable codePageStart pt memsz (segment.pFlags &&& pfR != 0)
    (segment.pFlags &&& pfW != 0) (segment.pFlags &&& pfX != 0) true
  (copySegment image segment pt : Kernel Unit)
  let process ← (getObject pid : Kernel Process)
  let heapStart ← (liftRust (raiseHeap process.heapStart codePageStart) : Kernel Nat)
  (modifyObject pid ({ · with heapStart }) : Kernel Unit)

def loadIfLoadable (plat : Platform) (pid pageTable : Nat) (image : List UInt8)
    (segment : ProgramHeader) : KernelResult Unit :=
  if segment.pType = ptLoad then loadSegment plat pid pageTable image segment else pure ()

def resetHeapEnd (process : Process) : Process :=
  { process with heapEnd := process.heapStart, currentlyUnmappedStart := process.heapStart }

def loadSegments (plat : Platform) (pid pageTable : Nat) (image : List UInt8) :
    (segments : List ProgramHeader) → KernelResult Unit
  | [] => pure ()
  | segment :: rest => do
      loadIfLoadable plat pid pageTable image segment
      (modifyObject pid resetHeapEnd : Kernel Unit)
      loadSegments plat pid pageTable image rest

def mapOtherPages (plat : Platform) (pageTable pid : Nat) : KernelResult Unit := do
  let stack ← (unwrapResult (GlobalState.allocate (stackPages * pageSize)) : Kernel Nat)
  GlobalState.map plat pageTable stackStart stack (stackPages * pageSize) true true false true
  let kernelStack ← (liftRust (kernelStackAddress pid) : Kernel Nat)
  (modifyObject pid ({ · with kernelStack }) : Kernel Unit)
  let process ← (getObject pid : Kernel Process)
  (storeWord (process.trapframe + TrapFrame.sp) (stackStart + stackPages * pageSize) : Kernel Unit)
  GlobalState.map plat pageTable trampoline plat.trampolineCodeAddress pageSize true false true false
  GlobalState.map plat pageTable trapframeVa process.trapframe pageSize true true false false
  let errorPage ← GlobalState.allocate pageSize
  GlobalState.map plat pageTable kucomPage errorPage pageSize true true false true
  (storeWord (process.trapframe + TrapFrame.kernelPageTable)
    (sv48 ||| plat.kernelPageTable >>> 12) : Kernel Unit)
  (storeWord (process.trapframe + TrapFrame.kernelStack) kernelStack : Kernel Unit)

def nextPid : Kernel Nat := fun s =>
  (usizeAdd s.pid 1).map fun pid => (pid, { s with pid })

def okOr {α : Type} (x : Option α) (e : Error) : KernelResult α :=
  match x with
  | some a => pure a
  | none => throw e

/-- What `assign_process` does once the new process is ready and has its page table. -/
def loadImage (plat : Platform) (pid pageTable trapframe : Nat) (image : List UInt8) :
    KernelResult Unit := do
  (initialiseTrapframe plat trapframe pageTable : Kernel Unit)
  let elf ← okOr (plat.minimalParse image) .elfError
  let segments ← okOr elf.segments .elfError
  loadSegments plat pid pageTable image segments
  (storeWord (trapframe + TrapFrame.sepc) elf.entry : Kernel Unit)
  (expectResult "PROCESS CREATION FAILED - ERROR WHILE MAPPING PAGES"
    (mapOtherPages plat pageTable pid) : Kernel Unit)

def prepared (name : List UInt8) (pageTable trapframe : Nat) (process : Process) : Process :=
  { process with
    name, context := .prepareFirstTimeExecution, processState := .ready, pageTable, trapframe }

def buildProcess (plat : Platform) (pid pageTable trapframe : Nat) (name image : List UInt8) :
    KernelResult Unit := do
  (modifyObject pid (prepared name pageTable trapframe) : Kernel Unit)
  loadImage plat pid pageTable trapframe image

def assignProcess (plat : Platform) (name image : List UInt8) : KernelResult Nat := do
  let pageTable ← (unwrapResult (GlobalState.allocate pageSize) : Kernel Nat)
  let trapframe ← (unwrapResult (GlobalState.allocate pageSize) : Kernel Nat)
  let pid ← (nextPid : Kernel Nat)
  (modifyObject pid (fun _ => Process.default pid) : Kernel Unit)
  (GlobalState.addProcess pid : Kernel Unit)
  guarded (.process pid) (buildProcess plat pid pageTable trapframe name image)
  pure pid

end Jangri
