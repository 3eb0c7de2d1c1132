import Jangri.Arch.Tables
import Jangri.Kernel.Syscall

/-! Trap handling, and the machine the kernel runs on.

Control is at one of three places between kernel operations: at the head of the scheduler loop,
just behind a switch to a process's kernel thread, or in user mode. -/

namespace Jangri

open Lib

/-- Everything a trap handler reads from the hardware. -/
structure TrapInfo where
  trap : Trap
  sepc : Nat
  stval : Nat
  claim : Nat
  received : List UInt8

namespace TrapInfo

def isTimerInterrupt (info : TrapInfo) : Bool := info.trap = .interrupt 5

def isExternalInterrupt (info : TrapInfo) : Bool := info.trap = .interrupt 9

def isSyscall (info : TrapInfo) : Bool := info.trap = .exception 8

def isException (info : TrapInfo) : Bool :=
  match info.trap with
  | .exception _ => ¬ info.isSyscall
  | .interrupt _ => false

def knownException (code : Nat) : Bool :=
  code ≤ 9 ∨ code = 11 ∨ code = 12 ∨ code = 13 ∨ code = 15

def isPageFault (info : TrapInfo) : Rust Bool :=
  match info.trap with
  | .exception code =>
      if knownException code then pure (code = 13 ∨ code = 15)
      else panic (.message "Unknown exception no")
  | .interrupt _ => pure false

end TrapInfo

namespace Uart

def uartId : Nat := 10

def capacity : Nat := 4096

/-- `RingBuffer::enqueue` drops the oldest byte of a full buffer. -/
def enqueue (buffer : List UInt8) (byte : UInt8) : List UInt8 :=
  if buffer.length < capacity then buffer ++ [byte] else buffer.tail ++ [byte]

def receive (s : GlobalState) (byte : UInt8) : Rust GlobalState :=
  if byte = 10 ∨ byte = 13 then
    pure { s with console := s.console ++ [10, 13], inputBuffer := enqueue s.inputBuffer 10 }
  else if byte = 0x7f ∨ byte = 0x08 then
    if s.cursorPosition > 0 then do
      let cursorPosition ← usizeSub s.cursorPosition 1
      pure { s with
        console := s.console ++ [8, 32, 8]
        inputBuffer := enqueue s.inputBuffer 8
        cursorPosition }
    else pure s
  else do
    let cursorPosition ← usizeAdd s.cursorPosition 1
    pure { s with
      console := s.console ++ [byte]
      inputBuffer := enqueue s.inputBuffer byte
      cursorPosition }

def handleInterrupt (received : List UInt8) : Kernel Unit :=
  withLock .inputBuffer fun s => (received.foldlM receive s).map fun t => ((), t)

end Uart

def handleExternalInterrupt (info : TrapInfo) : Kernel Unit :=
  if info.claim = Uart.uartId then Uart.handleInterrupt info.received else pure ()

inductive Mode
  | scheduler
  | resumed
  | user
  deriving DecidableEq, Repr

def setUpSupervisorToUserModeTransition : Kernel Unit := do
  let process ← currentProcess
  withLock (.process process) (pure ())

/-- The end of `user_trap` and of `prepare_first_time_execution`. -/
def returnToUserMode : Kernel Mode := do
  setUpSupervisorToUserModeTransition
  pure .user

def prepareFirstTimeExecution : Kernel Mode := do
  let process ← (do
    liftRust (expect "NO CURRENT PROCESS" (← GlobalState.getCurrentProcess)) : Kernel Nat)
  withLock (.process process) (pure ())
  returnToUserMode

def growHeap (plat : Platform) (pid faultingAddress : Nat) : KernelResult Unit := do
  let process ← (getObject pid : Kernel Process)
  if process.currentlyUnmappedStart ≠ process.heapEnd ∧
      faultingAddress ≥ process.currentlyUnmappedStart ∧ faultingAddress < process.heapEnd then
    let size ← (liftRust (usizeSub process.heapEnd process.heapStart) : Kernel Nat)
    let block ← GlobalState.allocate size
    GlobalState.map plat process.pageTable process.heapStart block size true true false true
  else pure ()

def nameText (process : Process) : String :=
  (String.fromUTF8? ⟨process.name.toArray⟩).getD ""

def terminationText (process : Process) (e : Error) : String :=
  "Error Occured: Terminating process name = " ++ nameText process ++ ", pid = " ++
    toString process.id ++ ", error = " ++ e.debug

def exceptionText (process : Process) (info : TrapInfo) : String :=
  "Exception Occured: Terminating process name = " ++ nameText process ++ ", pid = " ++
    toString process.id ++ ", cause = " ++ info.trap.debug ++
    ", Faulting instruction address = " ++ toString info.sepc ++
    ", Faulting memory address = " ++ toString info.stval

/-- The guard is still alive when `exit` is called: it would only be dropped at the end of the
block, which `exit` never reaches. -/
def terminateLocked (plat : Platform) (text : String) (fault : Fault) : Kernel Bool := do
  println plat text
  exit plat (.error fault)
  pure false

def handlePageFault (plat : Platform) (pid stval : Nat) : Kernel Bool := do
  match ← (growHeap plat pid stval).run with
  | .error e => do
      let process ← getObject pid
      terminateLocked plat (terminationText process e) (.error e)
  | .ok () => do
      modifyObject pid fun p => { p with currentlyUnmappedStart := p.heapEnd }
      unlock (.process pid)
      pure true

def handleException (plat : Platform) (pid : Nat) (info : TrapInfo) : Kernel Bool := do
  lock (.process pid)
  if ← liftRust info.isPageFault then handlePageFault plat pid info.stval
  else do
    let process ← getObject pid
    terminateLocked plat (exceptionText process info) (.cause info.trap)

def dispatch (plat : Platform) (pid trapframe : Nat) (info : TrapInfo) : Kernel Bool :=
  if info.isTimerInterrupt then do
    yieldCpu (.yieldInUserTrap trapframe)
    pure false
  else if info.isExternalInterrupt then do
    handleExternalInterrupt info
    pure true
  else if info.isException then handleException plat pid info
  else if info.isSyscall then handle plat
  else pure true

def leave (returned : Bool) : Kernel Mode :=
  if returned then returnToUserMode else pure .scheduler

def userTrap (plat : Platform) (info : TrapInfo) : Kernel Mode := do
  let pid ← (do
    liftRust (expect "USER TRAP, BUT NO RUNNING PROCESS" (← GlobalState.getCurrentProcess)) :
      Kernel Nat)
  let process ← withLock (.process pid) (getObject pid)
  let returned ← dispatch plat pid process.trapframe info
  leave returned

def supervisorTrap (info : TrapInfo) : Kernel Mode :=
  if info.isTimerInterrupt then pure .scheduler
  else if info.isExternalInterrupt then do
    handleExternalInterrupt info
    pure .scheduler
  else if info.isException then halt (.panic (.message "UNHANDLED SUPERVISOR TRAP EXCEPTION"))
  else pure .scheduler

/-- One round of the loop of `schedule`, up to the switch. -/
def schedule : Kernel Mode := do
  match ← GlobalState.findReadyProcess with
  | some pid => do
      let process ← (do liftRust (unwrap (← GlobalState.getProcess pid)) : Kernel Nat)
      withLock (.process process) (modifyObject process ({ · with processState := .running }))
      GlobalState.setCurrentProcess process
      pure .resumed
  | none => pure .scheduler

def goOn (plat : Platform) : Context → Kernel Mode
  | .unset => halt (.panic (.message "UNHANDLED SUPERVISOR TRAP EXCEPTION"))
  | .prepareFirstTimeExecution => prepareFirstTimeExecution
  | .yieldInUserTrap _ => returnToUserMode
  | .yieldInHandle _ pageTable => do
      writeResult plat pageTable .yield
      returnToUserMode
  | .exit => halt (.panic (.message "internal error: entered unreachable code: EXIT UNREACHABLE"))

def switchedTo (plat : Platform) : Kernel Mode := fun s =>
  match s.currentProcess with
  | some pid => goOn plat (s.object pid).context s
  | none => .error (.panic .unwrapNone)

/-- A user-mode store of one byte. Without a writable user mapping it traps instead, which is an
event of its own. -/
def userStore (va : Nat) (byte : UInt8) : Kernel Mode := fun s =>
  match s.currentProcess.bind fun pid => leafAt s.memory (s.object pid).pageTable va with
  | some entry =>
      if entry.userModeAccessible ∧ entry.writeable then
        .ok (.user, { s with
          memory := s.memory.write (entry.getPhysicalAddress + va % pageSize) 1 byte.toNat })
      else .ok (.user, s)
  | none => .ok (.user, s)

def GlobalState.saved (s : GlobalState) (pid : Nat) (registers : List UInt8) (sepc : Nat) :
    GlobalState :=
  { s with memory := TrapFrame.save s.memory (s.object pid).trapframe registers sepc }

def saveRegisters (registers : List UInt8) (sepc : Nat) : Kernel Mode := fun s =>
  match s.currentProcess with
  | some pid => .ok (.user, s.saved pid registers sepc)
  | none => .ok (.user, s)

/-- A trap takes two events: `save`, and `trap` for what `user_trap` does. -/
inductive Event
  | assign (name image : List UInt8)
  | schedule
  | interrupt (info : TrapInfo)
  | resume
  | save (registers : List UInt8) (sepc : Nat)
  | trap (info : TrapInfo)
  | store (va : Nat) (byte : UInt8)

def respond (plat : Platform) : Mode → Event → Option (Kernel Mode)
  | .scheduler, .assign name image => some do
      let _ ← (assignProcess plat name image).run
      pure .scheduler
  | .scheduler, .schedule => some schedule
  | .scheduler, .interrupt info => some (supervisorTrap info)
  | .resumed, .resume => some (switchedTo plat)
  | .user, .save registers sepc => some (saveRegisters registers sepc)
  | .user, .trap info => some (userTrap plat info)
  | .user, .store va byte => some (userStore va byte)
  | _, _ => none

structure Machine where
  kernel : GlobalState
  mode : Mode

namespace Machine

/-- One operation that runs to its end. A panic ends the run. -/
def Steps (plat : Platform) (m : Machine) (event : Event) (m' : Machine) : Prop :=
  ∃ operation, respond plat m.mode event = some operation ∧
    operation m.kernel = .ok (m'.mode, m'.kernel)

def WaitsFor (plat : Platform) (m : Machine) (event : Event) (child : Nat) : Prop :=
  m.mode = .user ∧ ∃ info, event = .trap info ∧ info.isSyscall = true ∧
    SpawnsAndWaits plat m.kernel child

def Exits (plat : Platform) (m : Machine) (event : Event) : Prop :=
  m.mode = .user ∧ ∃ info, event = .trap info ∧ info.isSyscall = true ∧ AsksToExit plat m.kernel

/-- The kernel as `main` leaves it before the first process: whatever memory and allocator are,
there are no processes, and no lock is held. -/
structure Fresh (m : Machine) : Prop where
  mode : m.mode = .scheduler
  processes : m.kernel.processes = []
  pids : m.kernel.pids = []
  currentProcess : m.kernel.currentProcess = none
  pid : m.kernel.pid = 0
  held : m.kernel.held = []
  numReaders : m.kernel.numReaders = 0

end Machine

end Jangri
