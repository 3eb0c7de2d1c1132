import Jangri.Kernel.Records
import Jangri.Kernel.Vm

namespace Jangri

open Lib

namespace PageAllocator

variable {alloc alloc' : PageAllocator} {store store' : Store} {start size : Nat}

theorem release_memoryEnd (ran : alloc.release store start size = .ok (alloc', store')) :
    alloc'.memoryEnd = alloc.memoryEnd := by
  rw [release] at ran
  simp only [bind_eq_ok, pure_eq_ok] at ran
  rcases ran with ⟨node, -, list, -, pointer, -, pushed, -, bitmaps, -, same⟩
  cases same
  rfl

theorem allocateFromList_memoryEnd {multiple v block : Nat}
    (ran : alloc.allocateFromList store multiple v = .ok (block, alloc', store')) :
    alloc'.memoryEnd = alloc.memoryEnd := by
  rw [allocateFromList] at ran
  simp only [bind_eq_ok] at ran
  rcases ran with ⟨list, -, popped, -, found, -, bitmaps, -, rest⟩
  split at rest
  · cases rest
    rfl
  · simp only [bind_eq_ok] at rest
    rcases rest with ⟨behind, -, released, remainder, same⟩
    cases same
    exact (release_memoryEnd remainder).trans rfl

theorem allocate_memoryEnd {result : Option Nat}
    (ran : alloc.allocate store size = .ok (result, alloc', store')) :
    alloc'.memoryEnd = alloc.memoryEnd := by
  rw [allocate] at ran
  split at ran
  next =>
    rcases (bind_eq_ok _ _ _).mp ran with ⟨_, impossible, _⟩
    cases impossible
  next =>
    simp only [bind_eq_ok] at ran
    rcases ran with ⟨-, -, available, -, rest⟩
    cases available with
    | some v =>
        simp only [bind_eq_ok] at rest
        rcases rest with ⟨served, ran, same⟩
        cases same
        exact allocateFromList_memoryEnd ran
    | none =>
        simp only at rest
        split at rest
        · simp only [bind_eq_ok] at rest
          rcases rest with ⟨next, -, left, -, same⟩
          cases same
          rfl
        · cases rest
          rfl

theorem deallocate_memoryEnd (ran : alloc.deallocate store start size = .ok (alloc', store')) :
    alloc'.memoryEnd = alloc.memoryEnd := by
  rw [deallocate] at ran
  simp only [bind_eq_ok] at ran
  rcases ran with ⟨-, -, -, -, released⟩
  exact release_memoryEnd released

end PageAllocator

structure Administrative (inv : GlobalState → Prop) : Prop where
  same : ∀ s t : GlobalState, t.allocator = s.allocator → inv s → inv t
  allocate : ∀ size, Preserves inv (allocatorAllocate size).run
  deallocate : ∀ addr size, Preserves inv (allocatorDeallocate addr size)

def Manages (stop : Nat) (s : GlobalState) : Prop := s.allocator.memoryEnd = stop

theorem manages_administrative (stop : Nat) : Administrative (Manages stop) where
  same := by
    intro s t same holds
    rw [Manages, same]
    exact holds
  allocate := by
    intro size s holds
    rw [wp_def, allocatorAllocate, ExceptT.run_mk]
    cases ran : s.allocator.allocate ⟨s.memory, s.nodeId⟩ size with
    | error e => trivial
    | ok r => exact (PageAllocator.allocate_memoryEnd ran).trans holds
  deallocate := by
    intro addr size s holds
    rw [wp_def, allocatorDeallocate]
    cases ran : s.allocator.deallocate ⟨s.memory, s.nodeId⟩ addr size with
    | error e => trivial
    | ok r => exact (PageAllocator.deallocate_memoryEnd ran).trans holds

section Operations

variable {inv : GlobalState → Prop} (admin : Administrative inv) {plat : Platform}
include admin

theorem Administrative.robust : Robust inv where
  stable := fun s t same holds => admin.same s t same.allocator holds
  memory := fun s _ holds => admin.same s _ rfl holds
  allocate := admin.allocate
  deallocate := admin.deallocate

theorem preserves_objectModified (pid : Nat) (f : Process → Process) :
    Preserves inv (modifyObject pid f) := by
  intro s holds
  rw [wp_modifyObject]
  exact admin.same s _ rfl holds

theorem preserves_segmentLoaded (pid pageTable : Nat) (image : List UInt8) (segment : ProgramHeader) :
    Preserves inv (loadIfLoadable plat pid pageTable image segment).run := by
  have robust := admin.robust
  unfold loadIfLoadable
  split
  · apply (preserves_liftRust _).run_lift.run_bind
    intro codePageStart
    apply (preserves_liftRust _).run_lift.run_bind
    intro memsz
    apply (preserves_allocated robust memsz).run_bind
    intro pt
    apply (preserves_mapped robust _ _ _ _ _ _ _ _).run_bind
    intro _
    apply (preserves_segmentCopied robust image segment pt).run_lift.run_bind
    intro _
    apply (preserves_getObject pid).run_lift.run_bind
    intro process
    apply (preserves_liftRust _).run_lift.run_bind
    intro heapStart
    exact (preserves_objectModified admin pid _).run_lift
  · exact Preserves.run_pure _

theorem preserves_segmentsLoaded (pid pageTable : Nat) (image : List UInt8)
    (segments : List ProgramHeader) :
    Preserves inv (loadSegments plat pid pageTable image segments).run := by
  induction segments with
  | nil => exact Preserves.run_pure _
  | cons segment rest ih =>
      apply (preserves_segmentLoaded admin pid pageTable image segment).run_bind
      intro _
      apply (preserves_objectModified admin pid resetHeapEnd).run_lift.run_bind
      intro _
      exact ih

theorem preserves_otherPagesMapped (pageTable pid : Nat) :
    Preserves inv (mapOtherPages plat pageTable pid).run := by
  have robust := admin.robust
  have maps : ∀ va pa size r w x u,
      Preserves inv (GlobalState.map plat pageTable va pa size r w x u).run :=
    fun va pa size r w x u => preserves_mapped robust _ _ _ _ _ _ _ _
  apply (preserves_unwrapResult (preserves_allocated robust _)).run_lift.run_bind
  intro stack
  apply (maps _ _ _ _ _ _ _).run_bind
  intro _
  apply (preserves_liftRust _).run_lift.run_bind
  intro kernelStack
  apply (preserves_objectModified admin pid _).run_lift.run_bind
  intro _
  apply (preserves_getObject pid).run_lift.run_bind
  intro process
  apply (preserves_storedWord robust _ _).run_lift.run_bind
  intro _
  apply (maps _ _ _ _ _ _ _).run_bind
  intro _
  apply (maps _ _ _ _ _ _ _).run_bind
  intro _
  apply (preserves_allocated robust _).run_bind
  intro errorPage
  apply (maps _ _ _ _ _ _ _).run_bind
  intro _
  apply (preserves_storedWord robust _ _).run_lift.run_bind
  intro _
  exact (preserves_storedWord robust _ _).run_lift

theorem preserves_imageLoaded (pid pageTable trapframe : Nat) (image : List UInt8) :
    Preserves inv (loadImage plat pid pageTable trapframe image).run := by
  have robust := admin.robust
  apply (preserves_trapframeInitialised robust _ _).run_lift.run_bind
  intro _
  apply preserves_okOr
  intro elf _
  apply preserves_okOr
  intro segments _
  apply (preserves_segmentsLoaded admin pid pageTable image segments).run_bind
  intro _
  apply (preserves_storedWord robust _ _).run_lift.run_bind
  intro _
  exact (preserves_expectResult _ (preserves_otherPagesMapped admin pageTable pid)).run_lift

theorem preserves_processAssigned (name image : List UInt8) :
    Preserves inv (assignProcess plat name image).run := by
  have robust := admin.robust
  have counts : Preserves inv nextPid := by
    intro s holds
    apply wp_nextPid fun _ _ => trivial
    exact admin.same s _ rfl holds
  have adds : ∀ pid, Preserves inv (GlobalState.addProcess pid) := by
    intro pid s holds
    apply wp_addProcess_any
    intro _ _
    exact admin.same s _ rfl holds
  apply (preserves_unwrapResult (preserves_allocated robust _)).run_lift.run_bind
  intro pageTable
  apply (preserves_unwrapResult (preserves_allocated robust _)).run_lift.run_bind
  intro trapframe
  apply counts.run_lift.run_bind
  intro pid
  apply (preserves_objectModified admin pid _).run_lift.run_bind
  intro _
  apply (adds pid).run_lift.run_bind
  intro _
  apply Preserves.run_bind
  · apply preserves_guarded robust.stable
    apply (preserves_objectModified admin pid _).run_lift.run_bind
    intro _
    exact preserves_imageLoaded admin pid pageTable trapframe image
  · intro _
    exact Preserves.run_pure _

theorem preserves_spawned (caller nameStart nameLen start len : Nat) (wait : Bool) (pageTable : Nat) :
    Preserves inv (spawn plat caller nameStart nameLen start len wait pageTable).run := by
  have stable := admin.robust.stable
  apply (preserves_sliceRead _).run_lift.run_bind
  intro bytes
  apply (preserves_liftRust _).run_lift.run_bind
  intro name
  apply (preserves_sliceRead _).run_lift.run_bind
  intro image
  apply (preserves_processAssigned admin _ _).run_bind
  intro child
  apply (preserves_withLock stable _ (preserves_objectModified admin child _)).run_lift.run_bind
  intro _
  apply preserves_guarded stable
  apply Preserves.run_bind
  · apply Preserves.run_lift
    apply preserves_withLock stable
    apply (preserves_getObject child).bind
    intro process
    exact Preserves.pure _
  · intro childPid
    apply (preserves_objectModified admin caller _).run_lift.run_bind
    intro _
    exact Preserves.run_pure _

theorem preserves_memoryWanted (size : Nat) : Preserves inv (wantMemory size).run := by
  have stable := admin.robust.stable
  apply Preserves.run_bind
  · apply Preserves.run_lift
    apply (preserves_getCurrentProcess stable).bind
    intro found
    exact preserves_liftRust _
  · intro caller
    apply preserves_guarded stable
    apply (preserves_getObject caller).run_lift.run_bind
    intro process
    apply (preserves_liftRust _).run_lift.run_bind
    intro _
    apply (preserves_liftRust _).run_lift.run_bind
    intro bytes
    apply (preserves_liftRust _).run_lift.run_bind
    intro heapEnd
    split
    · exact Preserves.run_throw _
    · apply (preserves_objectModified admin caller _).run_lift.run_bind
      intro _
      apply (preserves_liftRust _).run_lift.run_bind
      intro start
      exact Preserves.run_pure _

theorem preserves_switchedAway (context : Context) :
    Preserves inv (switchToSchedulerContext context) := by
  have stable := admin.robust.stable
  apply Preserves.bind
  · apply (preserves_getCurrentProcess stable).bind
    intro found
    exact preserves_liftRust _
  · intro process
    apply (preserves_withLock stable _ (Preserves.pure ())).bind
    intro _
    exact preserves_objectModified admin process _

theorem preserves_yielded (context : Context) : Preserves inv (yieldCpu context) := by
  have stable := admin.robust.stable
  apply Preserves.bind
  · apply (preserves_getCurrentProcess stable).bind
    intro found
    exact preserves_liftRust _
  · intro process
    apply (preserves_withLock stable _ (preserves_objectModified admin process _)).bind
    intro _
    exact preserves_switchedAway admin context

theorem preserves_exited (status : Except Fault Nat) : Preserves inv (exit plat status) := by
  have robust := admin.robust
  have stable := robust.stable
  apply Preserves.bind
  · apply (preserves_getCurrentProcess stable).bind
    intro found
    exact preserves_liftRust _
  intro current
  apply Preserves.bind
  · apply preserves_withLock stable
    apply (preserves_objectModified admin current _).bind
    intro _
    apply (preserves_getObject current).bind
    intro process
    exact Preserves.pure _
  intro left
  apply Preserves.bind
  · cases left.1 with
    | none => exact preserves_withLock stable _ (Preserves.pure ())
    | some parent =>
        apply preserves_withLock stable
        apply Preserves.bind
        · apply preserves_withLock stable
          apply (preserves_getObject current).bind
          intro process
          exact Preserves.pure _
        · intro children
          exact preserves_objectModified admin parent _
  intro _
  apply Preserves.bind
  · apply preserves_withLock stable
    apply (preserves_objectModified admin current _).bind
    intro _
    apply (preserves_getObject current).bind
    intro process
    exact preserves_unwrapResult (preserves_cleanedUp robust _)
  · intro _
    exact preserves_switchedAway admin .exit

theorem preserves_performed (caller trapframe pageTable : Nat) (request : Syscall) :
    Preserves inv (perform plat caller trapframe pageTable request) := by
  have robust := admin.robust
  have answers : ∀ result, Preserves inv (writeResult plat pageTable result >>= fun _ => pure true) := by
    intro result
    apply (preserves_resultWritten robust _ result).bind
    intro _
    exact Preserves.pure _
  cases request with
  | wantMemory size =>
      apply (preserves_memoryWanted admin size).bind
      exact fun _ => answers _
  | write start len =>
      apply (preserves_sliceRead _).bind
      intro bytes
      apply (preserves_liftRust _).bind
      intro text
      apply (preserves_consoleWrite robust.stable text).bind
      exact fun _ => answers _
  | readChar =>
      apply (preserves_dequeueInput robust.stable).bind
      exact fun _ => answers _
  | exit status =>
      apply (preserves_exited admin _).bind
      intro _
      exact Preserves.pure _
  | spawn nameStart nameLen start len wait =>
      apply (preserves_spawned admin _ _ _ _ _ _ _).bind
      exact fun _ => answers _
  | yield =>
      apply (preserves_yielded admin _).bind
      intro _
      exact Preserves.pure _
  | shutdown => exact preserves_halt _

theorem preserves_handled : Preserves inv (handle plat) := by
  have robust := admin.robust
  apply Preserves.bind
  · apply (preserves_getCurrentProcess robust.stable).bind
    intro found
    exact preserves_liftRust _
  intro caller
  apply (preserves_withLock robust.stable _ (preserves_getObject caller)).bind
  intro process
  apply Preserves.bind
  · apply (preserves_read fun s => s.memory.read (process.trapframe + TrapFrame.sepc) 8).bind
    intro sepc
    apply (preserves_liftRust _).bind
    intro next
    exact preserves_storedWord robust _ _
  intro _
  apply Preserves.bind
  · apply (preserves_sliceRead _).bind
    intro bytes
    exact Preserves.pure _
  intro info
  cases info with
  | syscall request => exact preserves_performed admin _ _ _ request
  | syscallResult result => exact preserves_halt _
  | empty => exact preserves_halt _

theorem preserves_stacksMapped (kernelPageTable remaining i : Nat) :
    Preserves inv (mapKernelStackFrom plat kernelPageTable remaining i) := by
  have robust := admin.robust
  induction remaining generalizing i with
  | zero => exact Preserves.pure _
  | succ remaining ih =>
      apply (preserves_expectResult _ (preserves_allocated robust _)).bind
      intro physicalAddress
      apply (preserves_liftRust _).bind
      intro address
      apply (preserves_unwrapResult (preserves_mapped robust _ _ _ _ _ _ _ _)).bind
      intro _
      exact ih (i + 1)

theorem preserves_initialised :
    Preserves inv (initialiseKernelPageTable plat).run := by
  have robust := admin.robust
  have maps : ∀ root va pa size r w x u,
      Preserves inv (GlobalState.map plat root va pa size r w x u).run :=
    fun _ _ _ _ _ _ _ _ => preserves_mapped robust _ _ _ _ _ _ _ _
  apply (preserves_unwrapResult (preserves_allocated robust _)).run_lift.run_bind
  intro root
  apply (preserves_stacksMapped admin _ _ _).run_lift.run_bind
  intro _
  apply (maps _ _ _ _ _ _ _ _).run_bind
  intro _
  apply (maps _ _ _ _ _ _ _ _).run_bind
  intro _
  apply (preserves_liftRust _).run_lift.run_bind
  intro textSize
  apply (maps _ _ _ _ _ _ _ _).run_bind
  intro _
  apply (preserves_liftRust _).run_lift.run_bind
  intro ramSize
  apply (maps _ _ _ _ _ _ _ _).run_bind
  intro _
  apply (maps _ _ _ _ _ _ _ _).run_bind
  intro _
  exact Preserves.run_pure _

theorem preserves_textWritten (text : String) : Preserves inv (Io.write plat text) := by
  have robust := admin.robust
  have asks : Preserves inv (makeSyscall plat) := by
    intro s holds
    rw [wp_def, makeSyscall]
    cases plat.firmware s.memory with
    | none => trivial
    | some m => exact robust.memory s m holds
  have reads : Preserves inv (getResult plat) := by
    apply (preserves_read fun s => s.memory.load plat.kernelKucom plat.layout.size).bind
    intro bytes
    split
    · apply (preserves_storedBytes robust _ _).bind
      intro _
      exact Preserves.pure _
    · exact preserves_halt _
  have checks : Preserves inv (checkWrite plat).run := by
    apply reads.bind
    intro result
    split
    · exact Preserves.pure _
    · exact preserves_halt _
  unfold Io.write
  apply Preserves.ite
  · exact Preserves.pure _
  · apply (preserves_storedBytes robust _ _).bind
    intro _
    apply asks.bind
    intro _
    apply (preserves_unwrapResult checks).bind
    intro written
    exact preserves_liftRust _

theorem preserves_exceptionHandled (pid : Nat) (info : TrapInfo) :
    Preserves inv (handleException plat pid info) := by
  have robust := admin.robust
  have locks : Preserves inv (lock (.process pid)) := by
    intro s holds
    by_cases taken : .process pid ∈ s.held
    · exact wp_lock_of_held _ taken _ trivial
    · rw [wp_lock_of_free _ _ taken]
      exact admin.same s _ rfl holds
  have unlocks : Preserves inv (unlock (.process pid)) := by
    intro s holds
    rw [wp_unlock]
    exact admin.same s _ rfl holds
  have terminates : ∀ text fault, Preserves inv (terminateLocked plat text fault) := by
    intro text fault
    apply Preserves.bind
    · exact (preserves_textWritten admin text).bind fun _ => preserves_textWritten admin "\n"
    · intro _
      apply (preserves_exited admin _).bind
      intro _
      exact Preserves.pure _
  have grows : Preserves inv (growHeap plat pid info.stval).run := by
    apply (preserves_getObject pid).run_lift.run_bind
    intro process
    split
    · apply (preserves_liftRust _).run_lift.run_bind
      intro size
      apply (preserves_allocated robust size).run_bind
      intro block
      exact preserves_mapped robust _ _ _ _ _ _ _ _
    · exact Preserves.run_pure _
  apply locks.bind
  intro _
  apply (preserves_liftRust _).bind
  intro fault
  apply Preserves.ite
  · apply grows.bind
    intro r
    cases r with
    | error e =>
        apply (preserves_getObject pid).bind
        intro process
        exact terminates _ _
    | ok u =>
        apply (preserves_objectModified admin pid _).bind
        intro _
        apply unlocks.bind
        intro _
        exact Preserves.pure _
  · apply (preserves_getObject pid).bind
    intro process
    exact terminates _ _

theorem preserves_dispatched (pid trapframe : Nat) (info : TrapInfo) :
    Preserves inv (dispatch plat pid trapframe info) := by
  apply Preserves.ite
  · apply (preserves_yielded admin _).bind
    intro _
    exact Preserves.pure _
  apply Preserves.ite
  · apply (preserves_handleExternalInterrupt admin.robust.stable info).bind
    intro _
    exact Preserves.pure _
  apply Preserves.ite
  · exact preserves_exceptionHandled admin pid info
  apply Preserves.ite
  · exact preserves_handled admin
  · exact Preserves.pure _

theorem preserves_userTrap (info : TrapInfo) : Preserves inv (userTrap plat info) := by
  have stable := admin.robust.stable
  apply Preserves.bind
  · apply (preserves_getCurrentProcess stable).bind
    intro found
    exact preserves_liftRust _
  intro pid
  apply (preserves_withLock stable _ (preserves_getObject pid)).bind
  intro process
  apply (preserves_dispatched admin pid process.trapframe info).bind
  intro returned
  exact Preserves.ite _ (preserves_returnToUserMode stable) (Preserves.pure _)

theorem preserves_switchedTo : Preserves inv (switchedTo plat) := by
  have robust := admin.robust
  have stable := robust.stable
  intro s holds
  cases current : s.currentProcess with
  | none =>
      rw [wp_def]
      simp only [switchedTo, current]
  | some pid =>
      rw [wp_def, switchedTo_of_current current, ← wp_def]
      have goesOn : Preserves inv (goOn plat (s.object pid).context) := by
        cases (s.object pid).context with
        | unset => exact preserves_halt _
        | prepareFirstTimeExecution =>
            apply Preserves.bind
            · apply (preserves_getCurrentProcess stable).bind
              intro found
              exact preserves_liftRust _
            · intro process
              apply (preserves_withLock stable _ (Preserves.pure ())).bind
              intro _
              exact preserves_returnToUserMode stable
        | yieldInUserTrap trapframe => exact preserves_returnToUserMode stable
        | yieldInHandle trapframe pageTable =>
            apply (preserves_resultWritten robust _ _).bind
            intro _
            exact preserves_returnToUserMode stable
        | exit => exact preserves_halt _
      exact goesOn s holds

theorem preserves_scheduled : Preserves inv schedule := by
  have stable := admin.robust.stable
  apply (preserves_findReadyProcess stable).bind
  intro found
  cases found with
  | none => exact Preserves.pure _
  | some pid =>
      apply Preserves.bind
      · apply (preserves_getProcess stable pid).bind
        intro process
        exact preserves_liftRust _
      intro process
      apply (preserves_withLock stable _ (preserves_objectModified admin process _)).bind
      intro _
      apply Preserves.bind
      · apply preserves_withLock stable
        intro s holds
        rw [wp_def]
        exact admin.same s _ rfl holds
      · intro _
        exact Preserves.pure _

theorem preserves_userStored (va : Nat) (byte : UInt8) : Preserves inv (userStore va byte) := by
  intro s holds
  rw [wp_def, userStore]
  generalize (s.currentProcess.bind fun pid => leafAt s.memory (s.object pid).pageTable va) = leaf
  cases leaf with
  | none => exact holds
  | some entry =>
      by_cases permitted : entry.userModeAccessible ∧ entry.writeable
      · simp only [if_pos permitted]
        exact admin.same s _ rfl holds
      · simp only [if_neg permitted]
        exact holds

theorem preserves_registersSaved (registers : List UInt8) (sepc : Nat) :
    Preserves inv (saveRegisters registers sepc) := by
  intro s holds
  rw [wp_def, saveRegisters]
  cases s.currentProcess with
  | none => exact holds
  | some p => exact admin.same s _ rfl holds

theorem preserves_respond (mode : Mode) (event : Event) (operation : Kernel Mode)
    (responds : respond plat mode event = some operation) : Preserves inv operation := by
  unfold respond at responds
  split at responds
  next name image =>
    cases responds
    apply (preserves_processAssigned admin name image).bind
    intro _
    exact Preserves.pure _
  next =>
    cases responds
    exact preserves_scheduled admin
  next info =>
    cases responds
    apply Preserves.ite
    · exact Preserves.pure _
    apply Preserves.ite
    · apply (preserves_handleExternalInterrupt admin.robust.stable info).bind
      intro _
      exact Preserves.pure _
    · exact Preserves.ite _ (preserves_halt _) (Preserves.pure _)
  next =>
    cases responds
    exact preserves_switchedTo admin
  next registers sepc =>
    cases responds
    exact preserves_registersSaved admin registers sepc
  next info =>
    cases responds
    exact preserves_userTrap admin info
  next va byte =>
    cases responds
    exact preserves_userStored admin va byte
  next => cases responds

theorem Administrative.steps {m m' : Machine} {event : Event} (holds : inv m.kernel)
    (taken : Machine.Steps plat m event m') : inv m'.kernel := by
  rcases taken with ⟨operation, responds, ended⟩
  have keeps := preserves_respond admin m.mode event operation responds
  have done := wp_of_returns (keeps m.kernel holds) ended
  exact done

end Operations

end Jangri
