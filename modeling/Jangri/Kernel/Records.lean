import Jangri.Kernel.Outcomes

namespace Jangri

open Lib

def Tabular (inv : GlobalState → Prop) : Prop :=
  ∀ s t : GlobalState, t.object = s.object → t.processes = s.processes →
    t.currentProcess = s.currentProcess → inv s → inv t

structure Robust (inv : GlobalState → Prop) : Prop where
  stable : Stable inv
  memory : ∀ (s : GlobalState) (m : Memory), inv s → inv { s with memory := m }
  allocate : ∀ size, Preserves inv (allocatorAllocate size).run
  deallocate : ∀ addr size, Preserves inv (allocatorDeallocate addr size)

theorem Tabular.robust {inv : GlobalState → Prop} (tabular : Tabular inv) : Robust inv where
  stable := fun s t same holds => tabular s t same.object same.processes same.currentProcess holds
  memory := fun s _ holds => tabular s _ rfl rfl rfl holds
  allocate := by
    intro size s holds
    rw [wp_def, allocatorAllocate, ExceptT.run_mk]
    cases s.allocator.allocate ⟨s.memory, s.nodeId⟩ size with
    | error e => trivial
    | ok r => exact tabular s _ rfl rfl rfl holds
  deallocate := by
    intro addr size s holds
    rw [wp_def, allocatorDeallocate]
    cases s.allocator.deallocate ⟨s.memory, s.nodeId⟩ addr size with
    | error e => trivial
    | ok r => exact tabular s _ rfl rfl rfl holds

theorem Tabular.stable {inv : GlobalState → Prop} (tabular : Tabular inv) : Stable inv :=
  tabular.robust.stable

section Tables

variable {inv : GlobalState → Prop} (robust : Robust inv) {plat : Platform}
include robust

theorem preserves_storedWord (addr value : Nat) : Preserves inv (storeWord addr value) := by
  intro s holds
  rw [wp_def]
  exact robust.memory s _ holds

theorem preserves_storedBytes (addr : Nat) (bytes : List UInt8) :
    Preserves inv (storeBytes addr bytes) := by
  intro s holds
  rw [wp_def]
  exact robust.memory s _ holds

theorem preserves_entryWritten (addr : Nat) (entry : PageTableEntry) :
    Preserves inv (writeEntry addr entry : Kernel Unit) := by
  intro s holds
  rw [wp_writeEntry]
  exact robust.memory s _ holds

theorem preserves_allocated (size : Nat) : Preserves inv (GlobalState.allocate size).run :=
  preserves_guarded robust.stable _ (robust.allocate size)

theorem preserves_walk (va level pageTable : Nat) :
    Preserves inv (walk (arch plat).allocate va true level pageTable).run := by
  induction level generalizing pageTable with
  | zero => exact Preserves.run_pure _
  | succ level ih =>
      rw [walk]
      apply (preserves_read _).run_lift.run_bind
      intro entry
      split
      · exact ih _
      · apply Preserves.run_bind
        · apply preserves_guarded robust.stable
          apply (preserves_liftRust _).run_lift.run_bind
          intro _
          exact robust.allocate _
        · intro page
          apply (preserves_read _).run_lift.run_bind
          intro old
          apply (preserves_entryWritten robust _ _).run_lift.run_bind
          intro _
          exact ih _

theorem preserves_mapPages (pageTable : Nat) (r w x u : Bool) (pages va pa : Nat) :
    Preserves inv ((arch plat).mapPages pageTable r w x u pages va pa).run := by
  induction pages generalizing va pa with
  | zero => exact Preserves.run_pure _
  | succ pages ih =>
      rw [Riscv.mapPages, getPageTableEntryAddress]
      apply Preserves.run_bind
      · split
        · exact Preserves.run_throw _
        · exact preserves_walk robust _ _ _
      · intro address
        apply (preserves_read _).run_lift.run_bind
        intro entry
        split
        · exact Preserves.run_throw _
        · apply (preserves_entryWritten robust _ _).run_lift.run_bind
          intro _
          apply (preserves_liftRust _).run_lift.run_bind
          intro next
          exact ih _ _

theorem preserves_mapped (pageTable va pa size : Nat) (r w x u : Bool) :
    Preserves inv (GlobalState.map plat pageTable va pa size r w x u).run := by
  apply preserves_guarded robust.stable
  unfold Riscv.map
  split
  · exact Preserves.run_throw _
  · split
    · exact Preserves.run_throw _
    · split
      · exact Preserves.run_throw _
      · exact preserves_mapPages robust _ _ _ _ _ _ _ _

theorem preserves_cleanEntries (recurse : Nat → Kernel Unit)
    (keeps : ∀ t, Preserves inv (recurse t)) (pageTable entries index : Nat) :
    Preserves inv (Riscv.cleanEntries recurse pageTable entries index) := by
  induction entries generalizing index with
  | zero => exact Preserves.pure _
  | succ entries ih =>
      have clears : Preserves inv (do
          let entry ← (readEntry (entryAddress pageTable index) : Kernel PageTableEntry)
          writeEntry (entryAddress pageTable index) entry.clearBits
          Riscv.cleanEntries recurse pageTable entries (index + 1)) := by
        apply (preserves_read _).bind
        intro old
        apply (preserves_entryWritten robust _ _).bind
        intro _
        exact ih _
      rw [Riscv.cleanEntries]
      apply (preserves_read _).bind
      intro entry
      apply Preserves.ite
      · apply Preserves.ite
        · apply (keeps _).bind
          intro _
          exact clears
        · exact clears
      · exact ih _

theorem preserves_recursiveClean (depth pageTable : Nat) :
    Preserves inv ((arch plat).recursiveClean depth pageTable) := by
  induction depth generalizing pageTable with
  | zero => exact preserves_halt _
  | succ depth ih =>
      rw [Riscv.recursiveClean]
      apply (preserves_cleanEntries robust _ ih _ _ _).bind
      intro _
      exact preserves_withLock robust.stable _ (robust.deallocate _ _)

theorem preserves_cleanedUp (pageTable : Nat) :
    Preserves inv (GlobalState.cleanupPageTable plat pageTable).run := by
  apply preserves_guarded robust.stable
  have cleans : Preserves inv ((arch plat).recursiveClean usizeBound pageTable) :=
    preserves_recursiveClean robust _ _
  exact cleans.run_lift

omit robust in
theorem preserves_sliceRead (slice : UserMemorySlice) :
    Preserves inv (slice.read plat (translate plat)) := by
  intro s holds
  apply wp_weaken (wp_sliceRead slice)
  intro _ t same
  rw [same]
  exact holds

theorem preserves_resultWritten (pageTable : Nat) (result : SyscallResult) :
    Preserves inv (writeResult plat pageTable result) := by
  apply Preserves.bind
  · apply preserves_unwrapResult
    apply Preserves.of_wpr
    intro s holds
    apply wpr_weaken (wpr_va2pa pageTable kucomPage)
    · intro _ t found
      rw [found.1]
      exact holds
    · intro _ t same
      rw [same]
      exact holds
  · intro start
    apply (preserves_liftRust _).bind
    intro _ s holds
    apply wp_storeMapped
    · exact fun _ => preserves_storedBytes robust _ _ s holds
    · exact fun _ => trivial

theorem preserves_segmentCopied (image : List UInt8) (segment : ProgramHeader) (pt : Nat) :
    Preserves inv (copySegment image segment pt) := by
  apply (preserves_liftRust _).bind
  intro _
  apply (preserves_liftRust _).bind
  intro stop
  apply (preserves_liftRust _).bind
  intro bytes
  exact preserves_storedBytes robust _ _

theorem preserves_trapframeInitialised (trapframe pageTable : Nat) :
    Preserves inv (initialiseTrapframe plat trapframe pageTable) := by
  apply (preserves_storedBytes robust _ _).bind
  intro _
  apply (preserves_storedWord robust _ _).bind
  intro _
  apply (preserves_storedWord robust _ _).bind
  intro _
  apply (preserves_storedWord robust _ _).bind
  intro _
  exact preserves_storedWord robust _ _

end Tables

def Process.HeapEmpty (process : Process) : Prop :=
  process.heapEnd = process.heapStart ∧ process.currentlyUnmappedStart = process.heapStart ∧
    process.heapStart % pageSize = 0

/-- The kernel stack is where the pid puts it; it is 0 where the creation of the process failed. -/
def Process.Stacked (process : Process) (pid : Nat) : Prop :=
  process.kernelStack = 0 ∨ kernelStackAddress pid = .ok process.kernelStack

structure Records (old : List Nat) (s : GlobalState) : Prop where
  kernelStacks : ∀ q ∈ s.processes, (s.object q).Stacked q
  heaps : ∀ q ∈ s.processes, q ∉ old → (s.object q).HeapEmpty

structure SameRecord (p q : Process) : Prop where
  kernelStack : p.kernelStack = q.kernelStack
  heapStart : p.heapStart = q.heapStart
  heapEnd : p.heapEnd = q.heapEnd
  currentlyUnmappedStart : p.currentlyUnmappedStart = q.currentlyUnmappedStart

theorem SameRecord.refl (p : Process) : SameRecord p p := ⟨rfl, rfl, rfl, rfl⟩

theorem SameRecord.stacked {p q : Process} {pid : Nat} (same : SameRecord p q) (stacked : q.Stacked pid) :
    p.Stacked pid := by
  unfold Process.Stacked at *
  rw [same.kernelStack]
  exact stacked

theorem SameRecord.heapEmpty {p q : Process} (same : SameRecord p q) (empty : q.HeapEmpty) :
    p.HeapEmpty := by
  unfold Process.HeapEmpty at *
  rw [same.heapStart, same.heapEnd, same.currentlyUnmappedStart]
  exact empty

section Recording

variable {plat : Platform} {old : List Nat} {s : GlobalState}

theorem records_tabular : Tabular (Records old) := by
  intro s t object processes _ records
  refine ⟨?_, ?_⟩
  · rw [object, processes]
    exact records.kernelStacks
  · rw [object, processes]
    exact records.heaps

theorem Records.update (records : Records old s) (pid : Nat) (process : Process)
    (stacked : pid ∈ s.processes → process.Stacked pid)
    (empty : pid ∈ s.processes → pid ∉ old → process.HeapEmpty) :
    Records old { s with object := Function.update s.object pid process } where
  kernelStacks := by
    intro q present
    by_cases here : q = pid
    · subst here
      simp only [Function.update_self]
      exact stacked present
    · simp only [Function.update_of_ne here]
      exact records.kernelStacks q present
  heaps := by
    intro q present new
    by_cases here : q = pid
    · subst here
      simp only [Function.update_self]
      exact empty present new
    · simp only [Function.update_of_ne here]
      exact records.heaps q present new

theorem preserves_modifyRecord (pid : Nat) (f : Process → Process)
    (same : ∀ process, SameRecord (f process) process) :
    Preserves (Records old) (modifyObject pid f) := by
  intro s records
  rw [wp_modifyObject]
  apply records.update
  · exact fun present => (same _).stacked (records.kernelStacks pid present)
  · exact fun present new => (same _).heapEmpty (records.heaps pid present new)

theorem preserves_modifyHeap (pid : Nat) (known : pid ∈ old) (f : Process → Process)
    (same : ∀ process, (f process).kernelStack = process.kernelStack) :
    Preserves (Records old) (modifyObject pid f) := by
  intro s records
  rw [wp_modifyObject]
  apply records.update
  · intro present
    unfold Process.Stacked
    rw [same]
    exact records.kernelStacks pid present
  · exact fun _ new => absurd known new

def Nursed (old : List Nat) (pid : Nat) (s : GlobalState) : Prop :=
  Records (pid :: old) s ∧ (s.object pid).HeapEmpty

theorem nursed_tabular {pid : Nat} : Tabular (Nursed old pid) := by
  intro s t object processes current nursed
  refine ⟨records_tabular s t object processes current nursed.1, ?_⟩
  rw [object]
  exact nursed.2

theorem Nursed.records {pid : Nat} (nursed : Nursed old pid s) : Records old s where
  kernelStacks := nursed.1.kernelStacks
  heaps := by
    intro q present new
    by_cases here : q = pid
    · rw [here]
      exact nursed.2
    · apply nursed.1.heaps q present
      rw [List.mem_cons]
      exact not_or.mpr ⟨here, new⟩

theorem Nursed.update {pid : Nat} (nursed : Nursed old pid s) (process : Process)
    (stacked : pid ∈ s.processes → process.Stacked pid) (empty : process.HeapEmpty) :
    Nursed old pid { s with object := Function.update s.object pid process } := by
  refine ⟨nursed.1.update pid process stacked fun _ _ => empty, ?_⟩
  simp only [Function.update_self]
  exact empty

/-- The sums that `raiseHeap` forms are whole pages. -/
theorem raiseHeap_aligned {heapStart codePageStart raised : Nat}
    (returned : raiseHeap heapStart codePageStart = .ok raised) (aligned : heapStart % pageSize = 0)
    (aligned' : codePageStart % pageSize = 0) : raised % pageSize = 0 := by
  unfold raiseHeap at returned
  split at returned
  · rcases (bind_eq_ok _ _ _).mp returned with ⟨next, added, checked⟩
    rcases (usizeAdd_eq_ok _ _ _).mp added with ⟨-, rfl⟩
    rw [unwrap_eq_ok] at checked
    split at checked
    · have sum := Option.some.inj checked
      simp only [pageSize] at *
      omega
    · cases checked
  · rw [← Except.ok.inj returned]
    exact aligned

theorem wpr_loadSegment_records (pid pageTable : Nat) (image : List UInt8) (segment : ProgramHeader)
    (nursed : Nursed old pid s) :
    wpr (loadSegment plat pid pageTable image segment)
      (fun _ t => Records (pid :: old) t ∧ (t.object pid).heapStart % pageSize = 0)
      (fun _ t => Nursed old pid t) Any s := by
  rw [loadSegment]
  simp only [wpr_bind, wpr_lift]
  apply wp_liftRust_any
  intro codePageStart rounded
  apply wp_liftRust_any
  intro memsz _
  apply wpr_weaken ((preserves_allocated nursed_tabular.robust memsz).to_wpr nursed)
  case fails => exact fun _ _ kept => kept
  intro pt s₁ nursed₁
  apply wpr_weaken ((preserves_mapped nursed_tabular.robust _ _ _ _ _ _ _ _).to_wpr nursed₁)
  case fails => exact fun _ _ kept => kept
  intro _ s₂ nursed₂
  apply wp_weaken (preserves_segmentCopied nursed_tabular.robust image segment pt s₂ nursed₂)
  intro _ s₃ nursed₃
  rw [wp_getObject]
  apply wp_liftRust_any
  intro heapStart raised
  rw [wp_modifyObject]
  refine ⟨nursed₃.1.update pid _ (fun present => nursed₃.1.kernelStacks pid present) ?_, ?_⟩
  · exact fun _ new => absurd List.mem_cons_self new
  · simp only [Function.update_self]
    have aligned := (alignToPageSize_spec _ _ rounded).2.2.1
    exact raiseHeap_aligned raised nursed₃.2.2.2 aligned

theorem preserves_loadSegments_records (pid pageTable : Nat) (image : List UInt8)
    (segments : List ProgramHeader) :
    Preserves (Nursed old pid) (loadSegments plat pid pageTable image segments).run := by
  induction segments with
  | nil => exact Preserves.run_pure ()
  | cons segment rest ih =>
      have reset : ∀ t, Records (pid :: old) t → (t.object pid).heapStart % pageSize = 0 →
          wpr ((modifyObject pid resetHeapEnd : Kernel Unit) : KernelResult Unit)
            (fun _ u => Nursed old pid u) (fun _ u => Nursed old pid u) Any t := by
        intro t records aligned
        rw [wpr_lift, wp_modifyObject]
        refine ⟨records.update pid _ (fun present => records.kernelStacks pid present) ?_, ?_⟩
        · exact fun _ new => absurd List.mem_cons_self new
        · simp only [Function.update_self]
          exact ⟨rfl, rfl, aligned⟩
      apply Preserves.of_wpr
      intro s nursed
      rw [loadSegments, wpr_bind]
      have loads : wpr (loadIfLoadable plat pid pageTable image segment)
          (fun _ t => Records (pid :: old) t ∧ (t.object pid).heapStart % pageSize = 0)
          (fun _ t => Nursed old pid t) Any s := by
        unfold loadIfLoadable
        split
        · exact wpr_loadSegment_records pid pageTable image segment nursed
        · rw [wpr_pure]
          exact ⟨nursed.1, nursed.2.2.2⟩
      apply wpr_weaken loads
      case fails => exact fun _ _ kept => kept
      intro _ t loaded
      rw [wpr_bind]
      apply wpr_weaken (reset t loaded.1 loaded.2)
      case fails => exact fun _ _ kept => kept
      exact fun _ u kept => ih.to_wpr kept

theorem wpr_mapOtherPages_records (plat : Platform) (pid pageTable : Nat) (nursed : Nursed old pid s) :
    wpr (mapOtherPages plat pageTable pid)
      (fun _ t => Nursed old pid t ∧ kernelStackAddress pid = .ok (t.object pid).kernelStack)
      (fun _ _ => True) Any s := by
  rw [mapOtherPages]
  simp only [wpr_bind, wpr_lift]
  apply wp_unwrapResult_any
  apply wpr_weaken ((preserves_allocated nursed_tabular.robust _).to_wpr nursed)
  case fails => exact fun _ _ _ => trivial
  intro stack s₁ nursed₁
  apply wpr_weaken ((preserves_mapped nursed_tabular.robust _ _ _ _ _ _ _ _).to_wpr nursed₁)
  case fails => exact fun _ _ _ => trivial
  intro _ s₂ nursed₂
  apply wp_liftRust_any
  intro kernelStack isStack
  rw [wp_modifyObject, wp_getObject]
  -- from here on nothing touches the process table
  have tabular : Tabular fun t => Nursed old pid t ∧
      kernelStackAddress pid = .ok (t.object pid).kernelStack := by
    intro t u object processes current kept
    refine ⟨nursed_tabular t u object processes current kept.1, ?_⟩
    rw [object]
    exact kept.2
  have named : Nursed old pid { s₂ with
      object := Function.update s₂.object pid { s₂.object pid with kernelStack } } :=
    nursed₂.update _ (fun _ => Or.inr isStack) nursed₂.2
  apply wp_weaken (preserves_storedWord tabular.robust _ _ _ ⟨named, ?_⟩)
  case weaker =>
    intro _ s₃ kept₃
    apply wpr_weaken ((preserves_mapped tabular.robust _ _ _ _ _ _ _ _).to_wpr kept₃)
    case fails => exact fun _ _ _ => trivial
    intro _ s₄ kept₄
    apply wpr_weaken ((preserves_mapped tabular.robust _ _ _ _ _ _ _ _).to_wpr kept₄)
    case fails => exact fun _ _ _ => trivial
    intro _ s₅ kept₅
    apply wpr_weaken ((preserves_allocated tabular.robust _).to_wpr kept₅)
    case fails => exact fun _ _ _ => trivial
    intro errorPage s₆ kept₆
    apply wpr_weaken ((preserves_mapped tabular.robust _ _ _ _ _ _ _ _).to_wpr kept₆)
    case fails => exact fun _ _ _ => trivial
    intro _ s₇ kept₇
    apply wp_weaken (preserves_storedWord tabular.robust _ _ s₇ kept₇)
    exact fun _ s₈ kept₈ => preserves_storedWord tabular.robust _ _ s₈ kept₈
  · simp only [Function.update_self]
    exact isStack

theorem wpr_loadImage_records (pid pageTable trapframe : Nat) (image : List UInt8)
    (nursed : Nursed old pid s) :
    wpr (loadImage plat pid pageTable trapframe image)
      (fun _ t => Nursed old pid t ∧ kernelStackAddress pid = .ok (t.object pid).kernelStack)
      (fun _ t => Nursed old pid t) Any s := by
  have known : ∀ {α : Type} (x : Option α) (e : Error) (f : α → KernelResult Unit)
      (t : GlobalState) (ok : Unit → GlobalState → Prop), Nursed old pid t →
      (∀ a, wpr (f a) ok (fun _ u => Nursed old pid u) Any t) →
      wpr (okOr x e >>= f) ok (fun _ u => Nursed old pid u) Any t := by
    intro α x e f t ok kept rest
    rw [wpr_bind]
    cases x with
    | none =>
        rw [okOr, wpr_throw]
        exact kept
    | some a =>
        rw [okOr, wpr_pure]
        exact rest a
  rw [loadImage, wpr_bind, wpr_lift]
  apply wp_weaken (preserves_trapframeInitialised nursed_tabular.robust _ _ s nursed)
  intro _ s₁ nursed₁
  apply known _ _ _ _ _ nursed₁
  intro elf
  apply known _ _ _ _ _ nursed₁
  intro segments
  rw [wpr_bind]
  apply wpr_weaken ((preserves_loadSegments_records pid pageTable image segments).to_wpr nursed₁)
  case fails => exact fun _ _ kept => kept
  intro _ s₂ nursed₂
  rw [wpr_bind, wpr_lift]
  apply wp_weaken (preserves_storedWord nursed_tabular.robust _ _ s₂ nursed₂)
  intro _ s₃ nursed₃
  rw [wpr_lift]
  apply wp_expectResult
  apply wpr_weaken (wpr_mapOtherPages_records plat pid pageTable nursed₃)
  case fails => exact fun _ _ _ => trivial
  exact fun _ _ done => done

theorem Records.nurse {t : GlobalState} {pid : Nat} (records : Records old s) (process : Process)
    (object : t.object = Function.update s.object pid process)
    (known : ∀ q ∈ t.processes, q = pid ∨ q ∈ s.processes) (unset : process.kernelStack = 0)
    (empty : process.HeapEmpty) : Nursed old pid t := by
  refine ⟨⟨?_, ?_⟩, ?_⟩
  · intro q present
    rw [object]
    rcases known q present with rfl | before
    · rw [Function.update_self]
      exact Or.inl unset
    · by_cases here : q = pid
      · rw [here, Function.update_self]
        exact Or.inl unset
      · rw [Function.update_of_ne here]
        exact records.kernelStacks q before
  · intro q present new
    have other : q ≠ pid := fun here => new (here ▸ List.mem_cons_self)
    rw [object, Function.update_of_ne other]
    apply records.heaps q ((known q present).resolve_left other)
    exact fun before => new (List.mem_cons_of_mem _ before)
  · rw [object, Function.update_self]
    exact empty

theorem wpr_assignProcess_records (name image : List UInt8) (records : Records old s) :
    wpr (assignProcess plat name image)
      (fun child t => Records old t ∧ kernelStackAddress child = .ok (t.object child).kernelStack)
      (fun _ t => Records old t) Any s := by
  rw [assignProcess]
  simp only [wpr_bind, wpr_lift]
  apply wp_unwrapResult_any
  apply wpr_weaken ((preserves_allocated records_tabular.robust _).to_wpr records)
  case fails => exact fun _ _ _ => trivial
  intro root s₁ records₁
  apply wp_unwrapResult_any
  apply wpr_weaken ((preserves_allocated records_tabular.robust _).to_wpr records₁)
  case fails => exact fun _ _ _ => trivial
  intro trapframe s₂ records₂
  apply wp_nextPid fun _ _ => trivial
  rw [wp_modifyObject]
  apply wp_addProcess_any
  intro pids held
  apply wpr_guarded_any
  rw [buildProcess, wpr_bind, wpr_lift, wp_modifyObject]
  apply wpr_mono (wpr_loadImage_records _ root trapframe image (records₂.nurse
    (prepared name root trapframe (Process.default (s₂.pid + 1))) ?object ?known ?unset ?empty))
  case object => simp only [Function.update_self, Function.update_idem]
  case known => exact fun q present => List.mem_cons.mp present
  case unset => rfl
  case empty => exact ⟨rfl, rfl, rfl⟩
  · intro _ t kept
    rw [wpr_pure]
    exact ⟨records_tabular t _ rfl rfl rfl kept.1.records, kept.2⟩
  · exact fun _ t kept => records_tabular t _ rfl rfl rfl kept.records
  · exact fun _ h => h

end Recording

section Operations

variable {plat : Platform} {old : List Nat} {s : GlobalState}

theorem preserves_assignProcess_records (name image : List UInt8) :
    Preserves (Records old) (assignProcess plat name image).run := by
  apply Preserves.of_wpr
  intro s records
  apply wpr_weaken (wpr_assignProcess_records name image records)
  · exact fun _ _ done => done.1
  · exact fun _ _ kept => kept

theorem preserves_spawn_records (caller nameStart nameLen start len : Nat) (wait : Bool)
    (pageTable : Nat) :
    Preserves (Records old) (spawn plat caller nameStart nameLen start len wait pageTable).run := by
  apply (preserves_sliceRead _).run_lift.run_bind
  intro bytes
  apply (preserves_liftRust _).run_lift.run_bind
  intro name
  apply (preserves_sliceRead _).run_lift.run_bind
  intro image
  apply (preserves_assignProcess_records _ _).run_bind
  intro child
  apply Preserves.run_bind
  · apply Preserves.run_lift
    apply preserves_withLock records_tabular.stable
    exact preserves_modifyRecord _ _ fun _ => ⟨rfl, rfl, rfl, rfl⟩
  · intro _
    apply preserves_guarded records_tabular.stable
    apply Preserves.run_bind
    · apply Preserves.run_lift
      apply preserves_withLock records_tabular.stable
      apply (preserves_getObject child).bind
      intro process
      exact Preserves.pure _
    · intro childPid
      apply Preserves.run_bind
      · apply Preserves.run_lift
        exact preserves_modifyRecord _ _ fun _ => ⟨rfl, rfl, rfl, rfl⟩
      · intro _
        exact Preserves.run_pure _

theorem preserves_extendHeap_records (caller size : Nat) (known : caller ∈ old) :
    Preserves (Records old) (extendHeap caller size).run := by
  apply (preserves_getObject caller).run_lift.run_bind
  intro process
  apply (preserves_liftRust _).run_lift.run_bind
  intro _
  apply (preserves_liftRust _).run_lift.run_bind
  intro bytes
  apply (preserves_liftRust _).run_lift.run_bind
  intro heapEnd
  split
  · exact Preserves.run_throw _
  · apply Preserves.run_bind
    · apply Preserves.run_lift
      exact preserves_modifyHeap caller known _ fun _ => rfl
    · intro _
      apply (preserves_liftRust _).run_lift.run_bind
      intro start
      exact Preserves.run_pure _

theorem preserves_switch_records (context : Context) :
    Preserves (Records old) (switchToSchedulerContext context) := by
  apply Preserves.bind
  · apply (preserves_getCurrentProcess records_tabular.stable).bind
    intro found
    exact preserves_liftRust _
  · intro process
    apply (preserves_withLock records_tabular.stable _ (Preserves.pure ())).bind
    intro _
    exact preserves_modifyRecord _ _ fun _ => ⟨rfl, rfl, rfl, rfl⟩

theorem preserves_yieldCpu_records (context : Context) :
    Preserves (Records old) (yieldCpu context) := by
  apply Preserves.bind
  · apply (preserves_getCurrentProcess records_tabular.stable).bind
    intro found
    exact preserves_liftRust _
  · intro process
    apply Preserves.bind
    · apply preserves_withLock records_tabular.stable
      apply preserves_modifyRecord
      intro old
      unfold readyIfRunning
      split
      · exact ⟨rfl, rfl, rfl, rfl⟩
      · exact SameRecord.refl _
    · intro _
      exact preserves_switch_records context

theorem preserves_exit_records (status : Except Fault Nat) :
    Preserves (Records old) (exit plat status) := by
  apply Preserves.bind
  · apply (preserves_getCurrentProcess records_tabular.stable).bind
    intro found
    exact preserves_liftRust _
  intro current
  apply Preserves.bind
  · apply preserves_withLock records_tabular.stable
    apply Preserves.bind
    · exact preserves_modifyRecord _ _ fun _ => ⟨rfl, rfl, rfl, rfl⟩
    · intro _
      apply (preserves_getObject current).bind
      intro process
      exact Preserves.pure _
  intro left
  apply Preserves.bind
  · cases left.1 with
    | none => exact preserves_withLock records_tabular.stable _ (Preserves.pure ())
    | some parent =>
        apply preserves_withLock records_tabular.stable
        apply Preserves.bind
        · apply preserves_withLock records_tabular.stable
          apply (preserves_getObject current).bind
          intro process
          exact Preserves.pure _
        · intro children
          exact preserves_modifyRecord _ _ fun _ => ⟨rfl, rfl, rfl, rfl⟩
  intro _
  apply Preserves.bind
  · apply preserves_withLock records_tabular.stable
    apply Preserves.bind
    · exact preserves_modifyRecord _ _ fun _ => ⟨rfl, rfl, rfl, rfl⟩
    · intro _
      apply (preserves_getObject current).bind
      intro process
      exact preserves_unwrapResult (preserves_cleanedUp records_tabular.robust _)
  · intro _
    exact preserves_switch_records .exit

theorem wp_perform_records {p : Nat} (idle : s.held = []) (current : s.currentProcess = some p)
    (known : p ∈ old) (records : Records old s) (trapframe pageTable : Nat) (request : Syscall) :
    wp (perform plat p trapframe pageTable request) (fun _ t => Records old t) Any s := by
  have answers : ∀ result, Preserves (Records old)
      (writeResult plat pageTable result >>= fun _ => pure true) := by
    intro result
    apply (preserves_resultWritten records_tabular.robust _ result).bind
    intro _
    exact Preserves.pure _
  cases request with
  | wantMemory size =>
      have grants : wpr (wantMemory size) (fun _ t => Records old t) (fun _ t => Records old t)
          Any s := by
        rw [wantMemory, wpr_bind, wpr_lift]
        apply wp_currentProcess_some idle current
        exact (preserves_guarded records_tabular.stable _
          (preserves_extendHeap_records p size known)).to_wpr records
      unfold wpr at grants
      rw [perform, wp_bind]
      apply wp_weaken grants
      intro result t kept
      apply answers
      cases result with
      | ok granted => exact kept
      | error e => exact kept
  | write start len =>
      apply Preserves.bind (preserves_sliceRead _) _ s records
      intro bytes
      apply (preserves_liftRust _).bind
      intro text
      apply (preserves_consoleWrite records_tabular.stable text).bind
      intro _
      exact answers _
  | readChar =>
      apply Preserves.bind (preserves_dequeueInput records_tabular.stable) _ s records
      intro char
      exact answers _
  | exit status =>
      apply Preserves.bind (preserves_exit_records _) _ s records
      intro _
      exact Preserves.pure _
  | spawn nameStart nameLen start len wait =>
      apply Preserves.bind (preserves_spawn_records _ _ _ _ _ _ _) _ s records
      intro result
      exact answers _
  | yield =>
      apply Preserves.bind (preserves_yieldCpu_records _) _ s records
      intro _
      exact Preserves.pure _
  | shutdown =>
      rw [perform, wp_def]
      trivial

theorem wp_handle_records {p : Nat} (idle : s.held = []) (current : s.currentProcess = some p)
    (known : p ∈ old) (records : Records old s) :
    wp (handle plat) (fun _ t => Records old t) Any s := by
  rw [handle, wp_bind, wp_bind, wp_getCurrentProcess (by simp [idle]), wp_liftRust, current]
  simp only [expect, pure_eq_ok]
  rw [wp_bind, wp_withLock _ _ _ (by simp [idle]), wp_getObject]
  simp only [List.erase_cons_head]
  have advances : wp (handleSyscall (s.object p).trapframe) (fun _ t => t = s.advanced p ∧
      s.sepc p + 4 < usizeBound) Any s := wp_handleSyscall_iff fun _ _ => trivial
  rw [wp_bind]
  apply wp_weaken advances
  intro _ s₁ done
  rcases done with ⟨rfl, -⟩
  rw [wp_bind]
  apply wp_weaken (wp_requestRead _)
  intro info s₂ same
  rw [same]
  cases info with
  | syscall request =>
      have records₁ : Records old (s.advanced p) := records_tabular s _ rfl rfl rfl records
      have idle₁ : (s.advanced p).held = [] := idle
      exact wp_perform_records idle₁ current known records₁ _ _ request
  | syscallResult result =>
      rw [wp_def]
      trivial
  | empty =>
      rw [wp_def]
      trivial

theorem wp_handleException_records {p : Nat} (idle : s.held = []) (current : s.currentProcess = some p)
    (known : p ∈ old) (records : Records old s) (info : TrapInfo) :
    wp (handleException plat p info) (fun _ t => Records old t) Any s := by
  apply wp_handleException_mapped (fun _ _ => trivial) plat (Or.inr trivial) p idle current
  intro t _ ran _
  have grows : Preserves (Records old) (growHeap plat p info.stval).run := by
    apply (preserves_getObject p).run_lift.run_bind
    intro process
    split
    · apply (preserves_liftRust _).run_lift.run_bind
      intro size
      apply (preserves_allocated records_tabular.robust size).run_bind
      intro block
      exact preserves_mapped records_tabular.robust _ _ _ _ _ _ _ _
    · exact Preserves.run_pure _
  have grown := grows.returned (records_tabular s { s with held := .process p :: s.held } rfl rfl rfl
    records) ran
  have raised := grown.update p { t.object p with currentlyUnmappedStart := (t.object p).heapEnd }
    (fun present => grown.kernelStacks p present) fun _ new => absurd known new
  exact ⟨raised.kernelStacks, raised.heaps⟩

theorem wp_userTrap_records {p : Nat} (idle : s.held = []) (current : s.currentProcess = some p)
    (known : p ∈ old) (records : Records old s) (info : TrapInfo) :
    wp (userTrap plat info) (fun _ t => Records old t) Any s := by
  rw [userTrap, wp_bind, wp_bind, wp_getCurrentProcess (by simp [idle]), wp_liftRust, current]
  simp only [expect, pure_eq_ok]
  rw [wp_bind, wp_withLock _ _ _ (by simp [idle]), wp_getObject]
  simp only [List.erase_cons_head]
  have dispatches : wp (dispatch plat p (s.object p).trapframe info) (fun _ t => Records old t)
      Any s := by
    unfold dispatch
    split
    · apply Preserves.bind (preserves_yieldCpu_records _) _ s records
      intro _
      exact Preserves.pure _
    · split
      · apply Preserves.bind (preserves_handleExternalInterrupt records_tabular.stable info) _ s records
        intro _
        exact Preserves.pure _
      · split
        · exact wp_handleException_records idle current known records info
        · split
          · exact wp_handle_records idle current known records
          · rw [wp_pure]
            exact records
  rw [wp_bind]
  apply wp_weaken dispatches
  intro returned t kept
  unfold leave
  exact Preserves.ite _ (preserves_returnToUserMode records_tabular.stable) (Preserves.pure _) t kept

theorem preserves_schedule_records : Preserves (Records old) schedule := by
  have sets : ∀ pid, Preserves (Records old) (GlobalState.setCurrentProcess pid) := by
    intro pid
    apply preserves_withLock records_tabular.stable
    intro s records
    rw [wp_def]
    exact ⟨records.kernelStacks, records.heaps⟩
  unfold schedule
  apply (preserves_findReadyProcess records_tabular.stable).bind
  intro found
  cases found with
  | none => exact Preserves.pure _
  | some pid =>
      apply Preserves.bind
      · apply (preserves_getProcess records_tabular.stable pid).bind
        intro known
        exact preserves_liftRust _
      · intro process
        apply Preserves.bind
        · apply preserves_withLock records_tabular.stable
          exact preserves_modifyRecord _ _ fun _ => ⟨rfl, rfl, rfl, rfl⟩
        · intro _
          apply (sets process).bind
          intro _
          exact Preserves.pure _

theorem wp_switchedTo_records {p : Nat} (current : s.currentProcess = some p)
    (records : Records old s) : wp (switchedTo plat) (fun _ t => Records old t) Any s := by
  rw [wp_def, switchedTo_of_current current, ← wp_def]
  cases (s.object p).context with
  | unset => exact preserves_halt _ s records
  | prepareFirstTimeExecution =>
      have prepares : Preserves (Records old) prepareFirstTimeExecution := by
        apply Preserves.bind
        · apply (preserves_getCurrentProcess records_tabular.stable).bind
          intro found
          exact preserves_liftRust _
        · intro process
          apply (preserves_withLock records_tabular.stable _ (Preserves.pure ())).bind
          intro _
          exact preserves_returnToUserMode records_tabular.stable
      exact prepares s records
  | yieldInUserTrap trapframe =>
      exact preserves_returnToUserMode records_tabular.stable s records
  | yieldInHandle trapframe pageTable =>
      apply Preserves.bind (preserves_resultWritten records_tabular.robust _ _) _ s records
      intro _
      exact preserves_returnToUserMode records_tabular.stable
  | exit => exact preserves_halt _ s records

theorem wp_userStore_records {p : Nat} (current : s.currentProcess = some p)
    (records : Records old s) (va : Nat) (byte : UInt8) :
    wp (userStore va byte) (fun _ t => Records old t) Any s := by
  rw [wp_def, userStore_of_current current]
  cases leafAt s.memory (s.object p).pageTable va with
  | none => exact records
  | some entry =>
      by_cases permitted : entry.userModeAccessible ∧ entry.writeable
      · simp only [if_pos permitted]
        exact records_tabular s _ rfl rfl rfl records
      · simp only [if_neg permitted]
        exact records

end Operations

namespace Machine

variable {plat : Platform} {m m' : Machine} {trace : List (Machine × Event)}

/-- One step: kernel stacks stay where they are, and what has been created has an empty heap. -/
theorem records_of_steps (orderly : m.Orderly) (records : Records m.kernel.processes m.kernel)
    {event : Event} (taken : Steps plat m event m') : Records m.kernel.processes m'.kernel := by
  have idle : m.kernel.held = [] := orderly.held
  have working : m.mode ≠ .scheduler → ∃ p ∈ m.kernel.processes, m.kernel.currentProcess = some p := by
    intro busy
    rcases View.Orderly.current orderly busy with ⟨p, present, current, -⟩
    exact ⟨p, present, current⟩
  rcases taken with ⟨operation, responds, ended⟩
  unfold respond at responds
  split at responds
  next name image _ =>
    cases responds
    have assigns : Preserves (Records m.kernel.processes) (do
        let _ ← (assignProcess plat name image).run
        pure Mode.scheduler) := by
      apply (preserves_assignProcess_records name image).bind
      intro _
      exact Preserves.pure _
    exact assigns.returned records ended
  next =>
    cases responds
    exact preserves_schedule_records.returned records ended
  next info _ =>
    cases responds
    have stays : Preserves (Records m.kernel.processes) (supervisorTrap info) := by
      unfold supervisorTrap
      apply Preserves.ite
      · exact Preserves.pure _
      · apply Preserves.ite
        · apply (preserves_handleExternalInterrupt records_tabular.stable info).bind
          intro _
          exact Preserves.pure _
        · exact Preserves.ite _ (preserves_halt _) (Preserves.pure _)
    exact stays.returned records ended
  next isMode =>
    cases responds
    rcases working (by rw [isMode]; decide) with ⟨p, -, current⟩
    have done := wp_of_returns (wp_switchedTo_records current records) ended
    exact done
  next registers sepc isMode =>
    cases responds
    rcases working (by rw [isMode]; decide) with ⟨p, -, current⟩
    have done := Except.ok.inj ((saveRegisters_of_current current registers sepc).symm.trans ended)
    rw [← (Prod.mk.inj done).2]
    exact records_tabular m.kernel _ rfl rfl rfl records
  next info isMode =>
    cases responds
    rcases working (by rw [isMode]; decide) with ⟨p, known, current⟩
    have done := wp_of_returns (wp_userTrap_records idle current known records info) ended
    exact done
  next va byte isMode =>
    cases responds
    rcases working (by rw [isMode]; decide) with ⟨p, -, current⟩
    have done := wp_of_returns (wp_userStore_records current records va byte) ended
    exact done
  next => cases responds

theorem records_of_run (fresh : m.Fresh) (run : Run (Steps plat) m trace m') :
    m'.Orderly ∧ Records m'.kernel.processes m'.kernel := by
  apply run.invariant_last fun u => u.Orderly ∧ Records u.kernel.processes u.kernel
  · refine ⟨orderly_of_fresh fresh, ?_, fun q present new => absurd present new⟩
    intro q present
    rw [fresh.processes] at present
    cases present
  · intro u event v kept taken
    have recorded := records_of_steps kept.1 kept.2 taken
    exact ⟨kept.1.steps taken, recorded.kernelStacks, fun q present new => absurd present new⟩

end Machine

end Jangri
