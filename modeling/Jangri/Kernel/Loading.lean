import Jangri.Kernel.AddressSpace

namespace Jangri

open Lib

structure SameMatter (s t : GlobalState) : Prop where
  memory : t.memory = s.memory
  allocator : t.allocator = s.allocator
  object : t.object = s.object
  processes : t.processes = s.processes
  currentProcess : t.currentProcess = s.currentProcess

def Stable (inv : GlobalState → Prop) : Prop := ∀ s t, SameMatter s t → inv s → inv t

section Composition

variable {α : Type} {inv : GlobalState → Prop}

theorem preserves_read (f : GlobalState → α) :
    Preserves inv (fun s => .ok (f s, s) : Kernel α) := by
  intro s holds
  rw [wp_def]
  exact holds

theorem preserves_getObject (pid : Nat) : Preserves inv (getObject pid) :=
  preserves_read fun s => s.object pid

theorem preserves_liftRust (x : Rust α) : Preserves inv (liftRust x : Kernel α) := by
  intro s holds
  apply wp_liftRust_any
  intro _ _
  exact holds

theorem preserves_halt (reason : Halt) : Preserves inv (halt reason : Kernel α) := by
  intro s _
  rw [wp_def]
  trivial

theorem preserves_unwrapResult {x : KernelResult α} (keeps : Preserves inv x.run) :
    Preserves inv (unwrapResult x) := by
  apply keeps.bind
  intro r
  cases r with
  | ok a => exact Preserves.pure a
  | error e => exact preserves_halt _

theorem preserves_expectResult (text : String) {x : KernelResult α} (keeps : Preserves inv x.run) :
    Preserves inv (expectResult text x) := by
  apply keeps.bind
  intro r
  cases r with
  | ok a => exact Preserves.pure a
  | error e => exact preserves_halt _

theorem preserves_okOr {β : Type} (x : Option α) (e : Error) (f : α → KernelResult β)
    (rest : ∀ a, x = some a → Preserves inv (f a).run) : Preserves inv (okOr x e >>= f).run := by
  cases x with
  | none => exact Preserves.run_throw e
  | some a => exact rest a rfl

variable (stable : Stable inv)
include stable

theorem preserves_update (result : GlobalState → α) (next : GlobalState → GlobalState)
    (same : ∀ s, SameMatter s (next s)) :
    Preserves inv (fun s => .ok (result s, next s) : Kernel α) := by
  intro s holds
  rw [wp_def]
  exact stable s _ (same s) holds

theorem preserves_withLock (mutex : Lock) {x : Kernel α} (keeps : Preserves inv x) :
    Preserves inv (withLock mutex x) := by
  intro s holds
  apply wp_withLock_any
  have locked := keeps { s with held := mutex :: s.held } (stable s _ ⟨rfl, rfl, rfl, rfl, rfl⟩ holds)
  apply wp_weaken locked
  intro a t kept
  exact stable t _ ⟨rfl, rfl, rfl, rfl, rfl⟩ kept

theorem preserves_guarded (mutex : Lock) {x : KernelResult α} (keeps : Preserves inv x.run) :
    Preserves inv (guarded mutex x).run :=
  preserves_withLock stable mutex keeps

theorem preserves_getCurrentProcess : Preserves inv GlobalState.getCurrentProcess :=
  preserves_withLock stable _ (preserves_read GlobalState.currentProcess)

theorem preserves_consoleWrite (text : List UInt8) : Preserves inv (consoleWrite text) :=
  preserves_update stable (fun _ => ()) (fun s => { s with console := s.console ++ consoleBytes text })
    fun _ => ⟨rfl, rfl, rfl, rfl, rfl⟩

theorem preserves_dequeueInput : Preserves inv dequeueInput := by
  apply preserves_withLock stable
  intro s holds
  rw [wp_def]
  cases s.inputBuffer with
  | nil => exact holds
  | cons byte rest => exact stable s _ ⟨rfl, rfl, rfl, rfl, rfl⟩ holds

theorem preserves_withReadLock {x : Kernel α} (keeps : Preserves inv x) :
    Preserves inv (withReadLock x) := by
  have counts : ∀ f, Preserves inv (changeReaders f) := by
    intro f s holds
    have unfolded : changeReaders f s =
        (f s.numReaders).map fun n => ((), { s with numReaders := n }) := rfl
    rw [wp_def, unfolded]
    cases f s.numReaders with
    | error e => trivial
    | ok n => exact stable s _ ⟨rfl, rfl, rfl, rfl, rfl⟩ holds
  apply (preserves_withLock stable _ (counts _)).bind
  intro _
  apply keeps.bind
  intro a
  apply (preserves_withLock stable _ (counts _)).bind
  intro _
  exact Preserves.pure a

theorem preserves_searchReady (iterations : Nat) : Preserves inv (searchReady iterations) := by
  have rotates : Preserves inv rotatePids := by
    intro s holds
    rw [wp_def, rotatePids]
    cases s.pids with
    | nil => exact holds
    | cons pid rest => exact stable s _ ⟨rfl, rfl, rfl, rfl, rfl⟩ holds
  have looks : ∀ pid, Preserves inv (isReady pid) := by
    intro pid
    apply Preserves.bind
    · intro s holds
      rw [wp_def, lookUp]
      by_cases present : pid ∈ s.processes
      · rw [if_pos present]
        exact holds
      · rw [if_neg present]
        trivial
    · intro _
      apply preserves_withLock stable
      apply (preserves_getObject pid).bind
      intro process
      exact Preserves.pure _
  induction iterations with
  | zero => exact Preserves.pure none
  | succ iterations ih =>
      apply rotates.bind
      intro found
      cases found with
      | none => exact ih
      | some pid =>
          apply (looks pid).bind
          intro ready
          exact Preserves.ite _ (Preserves.pure _) ih

theorem preserves_findReadyProcess : Preserves inv GlobalState.findReadyProcess := by
  apply preserves_withReadLock stable
  apply preserves_withLock stable
  apply (preserves_read fun s => s.pids.length).bind
  intro length
  exact preserves_searchReady stable length

theorem preserves_getProcess (id : Nat) : Preserves inv (GlobalState.getProcess id) :=
  preserves_withReadLock stable (preserves_read fun s => if id ∈ s.processes then some id else none)

theorem preserves_handleExternalInterrupt (info : TrapInfo) :
    Preserves inv (handleExternalInterrupt info) := by
  apply Preserves.ite
  · apply preserves_withLock stable
    intro s holds
    rw [wp_def]
    cases done : info.received.foldlM Uart.receive s with
    | error e => trivial
    | ok t =>
        rcases received_frame info.received done with ⟨_, _, _, rfl⟩
        exact stable s _ ⟨rfl, rfl, rfl, rfl, rfl⟩ holds
  · exact Preserves.pure ()

theorem preserves_returnToUserMode : Preserves inv returnToUserMode := by
  apply Preserves.bind
  · apply Preserves.bind
    · apply (preserves_getCurrentProcess stable).bind
      intro found
      exact preserves_liftRust _
    · intro process
      exact preserves_withLock stable _ (Preserves.pure ())
  · intro _
    exact Preserves.pure _

end Composition

section Staging

variable {plat : Platform} {scene : Scene} {G : Set Nat} {s : GlobalState}

theorem attached_stable : Stable (Attached plat scene G) := by
  intro s t same attached
  rcases attached with ⟨U, inside, rooted, fitted⟩
  unfold Rooted World at rooted
  refine ⟨U, inside, ?_, ?_⟩
  · unfold Rooted World
    rw [show memory t = memory s from same.memory, same.allocator, same.object, same.processes,
      same.currentProcess]
    rw [show t.memory = s.memory from same.memory]
    exact rooted
  · rw [same.memory]
    exact fitted

theorem Attached.restage (attached : Attached plat scene G s) (object : Nat → Process)
    (onstage : Onstage scene s.processes object s.currentProcess) :
    Attached plat scene G { s with object := object } := by
  rcases attached with ⟨U, inside, rooted, fitted⟩
  exact ⟨U, inside, ⟨rooted.1, rooted.2.1, onstage⟩, fitted⟩

theorem Onstage.update {processes : List Nat} {object : Nat → Process} {current : Option Nat}
    (onstage : Onstage scene processes object current) (q : Nat) (process : Process)
    (same : SameSpace process (object q)) (heap : q ≠ scene.pid → SameProcess process (object q)) :
    Onstage scene processes (Function.update object q process) current := by
  have every : ∀ p, SameSpace (Function.update object q process p) (object p) := by
    intro p
    by_cases here : p = q
    · rw [here, Function.update_self]
      exact same
    · rw [Function.update_of_ne here]
      exact SameSpace.refl _
  have others : ∀ p, p ≠ scene.pid → SameProcess (Function.update object q process p) (object p) := by
    intro p other
    by_cases here : p = q
    · rw [here, Function.update_self]
      rw [here] at other
      exact heap other
    · rw [Function.update_of_ne here]
      exact SameProcess.refl _
  exact {
    processes := onstage.processes
    present := onstage.present
    root := (every _).pageTable.trans onstage.root
    trapframe := (every _).trapframe.trans onstage.trapframe
    context := by
      rw [(every _).context]
      exact onstage.context
    alive := (every _).alive.trans onstage.alive
    others := fun p other => (others p other).trans (onstage.others p other)
    contexts := onstage.contexts
    current := onstage.current }

theorem preserves_modifyOwn (f : Process → Process)
    (same : ∀ process, SameSpace (f process) process) :
    Preserves (Attached plat scene G) (modifyObject scene.pid f) := by
  intro s attached
  rw [wp_modifyObject]
  apply attached.restage
  exact attached.onstage.update _ _ (same _) fun other => absurd rfl other

theorem preserves_modifyObject (q : Nat) (f : Process → Process)
    (same : ∀ process, SameProcess (f process) process) :
    Preserves (Attached plat scene G) (modifyObject q f) := by
  intro s attached
  rw [wp_modifyObject]
  apply attached.restage
  exact attached.onstage.update _ _ (same _).toSameSpace fun _ => same _

/-- Writing bytes into user memory that has been set aside. -/
theorem preserves_storeBytes (addr : Nat) (bytes : List UInt8)
    (inside : ∀ x, addr ≤ x → x < addr + bytes.length → x ∈ G ∨ x ∈ scene.frame) :
    Preserves (Attached plat scene G) (storeBytes addr bytes) := by
  intro s attached
  rw [wp_def]
  apply attached.write
  intro x different
  by_contra outside
  apply different
  apply if_neg
  intro range
  exact outside (inside x range.1 range.2)

theorem preserves_storeWord (addr value : Nat)
    (inside : ∀ x, addr ≤ x → x < addr + 8 → x ∈ scene.frame) :
    Preserves (Attached plat scene G) (storeWord addr value) := by
  intro s attached
  rw [wp_def]
  apply attached.write
  intro x different
  by_contra outside
  apply different
  apply if_neg
  intro range
  exact outside (Or.inr (inside x range.1 range.2))

theorem preserves_storeField (offset value : Nat) (low : offset + 8 ≤ pageSize) :
    Preserves (Attached plat scene G) (storeWord (scene.trapframe + offset) value) := by
  apply preserves_storeWord
  intro x first last
  exact ⟨by omega, by omega⟩

end Staging

/-- A segment with something to map, whose file contents fit in its memory. -/
structure Loadable (segment : ProgramHeader) : Prop where
  fits : segment.pFilesz ≤ segment.pMemsz
  rights : segment.pFlags &&& pfR ≠ 0 ∨ segment.pFlags &&& pfW ≠ 0 ∨ segment.pFlags &&& pfX ≠ 0

def GoodImage (plat : Platform) (image : List UInt8) : Prop :=
  ∀ elf segments, plat.minimalParse image = some elf → elf.segments = some segments →
    ∀ segment ∈ segments, segment.pType = ptLoad → Loadable segment

section Loading

variable {plat : Platform} {scene : Scene} {G : Set Nat} {s : GlobalState}

theorem preserves_copySegment (image : List UInt8) (segment : ProgramHeader) (pt : Nat)
    (inside : Set.Ico pt (pt + segment.pFilesz) ⊆ G) :
    Preserves (Attached plat scene G) (copySegment image segment pt) := by
  intro s attached
  rw [copySegment]
  simp only [wp_bind]
  apply wp_liftRust_any
  intro _ _
  apply wp_liftRust_any
  intro stop added
  apply wp_liftRust_any
  intro bytes sliced
  have length : bytes.length ≤ segment.pFilesz := by
    rcases (usizeAdd_eq_ok _ _ _).mp added with ⟨-, rfl⟩
    unfold sliceImage at sliced
    split at sliced
    · cases sliced
      rw [List.length_take]
      omega
    · cases sliced
  have kept : Preserves (Attached plat scene G) (storeBytes pt bytes) := by
    apply preserves_storeBytes
    intro x first last
    left
    exact inside ⟨first, by omega⟩
  exact kept s attached

theorem preserves_loadSegment (placed : Placed plat) (image : List UInt8) (segment : ProgramHeader)
    (good : Loadable segment) :
    Preserves (Attached plat scene ∅)
      (loadSegment plat scene.pid scene.root image segment).run := by
  apply Preserves.of_wpr
  intro s attached
  rw [loadSegment]
  simp only [wpr_bind, wpr_lift]
  apply wp_liftRust_any
  intro codePageStart _
  apply wp_liftRust_any
  intro memsz rounded
  have large := (alignToPageSize_spec _ _ rounded).1
  apply wpr_weaken (wpr_allocate placed attached memsz)
  · intro pt s₁ done
    rcases done with ⟨attached₁, aligned, bounded⟩
    have rights : (segment.pFlags &&& pfR != 0) = true ∨ (segment.pFlags &&& pfW != 0) = true ∨
        (segment.pFlags &&& pfX != 0) = true := by
      simpa only [bne_iff_ne] using good.rights
    apply wpr_weaken (wpr_map placed attached₁ codePageStart pt memsz _ _ _ true bounded rights
      (fun _ => ⟨aligned, Set.subset_union_right⟩) (fun restricted => by cases restricted))
    · intro _ s₂ attached₂
      have inside : Set.Ico pt (pt + segment.pFilesz) ⊆ ∅ ∪ Set.Ico pt (pt + memsz) := by
        intro x member
        have fits := good.fits
        right
        exact ⟨member.1, by have := member.2; omega⟩
      apply wp_weaken (preserves_copySegment image segment pt inside s₂ attached₂)
      intro _ s₃ attached₃
      rw [wp_getObject]
      apply wp_liftRust_any
      intro heapStart _
      have kept : Preserves (Attached plat scene ∅)
          (modifyObject scene.pid fun process => { process with heapStart }) :=
        preserves_modifyOwn _ fun _ => ⟨rfl, rfl, rfl, Iff.rfl⟩
      exact kept s₃ (attached₃.weaken (Set.empty_subset _))
    · intro _ t failed
      exact failed.weaken (Set.empty_subset _)
  · intro _ t failed
    exact failed

theorem preserves_loadSegments (placed : Placed plat) (image : List UInt8)
    (segments : List ProgramHeader)
    (good : ∀ segment ∈ segments, segment.pType = ptLoad → Loadable segment) :
    Preserves (Attached plat scene ∅)
      (loadSegments plat scene.pid scene.root image segments).run := by
  induction segments with
  | nil => exact Preserves.run_pure ()
  | cons segment rest ih =>
      apply Preserves.run_bind
      · unfold loadIfLoadable
        split
        next loads =>
          exact preserves_loadSegment placed image segment (good segment List.mem_cons_self loads)
        next => exact Preserves.run_pure ()
      · intro _
        apply Preserves.run_bind
        · apply Preserves.run_lift
          apply preserves_modifyOwn
          intro process
          exact ⟨rfl, rfl, rfl, Iff.rfl⟩
        · intro _
          exact ih fun other member => good other (List.mem_cons_of_mem _ member)

theorem Attached.bounded (attached : Attached plat scene G s) :
    plat.kernelEnd ≤ scene.trapframe ∧ scene.trapframe + pageSize < usizeBound := by
  rcases attached with ⟨U, -, rooted, -⟩
  rcases rooted.2.1 with ⟨free, live, owner, ledger⟩
  have inside : ∀ x ∈ scene.frame, plat.kernelEnd ≤ x ∧ x + 1 < usizeBound := by
    intro x member
    rcases ledger.framed x member with ⟨b, present, -, inside⟩
    have block := ledger.wf.live_inside b present
    have bounded := ledger.wf.bounded
    have start := ledger.start
    have low := inside.1
    have high := inside.2
    exact ⟨by omega, by omega⟩
  have first := inside scene.trapframe ⟨le_refl _, Nat.lt_add_of_pos_right (by decide)⟩
  have last := inside (scene.trapframe + (pageSize - 1))
    ⟨Nat.le_add_right _ _, Nat.add_lt_add_left (by decide) _⟩
  refine ⟨first.1, ?_⟩
  simp only [pageSize] at *
  omega

theorem preserves_mapOtherPages (placed : Placed plat) :
    Preserves (Attached plat scene ∅) (mapOtherPages plat scene.root scene.pid).run := by
  apply Preserves.of_wpr
  intro s attached
  have forgets : ∀ (G : Set Nat) (_ : Error) (t : GlobalState), Attached plat scene G t →
      Attached plat scene ∅ t := fun _ _ _ failed => failed.weaken (Set.empty_subset _)
  rw [mapOtherPages]
  simp only [wpr_bind, wpr_lift]
  apply wp_unwrapResult_any
  apply wpr_weaken (wpr_allocate placed attached _)
  case fails => exact fun _ _ _ => trivial
  intro stack s₁ done
  rcases done with ⟨attached₁, aligned₁, bounded₁⟩
  apply wpr_weaken (wpr_map placed attached₁ stackStart stack _ true true false true bounded₁
    (Or.inl rfl) (fun _ => ⟨aligned₁, Set.subset_union_right⟩) (fun restricted => by cases restricted))
  case fails => exact forgets _
  intro _ s₂ attached₂
  apply wp_liftRust_any
  intro kernelStack _
  have named : Preserves (Attached plat scene ∅)
      (modifyObject scene.pid fun process => { process with kernelStack }) :=
    preserves_modifyOwn _ fun _ => ⟨rfl, rfl, rfl, Iff.rfl⟩
  apply wp_weaken (named s₂ (attached₂.weaken (Set.empty_subset _)))
  intro _ s₃ attached₃
  rw [wp_getObject, attached₃.onstage.trapframe]
  apply wp_weaken (preserves_storeField TrapFrame.sp _ (by decide) s₃ attached₃)
  intro _ s₄ attached₄
  have bounded₄ := attached₄.bounded
  have code := placed.trampoline
  apply wpr_weaken (wpr_map placed attached₄ trampoline _ pageSize true false true false (by omega)
    (Or.inl rfl) (fun user => by cases user) (fun _ => ⟨rfl, Or.inl rfl⟩))
  case fails => exact forgets _
  intro _ s₅ attached₅
  apply wpr_weaken (wpr_map placed attached₅ trapframeVa scene.trapframe pageSize true true false
    false attached₅.bounded.2 (Or.inl rfl) (fun user => by cases user)
    (fun _ => ⟨rfl, Or.inr rfl⟩))
  case fails => exact forgets _
  intro _ s₆ attached₆
  apply wpr_weaken (wpr_allocate placed attached₆ _)
  case fails => exact forgets _
  intro errorPage s₇ done
  rcases done with ⟨attached₇, aligned₇, bounded₇⟩
  apply wpr_weaken (wpr_map placed attached₇ kucomPage errorPage _ true true false true bounded₇
    (Or.inl rfl) (fun _ => ⟨aligned₇, Set.subset_union_right⟩) (fun restricted => by cases restricted))
  case fails => exact forgets _
  intro _ s₈ attached₈
  apply wp_weaken (preserves_storeField TrapFrame.kernelPageTable _ (by decide) s₈
    (attached₈.weaken (Set.empty_subset _)))
  intro _ s₉ attached₉
  exact preserves_storeField TrapFrame.kernelStack _ (by decide) s₉ attached₉

theorem preserves_initialiseTrapframe :
    Preserves (Attached plat scene G)
      (initialiseTrapframe plat scene.trapframe scene.root) := by
  apply Preserves.bind
  · apply preserves_storeBytes
    intro x first last
    right
    simp only [List.length_replicate, TrapFrame.bytes] at last
    exact ⟨first, by simp only [pageSize]; omega⟩
  · intro _
    apply (preserves_storeField TrapFrame.pageTable _ (by decide)).bind
    intro _
    apply (preserves_storeField TrapFrame.satp _ (by decide)).bind
    intro _
    apply (preserves_storeField TrapFrame.kernelPageTable _ (by decide)).bind
    intro _
    exact preserves_storeField TrapFrame.userTrapAddress _ (by decide)

theorem preserves_loadImage (placed : Placed plat) (image : List UInt8)
    (good : GoodImage plat image) :
    Preserves (Attached plat scene ∅)
      (loadImage plat scene.pid scene.root scene.trapframe image).run := by
  unfold loadImage
  apply (preserves_initialiseTrapframe.run_lift).run_bind
  intro _
  apply preserves_okOr
  intro elf parsed
  apply preserves_okOr
  intro segments found
  apply (preserves_loadSegments placed image segments (good elf segments parsed found)).run_bind
  intro _
  apply (preserves_storeField TrapFrame.sepc _ (by decide)).run_lift.run_bind
  intro _
  exact (preserves_expectResult _ (preserves_mapOtherPages placed)).run_lift

end Loading

end Jangri
