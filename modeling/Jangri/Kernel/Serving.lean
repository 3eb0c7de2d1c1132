import Jangri.Kernel.Isolation

namespace Jangri

open Lib

section Translation

variable {plat : Platform} {s : GlobalState}

theorem wpr_va2pa (pageTable va : Nat) :
    wpr (GlobalState.va2pa plat pageTable va)
      (fun pa t => t = s ∧ ∃ entry, leafAt s.memory pageTable va = some entry ∧
        pa = entry.getPhysicalAddress + va % pageSize)
      (fun _ t => t = s) Any s := by
  apply wpr_guarded_any
  by_cases small : va < usizeBound
  · rcases va2pa_reads (arch plat) pageTable va small { s with held := .arch :: s.held } with
      ⟨r, ran, found⟩
    unfold wpr
    rw [wp_def, ran]
    cases r with
    | ok pa =>
        refine ⟨?_, (found pa).mp rfl⟩
        rw [List.erase_cons_head]
    | error e =>
        simp only
        rw [List.erase_cons_head]
  · have large : va / pageSize * pageSize > maxVa := by
      simp only [usizeBound, pageSize, maxVa] at *
      omega
    rw [Riscv.va2pa, getPageTableEntryAddress, if_pos large, wpr_bind, wpr_throw]
    rw [List.erase_cons_head]

theorem wp_sliceRead (slice : UserMemorySlice) :
    wp (slice.read plat (translate plat)) (fun _ t => t = s) Any s := by
  rw [UserMemorySlice.read, wp_bind]
  apply wp_unwrapResult_any
  apply wpr_weaken (wpr_va2pa slice.pageTable slice.start)
  · intro start t found
    rcases found with ⟨rfl, -⟩
    rw [wp_bind]
    apply wp_liftRust_any
    intro _ _
    rw [wp_def, loadMapped]
    by_cases inside : t.InRam plat.kernelStart start slice.size
    · rw [if_pos inside]
    · rw [if_neg inside]
      trivial
  · exact fun _ _ _ => trivial

theorem wp_requestRead (pageTable : Nat) :
    wp (readRequest plat pageTable) (fun _ t => t = s) Any s := by
  rw [readRequest, wp_bind]
  apply wp_weaken (wp_sliceRead _)
  intro bytes t same
  rw [wp_pure]
  exact same

end Translation

section Serving

variable {plat : Platform} {scene : Scene} {s : GlobalState}

theorem preserves_writeResult (result : SyscallResult) :
    Preserves (Attached plat scene ∅) (writeResult plat scene.root result) := by
  intro s attached
  rw [writeResult, UserMemorySlice.write, wp_bind]
  apply wp_unwrapResult_any
  apply wpr_weaken (wpr_va2pa scene.root kucomPage)
  case fails => exact fun _ _ _ => trivial
  intro start t found
  rcases found with ⟨rfl, entry, leaf, rfl⟩
  have accessible : entry.userModeAccessible = true := by
    rcases attached with ⟨U, -, -, fitted⟩
    cases user : entry.userModeAccessible with
    | true => rfl
    | false =>
        rcases fitted.others kucomPage entry leaf user with same | same
        · exact absurd same (by decide)
        · exact absurd same (by decide)
  rw [wp_bind]
  apply wp_liftRust_any
  intro _ _
  have stores : Preserves (Attached plat scene
      (∅ ∪ Set.Ico entry.getPhysicalAddress (entry.getPhysicalAddress + pageSize)))
      (storeBytes (entry.getPhysicalAddress + kucomPage % pageSize)
        ((plat.layout.encode (.syscallResult result)).take
          (min pageSize (plat.layout.encode (.syscallResult result)).length))) := by
    apply preserves_storeBytes
    intro x low high
    left
    right
    have start : kucomPage % pageSize = 0 := by decide
    rw [List.length_take] at high
    exact ⟨by omega, by omega⟩
  apply wp_storeMapped plat
  case stops => exact fun _ => trivial
  intro _
  apply wp_weaken (stores t (attached.include_frame leaf accessible))
  intro _ u kept
  exact kept.weaken (Set.empty_subset _)

theorem preserves_handleSyscall :
    Preserves (Attached plat scene ∅) (handleSyscall scene.trapframe) := by
  apply Preserves.bind
  · exact preserves_read fun s => s.memory.read (scene.trapframe + TrapFrame.sepc) 8
  · intro sepc
    apply (preserves_liftRust _).bind
    intro next
    exact preserves_storeField TrapFrame.sepc next (by decide)

theorem preserves_extendHeap (size : Nat) :
    Preserves (Attached plat scene ∅) (extendHeap scene.pid size).run := by
  apply (preserves_getObject scene.pid).run_lift.run_bind
  intro process
  apply (preserves_liftRust _).run_lift.run_bind
  intro _
  apply (preserves_liftRust _).run_lift.run_bind
  intro bytes
  apply (preserves_liftRust _).run_lift.run_bind
  intro heapEnd
  split
  · exact Preserves.run_throw _
  · apply Preserves.run_bind
    · apply Preserves.run_lift
      apply preserves_modifyOwn
      intro process
      exact ⟨rfl, rfl, rfl, Iff.rfl⟩
    intro _
    apply (preserves_liftRust _).run_lift.run_bind
    intro start
    exact Preserves.run_pure _

theorem preserves_wantMemory (current : scene.current = some scene.pid) (size : Nat) :
    Preserves (Attached plat scene ∅) (wantMemory size).run := by
  apply Preserves.of_wpr
  intro s attached
  rw [wantMemory, wpr_bind, wpr_lift, currentProcess, wp_bind, GlobalState.getCurrentProcess]
  apply wp_withLock_any
  rw [wp_read]
  apply wp_liftRust_any
  intro caller found
  have isCaller : caller = scene.pid := by
    have isCurrent : s.currentProcess = some caller := (unwrap_eq_ok _ _).mp found
    rw [attached.onstage.current, current] at isCurrent
    exact (Option.some.inj isCurrent).symm
  subst isCaller
  simp only [List.erase_cons_head]
  exact (preserves_guarded attached_stable _ (preserves_extendHeap size)).to_wpr attached

/-- The address lies in the part of the heap that has been granted and is not mapped yet. -/
def Process.Reserves (process : Process) (addr : Nat) : Prop :=
  process.currentlyUnmappedStart ≠ process.heapEnd ∧ addr ≥ process.currentlyUnmappedStart ∧
    addr < process.heapEnd

instance (process : Process) (addr : Nat) : Decidable (process.Reserves addr) :=
  inferInstanceAs (Decidable (_ ∧ _ ∧ _))

def Accessible (m : Memory) (root va : Nat) : Prop :=
  ∃ entry, leafAt m root va = some entry ∧ entry.readable = true ∧ entry.writeable = true ∧
    entry.userModeAccessible = true

theorem accessible_of_pages {m : Memory} {root start size pa : Nat} (aligned : start % pageSize = 0)
    (whole : size % pageSize = 0)
    (pages : ∀ j < size / pageSize, leafAt m root (start + j * pageSize) =
      some (.pack (pa + j * pageSize) (PageTableEntry.flags true true false true)))
    (va : Nat) (low : start ≤ va) (high : va < start + size) : Accessible m root va := by
  have inside : (va - start) / pageSize < size / pageSize := by
    simp only [pageSize] at *
    omega
  have samePage : vpn va = vpn (start + (va - start) / pageSize * pageSize) := by
    simp only [pageSize, vpn] at *
    omega
  have permissions := PageTableEntry.permissions_pack
    (pa + (va - start) / pageSize * pageSize) true true false true
  refine ⟨_, ?_, permissions.1, permissions.2.1, permissions.2.2.2⟩
  rw [leafAt_eq_of_vpn _ _ _ _ samePage]
  exact pages _ inside

/-- A fault in the reserved part of the heap maps all of the heap, any other fault nothing. -/
theorem wpr_growHeap {G : Set Nat} (placed : Placed plat) (attached : Attached plat scene G s)
    (faultingAddress : Nat) :
    wpr (growHeap plat scene.pid faultingAddress)
      (fun _ t => Attached plat scene G t ∧
        if (s.object scene.pid).Reserves faultingAddress then
          Extended scene (G ∪ scene.frame) s t ∧
            ∀ va, (s.object scene.pid).heapStart ≤ va → va < (s.object scene.pid).heapEnd →
              Accessible t.memory scene.root va
        else t = s)
      (fun _ t => Attached plat scene G t) Any s := by
  rw [growHeap, wpr_bind, wpr_lift, wp_getObject, wpr_ite, attached.onstage.root]
  split
  next inside =>
    have reserved : (s.object scene.pid).Reserves faultingAddress := inside
    simp only [if_pos reserved, wpr_bind, wpr_lift]
    apply wp_liftRust_any
    intro size isSize
    rcases (usizeSub_eq_ok _ _ _).mp isSize with ⟨ordered, rfl⟩
    apply wpr_weaken (wpr_allocate_extended placed attached _)
    case fails =>
      intro e t same
      rw [same]
      exact attached
    intro block t done
    rcases done with ⟨attached₁, aligned, bounded, extended, -⟩
    apply wpr_weaken (wpr_map_extended placed attached₁ _ block _ true true false true bounded
      (Or.inl rfl) (fun _ => ⟨aligned, Set.subset_union_right⟩) (fun restricted => by cases restricted))
    case fails => exact fun _ u failed => failed.weaken Set.subset_union_left
    intro _ u mapped
    rcases mapped with ⟨attached₂, extended₂, start, whole, pages⟩
    have less : G ∪ scene.frame ⊆
        G ∪ Set.Ico block (block + ((s.object scene.pid).heapEnd - (s.object scene.pid).heapStart)) ∪
          scene.frame := Set.union_subset_union_left _ Set.subset_union_left
    have second : Extended scene (G ∪ scene.frame) t u :=
      ⟨extended₂.toSteady.weaken less, extended₂.leaves⟩
    refine ⟨attached₂.weaken Set.subset_union_left, extended.trans second, ?_⟩
    intro va low high
    exact accessible_of_pages start whole pages va low (by omega)
  next outside =>
    have stray : ¬ (s.object scene.pid).Reserves faultingAddress := outside
    simp only [if_neg stray, wpr_pure]
    exact ⟨attached, trivial⟩

theorem preserves_growHeap (placed : Placed plat) (faultingAddress : Nat) :
    Preserves (Attached plat scene ∅) (growHeap plat scene.pid faultingAddress).run := by
  apply Preserves.of_wpr
  intro s attached
  apply wpr_weaken (wpr_growHeap placed attached faultingAddress)
  · exact fun _ t done => done.1
  · exact fun _ t kept => kept

end Serving

section Leaving

variable {plat : Platform} {scene : Scene} {U T : Set Nat} {s : GlobalState}

theorem wp_switchAway (context : Context) (post : Unit → GlobalState → Prop)
    (done : ∀ p, s.currentProcess = some p → post () { s with
      object := Function.update s.object p { s.object p with context } }) :
    wp (switchToSchedulerContext context) post Any s := by
  rw [switchToSchedulerContext, wp_bind, wp_bind, GlobalState.getCurrentProcess]
  apply wp_withLock_any
  rw [wp_read]
  apply wp_liftRust_any
  intro p found
  have current : s.currentProcess = some p := (unwrap_eq_ok _ _).mp found
  rw [wp_bind]
  apply wp_withLock_any
  rw [wp_pure, wp_modifyObject]
  simp only [List.erase_cons_head]
  exact done p current

theorem Onstage.recontext {processes : List Nat} {object : Nat → Process} {current : Option Nat}
    (onstage : Onstage scene processes object current) (context : Context)
    (fits : ContextFits context scene.root) :
    Onstage scene processes
      (Function.update object scene.pid { object scene.pid with context }) current where
  processes := onstage.processes
  present := onstage.present
  root := by
    rw [Function.update_self]
    exact onstage.root
  trapframe := by
    rw [Function.update_self]
    exact onstage.trapframe
  context := by
    rw [Function.update_self]
    exact fits
  alive := by
    rw [Function.update_self]
    exact onstage.alive
  others := by
    intro q other
    rw [Function.update_of_ne other]
    exact onstage.others q other
  contexts := onstage.contexts
  current := onstage.current

theorem preserves_yieldCpu (context : Context) (fits : ContextFits context scene.root)
    (current : scene.current = some scene.pid) :
    Preserves (Attached plat scene ∅) (yieldCpu context) := by
  apply Preserves.bind
  · apply (preserves_getCurrentProcess attached_stable).bind
    intro found
    exact preserves_liftRust _
  · intro process
    apply Preserves.bind
    · apply preserves_withLock attached_stable
      apply preserves_modifyObject
      intro old
      unfold readyIfRunning
      split
      next runs =>
        refine ⟨⟨rfl, rfl, rfl, ?_⟩, rfl, rfl, rfl⟩
        constructor
        · intro _ r same
          rw [runs] at same
          cases same
        · intro _ r same
          cases same
      next => exact SameProcess.refl _
    · intro _ s attached
      apply wp_switchAway
      intro p isCurrent
      have isPid : p = scene.pid := by
        rw [attached.onstage.current, current] at isCurrent
        exact (Option.some.inj isCurrent).symm
      subst isPid
      exact attached.restage _ (attached.onstage.recontext context fits)

def Scene.doomed (scene : Scene) : Scene := { scene with survives := False }

theorem Ledger.doom {F : Set Nat} {alloc : PageAllocator} {m : Memory} {free : Nat → List Nat}
    {live : List Block} {owner : Nat → Owner}
    (ledger : Ledger plat scene U F T alloc m free live owner) :
    Ledger plat scene.doomed U F T alloc m free live owner :=
  ⟨ledger.wf, ledger.start, ledger.pages, ledger.granted, ledger.framed, ledger.frames,
    ledger.spaces, ledger.foreign, ledger.untouched⟩

theorem Onstage.doom {processes : List Nat} {object : Nat → Process} {current : Option Nat}
    (onstage : Onstage scene processes object current) (status : Except Fault Nat)
    (object' : Nat → Process)
    (own : object' scene.pid = { object scene.pid with processState := .terminated status })
    (others : ∀ q, q ≠ scene.pid → object' q = object q) :
    Onstage scene.doomed processes object' current where
  processes := onstage.processes
  present := onstage.present
  root := (congrArg Process.pageTable own).trans onstage.root
  trapframe := (congrArg Process.trapframe own).trans onstage.trapframe
  context := by
    have same := congrArg Process.context own
    change ContextFits (object' scene.pid).context scene.root
    rw [same]
    exact onstage.context
  alive := by
    apply iff_of_false
    · intro alive
      exact alive status (congrArg Process.processState own)
    · exact fun survives => survives
  others := by
    intro q other
    rw [others q other]
    exact onstage.others q other
  contexts := onstage.contexts
  current := onstage.current

theorem Attached.doom (attached : Attached plat scene ∅ s) (status : Except Fault Nat) :
    Attached plat scene.doomed ∅ { s with
      object := Function.update s.object scene.pid
        { s.object scene.pid with processState := .terminated status } } := by
  rcases attached with ⟨U, inside, rooted, fitted⟩
  rcases rooted.2 with ⟨⟨free, live, owner, ledger⟩, onstage⟩
  refine ⟨U, inside, ⟨rooted.1, ⟨free, live, owner, ledger.doom⟩, ?_⟩, fitted.rights, fitted.users,
    fitted.others⟩
  apply onstage.doom status
  · exact Function.update_self _ _ _
  · intro q other
    exact Function.update_of_ne other _ _

theorem sameProcess_inheritChildren (children : List Nat) (pid : Nat) (parent : Process) :
    SameProcess (inheritChildren children pid parent) parent := by
  refine ⟨⟨rfl, rfl, rfl, ?_⟩, rfl, rfl, rfl⟩
  unfold inheritChildren Alive
  simp only
  split
  next waits =>
    constructor
    · intro _ r same
      rw [waits] at same
      cases same
    · intro _ r same
      cases same
  next => rfl

theorem preserves_notifyParent (current id : Nat) (parent : Option Nat) :
    Preserves (Attached plat scene ∅) (notifyParent current id parent) := by
  cases parent with
  | none => exact preserves_withLock attached_stable _ (Preserves.pure ())
  | some q =>
      apply preserves_withLock attached_stable
      apply Preserves.bind
      · apply preserves_withLock attached_stable
        apply (preserves_getObject current).bind
        intro process
        exact Preserves.pure _
      · intro children
        exact preserves_modifyObject q _ (sameProcess_inheritChildren children id)

theorem world_stable : Stable (World plat scene U T) := by
  intro s t same world
  unfold World at *
  rw [same.memory, same.allocator, same.object, same.processes, same.currentProcess]
  exact world

theorem wpr_cleanupPageTable (attached : Attached plat scene ∅ s) :
    wpr (GlobalState.cleanupPageTable plat scene.root) (fun _ t => ∃ U, World plat scene U ∅ t)
      (fun _ _ => True) Any s := by
  rcases attached with ⟨U, -, rooted, fitted⟩
  have cleaned : wpr ((arch plat).cleanUpPageTable scene.root) (fun _ t => World plat scene U ∅ t)
      (fun _ _ => False) Any { s with held := .arch :: s.held } :=
    cleanUpPageTable_spec (arch plat) (pageSink plat scene U) rooted.1
      (rights_of_leaves fitted.rights) rooted.2
  rw [GlobalState.cleanupPageTable]
  apply wpr_guarded_any
  apply wpr_weaken cleaned
  · intro _ t world
    exact ⟨U, world_stable t _ ⟨rfl, rfl, rfl, rfl, rfl⟩ world⟩
  · exact fun _ _ _ => trivial

theorem wp_releaseTables_attached (attached : Attached plat scene ∅ s) :
    wp (releaseTables plat scene.pid) (fun _ t => ∃ U, World plat scene U ∅ t) Any s := by
  have emptied : Preserves (Attached plat scene ∅)
      (modifyObject scene.pid fun process => { process with children := [] }) :=
    preserves_modifyOwn _ fun _ => ⟨rfl, rfl, rfl, Iff.rfl⟩
  have locked : Attached plat scene ∅ { s with held := .process scene.pid :: s.held } :=
    attached_stable s _ ⟨rfl, rfl, rfl, rfl, rfl⟩ attached
  rw [releaseTables]
  apply wp_withLock_any
  rw [wp_bind]
  apply wp_weaken (emptied _ locked)
  intro _ t attached₁
  rw [wp_bind, wp_getObject, attached₁.onstage.root]
  apply wp_unwrapResult_any
  apply wpr_weaken (wpr_cleanupPageTable attached₁)
  · intro _ u done
    rcases done with ⟨U, world⟩
    exact ⟨U, world_stable u _ ⟨rfl, rfl, rfl, rfl, rfl⟩ world⟩
  · exact fun _ _ _ => trivial

theorem wp_exit_separated (attached : Attached plat scene ∅ s)
    (current : scene.current = some scene.pid) (status : Except Fault Nat) :
    wp (exit plat status) (fun _ t => Separated plat t ∧ ∃ U, World plat scene.doomed U ∅ t) Any s := by
  rw [exit, wp_bind, currentProcess, wp_bind, GlobalState.getCurrentProcess]
  apply wp_withLock_any
  rw [wp_read]
  apply wp_liftRust_any
  intro p found
  have isPid : p = scene.pid := by
    have isCurrent : s.currentProcess = some p := (unwrap_eq_ok _ _).mp found
    rw [attached.onstage.current, current] at isCurrent
    exact (Option.some.inj isCurrent).symm
  subst isPid
  simp only [List.erase_cons_head]
  rw [wp_bind, terminate]
  apply wp_withLock_any
  simp only [wp_bind, wp_modifyObject, wp_getObject, wp_pure, List.erase_cons_head]
  apply wp_weaken (preserves_notifyParent _ _ _ _ (attached.doom status))
  intro _ s₁ attached₁
  apply wp_weaken (wp_releaseTables_attached attached₁)
  intro _ s₂ released
  rcases released with ⟨U, world⟩
  apply wp_switchAway
  intro p isCurrent
  have isPid : p = scene.pid := by
    rw [world.2.current] at isCurrent
    exact (Option.some.inj (current.symm.trans isCurrent)).symm
  subst isPid
  have fits : ContextFits .exit scene.doomed.root := by
    intro tf pt impossible
    cases impossible
  have onstage := world.2.recontext .exit fits
  have left : World plat scene.doomed U ∅ { s₂ with
      object := Function.update s₂.object scene.pid
        { s₂.object scene.pid with context := .exit } } := ⟨world.1, onstage⟩
  refine ⟨separated_of_world left ?_, U, left⟩
  intro _ _ _ _ alive
  exact (onstage.alive.mp alive).elim

end Leaving

end Jangri
