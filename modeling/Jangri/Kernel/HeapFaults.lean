import Jangri.Arch.Mmu
import Jangri.Arch.Supply
import Jangri.Kernel.LazyHeap

namespace Jangri

open Lib

def GlobalState.Grants (s : GlobalState) (size : Nat) : Prop :=
  ∃ block rest, s.allocator.allocate ⟨s.memory, s.nodeId⟩ size = .ok (some block, rest)

section Supplied

variable {plat : Platform} {scene : Scene} {U : Set Nat} {s : GlobalState}

theorem wpr_allocatorAllocate_supplied {free : Nat → List Nat} {live : List Block}
    (wf : s.allocator.WellFormed s.memory free live) (size : Nat) (big : pageSize ≤ size)
    (whole : size % pageSize = 0) :
    wpr (allocatorAllocate size) (fun _ t => t.held = s.held ∧ s.Grants size)
      (fun e _ => e = .memoryNotAvailable) (· = .panic .unwrapNone) s := by
  unfold wpr
  rw [wp_def, allocatorAllocate, ExceptT.run_mk]
  cases called : s.allocator.allocate ⟨s.memory, s.nodeId⟩ size with
  | error e => exact PageAllocator.allocate_stops wf s.nodeId size big whole e called
  | ok r =>
      rcases r with ⟨result, alloc', store'⟩
      cases result with
      | none => rfl
      | some a => exact ⟨rfl, a, _, called⟩

theorem pageSupply (plat : Platform) (scene : Scene) (U : Set Nat) (origin : GlobalState)
    {held : List Lock} (unlocked : .allocator ∉ held) :
    PageSupply (arch plat).allocate
      (fun T s => World plat scene U T s ∧ Steady (U ∪ scene.frame) origin s)
      (fun _ s => s.held = held) (· = .memoryNotAvailable) (· = .panic .unwrapNone) where
  allocated := by
    intro _ T s known same
    rcases known.1 with ⟨⟨free, live, owner, ledger⟩, -⟩
    have available : .allocator ∉ s.held := by
      rw [same]
      exact unlocked
    change wpr (guarded _ _) _ _ _ _
    rw [wpr_guarded _ _ _ _ available, wpr_bind, wpr_lift, wp_liftRust,
      assert_of_true _ _ (le_refl pageSize)]
    apply wpr_weaken (wpr_allocatorAllocate_supplied (s := { s with held := .allocator :: s.held })
      ledger.wf pageSize (le_refl _) (by decide))
    · intro _ t kept
      simp only [kept.1, List.erase_cons_head]
      exact same
    · exact fun _ _ failed => failed
  written := fun _ _ _ same => same
  less := fun _ _ same => same

theorem wpr_allocate_supplied {G : Set Nat} (attached : Attached plat scene G s)
    (unlocked : .allocator ∉ s.held) (size : Nat) (big : pageSize ≤ size)
    (whole : size % pageSize = 0) :
    wpr (GlobalState.allocate size) (fun _ t => t.held = s.held ∧ s.Grants size)
      (fun e _ => e = .memoryNotAvailable) (· = .panic .unwrapNone) s := by
  rcases attached with ⟨U, -, rooted, -⟩
  rcases rooted.2 with ⟨⟨free, live, owner, ledger⟩, -⟩
  rw [GlobalState.allocate, wpr_guarded _ _ _ _ unlocked]
  apply wpr_weaken (wpr_allocatorAllocate_supplied (s := { s with held := .allocator :: s.held })
    ledger.wf size big whole)
  · intro _ t kept
    simp only [kept.1, List.erase_cons_head]
    exact ⟨trivial, kept.2⟩
  · exact fun _ _ failed => failed

/-- `map` for vacant pages of the process fails only where the allocator does. -/
theorem wpr_map_supplied {G : Set Nat} (placed : Placed plat) (attached : Attached plat scene G s)
    (archFree : .arch ∉ s.held) (allocatorFree : .allocator ∉ s.held) (va pa size : Nat)
    (r w x u : Bool) (inside : va < usizeBound) (aligned : va % pageSize = 0)
    (whole : size % pageSize = 0) (some_ : size ≠ 0) (few : size / pageSize ≤ 2 ^ 36)
    (bounded : pa + size < usizeBound)
    (vacant : ∀ j < size / pageSize, leafAt s.memory scene.root (va + j * pageSize) = none) :
    wpr (GlobalState.map plat scene.root va pa size r w x u) (fun _ t => t.held = s.held)
      (fun e _ => e = .memoryNotAvailable) (· = .panic .unwrapNone) s := by
  rcases attached with ⟨U, -, rooted, -⟩
  have unlocked : .allocator ∉ Lock.arch :: s.held := by simp [allocatorFree]
  have locked : Rooted (fun T s' => World plat scene U T s' ∧ Steady (U ∪ scene.frame) s s')
      scene.root { s with held := .arch :: s.held } :=
    ⟨rooted.1, rooted.2, rfl, fun _ _ => rfl⟩
  rw [GlobalState.map, wpr_guarded _ _ _ _ archFree]
  apply wpr_weaken (map_supplied (arch plat) (pageSource placed scene U s)
    (pageSupply plat scene U s unlocked) 0 va pa size r w x u locked inside aligned whole some_ few
    bounded vacant rfl)
  · intro _ t kept
    simp only [kept, List.erase_cons_head]
  · exact fun _ _ failed => failed

theorem wpr_map_vacant {G : Set Nat} (placed : Placed plat) (attached : Attached plat scene G s)
    (va pa size : Nat) (r w x u : Bool) (bounded : pa < usizeBound) :
    wpr (GlobalState.map plat scene.root va pa size r w x u)
      (fun _ _ => ∀ j < size / pageSize, leafAt s.memory scene.root (va + j * pageSize) = none)
      (fun _ _ => True) Any s := by
  rcases attached with ⟨U, -, rooted, -⟩
  have locked : Rooted (fun T s' => World plat scene U T s' ∧ Steady (U ∪ scene.frame) s s')
      scene.root { s with held := .arch :: s.held } :=
    ⟨rooted.1, rooted.2, rfl, fun _ _ => rfl⟩
  apply wpr_guarded_any
  apply wpr_weaken (map_vacant (arch plat) (pageSource placed scene U s) va pa size r w x u bounded
    locked)
  · exact fun _ _ done => done.2.2.2.2
  · exact fun _ _ _ => trivial

end Supplied

def HeapVacant (s : GlobalState) (q : Nat) : Prop :=
  ∀ va, (s.object q).heapStart ≤ va → va < (s.object q).heapEnd →
    leafAt s.memory (s.object q).pageTable va = none

/-- In `t` the part of the heap of `p` that was granted and not mapped in `s` is mapped to zeroed
frames, and what was mapped is mapped as it was. -/
structure HeapMapped (s : GlobalState) (p : Nat) (t : GlobalState) : Prop where
  fresh : ∀ va, (s.object p).currentlyUnmappedStart ≤ va → va < (s.object p).heapEnd →
    ∃ entry, leafAt t.memory (s.object p).pageTable va = some entry ∧ entry.readable = true ∧
      entry.writeable = true ∧ entry.userModeAccessible = true ∧
      ∀ x, entry.getPhysicalAddress ≤ x → x < entry.getPhysicalAddress + pageSize → t.memory x = 0
  kept : ∀ va entry, leafAt s.memory (s.object p).pageTable va = some entry →
    leafAt t.memory (s.object p).pageTable va = some entry

section Growing

variable {plat : Platform} {scene : Scene} {s : GlobalState} {addr : Nat}

theorem heapPage_of_pages {m : Memory} {root start size block : Nat} (aligned : block % pageSize = 0)
    (fits : block + size < usizeBound) (first : start % pageSize = 0) (whole : size % pageSize = 0)
    (pages : ∀ j < size / pageSize, leafAt m root (start + j * pageSize) =
      some (.pack (block + j * pageSize) (PageTableEntry.flags true true false true)))
    (zero : ∀ x, block ≤ x → x < block + size → m x = 0) (va : Nat) (low : start ≤ va)
    (high : va < start + size) :
    ∃ entry, leafAt m root va = some entry ∧ entry.readable = true ∧ entry.writeable = true ∧
      entry.userModeAccessible = true ∧
      ∀ x, entry.getPhysicalAddress ≤ x → x < entry.getPhysicalAddress + pageSize → m x = 0 := by
  have inside : (va - start) / pageSize < size / pageSize := by
    simp only [pageSize] at *
    omega
  have samePage : vpn va = vpn (start + (va - start) / pageSize * pageSize) := by
    simp only [pageSize, vpn] at *
    omega
  have permissions := PageTableEntry.permissions_pack
    (block + (va - start) / pageSize * pageSize) true true false true
  have within : (va - start) / pageSize * pageSize + pageSize ≤ size := by
    simp only [pageSize] at *
    omega
  have address := PageTableEntry.getPhysicalAddress_pack
    (block + (va - start) / pageSize * pageSize) _
    (lt_trans (PageTableEntry.flags_lt true true false true) (by decide)) (by omega)
  refine ⟨_, ?_, permissions.1, permissions.2.1, permissions.2.2.2, ?_⟩
  · rw [leafAt_eq_of_vpn _ _ _ _ samePage]
    exact pages _ inside
  · intro x above below
    rw [address] at above below
    simp only [pageSize] at *
    exact zero x (by omega) (by omega)

theorem wpr_growHeap_supplied (placed : Placed plat) (attached : Attached plat scene ∅ s)
    (archFree : .arch ∉ s.held) (allocatorFree : .allocator ∉ s.held)
    (reserved : (s.object scene.pid).Reserves addr)
    (begun : (s.object scene.pid).heapStart ≤ (s.object scene.pid).currentlyUnmappedStart)
    (start : (s.object scene.pid).heapStart % pageSize = 0)
    (stop : (s.object scene.pid).heapEnd % pageSize = 0)
    (bounded : (s.object scene.pid).heapEnd < usizeBound)
    (few : (s.object scene.pid).heapEnd - (s.object scene.pid).heapStart ≤ 2 ^ 48)
    (vacant : HeapVacant s scene.pid) :
    wpr (growHeap plat scene.pid addr) (fun _ t => HeapMapped s scene.pid t)
      (fun e _ => e = .memoryNotAvailable) (· = .panic .unwrapNone) s := by
  have condition : (s.object scene.pid).currentlyUnmappedStart ≠ (s.object scene.pid).heapEnd ∧
      addr ≥ (s.object scene.pid).currentlyUnmappedStart ∧ addr < (s.object scene.pid).heapEnd :=
    reserved
  have ordered : (s.object scene.pid).heapStart ≤ (s.object scene.pid).heapEnd := by omega
  rw [HeapVacant, attached.onstage.root] at vacant
  have big : pageSize ≤ (s.object scene.pid).heapEnd - (s.object scene.pid).heapStart := by
    simp only [pageSize] at *
    omega
  have whole : ((s.object scene.pid).heapEnd - (s.object scene.pid).heapStart) % pageSize = 0 := by
    simp only [pageSize] at *
    omega
  rw [growHeap, wpr_bind, wpr_lift, wp_getObject, wpr_ite, attached.onstage.root, if_pos condition,
    wpr_bind, wpr_lift, wp_liftRust, usizeSub, if_pos ordered]
  simp only [pure_eq_ok]
  rw [wpr_bind]
  apply wpr_mono (wpr_and (wpr_allocate_extended placed attached _)
    (wpr_allocate_supplied attached allocatorFree _ big whole))
  case fails => exact fun _ _ failed => failed.2
  case stops => exact fun _ stopped => stopped.2
  rintro block t ⟨⟨attached₁, aligned, fits, extended, leaves, zero⟩, held, -⟩
  have vacant₁ : ∀ j < ((s.object scene.pid).heapEnd - (s.object scene.pid).heapStart) / pageSize,
      leafAt t.memory scene.root ((s.object scene.pid).heapStart + j * pageSize) = none := by
    intro j low
    rw [leaves]
    apply vacant
    · omega
    · simp only [pageSize] at *
      omega
  apply wpr_mono (wpr_and
    (wpr_map_extended placed attached₁ (s.object scene.pid).heapStart block _ true true false true
      fits (Or.inl rfl) (fun _ => ⟨aligned, Set.subset_union_right⟩)
      (fun restricted => by cases restricted))
    (wpr_map_supplied placed attached₁ (by rw [held]; exact archFree)
      (by rw [held]; exact allocatorFree) (s.object scene.pid).heapStart block _ true true false true
      (by omega) start whole (by omega) (by simp only [pageSize]; omega) fits vacant₁))
  case fails => exact fun _ _ failed => failed.2
  case stops => exact fun _ stopped => stopped.2
  rintro - u ⟨⟨-, extended₂, -, -, pages⟩, -⟩
  refine ⟨?_, ?_⟩
  · intro va low high
    rw [attached.onstage.root]
    apply heapPage_of_pages aligned fits start whole pages _ va (by omega) (by omega)
    intro x first last
    rw [extended₂.memory x (Or.inl (Or.inr ⟨first, last⟩))]
    exact zero x first last
  · intro va entry leaf
    rw [attached.onstage.root] at leaf ⊢
    exact extended₂.leaves va entry (extended.leaves va entry leaf)

theorem wpr_allocate_granted (allocatorFree : .allocator ∉ s.held) {size : Nat}
    (grants : s.Grants size) :
    wpr (GlobalState.allocate size) (fun _ t => t.held = s.held) (fun _ _ => False)
      (fun _ => False) s := by
  rcases grants with ⟨block, ⟨alloc', store'⟩, served⟩
  rw [GlobalState.allocate, wpr_guarded _ _ _ _ allocatorFree]
  unfold wpr
  rw [wp_def, allocatorAllocate, ExceptT.run_mk]
  simp only [served, List.erase_cons_head]

theorem wpr_growHeap_denied (attached : Attached plat scene ∅ s) (allocatorFree : .allocator ∉ s.held)
    (reserved : (s.object scene.pid).Reserves addr)
    (ordered : (s.object scene.pid).heapStart < (s.object scene.pid).heapEnd)
    (start : (s.object scene.pid).heapStart % pageSize = 0)
    (stop : (s.object scene.pid).heapEnd % pageSize = 0)
    (denied : ¬ s.Grants ((s.object scene.pid).heapEnd - (s.object scene.pid).heapStart)) :
    wpr (growHeap plat scene.pid addr) (fun _ _ => False) (fun e _ => e = .memoryNotAvailable)
      (· = .panic .unwrapNone) s := by
  have condition : (s.object scene.pid).currentlyUnmappedStart ≠ (s.object scene.pid).heapEnd ∧
      addr ≥ (s.object scene.pid).currentlyUnmappedStart ∧ addr < (s.object scene.pid).heapEnd :=
    reserved
  rw [growHeap, wpr_bind, wpr_lift, wp_getObject, wpr_ite, if_pos condition, wpr_bind, wpr_lift,
    wp_liftRust, usizeSub, if_pos (le_of_lt ordered)]
  simp only [pure_eq_ok]
  rw [wpr_bind]
  apply wpr_mono (wpr_allocate_supplied attached allocatorFree _ ?big ?whole)
  case big =>
    simp only [pageSize] at *
    omega
  case whole =>
    simp only [pageSize] at *
    omega
  case weaker => exact fun _ _ done => absurd done.2 denied
  case fails => exact fun _ _ failed => failed
  case stops => exact fun _ stopped => stopped

theorem wpr_growHeap_vacant (placed : Placed plat) (attached : Attached plat scene ∅ s)
    (reserved : (s.object scene.pid).Reserves addr)
    (start : (s.object scene.pid).heapStart % pageSize = 0)
    (stop : (s.object scene.pid).heapEnd % pageSize = 0) :
    wpr (growHeap plat scene.pid addr) (fun _ _ => HeapVacant s scene.pid) (fun _ _ => True) Any s := by
  have condition : (s.object scene.pid).currentlyUnmappedStart ≠ (s.object scene.pid).heapEnd ∧
      addr ≥ (s.object scene.pid).currentlyUnmappedStart ∧ addr < (s.object scene.pid).heapEnd :=
    reserved
  rw [growHeap, wpr_bind, wpr_lift, wp_getObject, wpr_ite, attached.onstage.root, if_pos condition,
    wpr_bind, wpr_lift]
  apply wp_liftRust_any
  intro size sized
  rcases (usizeSub_eq_ok _ _ _).mp sized with ⟨ordered, rfl⟩
  rw [wpr_bind]
  apply wpr_weaken (wpr_allocate_extended placed attached _)
  case fails => exact fun _ _ _ => trivial
  rintro block t ⟨attached₁, aligned, fits, extended, leaves, zero⟩
  apply wpr_weaken (wpr_map_vacant placed attached₁ (s.object scene.pid).heapStart block _ true true
    false true (by omega))
  case fails => exact fun _ _ _ => trivial
  intro _ _ vacant va low high
  have samePage : vpn va = vpn ((s.object scene.pid).heapStart +
      (va - (s.object scene.pid).heapStart) / pageSize * pageSize) := by
    simp only [pageSize, vpn] at *
    omega
  rw [attached.onstage.root, leafAt_eq_of_vpn _ _ _ _ samePage, ← leaves]
  apply vacant
  simp only [pageSize] at *
  omega

/-- Once part of the heap is mapped, `map` refuses to map it all. -/
theorem wpr_growHeap_refused (placed : Placed plat) (attached : Attached plat scene ∅ s)
    (archFree : .arch ∉ s.held) (allocatorFree : .allocator ∉ s.held)
    (reserved : (s.object scene.pid).Reserves addr)
    (start : (s.object scene.pid).heapStart % pageSize = 0)
    (stop : (s.object scene.pid).heapEnd % pageSize = 0)
    (bounded : (s.object scene.pid).heapEnd < usizeBound)
    (ordered : (s.object scene.pid).heapStart < (s.object scene.pid).heapEnd)
    {entry : PageTableEntry}
    (leaf : leafAt s.memory scene.root (s.object scene.pid).heapStart = some entry)
    (grants : s.Grants ((s.object scene.pid).heapEnd - (s.object scene.pid).heapStart)) :
    wpr (growHeap plat scene.pid addr) (fun _ _ => False)
      (fun e _ => e = .pageAlreadyMapped (s.object scene.pid).heapStart plat.parameterAddress)
      (fun _ => False) s := by
  have condition : (s.object scene.pid).currentlyUnmappedStart ≠ (s.object scene.pid).heapEnd ∧
      addr ≥ (s.object scene.pid).currentlyUnmappedStart ∧ addr < (s.object scene.pid).heapEnd :=
    reserved
  have whole : ((s.object scene.pid).heapEnd - (s.object scene.pid).heapStart) % pageSize = 0 := by
    simp only [pageSize] at *
    omega
  rw [growHeap, wpr_bind, wpr_lift, wp_getObject, wpr_ite, attached.onstage.root, if_pos condition,
    wpr_bind, wpr_lift, wp_liftRust, usizeSub, if_pos (le_of_lt ordered)]
  simp only [pure_eq_ok]
  rw [wpr_bind]
  apply wpr_mono (wpr_and (wpr_allocate_extended placed attached _)
    (wpr_allocate_granted allocatorFree grants))
  case fails => exact fun _ _ failed => failed.2.elim
  case stops => exact fun _ stopped => stopped.2
  rintro block t ⟨⟨-, -, -, -, leaves, -⟩, held⟩
  have available : .arch ∉ t.held := by
    rw [held]
    exact archFree
  have locked : leafAt (memory { t with held := .arch :: t.held }) scene.root
      (s.object scene.pid).heapStart = some entry := (leaves _).trans leaf
  rw [GlobalState.map, wpr_guarded _ _ _ _ available]
  unfold wpr
  rw [wp_def, map_occupied (arch plat) _ block _ true true false true locked (by omega) start whole
    (by omega)]
  rfl

end Growing

section Trapping

variable {plat : Platform} {s t : GlobalState} {p : Nat} {info : TrapInfo}

def GlobalState.locked (s : GlobalState) (p : Nat) : GlobalState :=
  { s with held := .process p :: s.held }

def GlobalState.caughtUp (s : GlobalState) (p : Nat) : GlobalState :=
  { s with
    object := Function.update s.object p
      { s.object p with currentlyUnmappedStart := (s.object p).heapEnd }
    held := [] }

theorem not_interrupt_of_fault (isFault : info.isPageFault = .ok true) :
    info.isTimerInterrupt = false ∧ info.isExternalInterrupt = false ∧ info.isException = true := by
  have noCall := not_call_of_fault isFault
  cases cause : info.trap with
  | interrupt code =>
      rw [TrapInfo.isPageFault, cause] at isFault
      cases isFault
  | exception code =>
      rw [TrapInfo.isTimerInterrupt, TrapInfo.isExternalInterrupt, TrapInfo.isException, cause, noCall]
      exact ⟨rfl, rfl, rfl⟩

theorem wp_userTrap_fault {halts : Halt → Prop} (idle : s.held = [])
    (current : s.currentProcess = some p) (isFault : info.isPageFault = .ok true)
    (post : Mode → GlobalState → Prop)
    (handles : wp (handleException plat p info) (fun returned t => wp (leave returned) post halts t)
      halts s) : wp (userTrap plat info) post halts s := by
  rcases not_interrupt_of_fault isFault with ⟨noTimer, noExternal, isException⟩
  rw [userTrap, wp_bind, wp_bind, wp_getCurrentProcess (by simp [idle]), wp_liftRust, current]
  simp only [expect, pure_eq_ok]
  rw [wp_bind, wp_withLock _ _ _ (by simp [idle]), wp_getObject]
  simp only [List.erase_cons_head]
  rw [wp_bind, dispatch, noTimer, noExternal, isException]
  exact handles

theorem wp_userTrap_grown (plat : Platform) (idle : s.held = []) (current : s.currentProcess = some p)
    (isFault : info.isPageFault = .ok true)
    (grown : (growHeap plat p info.stval).run (s.locked p) = .ok (.ok (), t)) :
    wp (userTrap plat info) (fun mode u => mode = .user ∧ u = t.caughtUp p) (fun _ => False) s := by
  have unlocked : (view (s.locked p)).Free [.arch, .allocator] := by
    intro mutex needed taken
    have known : mutex ∈ Lock.process p :: s.held := taken
    rw [idle] at known
    simp only [List.mem_cons, List.not_mem_nil, or_false] at needed known
    rcases needed with rfl | rfl <;> cases known
  have keeps : Keeps Any [.arch, .allocator] (growHeap plat p info.stval).run :=
    keeps_growHeap (fun _ _ => trivial) plat (by simp) (by simp) _ _
  have same := wp_of_returns (keeps (s.locked p) unlocked) grown
  have held : t.held = [.process p] := by
    have kept : t.held = .process p :: s.held := congrArg View.held same
    rw [kept, idle]
  have stays : t.currentProcess = some p := (congrArg View.currentProcess same).trans current
  apply wp_userTrap_fault idle current isFault
  rw [handleException, wp_bind, wp_lock_of_free _ _ (by simp [idle]), wp_bind, wp_liftRust, isFault]
  simp only [if_true]
  have here : ({ s with held := .process p :: s.held } : GlobalState) = s.locked p := rfl
  rw [here, handlePageFault, wp_bind, wp_def, grown]
  simp only
  rw [wp_bind, wp_modifyObject, wp_bind, wp_unlock, wp_pure]
  simp only [held, List.erase_cons_head]
  rw [leave, if_pos rfl, returnToUserMode, setUpSupervisorToUserModeTransition, wp_bind, wp_bind]
  apply wp_currentProcess_some (s := t.caughtUp p) rfl stays
  rw [wp_withLock _ _ _ List.not_mem_nil, wp_pure, wp_pure]
  exact ⟨rfl, congrArg (fun held => { t.caughtUp p with held }) (List.erase_cons_head _ _)⟩

theorem wp_userTrap_failed (plat : Platform) (idle : s.held = []) (current : s.currentProcess = some p)
    (isFault : info.isPageFault = .ok true)
    (failed : ∀ t, (growHeap plat p info.stval).run (s.locked p) ≠ .ok (.ok (), t)) :
    wp (userTrap plat info) (fun _ _ => False) Any s := by
  apply wp_userTrap_fault idle current isFault
  apply wp_handleException_mapped (fun _ _ => trivial) plat (Or.inr trivial) p idle current
  intro t _ ran
  exact absurd ran (failed t)

end Trapping

/-- The heap of `q` starts and ends with a page, and where something was granted, it ends below the
stack and the communication page is mapped. -/
structure HeapGranted (s : GlobalState) (q : Nat) : Prop where
  start : (s.object q).heapStart % pageSize = 0
  stop : (s.object q).heapEnd % pageSize = 0
  ordered : (s.object q).heapStart ≤ (s.object q).currentlyUnmappedStart ∧
    (s.object q).heapStart ≤ (s.object q).heapEnd
  asked : (s.object q).heapEnd = (s.object q).heapStart ∨
    (s.object q).heapEnd < stackGuard ∧
      ∃ entry, leafAt s.memory (s.object q).pageTable kucomPage = some entry

structure HeapAdvanced (s t : GlobalState) (q : Nat) : Prop where
  pageTable : (t.object q).pageTable = (s.object q).pageTable
  start : (t.object q).heapStart = (s.object q).heapStart
  leaves : ∀ va entry, leafAt s.memory (s.object q).pageTable va = some entry →
    leafAt t.memory (s.object q).pageTable va = some entry
  stop : (t.object q).heapEnd = (s.object q).heapEnd ∨
    ∃ size, (t.object q).heapEnd = (s.object q).heapEnd + size ∧ size % pageSize = 0 ∧
      (s.object q).heapEnd + size < stackGuard ∧
      ∃ entry, leafAt s.memory (s.object q).pageTable kucomPage = some entry
  unmapped : (t.object q).currentlyUnmappedStart = (s.object q).currentlyUnmappedStart ∨
    (t.object q).currentlyUnmappedStart = (s.object q).heapEnd

section Advancing

variable {plat : Platform} {s t : GlobalState} {p q : Nat} {info : TrapInfo}

theorem HeapGranted.advance (granted : HeapGranted s q) (advanced : HeapAdvanced s t q) :
    HeapGranted t q := by
  refine ⟨?_, ?_, ⟨?_, ?_⟩, ?_⟩
  · rw [advanced.start]
    exact granted.start
  · have aligned := granted.stop
    rcases advanced.stop with same | ⟨size, grown, whole, -, -⟩
    · rw [same]
      exact aligned
    · rw [grown]
      simp only [pageSize] at *
      omega
  · rw [advanced.start]
    rcases advanced.unmapped with same | raised
    · rw [same]
      exact granted.ordered.1
    · rw [raised]
      exact granted.ordered.2
  · have ordered := granted.ordered.2
    rw [advanced.start]
    rcases advanced.stop with same | ⟨size, grown, -, -, -⟩
    · omega
    · omega
  · rw [advanced.pageTable]
    rcases advanced.stop with same | ⟨size, grown, -, below, entry, leaf⟩
    · rw [same, advanced.start]
      rcases granted.asked with empty | ⟨below, entry, leaf⟩
      · exact Or.inl empty
      · exact Or.inr ⟨below, entry, advanced.leaves _ _ leaf⟩
    · rw [grown]
      exact Or.inr ⟨below, entry, advanced.leaves _ _ leaf⟩

theorem heapAdvanced_of_same (object : t.object q = s.object q)
    (leaves : ∀ va, leafAt t.memory (s.object q).pageTable va =
      leafAt s.memory (s.object q).pageTable va) : HeapAdvanced s t q := by
  refine ⟨?_, ?_, fun va entry leaf => (leaves va).trans leaf, Or.inl ?_, Or.inl ?_⟩
  · rw [object]
  · rw [object]
  · rw [object]
  · rw [object]

theorem heapAdvanced_untouched (alive : Alive (s.object q)) (untouched : Untouched s t q) :
    HeapAdvanced s t q :=
  ⟨untouched.same.pageTable, untouched.same.heapStart,
    fun va _ leaf => (untouched.leaves alive va).trans leaf, Or.inl untouched.same.heapEnd,
    Or.inl untouched.same.currentlyUnmappedStart⟩

theorem heapAdvanced_called (separated : Separated plat s) (present : p ∈ s.processes)
    (alive : Alive (s.object p)) {request : Syscall} {returned : Bool}
    (performed : Performed plat (s.advanced p) p request returned t) (stays : Alive (t.object p)) :
    HeapAdvanced s t p := by
  have before := separated.leaf_write present alive own_advanced
  have leaves : ∀ va, leafAt t.memory (s.object p).pageTable va =
      leafAt s.memory (s.object p).pageTable va := by
    intro va
    have after := performed.leaf (separated.advance present alive) present alive stays va
    exact after.trans (before va)
  by_cases other : ∀ size, request = .wantMemory size →
      stackGuard ≤ ((s.advanced p).object p).heapEnd + size
  · have same := performed.heap stays other
    exact ⟨same.2.2.2, same.1, fun va entry leaf => (leaves va).trans leaf, Or.inl same.2.1,
      Or.inl same.2.2.1⟩
  · push Not at other
    rcases other with ⟨size, rfl, room⟩
    cases performed with
    | granted size t whole room' object answered =>
        rcases answered with ⟨entry, leaf, -⟩
        have asked := (before kucomPage).symm.trans leaf
        refine ⟨?_, ?_, fun va entry leaf => (leaves va).trans leaf,
          Or.inr ⟨size, ?_, whole, room, entry, asked⟩, Or.inl ?_⟩
        · rw [object]
          rfl
        · rw [object]
          rfl
        · rw [object]
          rfl
        · rw [object]
          rfl
    | refused size t full object answered => omega

theorem heapAdvanced_trapped (separated : Separated plat s) (present : p ∈ s.processes)
    (alive : Alive (s.object p)) {returned : Bool} (trapped : Trapped plat s p info returned t)
    (stays : Alive (t.object p)) : HeapAdvanced s t p := by
  cases trapped with
  | ticked t isTimer memory object =>
      have same := switched_heap (s.object p) (.yieldInUserTrap (s.object p).trapframe)
      rw [← object] at same
      refine ⟨same.2.2.2, same.1, ?_, Or.inl same.2.1, Or.inl same.2.2.1⟩
      intro va entry leaf
      rw [memory]
      exact leaf
  | passed code t isInterrupt memory object =>
      apply heapAdvanced_of_same object
      intro va
      rw [memory]
  | faulted t isFault object grown =>
      refine ⟨?_, ?_, ?_, Or.inl ?_, Or.inr ?_⟩
      · rw [object]
      · rw [object]
      · intro va entry leaf
        split at grown
        · exact grown.leaves va entry leaf
        · rw [grown]
          exact leaf
      · rw [object]
      · rw [object]
  | called request returned t isCall requests performed =>
      exact heapAdvanced_called separated present alive performed stays

theorem heapAdvanced_resumed (separated : Separated plat s) (present : p ∈ s.processes)
    (alive : Alive (s.object p)) (resumed : Resumed plat s p t) : HeapAdvanced s t p := by
  cases resumed with
  | went t elsewhere memory object =>
      apply heapAdvanced_of_same object
      intro va
      rw [memory]
  | yielded trapframe pageTable t inHandle object answered =>
      apply heapAdvanced_of_same object
      exact separated.leaf_write present alive (answered.own separated present alive)

theorem heapAdvanced_stored (separated : Separated plat s) (present : p ∈ s.processes)
    (alive : Alive (s.object p)) {va : Nat} {byte : UInt8} (stored : Stored s p va byte t) :
    HeapAdvanced s t p := by
  have object : t.object p = s.object p := by
    cases stored with
    | hit entry t leaf accessible writeable memory object => exact object
    | missed t denied memory object => exact object
  exact heapAdvanced_of_same object (leaf_stored separated present alive stored)

end Advancing

/-- The allocations of the closure succeed: neither is memory not available, nor does the allocator
stop at a stale bit. -/
def GlobalState.Supplied (plat : Platform) (s : GlobalState) (p addr : Nat) : Prop :=
  (∀ t, (growHeap plat p addr).run (s.locked p) ≠ .ok (.error .memoryNotAvailable, t)) ∧
    (growHeap plat p addr).run (s.locked p) ≠ .error (.panic .unwrapNone)

section Faulting

variable {plat : Platform} {p root tf : Nat} {origin s : GlobalState} {info : TrapInfo}

/-- The whole heap cannot lie behind addresses that are all unmapped if it went around to the
communication page. -/
theorem heap_small (vacant : HeapVacant s p) {entry : PageTableEntry}
    (leaf : leafAt s.memory (s.object p).pageTable kucomPage = some entry) :
    (s.object p).heapEnd - (s.object p).heapStart ≤ 2 ^ 48 := by
  by_contra large
  -- the address in the heap that the walk cannot tell from the communication page
  have offset : (kucomPage + 2 ^ 64 - (s.object p).heapStart % 2 ^ 48) % 2 ^ 48 < 2 ^ 48 :=
    Nat.mod_lt _ (by decide)
  have samePage : vpn ((s.object p).heapStart +
      (kucomPage + 2 ^ 64 - (s.object p).heapStart % 2 ^ 48) % 2 ^ 48) = vpn kucomPage := by
    have value : kucomPage = 18446744073709531136 := rfl
    rw [value]
    simp only [vpn]
    omega
  have none_ := vacant _ (Nat.le_add_right _ _)
    (by omega : (s.object p).heapStart +
      (kucomPage + 2 ^ 64 - (s.object p).heapStart % 2 ^ 48) % 2 ^ 48 < (s.object p).heapEnd)
  rw [leafAt_eq_of_vpn _ _ _ _ samePage, leaf] at none_
  cases none_

/-- The closure runs for the process that has faulted, with no lock held but that of the process. -/
theorem Working.attach_locked (working : Working plat p root tf origin s) (idle : s.held = []) :
    (∃ foreign, Attached plat ((s.locked p).scene p foreign) ∅ (s.locked p)) ∧
      .arch ∉ (s.locked p).held ∧ .allocator ∉ (s.locked p).held := by
  have locked : Working plat p root tf origin (s.locked p) :=
    working_stable s _ ⟨rfl, rfl, rfl, rfl, rfl⟩ working
  rcases locked.separated.attach locked.present locked.alive with ⟨foreign, -, attached⟩
  have held : (s.locked p).held = [.process p] := by
    rw [GlobalState.locked, idle]
  refine ⟨⟨foreign, attached⟩, ?_, ?_⟩
  · rw [held]
    simp
  · rw [held]
    simp

/-- A fault in the reserved part of the heap maps that part exactly when nothing of the heap has
been mapped before, or when there is no memory for it. -/
theorem heapFault_iff (placed : Placed plat) (working : Working plat p root tf origin s)
    (idle : s.held = []) (granted : HeapGranted s p) (heap : LazyHeap s p)
    (isFault : info.isPageFault = .ok true) (reserved : (s.object p).Reserves info.stval) :
    (s.Supplied plat p info.stval →
      ∃ t, userTrap plat info s = .ok (.user, t) ∧ HeapMapped s p t) ↔
      (s.object p).currentlyUnmappedStart = (s.object p).heapStart ∨
        ¬ s.Grants ((s.object p).heapEnd - (s.object p).heapStart) := by
  rcases working.attach_locked idle with ⟨⟨foreign, attached⟩, archFree, allocatorFree⟩
  have start := heap.start
  have ordered : (s.object p).heapStart < (s.object p).heapEnd := by
    rcases reserved with ⟨-, above, below⟩
    omega
  rcases granted.asked.resolve_left (by omega) with ⟨below, entry, kucom⟩
  have bounded : (s.object p).heapEnd < usizeBound := lt_trans below (by decide)
  constructor
  · intro law
    by_contra neither
    push Not at neither
    rcases neither with ⟨used, grants⟩
    rcases heap.mapped _ (le_refl _) (by omega) with ⟨first, leaf, -⟩
    have refused := wpr_growHeap_refused placed attached archFree allocatorFree reserved
      granted.start granted.stop bounded ordered leaf grants
    rcases returned_error refused with ⟨t, ran⟩
    have supplied : s.Supplied plat p info.stval := by
      refine ⟨?_, ?_⟩
      · intro t' other
        cases ran.symm.trans other
      · intro other
        cases ran.symm.trans other
    rcases law supplied with ⟨t', returned, -⟩
    have failed := wp_userTrap_failed plat idle working.current isFault (by
      intro u other
      cases ran.symm.trans other)
    exact wp_of_returns failed returned
  · intro condition supplied
    rcases condition with unused | denied
    · have vacant : HeapVacant s p := by
        intro va low high
        exact heap.unmapped va (by omega) high
      have maps := wpr_growHeap_supplied placed attached archFree allocatorFree reserved start
        granted.start granted.stop bounded (heap_small vacant kucom) vacant
      rcases returned_ok maps supplied.1 supplied.2 with ⟨_, t, ran, mapped⟩
      have goesOn := wp_userTrap_grown plat idle working.current isFault ran
      rcases returned_of_wp goesOn with ⟨mode, u, returned, rfl, rfl⟩
      exact ⟨_, returned, mapped.fresh, mapped.kept⟩
    · have fails := wpr_growHeap_denied attached allocatorFree reserved ordered granted.start
        granted.stop denied
      rcases returned_ok fails supplied.1 supplied.2 with ⟨_, _, -, impossible⟩
      exact impossible.elim

end Faulting

namespace Machine

variable {plat : Platform} {m m' : Machine}

def HeapsGranted (m : Machine) : Prop :=
  ∀ q ∈ m.kernel.processes, Alive (m.kernel.object q) → HeapGranted m.kernel q

theorem heapAdvanced_of_serves {p : Nat} {event : Event} (present : p ∈ m.kernel.processes)
    (alive : Alive (m.kernel.object p)) (separated : Separated plat m.kernel)
    (serves : Serves plat m p m' event) (stays : Alive (m'.kernel.object p)) :
    HeapAdvanced m.kernel m'.kernel p := by
  cases serves with
  | resume mode mode' resumed => exact heapAdvanced_resumed separated present alive resumed
  | trap info returned mode mode' trapped =>
      exact heapAdvanced_trapped separated present alive trapped stays
  | save registers sepc mode mode' saved =>
      rw [saved]
      exact heapAdvanced_of_same rfl (leaf_saved separated present alive registers sepc)
  | store va byte mode mode' stored => exact heapAdvanced_stored separated present alive stored

theorem heapAdvanced_of_steps (placed : Placed plat) (orderly : m.Orderly)
    (separated : Separated plat m.kernel) {event : Event}
    (good : ∀ image, m.Loads plat event image → GoodImage plat image) (taken : Steps plat m event m')
    {q : Nat} (present : q ∈ m.kernel.processes) (alive : Alive (m'.kernel.object q)) :
    Alive (m.kernel.object q) ∧ HeapAdvanced m.kernel m'.kernel q := by
  by_cases works : m.WorksFor q
  · rcases works.working orderly separated with ⟨root, tf, working⟩
    have serves := serves_of_steps placed orderly separated good works taken
    exact ⟨working.alive, heapAdvanced_of_serves present working.alive separated serves alive⟩
  · have untouched := (kept_of_steps placed orderly separated good taken).untouched q present works
    have before := untouched.same.alive.mp alive
    exact ⟨before, heapAdvanced_untouched before untouched⟩

theorem heapsGranted_of_run (booted : m.Booted plat) {trace : List (Machine × Event)}
    (run : Run (Steps plat) m trace m')
    (good : ∀ step ∈ trace, ∀ image, step.1.Loads plat step.2 image → GoodImage plat image) :
    ∀ u ∈ Run.visited trace m', u.HeapsGranted := by
  have none : ∀ q, q ∉ m.kernel.processes := by
    intro q present
    rw [booted.fresh.processes] at present
    cases present
  have all := run.invariant_when (fun u => u.Orderly ∧ Separated plat u.kernel ∧
      Records u.kernel.processes u.kernel ∧ u.HeapsGranted)
    (fun u event => ∀ image, u.Loads plat event image → GoodImage plat image) ?start ?keeps good
  · exact fun u visited => (all u visited).2.2.2
  case start =>
    refine ⟨orderly_of_fresh booted.fresh, booted.separated, ⟨?_, ?_⟩, ?_⟩
    · exact fun q present => absurd present (none q)
    · exact fun q present => absurd present (none q)
    · exact fun q present => absurd present (none q)
  case keeps =>
    rintro t event u ⟨orderly, separated, records, granted⟩ loads taken
    have recorded := records_of_steps orderly records taken
    refine ⟨orderly.steps taken,
      (kept_of_steps booted.placed orderly separated loads taken).separated,
      ⟨recorded.kernelStacks, fun q present new => absurd present new⟩, ?_⟩
    intro q present alive
    by_cases before : q ∈ t.kernel.processes
    · have advanced := heapAdvanced_of_steps booted.placed orderly separated loads taken before alive
      exact (granted q before advanced.1).advance advanced.2
    · rcases recorded.heaps q present before with ⟨isEnd, isUnmapped, aligned⟩
      exact ⟨aligned, isEnd ▸ aligned, ⟨ge_of_eq isUnmapped, ge_of_eq isEnd⟩, Or.inl isEnd⟩

end Machine

def TrapInfo.access (info : TrapInfo) : Rv64.Access :=
  if info.trap = .exception 15 then .store else .load

/-- The memory management unit lets user mode do at its address what has trapped. -/
def Permits (m : Memory) (root : Nat) (info : TrapInfo) : Prop :=
  ∃ pa, Sv48.mmu m (Sv48.satpFor root) .user info.access (BitVec.ofNat 64 info.stval) = some pa

theorem permits_iff {m : Memory} {root : Nat} {info : TrapInfo} (bounded : root < usizeBound)
    (aligned : root % pageSize = 0) (word : info.stval < usizeBound) : Permits m root info ↔
      Sv48.Canonical info.stval ∧ ∃ entry, leafAt m root info.stval = some entry ∧
        Sv48.permits entry .user info.access = true := by
  have address : (BitVec.ofNat 64 info.stval).toNat = info.stval := by
    rw [BitVec.toNat_ofNat]
    exact Nat.mod_eq_of_lt word
  rw [Permits, Sv48.mmu_satpFor bounded aligned, address]
  constructor
  · rintro ⟨pa, found⟩
    rcases Option.bind_eq_some_iff.mp found with ⟨entry, leaf, passed⟩
    rcases Option.ite_none_right_eq_some.mp passed with ⟨⟨canonical, permitted⟩, -⟩
    exact ⟨canonical, entry, leaf, permitted⟩
  · rintro ⟨canonical, entry, leaf, permitted⟩
    refine ⟨entry.getPhysicalAddress + info.stval % pageSize, ?_⟩
    rw [leaf, Option.bind_some, if_pos ⟨canonical, permitted⟩]

/-- Unless it has terminated `p`, the handler has mapped the page that was missed, in a page table
that had it otherwise. -/
def Progressed (s : GlobalState) (p : Nat) (info : TrapInfo) (t : GlobalState) : Prop :=
  ¬ Alive (t.object p) ∨ Permits t.memory (s.object p).pageTable info ∧
    ∃ va, leafAt t.memory (s.object p).pageTable va ≠ leafAt s.memory (s.object p).pageTable va

section Progress

variable {plat : Platform} {p root tf : Nat} {origin s : GlobalState} {info : TrapInfo}

theorem mappable_of_returned (placed : Placed plat) (working : Working plat p root tf origin s)
    (idle : s.held = []) (granted : HeapGranted s p) (isFault : info.isPageFault = .ok true)
    (reserved : (s.object p).Reserves info.stval) {mode : Mode} {t : GlobalState}
    (returned : userTrap plat info s = .ok (mode, t)) :
    HeapVacant s p ∧ s.Supplied plat p info.stval := by
  rcases working.attach_locked idle with ⟨⟨foreign, attached⟩, archFree, allocatorFree⟩
  have grown : ∃ u, (growHeap plat p info.stval).run (s.locked p) = .ok (.ok (), u) := by
    by_contra none_
    have failed : ∀ u, (growHeap plat p info.stval).run (s.locked p) ≠ .ok (.ok (), u) :=
      fun u ran => none_ ⟨u, ran⟩
    exact wp_of_returns (wp_userTrap_failed plat idle working.current isFault failed) returned
  rcases grown with ⟨u, ran⟩
  have vacant := wpr_growHeap_vacant placed attached reserved granted.start granted.stop
  unfold wpr at vacant
  refine ⟨?_, ?_, ?_⟩
  · have found := wp_of_returns vacant ran
    exact found
  · intro u' other
    cases ran.symm.trans other
  · intro other
    cases ran.symm.trans other

/-- Where nothing of the heap is mapped and the allocations succeed, the handler returns. -/
theorem returned_of_mappable (placed : Placed plat) (working : Working plat p root tf origin s)
    (idle : s.held = []) (granted : HeapGranted s p) (isFault : info.isPageFault = .ok true)
    (reserved : (s.object p).Reserves info.stval) (vacant : HeapVacant s p)
    (supplied : s.Supplied plat p info.stval) :
    ∃ mode t, userTrap plat info s = .ok (mode, t) := by
  rcases working.attach_locked idle with ⟨⟨foreign, attached⟩, archFree, allocatorFree⟩
  have start := granted.ordered.1
  have ordered : (s.object p).heapStart < (s.object p).heapEnd := by
    rcases reserved with ⟨-, above, below⟩
    omega
  rcases granted.asked.resolve_left (by omega) with ⟨below, entry, kucom⟩
  have bounded : (s.object p).heapEnd < usizeBound := lt_trans below (by decide)
  have maps := wpr_growHeap_supplied placed attached archFree allocatorFree reserved start
    granted.start granted.stop bounded (heap_small vacant kucom) vacant
  rcases returned_ok maps supplied.1 supplied.2 with ⟨_, t, ran, -⟩
  rcases returned_of_wp (wp_userTrap_grown plat idle working.current isFault ran) with
    ⟨mode, u, returned, -⟩
  exact ⟨mode, u, returned⟩

/-- A fault in the reserved part of the heap that returns has mapped the heap. -/
theorem backed_of_returned (placed : Placed plat) (working : Working plat p root tf s s)
    (idle : s.held = []) (new : s.pid + 1 ∉ s.processes) (isFault : info.isPageFault = .ok true)
    (reserved : (s.object p).Reserves info.stval) {mode : Mode} {t : GlobalState}
    (returned : userTrap plat info s = .ok (mode, t)) : Alive (t.object p) ∧ Backed s p t := by
  have noCall := not_call_of_fault isFault
  have cases_ := wp_of_returns (wp_userTrap_cases placed working idle new info (by
    intro isCall
    rw [noCall] at isCall
    cases isCall)) returned
  rcases cases_ with ⟨back, -, trapped⟩
  cases trapped with
  | ticked t isTimer memory object =>
      rw [TrapInfo.isPageFault, isTimer] at isFault
      cases isFault
  | passed code t isInterrupt memory object =>
      rw [TrapInfo.isPageFault, isInterrupt] at isFault
      cases isFault
  | faulted t _ object grown =>
      rw [if_pos reserved] at grown
      refine ⟨?_, grown⟩
      rw [object]
      exact working.alive
  | called request returned t isCall requests performed =>
      rw [noCall] at isCall
      cases isCall

theorem growHeap_stray (plat : Platform) {addr : Nat} (stray : ¬ (s.object p).Reserves addr) :
    (growHeap plat p addr).run (s.locked p) = .ok (.ok (), s.locked p) := by
  have outside : ¬ (((s.locked p).object p).currentlyUnmappedStart ≠ ((s.locked p).object p).heapEnd ∧
      addr ≥ ((s.locked p).object p).currentlyUnmappedStart ∧
      addr < ((s.locked p).object p).heapEnd) := stray
  rw [growHeap, run_lift_bind_ok rfl, if_neg outside]
  rfl

theorem progress_iff (placed : Placed plat) (working : Working plat p root tf s s)
    (idle : s.held = []) (new : s.pid + 1 ∉ s.processes) (granted : HeapGranted s p)
    (isFault : info.isPageFault = .ok true) :
    (∀ mode t, userTrap plat info s = .ok (mode, t) → Progressed s p info t) ↔
      (s.object p).Reserves info.stval ∧ (Sv48.Canonical info.stval ∨
        ¬ (HeapVacant s p ∧ s.Supplied plat p info.stval)) := by
  rcases working.separated.isolated with ⟨free, live, owner, isolated⟩
  have table := (isolated.spaces p working.present working.alive).tables.aligned _ tablePage_root
  have permits : (s.object p).Reserves info.stval → ∀ t : GlobalState,
      Permits t.memory (s.object p).pageTable info ↔ Sv48.Canonical info.stval ∧
        ∃ entry, leafAt t.memory (s.object p).pageTable info.stval = some entry ∧
          Sv48.permits entry .user info.access = true := by
    intro reserved t
    have start := granted.ordered.1
    rcases reserved with ⟨-, above, below⟩
    have guard : stackGuard < usizeBound := by decide
    rcases granted.asked.resolve_left (by omega) with ⟨small, -⟩
    exact permits_iff table.2 table.1 (by omega)
  constructor
  · intro law
    have reserved : (s.object p).Reserves info.stval := by
      by_contra stray
      have ran := growHeap_stray plat stray
      have goesOn := wp_userTrap_grown plat idle working.current isFault ran
      rcases returned_of_wp goesOn with ⟨mode, t, returned, rfl, rfl⟩
      rcases law _ _ returned with dead | ⟨-, va, changed⟩
      · apply dead
        rw [GlobalState.caughtUp]
        simp only [Function.update_self]
        exact working.alive
      · exact changed rfl
    refine ⟨reserved, or_iff_not_imp_right.mpr ?_⟩
    intro mappable
    rcases not_not.mp mappable with ⟨vacant, supplied⟩
    rcases returned_of_mappable placed working idle granted isFault reserved vacant supplied with
      ⟨mode, t, returned⟩
    rcases law mode t returned with dead | ⟨permitted, -⟩
    · exact absurd (backed_of_returned placed working idle new isFault reserved returned).1 dead
    · exact ((permits reserved t).mp permitted).1
  · rintro ⟨reserved, condition⟩ mode t returned
    have mappable := mappable_of_returned placed working idle granted isFault reserved returned
    have canonical := condition.resolve_right (not_not.mpr mappable)
    have backed := (backed_of_returned placed working idle new isFault reserved returned).2
    have start := granted.ordered.1
    have bounds := reserved
    rcases bounds with ⟨-, above, below⟩
    right
    refine ⟨(permits reserved t).mpr ⟨canonical, ?_⟩, (s.object p).heapStart, ?_⟩
    · rcases backed.mapped info.stval (by omega) below with
        ⟨entry, leaf, readable, writeable, accessible⟩
      refine ⟨entry, leaf, ?_⟩
      rw [Sv48.permits, accessible, TrapInfo.access]
      split
      · exact writeable
      · exact readable
    · rcases backed.mapped _ (le_refl _) (by omega) with ⟨entry, leaf, -⟩
      rw [mappable.1 _ (le_refl _) (by omega), leaf]
      simp

end Progress

section Results

variable (plat : Platform) (m m' : Machine) (trace : List (Machine × Event))

/-- A page fault in the reserved part of the heap maps exactly that part, provided that there is
memory for it, exactly when nothing of the heap was mapped before or there is no block for all of the heap. -/
theorem heap_fault_maps_iff (booted : m.Booted plat) (run : Run (Machine.Steps plat) m trace m')
    (good : ∀ step ∈ trace, ∀ image, step.1.Loads plat step.2 image → GoodImage plat image) :
    ∀ u ∈ Run.visited trace m', u.mode = .user → ∀ p, u.kernel.currentProcess = some p →
      LazyHeap u.kernel p → ∀ info : TrapInfo, info.isPageFault = .ok true →
        (u.kernel.object p).Reserves info.stval →
        ((u.kernel.Supplied plat p info.stval →
          ∃ t, userTrap plat info u.kernel = .ok (.user, t) ∧ HeapMapped u.kernel p t) ↔
        (u.kernel.object p).currentlyUnmappedStart = (u.kernel.object p).heapStart ∨
          ¬ u.kernel.Grants ((u.kernel.object p).heapEnd - (u.kernel.object p).heapStart)) := by
  intro u visited isUser p current heap info isFault reserved
  rcases Machine.separated_of_run booted run good u visited with ⟨orderly, separated⟩
  have works : u.WorksFor p := Machine.worksFor_of_user isUser current
  rcases works.working orderly separated with ⟨root, tf, working⟩
  have granted := Machine.heapsGranted_of_run booted run good u visited p working.present
    working.alive
  exact heapFault_iff booted.placed working orderly.held granted heap isFault reserved

end Results

namespace Board

def grown : List Event := started ++ [askMemory, call]

def regrown : List Event :=
  grown ++ [storeFault 8192, .store kucomPage 0, .store (kucomPage + 17) 0x10, call]

def faultAt (stval : Nat) : TrapInfo := ⟨.exception 15, 0, stval, 0, []⟩

def closureEnds (u : Machine) (stval : Nat) : Option (Except Error Unit) :=
  ((growHeap plat 1 stval).run (u.kernel.locked 1)).toOption.map Prod.fst

theorem run_of_closureEnds {u : Machine} {stval : Nat} {result : Except Error Unit}
    (ends : closureEnds u stval = some result) :
    ∃ t, (growHeap plat 1 stval).run (u.kernel.locked 1) = .ok (result, t) := by
  rcases Option.map_eq_some_iff.mp ends with ⟨⟨result', t⟩, ran, rfl⟩
  cases run : (growHeap plat 1 stval).run (u.kernel.locked 1) with
  | error e =>
      rw [run] at ran
      cases ran
  | ok pair =>
      rw [run] at ran
      cases ran
      exact ⟨t, rfl⟩

theorem supplied_of_closureEnds {u : Machine} {stval : Nat} {result : Except Error Unit}
    (ends : closureEnds u stval = some result) (other : result ≠ .error .memoryNotAvailable) :
    u.kernel.Supplied plat 1 stval := by
  rcases run_of_closureEnds ends with ⟨t, ran⟩
  refine ⟨?_, ?_⟩
  · intro t' failed
    have same := ran.symm.trans failed
    cases same
    exact other rfl
  · intro stopped
    cases ran.symm.trans stopped

end Board

theorem first_growth_maps : ∃ u trace t, Run (Machine.Steps Board.plat) Board.boot trace u ∧
    trace.map Prod.snd = Board.grown ∧
    userTrap Board.plat (Board.faultAt 8192) u.kernel = .ok (.user, t) ∧
    HeapMapped u.kernel 1 t := by
  rcases Board.good_run_of_check Board.grown (fun u => decide (u.mode = .user ∧
      u.kernel.currentProcess = some 1 ∧ (u.kernel.object 1).heapStart = 8192 ∧
      (u.kernel.object 1).currentlyUnmappedStart = 8192 ∧ (u.kernel.object 1).heapEnd = 12288 ∧
      leafAt u.kernel.memory (u.kernel.object 1).pageTable 8192 = none ∧
      Board.closureEnds u 8192 = some (.ok ()))) (by decide +kernel) with
    ⟨u, trace, run, labels, good, holds⟩
  rcases of_decide_eq_true holds with ⟨isUser, current, start, unmapped, stop, vacant, ends⟩
  have heap : LazyHeap u.kernel 1 := by
    refine ⟨by omega, by omega, ?_, ?_⟩
    · intro va low high
      omega
    · intro va low high
      rw [unmapped] at low
      rw [stop] at high
      rw [leafAt_page _ _ 8192 va rfl low high]
      exact vacant
  have reserved : (u.kernel.object 1).Reserves 8192 := ⟨by omega, by omega, by omega⟩
  have maps := heap_fault_maps_iff Board.plat _ u trace Board.boot_booted run good u
    (Run.last_mem_visited trace u) isUser 1 current heap (Board.faultAt 8192) rfl reserved
  rcases maps.mpr (Or.inl (unmapped.trans start.symm))
    (Board.supplied_of_closureEnds ends (by simp)) with ⟨t, returned, mapped⟩
  exact ⟨u, trace, t, run, labels, returned, mapped⟩

/-- When the heap of the first process has grown for the second time, the fault that is to map the
new page does not return, although there is memory for it. -/
theorem second_growth_fails : ∃ u trace, Run (Machine.Steps Board.plat) Board.boot trace u ∧
    trace.map Prod.snd = Board.regrown ∧ u.mode = .user ∧ u.kernel.currentProcess = some 1 ∧
    LazyHeap u.kernel 1 ∧ (u.kernel.object 1).Reserves 12288 ∧
    u.kernel.Supplied Board.plat 1 12288 ∧
    ¬ ∃ t, userTrap Board.plat (Board.faultAt 12288) u.kernel = .ok (.user, t) ∧
      HeapMapped u.kernel 1 t := by
  rcases Board.run_of_check Board.regrown (fun u => decide (u.mode = .user ∧
      u.kernel.currentProcess = some 1 ∧ u.kernel.held = [] ∧
      (u.kernel.object 1).heapStart = 8192 ∧
      (u.kernel.object 1).currentlyUnmappedStart = 12288 ∧ (u.kernel.object 1).heapEnd = 16384 ∧
      (leafAt u.kernel.memory (u.kernel.object 1).pageTable 8192).map (fun entry =>
        (entry.readable, entry.writeable, entry.userModeAccessible)) = some (true, true, true) ∧
      leafAt u.kernel.memory (u.kernel.object 1).pageTable 12288 = none ∧
      Board.closureEnds u 12288 =
        some (.error (.pageAlreadyMapped 8192 Board.plat.parameterAddress)))) (by decide +kernel) with
    ⟨u, trace, run, labels, holds⟩
  rcases of_decide_eq_true holds with
    ⟨isUser, current, idle, start, unmapped, stop, mapped, vacant, ends⟩
  rcases Option.map_eq_some_iff.mp mapped with ⟨entry, leaf, rights⟩
  have heap : LazyHeap u.kernel 1 := by
    refine ⟨by omega, by omega, ?_, ?_⟩
    · intro va low high
      rw [start] at low
      rw [unmapped] at high
      simp only [Prod.mk.injEq] at rights
      refine ⟨entry, ?_, rights.1, rights.2.1, rights.2.2⟩
      rw [leafAt_page _ _ 8192 va rfl low high]
      exact leaf
    · intro va low high
      rw [unmapped] at low
      rw [stop] at high
      rw [leafAt_page _ _ 12288 va rfl low high]
      exact vacant
  have reserved : (u.kernel.object 1).Reserves 12288 := ⟨by omega, by omega, by omega⟩
  refine ⟨u, trace, run, labels, isUser, current, heap, reserved,
    Board.supplied_of_closureEnds ends (by simp), ?_⟩
  rintro ⟨t, returned, -⟩
  rcases Board.run_of_closureEnds ends with ⟨t', ran⟩
  have failed : ∀ w, (growHeap Board.plat 1 (Board.faultAt 12288).stval).run (u.kernel.locked 1) ≠
      .ok (.ok (), w) := by
    intro w other
    cases ran.symm.trans other
  exact wp_of_returns (wp_userTrap_failed Board.plat idle current rfl failed) returned

section Results

variable (plat : Platform) (m m' : Machine) (trace : List (Machine × Event))

/-- A page fault makes progress exactly when it strikes the reserved part of the heap, at an address
that the hardware translates or where the handler cannot map the heap and so does not return. -/
theorem page_fault_progresses_iff (booted : m.Booted plat)
    (run : Run (Machine.Steps plat) m trace m')
    (good : ∀ step ∈ trace, ∀ image, step.1.Loads plat step.2 image → GoodImage plat image) :
    ∀ u ∈ Run.visited trace m', u.mode = .user → ∀ p, u.kernel.currentProcess = some p →
      ∀ info : TrapInfo, info.isPageFault = .ok true →
        ((∀ mode t, userTrap plat info u.kernel = .ok (mode, t) → Progressed u.kernel p info t) ↔
          (u.kernel.object p).Reserves info.stval ∧ (Sv48.Canonical info.stval ∨
            ¬ (HeapVacant u.kernel p ∧ u.kernel.Supplied plat p info.stval))) := by
  intro u visited isUser p current info isFault
  rcases Machine.separated_of_run booted run good u visited with ⟨orderly, separated⟩
  have works : u.WorksFor p := Machine.worksFor_of_user isUser current
  rcases works.working orderly separated with ⟨root, tf, working⟩
  have granted := Machine.heapsGranted_of_run booted run good u visited p working.present
    working.alive
  exact progress_iff booted.placed working orderly.held
    (Machine.not_present_of_orderly orderly) granted isFault

end Results

theorem heap_fault_progresses : ∃ u trace, Run (Machine.Steps Board.plat) Board.boot trace u ∧
    trace.map Prod.snd = Board.grown ∧
    ∀ mode t, userTrap Board.plat (Board.faultAt 8192) u.kernel = .ok (mode, t) →
      Progressed u.kernel 1 (Board.faultAt 8192) t := by
  rcases Board.good_run_of_check Board.grown (fun u => decide (u.mode = .user ∧
      u.kernel.currentProcess = some 1 ∧ (u.kernel.object 1).currentlyUnmappedStart = 8192 ∧
      (u.kernel.object 1).heapEnd = 12288)) (by decide +kernel) with
    ⟨u, trace, run, labels, good, holds⟩
  rcases of_decide_eq_true holds with ⟨isUser, current, unmapped, stop⟩
  have reserved : (u.kernel.object 1).Reserves 8192 := ⟨by omega, by omega, by omega⟩
  refine ⟨u, trace, run, labels, ?_⟩
  exact (page_fault_progresses_iff Board.plat _ u trace Board.boot_booted run good u
    (Run.last_mem_visited trace u) isUser 1 current (Board.faultAt 8192) rfl).mpr
    ⟨reserved, Or.inl (by decide)⟩

/-- The first process stores to address 0, and is sent back to that store: it has not terminated,
and all its mappings are as before. -/
theorem null_store_repeats : ∃ u trace, Run (Machine.Steps Board.plat) Board.boot trace u ∧
    trace.map Prod.snd = Board.started ∧ u.mode = .user ∧ u.kernel.currentProcess = some 1 ∧
    ∃ t, userTrap Board.plat (Board.faultAt 0) u.kernel = .ok (.user, t) ∧ Alive (t.object 1) ∧
      ¬ Permits t.memory (u.kernel.object 1).pageTable (Board.faultAt 0) ∧
      t.memory = u.kernel.memory := by
  rcases Board.run_of_check Board.started (fun u => decide (u.mode = .user ∧
      u.kernel.currentProcess = some 1 ∧ u.kernel.held = [] ∧ u.stateOf 1 = .running ∧
      (u.kernel.object 1).currentlyUnmappedStart = (u.kernel.object 1).heapEnd ∧
      (u.kernel.object 1).pageTable < usizeBound ∧ (u.kernel.object 1).pageTable % pageSize = 0 ∧
      leafAt u.kernel.memory (u.kernel.object 1).pageTable 0 = none)) (by decide +kernel) with
    ⟨u, trace, run, labels, holds⟩
  rcases of_decide_eq_true holds with
    ⟨isUser, current, idle, runs, level, bounded, aligned, vacant⟩
  have stray : ¬ (u.kernel.object 1).Reserves (Board.faultAt 0).stval := fun inside => inside.1 level
  have ran := growHeap_stray Board.plat stray
  rcases returned_of_wp (wp_userTrap_grown Board.plat idle current rfl ran) with
    ⟨mode, t, returned, rfl, rfl⟩
  refine ⟨u, trace, run, labels, isUser, current, _, returned, ?_, ?_, rfl⟩
  · intro r terminated
    rw [GlobalState.caughtUp] at terminated
    simp only [Function.update_self] at terminated
    cases terminated.symm.trans runs
  · rw [permits_iff bounded aligned (by decide)]
    rintro ⟨-, entry, leaf, -⟩
    cases vacant.symm.trans leaf

end Jangri
