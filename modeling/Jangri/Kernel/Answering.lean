import Jangri.Kernel.Blocking
import Jangri.Kernel.Confinement

namespace Jangri

open Lib

/-- The slice can be read at `pa`: its start is mapped, and as many bytes as it has follow in RAM
from there on. -/
structure UserMemorySlice.Spans (plat : Platform) (slice : UserMemorySlice) (s : GlobalState) (pa : Nat) :
    Prop where
  bounded : slice.start < usizeBound
  mapped : ∃ entry, leafAt s.memory slice.pageTable slice.start = some entry ∧
    pa = entry.getPhysicalAddress + slice.start % pageSize
  notNull : pa ≠ 0
  small : slice.size ≤ isizeMax
  inside : s.InRam plat.kernelStart pa slice.size

def GlobalState.sepc (s : GlobalState) (p : Nat) : Nat :=
  s.memory.read ((s.object p).trapframe + TrapFrame.sepc) 8

def GlobalState.advanced (s : GlobalState) (p : Nat) : GlobalState :=
  { s with
    memory := s.memory.write ((s.object p).trapframe + TrapFrame.sepc) 8 (s.sepc p + 4) }

def GlobalState.Admits (plat : Platform) (s : GlobalState) (p : Nat) : Syscall → Prop
  | .wantMemory size => size % pageSize = 0 ∧ (s.object p).heapEnd + size < usizeBound
  | .write start len => ∃ pa, (⟨start, (s.object p).pageTable, len⟩ : UserMemorySlice).Spans plat s pa ∧
      ByteArray.validateUTF8 ⟨(s.memory.load pa len).toArray⟩ = true
  | .readChar | .exit _ | .yield => True
  | .spawn nameStart nameLen start len wait => ∃ result t,
      (spawn plat p nameStart nameLen start len wait (s.object p).pageTable).run s = .ok (result, t)
  | .shutdown => False

/-- The current process has its communication page, in which it has left a request that the kernel
can perform, and its `ecall` is not at the very end of memory. -/
structure GlobalState.Answerable (plat : Platform) (s : GlobalState) (p : Nat) : Prop where
  sepc : s.sepc p + 4 < usizeBound
  request : ∃ entry request, leafAt s.memory (s.object p).pageTable kucomPage = some entry ∧
    plat.layout.decode (s.memory.load entry.getPhysicalAddress plat.layout.size) =
      .syscall request ∧ (s.advanced p).Admits plat p request

section Slices

variable {plat : Platform} {s : GlobalState}

theorem va2pa_run (plat : Platform) (available : .arch ∉ s.held) (pageTable va : Nat) :
    ∃ r, (translate plat va pageTable).run s = .ok (r, s) ∧
      ∀ pa, r = .ok pa ↔ va < usizeBound ∧ ∃ entry, leafAt s.memory pageTable va = some entry ∧
        pa = entry.getPhysicalAddress + va % pageSize := by
  have opened : ∀ r, ((arch plat).va2pa pageTable va).run { s with held := .arch :: s.held } =
      .ok (r, { s with held := .arch :: s.held }) → (translate plat va pageTable).run s = .ok (r, s) := by
    intro r ran
    have spec : wp (translate plat va pageTable).run (fun r' t => r' = r ∧ t = s)
        (fun _ => False) s := by
      change wp (withLock _ _) _ _ _
      rw [wp_withLock _ _ _ available, wp_def, ran]
      exact ⟨rfl, by simp only [List.erase_cons_head]⟩
    rw [wp_def] at spec
    split at spec
    next r' t returned =>
      rw [returned, spec.1, spec.2]
    next => exact spec.elim
  by_cases small : va < usizeBound
  · rcases va2pa_reads (arch plat) pageTable va small { s with held := .arch :: s.held } with
      ⟨r, ran, found⟩
    refine ⟨r, opened r ran, ?_⟩
    intro pa
    rw [found pa]
    exact ⟨fun leaf => ⟨small, leaf⟩, fun known => known.2⟩
  · have large : va / pageSize * pageSize > maxVa := by
      simp only [usizeBound, pageSize, maxVa] at *
      omega
    refine ⟨.error (.virtualAddressOverflow (va / pageSize * pageSize)), opened _ ?_, ?_⟩
    · rw [Riscv.va2pa, getPageTableEntryAddress, if_pos large]
      rfl
    · intro pa
      constructor
      · intro impossible
        cases impossible
      · intro known
        exact absurd known.1 small

/-- A slice is read exactly where it spans memory. -/
theorem wp_sliceRead_iff {halts : Halt → Prop} (available : .arch ∉ s.held) (slice : UserMemorySlice)
    (post : List UInt8 → GlobalState → Prop)
    (reads : ∀ pa, slice.Spans plat s pa → post (s.memory.load pa slice.size) s)
    (stops : (∀ pa, ¬ slice.Spans plat s pa) → ∀ e, halts e) :
    wp (slice.read plat (translate plat)) post halts s := by
  rcases va2pa_run plat available slice.pageTable slice.start with ⟨r, ran, found⟩
  rw [UserMemorySlice.read, wp_bind, unwrapResult, wp_bind, wp_def, ran]
  simp only
  cases r with
  | error e =>
      rw [wp_def]
      apply stops
      intro pa spans
      have impossible := (found pa).mpr ⟨spans.bounded, spans.mapped⟩
      cases impossible
  | ok pa =>
      have known := (found pa).mp rfl
      have only : ∀ pa', slice.Spans plat s pa' → pa' = pa := by
        intro pa' spans
        have same := (found pa').mpr ⟨spans.bounded, spans.mapped⟩
        exact (Except.ok.inj same).symm
      rw [wp_pure, wp_bind, wp_liftRust]
      by_cases bad : pa = 0 ∨ slice.size > isizeMax
      · rw [fromRawParts, if_pos bad]
        apply stops
        intro pa' spans
        have same := only pa' spans
        subst same
        rcases bad with null | large
        · exact spans.notNull null
        · exact absurd spans.small (by omega)
      · rw [fromRawParts, if_neg bad]
        simp only [pure_eq_ok]
        rw [wp_def, loadMapped]
        by_cases inside : s.InRam plat.kernelStart pa slice.size
        · rw [if_pos inside]
          apply reads
          exact ⟨known.1, known.2, fun null => bad (Or.inl null), by omega, inside⟩
        · rw [if_neg inside]
          apply stops
          intro pa' spans
          have same := only pa' spans
          subst same
          exact inside spans.inside

end Slices

section Leaving

variable {plat : Platform} {scene : Scene} {halts : Halt → Prop} {s : GlobalState}

theorem wp_currentProcess_some {p : Nat} (idle : s.held = []) (current : s.currentProcess = some p)
    (post : Nat → GlobalState → Prop) (found : post p s) : wp currentProcess post halts s := by
  rw [currentProcess, wp_bind, wp_getCurrentProcess (by simp [idle]), wp_liftRust, current]
  exact found

theorem wp_switchAway_some {p : Nat} (idle : s.held = []) (current : s.currentProcess = some p)
    (context : Context) : wp (switchToSchedulerContext context) (fun _ _ => True) halts s := by
  rw [switchToSchedulerContext]
  apply (wp_bind currentProcess _ _).mpr
  apply wp_currentProcess_some idle current
  rw [wp_bind, wp_withLock _ _ _ (by simp [idle]), wp_pure, wp_modifyObject]
  trivial

theorem wp_yieldCpu_some {p : Nat} (idle : s.held = []) (current : s.currentProcess = some p)
    (context : Context) : wp (yieldCpu context) (fun _ _ => True) halts s := by
  rw [yieldCpu, wp_bind, wp_bind, wp_getCurrentProcess (by simp [idle]), wp_liftRust, current]
  simp only [expect, pure_eq_ok]
  rw [wp_bind, wp_withLock _ _ _ (by simp [idle]), wp_modifyObject]
  apply wp_switchAway_some
  · simp only [List.erase_cons_head]
    exact idle
  · exact current

theorem wpr_cleanupPageTable_returns (attached : Attached plat scene ∅ s)
    (free : ∀ mutex ∈ [Lock.arch, Lock.allocator], mutex ∉ s.held) :
    wpr (GlobalState.cleanupPageTable plat scene.root)
      (fun _ t => t.currentProcess = scene.current ∧ t.held = s.held) (fun _ _ => False) halts s := by
  rcases attached with ⟨U, -, rooted, fitted⟩
  have unlocked : Lock.allocator ∉ Lock.arch :: s.held := by
    intro taken
    rcases List.mem_cons.mp taken with same | held
    · cases same
    · exact free _ (by simp) held
  have cleaned : wpr ((arch plat).cleanUpPageTable scene.root)
      (fun _ t => World plat scene U ∅ t ∧ t.held = .arch :: s.held) (fun _ _ => False) halts
      { s with held := .arch :: s.held } :=
    cleanUpPageTable_spec (arch plat) (pageSink_unlocked plat scene U unlocked) rooted.1
      (rights_of_leaves fitted.rights) ⟨rooted.2, rfl⟩
  rw [GlobalState.cleanupPageTable, wpr_guarded _ _ _ _ (free _ (by simp))]
  apply wpr_weaken cleaned
  · intro _ t done
    refine ⟨done.1.2.current, ?_⟩
    simp only [done.2, List.erase_cons_head]
  · exact fun _ _ h => h

theorem wp_releaseTables_returns (attached : Attached plat scene ∅ s) (idle : s.held = []) :
    wp (releaseTables plat scene.pid) (fun _ t => t.currentProcess = scene.current ∧ t.held = [])
      halts s := by
  have emptied : Attached plat scene ∅ { s with
      held := [.process scene.pid]
      object := Function.update s.object scene.pid
        { s.object scene.pid with children := [] } } := by
    apply attached_stable { s with
      object := Function.update s.object scene.pid { s.object scene.pid with children := [] } }
    · exact ⟨rfl, rfl, rfl, rfl, rfl⟩
    · have keeps : Preserves (Attached plat scene ∅)
          (modifyObject scene.pid fun process => { process with children := [] }) :=
        preserves_modifyOwn _ fun _ => ⟨rfl, rfl, rfl, Iff.rfl⟩
      exact keeps.returned attached rfl
  have free : ∀ mutex ∈ [Lock.arch, Lock.allocator], mutex ∉ [Lock.process scene.pid] := by
    simp
  rw [releaseTables, wp_withLock _ _ _ (by simp [idle]), idle]
  simp only [wp_bind, wp_modifyObject, wp_getObject, Function.update_self]
  have cleaned : wpr (GlobalState.cleanupPageTable plat scene.root) _ _ halts _ :=
    wpr_cleanupPageTable_returns emptied free
  unfold wpr at cleaned
  rw [← attached.onstage.root] at cleaned
  rw [unwrapResult, wp_bind]
  apply wp_weaken cleaned
  intro r t done
  cases r with
  | error e => exact done.elim
  | ok _ =>
      rw [wp_pure]
      refine ⟨done.1, ?_⟩
      simp only [done.2, List.erase_cons_head]

theorem wp_exit_returns (attached : Attached plat scene ∅ s) (idle : s.held = [])
    (current : scene.current = some scene.pid) (isPid : (s.object scene.pid).id = scene.pid)
    (notSelf : (s.object scene.pid).parent ≠ some scene.pid) (status : Except Fault Nat) :
    wp (exit plat status) (fun _ _ => True) halts s := by
  have isCurrent : s.currentProcess = some scene.pid := attached.onstage.current.trans current
  rw [exit, wp_bind]
  apply wp_currentProcess_some idle isCurrent
  rw [wp_bind, terminate, wp_withLock _ _ _ (by simp [idle])]
  simp only [wp_bind, wp_modifyObject, wp_getObject, wp_pure, List.erase_cons_head,
    Function.update_self]
  have told : ∀ t : GlobalState, t.held = [] →
      wp (notifyParent scene.pid (s.object scene.pid).id (s.object scene.pid).parent)
        (fun _ u => u.held = []) halts t := by
    intro t idleT
    rw [isPid]
    apply wp_weaken (wp_notifyParent scene.pid _ idleT notSelf)
    exact fun _ u same => (congrArg View.held same).trans idleT
  apply wp_mono (wp_and (told _ ?unlocked) (preserves_notifyParent _ _ _ _ (attached.doom status)))
  case unlocked => exact idle
  case stops => exact fun _ h => h.1
  intro _ s₁ done
  apply wp_weaken (wp_releaseTables_returns done.2 done.1)
  intro _ s₂ released
  exact wp_switchAway_some released.2 (released.1.trans current) .exit

end Leaving

section Answers

variable {plat : Platform} {p root tf : Nat} {origin s : GlobalState} {halts : Halt → Prop}

theorem Separated.kucom_accessible (separated : Separated plat s) (present : p ∈ s.processes)
    (alive : Alive (s.object p)) {entry : PageTableEntry}
    (leaf : leafAt s.memory (s.object p).pageTable kucomPage = some entry) :
    entry.userModeAccessible = true := by
  rcases separated.isolated with ⟨free, live, owner, isolated⟩
  have space := isolated.spaces p present alive
  cases user : entry.userModeAccessible with
  | true => rfl
  | false =>
      rcases space.others kucomPage entry leaf user with same | same
      · exact absurd same (by decide)
      · exact absurd same (by decide)

theorem Working.kucom_accessible (working : Working plat p root tf origin s) {entry : PageTableEntry}
    (leaf : leafAt s.memory root kucomPage = some entry) : entry.userModeAccessible = true := by
  apply working.separated.kucom_accessible working.present working.alive
  rw [working.root]
  exact leaf

theorem Working.kucom (working : Working plat p root tf origin s) {entry : PageTableEntry}
    (leaf : leafAt s.memory root kucomPage = some entry) :
    entry.getPhysicalAddress ≠ 0 ∧ plat.kernelEnd ≤ entry.getPhysicalAddress ∧
      entry.getPhysicalAddress + pageSize ≤ s.allocator.memoryEnd := by
  have accessible := working.kucom_accessible leaf
  rcases working.separated.isolated with ⟨free, live, owner, isolated⟩
  have space := isolated.spaces p working.present working.alive
  rw [working.root] at space
  have holds := space.users kucomPage entry leaf accessible
  have notNull := isolated.wf.notNull
  have start := isolated.start
  rcases holds entry.getPhysicalAddress (le_refl _) (Nat.lt_add_of_pos_right (by decide)) with
    ⟨first, present, -, within⟩
  rcases holds (entry.getPhysicalAddress + (pageSize - 1)) (by omega) (by simp [pageSize]) with
    ⟨last, presentLast, -, withinLast⟩
  have low := isolated.wf.live_inside first present
  have high := isolated.wf.live_inside last presentLast
  have above := within.1
  have below := withinLast.2
  simp only [pageSize] at *
  refine ⟨?_, ?_, ?_⟩ <;> omega

/-- A result can be written whenever the process has its communication page. -/
theorem wp_writeResult_returns (working : Working plat p root tf origin s) (idle : s.held = [])
    {entry : PageTableEntry} (leaf : leafAt s.memory root kucomPage = some entry)
    (result : SyscallResult) : wp (writeResult plat root result) (fun _ _ => True) halts s := by
  rcases va2pa_run plat (s := s) (by simp [idle]) root kucomPage with ⟨r, ran, found⟩
  have translated := (found _).mpr ⟨by decide, entry, leaf, rfl⟩
  have start : kucomPage % pageSize = 0 := by decide
  have bounds := working.kucom leaf
  have fine : ¬ (entry.getPhysicalAddress + kucomPage % pageSize = 0 ∨
      min pageSize (plat.layout.encode (.syscallResult result)).length > isizeMax) := by
    have small : pageSize ≤ isizeMax := by decide
    omega
  rw [writeResult, UserMemorySlice.write, wp_bind, unwrapResult, wp_bind, wp_def, ran, translated]
  simp only
  rw [wp_pure, wp_bind, wp_liftRust, fromRawParts, if_neg fine]
  simp only [pure_eq_ok]
  apply wp_storeMapped plat
  · intro _
    rw [wp_def]
    trivial
  · intro outside
    have rest := plat.rest
    have short := List.length_take_le (min pageSize (plat.layout.encode (.syscallResult result)).length)
      (plat.layout.encode (.syscallResult result))
    exact absurd (Or.inr ⟨by omega, by omega⟩) outside

def extended (s : GlobalState) (p size : Nat) : GlobalState :=
  { s with
    object := Function.update s.object p
      { s.object p with heapEnd := (s.object p).heapEnd + size } }

/-- A refusal that changes nothing, or a grant of what follows the end of the heap. -/
def HeapAnswer (s : GlobalState) (p size : Nat) (r : Except Error (Nat × Nat)) (t : GlobalState) : Prop :=
  (r = .error .memoryNotAvailable ∧ stackGuard ≤ (s.object p).heapEnd + size ∧ t = s) ∨
    (r = .ok ((s.object p).heapEnd, size) ∧ (s.object p).heapEnd + size < stackGuard ∧
      t = extended s p size)

theorem wp_wantMemory_exact (idle : s.held = []) (current : s.currentProcess = some p) (size : Nat) :
    wp (wantMemory size).run
      (fun r t => (size % pageSize = 0 ∧ (s.object p).heapEnd + size < usizeBound) ∧ HeapAnswer s p size r t)
      (fun _ => ¬ (size % pageSize = 0 ∧ (s.object p).heapEnd + size < usizeBound)) s := by
  have unlocked : { s with held := [] } = s := by rw [← idle]
  have spec : wpr (wantMemory size)
      (fun a t => (size % pageSize = 0 ∧ (s.object p).heapEnd + size < usizeBound) ∧
        HeapAnswer s p size (.ok a) t)
      (fun e t => (size % pageSize = 0 ∧ (s.object p).heapEnd + size < usizeBound) ∧
        HeapAnswer s p size (.error e) t)
      (fun _ => ¬ (size % pageSize = 0 ∧ (s.object p).heapEnd + size < usizeBound)) s := by
    rw [wantMemory, wpr_bind, wpr_lift]
    apply wp_currentProcess_some idle current
    rw [wpr_guarded _ _ _ _ (by simp [idle]), extendHeap]
    simp only [wpr_bind, wpr_lift, wp_getObject, wp_liftRust]
    by_cases aligned : size % pageSize = 0
    · have whole : size / pageSize * pageSize = size := Nat.div_mul_cancel (Nat.dvd_of_mod_eq_zero aligned)
      rw [assert_of_true _ _ aligned]
      simp only [usizeMul, usizeAdd, whole]
      by_cases fits : (s.object p).heapEnd + size < usizeBound
      · have small : size < usizeBound := by omega
        have back : size ≤ (s.object p).heapEnd + size := by omega
        simp only [small, fits, if_true, pure_eq_ok, wpr_ite]
        split
        next full =>
          rw [wpr_throw]
          refine ⟨⟨aligned, trivial⟩, Or.inl ⟨rfl, full, ?_⟩⟩
          simpa [idle] using unlocked
        next room =>
          simp only [wpr_bind, wpr_lift, wp_modifyObject, wp_liftRust, usizeSub, back, if_true,
            pure_eq_ok, wpr_pure]
          refine ⟨⟨aligned, trivial⟩, Or.inr ⟨?_, by omega, ?_⟩⟩
          · rw [Nat.add_sub_cancel]
          · simp [idle, extended]
      · by_cases small : size < usizeBound
        · simp only [small, fits, if_true, if_false, pure_eq_ok, panic]
          simp
        · simp only [small, if_false, panic]
          simp [fits]
    · rw [assert, if_neg aligned]
      simp only [panic]
      exact fun both => aligned both.1
  unfold wpr at spec
  apply wp_weaken spec
  intro r t done
  cases r with
  | ok a => exact done
  | error e => exact done

theorem wp_dequeueInput_returns (idle : s.held = []) :
    wp dequeueInput (fun _ t => t.memory = s.memory ∧ t.held = []) halts s := by
  rw [dequeueInput, wp_withLock _ _ _ (by simp [idle]), wp_def]
  cases s.inputBuffer with
  | nil => simp [idle]
  | cons byte rest => simp [idle]

theorem UserMemorySlice.Spans.unique {slice : UserMemorySlice} {pa pa' : Nat}
    (first : slice.Spans plat s pa) (second : slice.Spans plat s pa') : pa = pa' := by
  rcases first.mapped with ⟨entry, leaf, rfl⟩
  rcases second.mapped with ⟨entry', leaf', rfl⟩
  have same := leaf.symm.trans leaf'
  cases same
  rfl

theorem wp_answered {P : Prop} (holds : P) (working : Working plat p root tf origin s)
    (idle : s.held = []) {entry : PageTableEntry}
    (leaf : leafAt s.memory root kucomPage = some entry) (result : SyscallResult) :
    wp (writeResult plat root result >>= fun _ => pure true) (fun _ _ => P) (fun _ => ¬ P) s := by
  rw [wp_bind]
  apply wp_weaken (wp_writeResult_returns working idle leaf result)
  intro _ u _
  rw [wp_pure]
  exact holds

theorem wp_perform_wantMemory_iff (working : Working plat p root tf origin s) (idle : s.held = [])
    {entry : PageTableEntry} (leaf : leafAt s.memory root kucomPage = some entry) (size : Nat) :
    wp (perform plat p tf root (.wantMemory size)) (fun _ _ => s.Admits plat p (.wantMemory size))
      (fun _ => ¬ s.Admits plat p (.wantMemory size)) s := by
  have grants : Preserves (Working plat p root tf origin) (wantMemory size).run :=
    preserves_working fun _ isPid _ _ current => preserves_wantMemory (by rw [isPid, current]) size
  rw [perform, wp_bind]
  apply wp_mono (wp_and (wp_wantMemory_exact idle working.current size) (grants s working))
  · intro result t done
    rcases done with ⟨⟨admits, answer⟩, workingT⟩
    have same : t.memory = s.memory ∧ t.held = s.held := by
      rcases answer with ⟨-, -, rfl⟩ | ⟨-, -, rfl⟩
      · exact ⟨rfl, rfl⟩
      · exact ⟨rfl, rfl⟩
    apply wp_answered admits workingT (same.2.trans idle)
    rw [same.1]
    exact leaf
  · exact fun _ h => h.1

theorem wp_perform_write_iff (working : Working plat p root tf origin s) (idle : s.held = [])
    {entry : PageTableEntry} (leaf : leafAt s.memory root kucomPage = some entry) (start len : Nat) :
    wp (perform plat p tf root (.write start len)) (fun _ _ => s.Admits plat p (.write start len))
      (fun _ => ¬ s.Admits plat p (.write start len)) s := by
  have isRoot := working.root
  rw [perform, wp_bind]
  apply wp_sliceRead_iff (by simp [idle])
  · intro pa spans
    rw [wp_bind, wp_liftRust, fromUtf8]
    by_cases valid : ByteArray.validateUTF8 ⟨(s.memory.load pa len).toArray⟩ = true
    · rw [if_pos valid, unwrap]
      simp only [pure_eq_ok]
      rw [wp_bind, wp_def, consoleWrite]
      simp only
      have admits : s.Admits plat p (.write start len) := by
        refine ⟨pa, ?_, valid⟩
        rw [isRoot]
        exact spans
      apply wp_answered admits
      · exact working_stable s _ ⟨rfl, rfl, rfl, rfl, rfl⟩ working
      · exact idle
      · exact leaf
    · rw [if_neg valid, unwrap]
      simp only [panic]
      intro admits
      rcases admits with ⟨pa', spans', valid'⟩
      rw [isRoot] at spans'
      rw [spans'.unique spans] at valid'
      exact valid valid'
  · intro none_ _ admits
    rcases admits with ⟨pa, spans, -⟩
    rw [isRoot] at spans
    exact none_ pa spans

theorem wp_perform_spawn_iff (placed : Placed plat) (working : Working plat p root tf origin s)
    (idle : s.held = []) (new : s.pid + 1 ∉ s.processes) {entry : PageTableEntry}
    (leaf : leafAt s.memory root kucomPage = some entry) (nameStart nameLen start len : Nat)
    (wait : Bool)
    (good : ∀ name image s₁ s₂,
      UserMemorySlice.read ⟨nameStart, root, nameLen⟩ plat (translate plat) s = .ok (name, s₁) →
      UserMemorySlice.read ⟨start, root, len⟩ plat (translate plat) s₁ = .ok (image, s₂) →
      GoodImage plat image) :
    wp (perform plat p tf root (.spawn nameStart nameLen start len wait))
      (fun _ _ => s.Admits plat p (.spawn nameStart nameLen start len wait))
      (fun _ => ¬ s.Admits plat p (.spawn nameStart nameLen start len wait)) s := by
  have isRoot := working.root
  have spawned := wpr_spawn placed working new nameStart nameLen start len wait good
  have quiet : wpr (spawn plat p nameStart nameLen start len wait root)
      (fun _ t => t.held = []) (fun _ t => t.held = []) Any s := by
    have old : p ≠ s.pid + 1 := by
      rintro rfl
      exact new working.present
    apply wpr_weaken (wp_spawn (fun _ _ => trivial) plat p nameStart nameLen start len wait root
      idle old)
    · exact fun _ t same => (congrArg View.held same.2).trans idle
    · exact fun _ t same => (congrArg View.held same).trans idle
  unfold wpr at spawned quiet
  rw [perform, wp_bind]
  apply wp_mono (wp_and (wp_run _) (wp_and spawned quiet))
  · intro r t done
    rcases done with ⟨ran, kept, unlocked⟩
    have both : (Working plat p root tf origin t ∧ Untouched s t p) ∧ t.held = [] := by
      cases r with
      | ok child => exact ⟨kept, unlocked⟩
      | error e => exact ⟨kept, unlocked⟩
    have admits : s.Admits plat p (.spawn nameStart nameLen start len wait) := by
      refine ⟨r, t, ?_⟩
      rw [isRoot]
      exact ran
    apply wp_answered admits both.1.1 both.2
    rw [both.1.2.leaf working]
    exact leaf
  · intro _ stopped admits
    rcases admits with ⟨r, t, returned⟩
    rw [isRoot] at returned
    exact stopped.1 r t returned

/-- `perform` returns exactly for the requests the process may make. -/
theorem wp_perform_iff (placed : Placed plat) (working : Working plat p root tf origin s)
    (idle : s.held = []) (isPid : (s.object p).id = p) (notSelf : (s.object p).parent ≠ some p)
    (new : s.pid + 1 ∉ s.processes) {entry : PageTableEntry}
    (leaf : leafAt s.memory root kucomPage = some entry) (request : Syscall)
    (good : ∀ nameStart nameLen start len wait name image s₁ s₂,
      request = .spawn nameStart nameLen start len wait →
      UserMemorySlice.read ⟨nameStart, root, nameLen⟩ plat (translate plat) s = .ok (name, s₁) →
      UserMemorySlice.read ⟨start, root, len⟩ plat (translate plat) s₁ = .ok (image, s₂) →
      GoodImage plat image) :
    wp (perform plat p tf root request) (fun _ _ => s.Admits plat p request)
      (fun _ => ¬ s.Admits plat p request) s := by
  cases request with
  | wantMemory size => exact wp_perform_wantMemory_iff working idle leaf size
  | write start len => exact wp_perform_write_iff working idle leaf start len
  | readChar =>
      rw [perform, wp_bind]
      apply wp_mono (wp_and (wp_dequeueInput_returns idle)
        (preserves_dequeueInput working_stable s working))
      · intro char t done
        rcases done with ⟨⟨same, idleT⟩, workingT⟩
        have admits : s.Admits plat p .readChar := trivial
        apply wp_answered admits workingT idleT
        rw [same]
        exact leaf
      · exact fun _ h => h.1
  | exit status =>
      rcases working.separated.attach working.present working.alive with ⟨foreign, -, attached⟩
      rw [perform, wp_bind]
      apply wp_weaken (wp_exit_returns attached idle working.current isPid notSelf _)
      intro _ t _
      rw [wp_pure]
      trivial
  | spawn nameStart nameLen start len wait =>
      exact wp_perform_spawn_iff placed working idle new leaf nameStart nameLen start len wait
        (fun name image s₁ s₂ => good _ _ _ _ _ name image s₁ s₂ rfl)
  | yield =>
      rw [perform, wp_bind]
      apply wp_weaken (wp_yieldCpu_some idle working.current _)
      intro _ t _
      rw [wp_pure]
      trivial
  | shutdown =>
      rw [perform, wp_def]
      exact fun admits => admits

theorem Working.advanced_of_held (working : Working plat p root tf origin s) {free : Nat → List Nat}
    {live : List Block} {owner : Nat → Owner}
    (isolated : Isolated plat s.processes s.object s.allocator s.memory free live owner)
    {o : Owner} {x : Nat} (held : Held live owner o x) (other : o ≠ .trapframe p) :
    (s.advanced p).memory x = s.memory x := by
  apply if_neg
  intro inside
  have frame := isolated.frames p working.present x (by omega) (by
    simp only [TrapFrame.sepc, pageSize] at *
    omega)
  exact other (held_unique isolated.wf held frame)

theorem Working.leaf_advanced (working : Working plat p root tf origin s) (va : Nat) :
    leafAt (s.advanced p).memory root va = leafAt s.memory root va := by
  rcases working.separated.isolated with ⟨free, live, owner, isolated⟩
  have space := isolated.spaces p working.present working.alive
  rw [working.root] at space
  apply leafAt_congr
  intro t page x low high
  have known := space.pages t page
  exact working.advanced_of_held isolated ⟨_, known.1, known.2, low, high⟩ (by simp)

theorem Working.kucom_advanced (working : Working plat p root tf origin s) {entry : PageTableEntry}
    (leaf : leafAt s.memory root kucomPage = some entry) (count : Nat) (small : count ≤ pageSize) :
    (s.advanced p).memory.load entry.getPhysicalAddress count =
      s.memory.load entry.getPhysicalAddress count := by
  rcases working.separated.isolated with ⟨free, live, owner, isolated⟩
  have space := isolated.spaces p working.present working.alive
  rw [working.root] at space
  have accessible := working.kucom_accessible leaf
  apply List.map_congr_left
  intro i member
  have low := List.mem_range.mp member
  have held := space.users kucomPage entry leaf accessible (entry.getPhysicalAddress + i) (by omega)
    (by omega)
  exact working.advanced_of_held isolated held (by simp)

theorem wp_readRequest_iff (working : Working plat p root tf origin s) (idle : s.held = [])
    (stops : (∀ entry, leafAt s.memory root kucomPage ≠ some entry) → ∀ e, halts e) :
    wp (readRequest plat root) (fun info t => t = s ∧ ∃ entry,
      leafAt s.memory root kucomPage = some entry ∧
      info = plat.layout.decode (s.memory.load entry.getPhysicalAddress plat.layout.size)) halts s := by
  have spans : ∀ entry, leafAt s.memory root kucomPage = some entry →
      (⟨kucomPage, root, pageSize⟩ : UserMemorySlice).Spans plat s entry.getPhysicalAddress := by
    intro entry leaf
    have bounds := working.kucom leaf
    have start : kucomPage % pageSize = 0 := by decide
    have low : kucomPage < usizeBound := by decide
    have small : pageSize ≤ isizeMax := by decide
    have text := plat.text
    have rest := plat.rest
    exact ⟨low, ⟨entry, leaf, by rw [start, Nat.add_zero]⟩, bounds.1, small,
      Or.inr ⟨by omega, bounds.2.2⟩⟩
  rw [readRequest, wp_bind]
  apply wp_sliceRead_iff (by simp [idle])
  case reads =>
    intro pa spansPa
    rcases spansPa.mapped with ⟨entry, leaf, -⟩
    have isStart := spansPa.unique (spans entry leaf)
    subst isStart
    rw [wp_pure, Memory.load_take _ _ _ _ plat.layout.fits]
    exact ⟨rfl, entry, leaf, rfl⟩
  case stops =>
    intro none_
    apply stops
    intro entry leaf
    exact none_ _ (spans entry leaf)

theorem wp_handleSyscall_iff (stops : ¬ s.sepc p + 4 < usizeBound → ∀ e, halts e) :
    wp (handleSyscall (s.object p).trapframe) (fun _ t => t = s.advanced p ∧
      s.sepc p + 4 < usizeBound) halts s := by
  have isSepc : s.memory.read ((s.object p).trapframe + TrapFrame.sepc) 8 = s.sepc p := rfl
  rw [handleSyscall, wp_bind, wp_def, loadWord, isSepc]
  simp only
  rw [wp_bind, wp_liftRust]
  cases added : usizeAdd (s.sepc p) 4 with
  | ok next =>
      rcases (usizeAdd_eq_ok _ _ _).mp added with ⟨fits, rfl⟩
      simp only
      rw [wp_def, storeWord]
      exact ⟨rfl, fits⟩
  | error e =>
      apply stops
      intro fits
      have impossible := (usizeAdd_eq_ok _ _ _).mpr ⟨fits, rfl⟩
      rw [added] at impossible
      cases impossible

/-- `handle` returns exactly from the states in which the current process can be answered. -/
theorem wp_handle_iff (placed : Placed plat) (working : Working plat p root tf s s)
    (idle : s.held = []) (isPid : (s.object p).id = p) (notSelf : (s.object p).parent ≠ some p)
    (new : s.pid + 1 ∉ s.processes) (good : ∀ image, ReadsImage plat s image → GoodImage plat image) :
    wp (handle plat) (fun _ _ => s.Answerable plat p) (fun _ => ¬ s.Answerable plat p) s := by
  rcases working.root with rfl
  rcases working.trapframe with rfl
  rw [handle, wp_bind, wp_bind, wp_getCurrentProcess (by simp [idle]), wp_liftRust, working.current]
  simp only [expect, pure_eq_ok]
  rw [wp_bind, wp_withLock _ _ _ (by simp [idle]), wp_getObject]
  simp only [List.erase_cons_head]
  have advances : wp (handleSyscall (s.object p).trapframe) (fun _ t => t = s.advanced p ∧
      s.sepc p + 4 < usizeBound) (fun _ => ¬ s.Answerable plat p) s :=
    wp_handleSyscall_iff fun wraps _ answerable => wraps answerable.sepc
  have keeps : Preserves (Working plat p (s.object p).pageTable (s.object p).trapframe s)
      (handleSyscall (s.object p).trapframe) := by
    apply preserves_working
    intro scene _ _ isFrame _
    rw [← isFrame]
    exact preserves_handleSyscall
  rw [wp_bind]
  apply wp_mono_run (wp_and advances (keeps s working))
  case stops => exact fun _ h => h.1
  intro _ s₁ advanced done
  rcases done with ⟨⟨rfl, fits⟩, working₁⟩
  have isLeaf := working.leaf_advanced
  have idle₁ : (s.advanced p).held = [] := idle
  rw [wp_bind]
  apply wp_mono_run (wp_readRequest_iff working₁ idle₁ ?unmapped)
  case stops => exact fun _ h => h
  case unmapped =>
    intro none_ _ answerable
    rcases answerable.request with ⟨entry, -, leaf, -⟩
    exact none_ entry ((isLeaf kucomPage).trans leaf)
  intro info s₂ read done
  rcases done with ⟨rfl, entry, leaf₁, decoded⟩
  have leaf := (isLeaf kucomPage).symm.trans leaf₁
  rw [working.kucom_advanced leaf _ plat.layout.fits] at decoded
  -- the only request that can be there is the one that has been read
  have asked : ∀ request, s.Answerable plat p → info = .syscall request →
      (s.advanced p).Admits plat p request := by
    intro request answerable same
    rcases answerable.request with ⟨entry', request', leaf', decoded', admits⟩
    have sameEntry := leaf.symm.trans leaf'
    cases sameEntry
    have sameRequest := (decoded'.symm.trans decoded.symm).trans same
    cases sameRequest
    exact admits
  have none_ : (∀ request, info ≠ .syscall request) → ¬ s.Answerable plat p := by
    intro different answerable
    rcases answerable.request with ⟨entry', request', leaf', decoded', -⟩
    have sameEntry := leaf.symm.trans leaf'
    cases sameEntry
    exact different request' (decoded.trans decoded')
  cases info with
  | syscall request =>
      apply wp_mono (wp_perform_iff placed working₁ idle₁ isPid notSelf new leaf₁ request ?_)
      · intro _ _ admits
        exact ⟨fits, entry, request, leaf, decoded.symm, admits⟩
      · exact fun _ refused answerable => refused (asked request answerable rfl)
      · intro nameStart nameLen start len wait name image t₁ t₂ isSpawn readName readImage
        apply good
        subst isSpawn
        exact ⟨p, nameStart, nameLen, start, len, wait, name, _, _, t₁, t₂, working.current,
          advanced, read, readName, readImage⟩
  | syscallResult result =>
      rw [wp_def]
      exact none_ (by simp)
  | empty =>
      rw [wp_def]
      exact none_ (by simp)

end Answers

theorem exclusive_of_isSyscall {info : TrapInfo} (isCall : info.isSyscall = true) :
    info.isTimerInterrupt = false ∧ info.isExternalInterrupt = false ∧ info.isException = false := by
  have cause : info.trap = .exception 8 := of_decide_eq_true isCall
  refine ⟨?_, ?_, ?_⟩
  · simp [TrapInfo.isTimerInterrupt, cause]
  · simp [TrapInfo.isExternalInterrupt, cause]
  · simp [TrapInfo.isException, TrapInfo.isSyscall, cause]

theorem AsksToExit.not_reads {plat : Platform} {s : GlobalState} (asks : AsksToExit plat s)
    (image : List UInt8) : ¬ ReadsImage plat s image := by
  intro reads
  rcases asks with ⟨q, status, s₁, s₂, current, advanced, read⟩
  rcases reads with ⟨q', _, _, _, _, _, _, t₁, t₂, _, _, current', advanced', read', -⟩
  have same := current.symm.trans current'
  cases same
  have sameState := advanced.symm.trans advanced'
  cases sameState
  have sameRequest := read.symm.trans read'
  cases sameRequest

namespace Machine

variable {plat : Platform} {m m' : Machine} {trace : List (Machine × Event)} {p : Nat}

theorem Exits.not_loads {event : Event} (exits : m.Exits plat event) (image : List UInt8) :
    ¬ m.Loads plat event image := by
  rcases exits with ⟨-, info, rfl, -, asks⟩
  intro loads
  rcases loads with ⟨-, name, impossible⟩ | ⟨-, -, -, -, reads⟩
  · cases impossible
  · exact asks.not_reads image reads

theorem handle_returns (placed : Placed plat) (orderly : m.Orderly)
    (separated : Separated plat m.kernel) (isUser : m.mode = .user)
    (current : m.kernel.currentProcess = some p)
    (good : ∀ image, ReadsImage plat m.kernel image → GoodImage plat image) :
    (∃ returned t, handle plat m.kernel = .ok (returned, t)) ↔ m.kernel.Answerable plat p := by
  have works : m.WorksFor p := worksFor_of_user isUser current
  rcases works.working orderly separated with ⟨root, tf, working⟩
  have known := View.Orderly.known orderly p working.present
  have notSelf := View.Orderly.notSelf (orderly.inUser isUser) p working.present
  apply returns_iff
  exact wp_handle_iff placed working orderly.held known.1 notSelf (not_present_of_orderly orderly) good

theorem Exits.answerable (orderly : m.Orderly) (separated : Separated plat m.kernel) {event : Event}
    (exits : m.Exits plat event) :
    ∃ p, m.kernel.currentProcess = some p ∧ m.kernel.Answerable plat p := by
  rcases exits with ⟨isUser, info, -, -, p, status, s₁, s₂, current, advanced, read⟩
  have works : m.WorksFor p := worksFor_of_user isUser current
  rcases works.working orderly separated with ⟨root, tf, working⟩
  rcases working.root with rfl
  rcases working.trapframe with rfl
  have advances : wp (handleSyscall (m.kernel.object p).trapframe)
      (fun _ t => t = m.kernel.advanced p ∧ m.kernel.sepc p + 4 < usizeBound) Any m.kernel :=
    wp_handleSyscall_iff fun _ _ => trivial
  have keeps : Preserves (Working plat p (m.kernel.object p).pageTable (m.kernel.object p).trapframe
      m.kernel) (handleSyscall (m.kernel.object p).trapframe) := by
    apply preserves_working
    intro scene _ _ isFrame _
    rw [← isFrame]
    exact preserves_handleSyscall
  have done := wp_of_returns advances advanced
  rcases done with ⟨rfl, fits⟩
  have working₁ := keeps.returned working advanced
  have idle : (m.kernel.advanced p).held = [] := orderly.held
  have reads : wp (readRequest plat (m.kernel.object p).pageTable) _ Any (m.kernel.advanced p) :=
    wp_readRequest_iff working₁ idle fun _ _ => trivial
  have found := wp_of_returns reads read
  rcases found with ⟨-, entry, leaf₁, decoded⟩
  have leaf := (working.leaf_advanced kucomPage).symm.trans leaf₁
  rw [working.kucom_advanced leaf _ plat.layout.fits] at decoded
  exact ⟨p, current, fits, entry, _, leaf, decoded.symm, trivial⟩

theorem Exits.steps (placed : Placed plat) (orderly : m.Orderly) (separated : Separated plat m.kernel)
    {event : Event} (exits : m.Exits plat event) : ∃ m', Steps plat m event m' := by
  rcases exits.answerable orderly separated with ⟨p, current, answerable⟩
  rcases exits with ⟨isUser, info, rfl, isCall, asks⟩
  have noSpawn : ∀ image, ReadsImage plat m.kernel image → GoodImage plat image :=
    fun image reads => absurd reads (asks.not_reads image)
  have returns := (handle_returns placed orderly separated isUser current noSpawn).mpr answerable
  rcases returns with ⟨returned, t, ran⟩
  have spec : wp (handle plat) _ Any m.kernel :=
    wp_handle (fun _ _ => trivial) plat (orderly.inUser isUser) p current
  have effect := wp_of_returns spec ran
  have gone : returned = false := (effect.exited_of_asked asks).1
  subst gone
  have idle : m.kernel.held = [] := orderly.held
  have trapped : wp (userTrap plat info) (fun mode u => mode = .scheduler ∧ u = t)
      (fun _ => False) m.kernel := by
    have others := exclusive_of_isSyscall isCall
    rw [userTrap, wp_bind, wp_bind, wp_getCurrentProcess (by simp [idle]), wp_liftRust, current]
    simp only [expect, pure_eq_ok]
    rw [wp_bind, wp_withLock _ _ _ (by simp [idle]), wp_getObject]
    simp only [List.erase_cons_head]
    rw [wp_bind, dispatch]
    simp only [others, isCall, Bool.false_eq_true, if_false, if_true]
    rw [wp_def, ran]
    simp only [leave, Bool.false_eq_true, if_false, wp_pure, and_self]
  have userTraps : ∃ mode u, userTrap plat info m.kernel = .ok (mode, u) := by
    rw [wp_def] at trapped
    split at trapped
    next mode u returned => exact ⟨mode, u, returned⟩
    next => exact trapped.elim
  rcases userTraps with ⟨mode, u, returned⟩
  refine ⟨⟨u, mode⟩, userTrap plat info, ?_, returned⟩
  rw [isUser]
  rfl

theorem exits_of_requested {status : Except Error Nat} (isUser : m.mode = .user) (info : TrapInfo)
    (isCall : info.isSyscall = true) (asks : m.requested plat = some (.syscall (.exit status))) :
    m.Exits plat (.trap info) := by
  rcases requested_iff.mp asks with ⟨p, s₁, s₂, current, advanced, read⟩
  exact ⟨isUser, info, rfl, isCall, p, status, s₁, s₂, current, advanced, read⟩

end Machine

namespace Machine

variable {plat : Platform} {u : Machine} {p : Nat}

theorem invariants_saved (placed : Placed plat) (orderly : u.Orderly) (separated : Separated plat u.kernel)
    (isUser : u.mode = .user) (current : u.kernel.currentProcess = some p) (registers : List UInt8)
    (sepc : Nat) : Orderly ⟨u.kernel.saved p registers sepc, .user⟩ ∧
      Separated plat (u.kernel.saved p registers sepc) := by
  have taken : Steps plat u (.save registers sepc) ⟨u.kernel.saved p registers sepc, .user⟩ := by
    refine ⟨saveRegisters registers sepc, ?_, saveRegisters_of_current current registers sepc⟩
    rw [isUser]
    rfl
  have loadsNothing : ∀ image, ¬ u.Loads plat (.save registers sepc) image := by
    rintro image (⟨-, name, impossible⟩ | ⟨-, info, impossible, -⟩)
    · cases impossible
    · cases impossible
  exact ⟨orderly.steps taken, (kept_of_steps placed orderly separated
    (fun image loads => absurd loads (loadsNothing image)) taken).separated⟩

end Machine

section Results

variable (plat : Platform) (m m' : Machine) (trace : List (Machine × Event))

/-- In every state a run reaches, once the registers and the address of the `ecall` are saved, `handle`
returns to the process, or to the scheduler, exactly when the process has left a request that can be
answered; otherwise it stops the kernel. -/
theorem handle_returns_iff (booted : m.Booted plat) (run : Run (Machine.Steps plat) m trace m')
    (good : ∀ step ∈ trace, ∀ image, step.1.Loads plat step.2 image → GoodImage plat image) :
    ∀ u ∈ Run.visited trace m', u.mode = .user →
      ∃ p, u.kernel.currentProcess = some p ∧ ∀ registers sepc, sepc < usizeBound →
        (∀ image, ReadsImage plat (u.kernel.saved p registers sepc) image → GoodImage plat image) →
        (u.kernel.saved p registers sepc).sepc p = sepc ∧
          ((∃ returned t, handle plat (u.kernel.saved p registers sepc) = .ok (returned, t)) ↔
            (u.kernel.saved p registers sepc).Answerable plat p) := by
  intro u visited isUser
  have invariants := Machine.separated_of_run booted run good u visited
  rcases (invariants.1.inUser isUser).current (by decide) with ⟨p, -, current, -⟩
  refine ⟨p, current, ?_⟩
  intro registers sepc word goodNow
  have saved := Machine.invariants_saved booted.placed invariants.1 invariants.2 isUser current
    registers sepc
  refine ⟨TrapFrame.read_sepc_save _ _ _ _ word, ?_⟩
  exact Machine.handle_returns booted.placed saved.1 saved.2 rfl current goodNow

end Results

theorem reading_is_answered : ∃ u trace, Run (Machine.Steps Board.plat) Board.boot trace u ∧
    trace.map Prod.snd = Board.started ++ [.store (kucomPage + 8) 2] ∧
    ∃ returned t, handle Board.plat (u.kernel.saved 1 [] 4096) = .ok (returned, t) := by
  rcases Board.good_run_of_check (Board.started ++ [.store (kucomPage + 8) 2])
    (fun u => decide (u.mode = .user ∧ u.kernel.currentProcess = some 1 ∧
      spawnImage Board.plat (u.kernel.saved 1 [] 4096) = none ∧
      (leafAt (u.kernel.saved 1 [] 4096).memory (u.kernel.object 1).pageTable kucomPage).map
        (fun entry => Board.plat.layout.decode ((u.kernel.saved 1 [] 4096).memory.load
          entry.getPhysicalAddress Board.plat.layout.size)) = some (.syscall .readChar)))
    (by decide +kernel) with ⟨u, trace, run, labels, good, holds⟩
  rcases of_decide_eq_true holds with ⟨isUser, current, noImage, mapped⟩
  rcases Option.map_eq_some_iff.mp mapped with ⟨entry, leaf, decoded⟩
  have goodNow : ∀ image, ReadsImage Board.plat (u.kernel.saved 1 [] 4096) image →
      GoodImage Board.plat image := by
    intro image reads
    have found := spawnImage_of_reads reads
    rw [noImage] at found
    cases found
  rcases handle_returns_iff Board.plat _ u trace Board.boot_booted run good u
    (Run.last_mem_visited trace u) isUser with ⟨p, isCurrent, saved⟩
  have same := current.symm.trans isCurrent
  cases same
  rcases saved [] 4096 (by decide) goodNow with ⟨isSepc, exactly⟩
  refine ⟨u, trace, run, labels, exactly.mpr ⟨?_, entry, _, leaf, decoded, trivial⟩⟩
  rw [isSepc]
  decide

/-- The first process asks for one byte of memory, and the kernel panics. -/
theorem unaligned_request_panics : ∃ u trace, Run (Machine.Steps Board.plat) Board.boot trace u ∧
    trace.map Prod.snd = Board.started ++ [.store (kucomPage + 16) 1, .save [] 4096] ∧
    Board.boot.Booted Board.plat ∧ u.mode = .user ∧
    handle Board.plat u.kernel =
      .error (.panic (.assertion "assertion failed: size % PAGE_SIZE == 0")) := by
  rcases Board.run_of_check (Board.started ++ [.store (kucomPage + 16) 1, .save [] 4096])
    (fun u => decide (u.mode = .user) && match handle Board.plat u.kernel with
      | .ok _ => false
      | .error e => e = .panic (.assertion "assertion failed: size % PAGE_SIZE == 0"))
    (by decide +kernel) with ⟨u, trace, run, labels, holds⟩
  rw [Bool.and_eq_true] at holds
  refine ⟨u, trace, run, labels, Board.boot_booted, of_decide_eq_true holds.1, ?_⟩
  have stopped := holds.2
  split at stopped
  next => cases stopped
  next e ran => rw [ran, of_decide_eq_true stopped]

namespace Board

def askExit : Event := .store (kucomPage + 8) 3

theorem run_of_asking {trace : List (Machine × Event)} {u : Machine} {status : Except Error Nat}
    (run : Run (Machine.Steps plat) boot trace u)
    (good : ∀ step ∈ trace, ∀ image, step.1.Loads plat step.2 image → GoodImage plat image)
    (isUser : u.mode = .user) (asks : u.requested plat = some (.syscall (.exit status))) :
    ∃ u', u.Exits plat call ∧ Machine.Steps plat u call u' ∧
      Run (Machine.Steps plat) boot (trace ++ [(u, call)]) u' := by
  have exits : u.Exits plat call := Machine.exits_of_requested isUser _ (by decide) asks
  have invariants := Machine.separated_of_run boot_booted run good u (Run.last_mem_visited _ _)
  rcases exits.steps boot_booted.placed invariants.1 invariants.2 with ⟨u', taken⟩
  exact ⟨u', exits, taken, Run.snoc call run taken⟩

end Board

end Jangri
