import Jangri.Arch.Mmu
import Jangri.Kernel.Image

namespace Jangri

open Lib Lib.Rv64

section Words

variable {m m' : Memory} {addr : Nat}

theorem word_write (m : Memory) (addr value : Nat) :
    word (m.write addr 8 value) addr = BitVec.ofNat 64 value := by
  have small : value % 256 ^ 8 < 256 ^ 8 := Nat.mod_lt _ (by decide)
  rw [word, ← Memory.write_mod, Memory.read_write_same _ _ _ _ small]
  apply BitVec.eq_of_toNat_eq
  rw [BitVec.toNat_ofNat, BitVec.toNat_ofNat]
  exact Nat.mod_mod _ _

theorem word_write_apart (value other : Nat) (apart : other + 8 ≤ addr ∨ addr + 8 ≤ other) :
    word (m.write addr 8 value) other = word m other := by
  rw [word, word, Memory.read_write_apart _ _ _ _ _ _ apart]

theorem word_same (same : ∀ x, addr ≤ x → x < addr + 8 → m' x = m x) : word m' addr = word m addr := by
  rw [word, word, Memory.read_congr m' m]
  intro x within
  rw [Set.mem_Ico] at within
  exact same x within.1 within.2

end Words

/-- A program starts with nothing in its registers but the top of its stack. -/
def initialRegisters : Register → Word :=
  Function.update (fun _ => 0) .sp (BitVec.ofNat 64 (stackStart + stackPages * pageSize))

section Frames

variable {m : Memory} {tf : Nat} {x : Register → Word} {pc : Word}

theorem saved_of_zeros (m : Memory) (tf : Nat) :
    Saved (m.store tf (List.replicate TrapFrame.bytes 0)) tf (fun _ => 0) 0 := by
  have zeros : ∀ o, o + 8 ≤ savedBytes →
      (m.store tf (List.replicate TrapFrame.bytes 0)).read (tf + o) 8 = 0 := by
    intro o inside
    apply Memory.read_zero
    intro y within
    rw [Set.mem_Ico] at within
    have low : tf ≤ y ∧ y - tf < TrapFrame.bytes := by
      simp only [TrapFrame.bytes, savedBytes] at *
      omega
    rw [Memory.store, List.length_replicate, if_pos ⟨low.1, by omega⟩]
    exact List.getD_replicate 0 low.2
  refine ⟨?_, zeros 248 (by decide)⟩
  intro slot member
  apply zeros
  revert slot
  decide

theorem Saved.write_sp (saved : Saved m tf x pc) (value : Nat) :
    Saved (m.write (tf + TrapFrame.sp) 8 value) tf (Function.update x .sp (BitVec.ofNat 64 value)) pc := by
  have small : value % 256 ^ 8 < 256 ^ 8 := Nat.mod_lt _ (by decide)
  have spaced : ∀ slot ∈ allSlots, slot = (.sp, TrapFrame.sp) ∨
      slot.1 ≠ .sp ∧ (slot.2 + 8 ≤ TrapFrame.sp ∨ TrapFrame.sp + 8 ≤ slot.2) := by
    decide
  refine ⟨?_, ?_⟩
  · intro slot member
    rcases spaced slot member with rfl | ⟨other, apart⟩
    · simp only [Function.update_self]
      rw [← Memory.write_mod, Memory.read_write_same _ _ _ _ small, BitVec.toNat_ofNat]
      rfl
    · rw [Function.update_of_ne other, ← saved.registers slot member]
      apply Memory.read_write_apart
      omega
  · rw [← saved.sepc]
    apply Memory.read_write_apart
    simp only [TrapFrame.sp]
    omega

theorem Saved.write_sepc (saved : Saved m tf x pc) (value : Nat) :
    Saved (m.write (tf + TrapFrame.sepc) 8 value) tf x (BitVec.ofNat 64 value) := by
  have small : value % 256 ^ 8 < 256 ^ 8 := Nat.mod_lt _ (by decide)
  have below : ∀ slot ∈ allSlots, slot.2 + 8 ≤ TrapFrame.sepc := by decide
  refine ⟨?_, ?_⟩
  · intro slot member
    have low := below slot member
    rw [← saved.registers slot member]
    apply Memory.read_write_apart
    omega
  · rw [← Memory.write_mod, BitVec.toNat_ofNat]
    exact Memory.read_write_same _ _ _ _ small

theorem Saved.write_behind (saved : Saved m tf x pc) (o value : Nat) (behind : savedBytes ≤ o) :
    Saved (m.write (tf + o) 8 value) tf x pc := by
  apply saved.congr
  apply Memory.write_eqOn
  intro y within
  rw [Set.mem_Ico] at within
  omega

end Frames

structure Labelled (plat : Platform) (m : Memory) (root trapframe : Nat) : Prop where
  aligned : trapframe % pageSize = 0
  kernelPageTable : word m (trapframe + TrapFrame.kernelPageTable) = Sv48.satpFor plat.kernelPageTable
  userTrapAddress : word m (trapframe + TrapFrame.userTrapAddress) =
    BitVec.ofNat 64 plat.userTrapAddress
  satp : word m (trapframe + TrapFrame.satp) = Sv48.satpFor root

def Barren (m : Memory) (root : Nat) : Prop :=
  ∀ va entry, leafAt m root va = some entry → entry.userModeAccessible = true

structure Unequipped (plat : Platform) (m : Memory) (process : Process) : Prop
    extends Labelled plat m process.pageTable process.trapframe where
  barren : Barren m process.pageTable

/-- The trampoline and the trap frame are mapped, and the trap frame says how to get into the kernel. -/
structure Equipped (plat : Platform) (m : Memory) (pid : Nat) (process : Process) : Prop
    extends Labelled plat m process.pageTable process.trapframe where
  bounded : process.trapframe + pageSize < usizeBound
  code : leafAt m process.pageTable trampoline =
    some (.pack plat.trampolineCodeAddress (PageTableEntry.flags true false true false))
  frame : leafAt m process.pageTable trapframeVa =
    some (.pack process.trapframe (PageTableEntry.flags true true false false))
  kernelStack : ∃ address, kernelStackAddress pid = .ok address ∧
    word m (process.trapframe + TrapFrame.kernelStack) = BitVec.ofNat 64 address

/-- The trap frame that the thread of a process goes back to user mode with. A thread that has switched
away has it on its stack. -/
def Process.resumeFrame (process : Process) : Nat :=
  match process.context with
  | .yieldInUserTrap trapframe => trapframe
  | .yieldInHandle trapframe _ => trapframe
  | _ => process.trapframe

structure Provided (plat : Platform) (m : Memory) (pid : Nat) (process : Process) : Prop where
  resumes : process.resumeFrame = process.trapframe
  equipment : Unequipped plat m process ∨ Equipped plat m pid process

section Keeping

variable {plat : Platform} {m m' : Memory} {root trapframe pid : Nat} {process process' : Process}

theorem Labelled.congr (labelled : Labelled plat m root trapframe)
    (same : ∀ x, trapframe + savedBytes ≤ x → x < trapframe + pageSize → m' x = m x) :
    Labelled plat m' root trapframe := by
  have kept : ∀ o, savedBytes ≤ o ∧ o + 8 ≤ pageSize →
      word m' (trapframe + o) = word m (trapframe + o) := by
    intro o inside
    apply word_same
    intro x low high
    exact same x (by omega) (by omega)
  refine ⟨labelled.aligned, ?_, ?_, ?_⟩
  · rw [kept _ (by decide)]
    exact labelled.kernelPageTable
  · rw [kept _ (by decide)]
    exact labelled.userTrapAddress
  · rw [kept _ (by decide)]
    exact labelled.satp

theorem Labelled.relabel (labelled : Labelled plat m root trapframe) (kernelStack : Nat) :
    Labelled plat ((m.write (trapframe + TrapFrame.kernelPageTable) 8
      (sv48 ||| plat.kernelPageTable >>> 12)).write (trapframe + TrapFrame.kernelStack) 8 kernelStack)
      root trapframe := by
  refine ⟨labelled.aligned, ?_, ?_, ?_⟩
  · rw [word_write_apart _ _ (by simp only [TrapFrame.kernelPageTable, TrapFrame.kernelStack]; omega),
      word_write]
    rfl
  · rw [word_write_apart _ _ (by simp only [TrapFrame.userTrapAddress, TrapFrame.kernelStack]; omega),
      word_write_apart _ _ (by simp only [TrapFrame.userTrapAddress, TrapFrame.kernelPageTable]; omega)]
    exact labelled.userTrapAddress
  · rw [word_write_apart _ _ (by simp only [TrapFrame.satp, TrapFrame.kernelStack]; omega),
      word_write_apart _ _ (by simp only [TrapFrame.satp, TrapFrame.kernelPageTable]; omega)]
    exact labelled.satp

/-- The equipment lasts as long as mappings and the words in the trap frame do. -/
theorem Equipped.congr (equipped : Equipped plat m pid process)
    (pageTable : process'.pageTable = process.pageTable)
    (trapframe : process'.trapframe = process.trapframe)
    (leaves : ∀ va entry, leafAt m process.pageTable va = some entry →
      leafAt m' process.pageTable va = some entry)
    (same : ∀ x, process.trapframe + savedBytes ≤ x → x < process.trapframe + pageSize →
      m' x = m x) : Equipped plat m' pid process' := by
  have labelled := equipped.toLabelled.congr same
  rcases equipped.kernelStack with ⟨address, known, stack⟩
  rw [← trapframe, ← pageTable] at labelled
  refine ⟨labelled, ?_, ?_, ?_, address, known, ?_⟩
  · rw [trapframe]
    exact equipped.bounded
  · rw [pageTable]
    exact leaves _ _ equipped.code
  · rw [pageTable, trapframe]
    exact leaves _ _ equipped.frame
  · rw [trapframe, ← stack]
    apply word_same
    intro x low high
    apply same
    · simp only [TrapFrame.kernelStack, savedBytes] at *
      omega
    · simp only [TrapFrame.kernelStack, pageSize] at *
      omega

theorem Unequipped.congr (unequipped : Unequipped plat m process)
    (pageTable : process'.pageTable = process.pageTable)
    (trapframe : process'.trapframe = process.trapframe)
    (leaves : ∀ va, leafAt m' process.pageTable va = leafAt m process.pageTable va)
    (same : ∀ x, process.trapframe + savedBytes ≤ x → x < process.trapframe + pageSize →
      m' x = m x) : Unequipped plat m' process' := by
  have labelled := unequipped.toLabelled.congr same
  rw [← trapframe, ← pageTable] at labelled
  refine ⟨labelled, ?_⟩
  intro va entry leaf
  rw [pageTable, leaves va] at leaf
  exact unequipped.barren va entry leaf

theorem Unequipped.not_equipped (unequipped : Unequipped plat m process) :
    ¬ Equipped plat m pid process := by
  intro equipped
  have accessible := unequipped.barren _ _ equipped.code
  rw [(PageTableEntry.permissions_pack _ true false true false).2.2.2] at accessible
  cases accessible

theorem Provided.congr (provided : Provided plat m pid process)
    (pageTable : process'.pageTable = process.pageTable)
    (trapframe : process'.trapframe = process.trapframe)
    (resumes : process'.resumeFrame = process'.trapframe)
    (leaves : ∀ va, leafAt m' process.pageTable va = leafAt m process.pageTable va)
    (same : ∀ x, process.trapframe + savedBytes ≤ x → x < process.trapframe + pageSize →
      m' x = m x) : Provided plat m' pid process' := by
  refine ⟨resumes, ?_⟩
  rcases provided.equipment with unequipped | equipped
  · exact Or.inl (unequipped.congr pageTable trapframe leaves same)
  · apply Or.inr
    apply equipped.congr pageTable trapframe _ same
    intro va entry leaf
    exact (leaves va).trans leaf

theorem Provided.resumes_congr (provided : Provided plat m pid process)
    (trapframe : process'.trapframe = process.trapframe) (context : process'.context = process.context) :
    process'.resumeFrame = process'.trapframe := by
  have resumes := provided.resumes
  unfold Process.resumeFrame at *
  rw [context, trapframe]
  exact resumes

end Keeping

structure Reared (plat : Platform) (scene : Scene) (U : Set Nat) (s : GlobalState) : Prop where
  rooted : Rooted (Accounted plat scene U scene.frame) scene.root s
  root : (s.object scene.pid).pageTable = scene.root
  trapframe : (s.object scene.pid).trapframe = scene.trapframe
  context : (s.object scene.pid).context = .prepareFirstTimeExecution

section Steps

variable {plat : Platform} {scene : Scene} {U : Set Nat} {s t : GlobalState}

theorem Reared.restage (reared : Reared plat scene U s) (f : Process → Process)
    (same : ∀ process, (f process).pageTable = process.pageTable ∧
      (f process).trapframe = process.trapframe ∧ (f process).context = process.context) (pid : Nat) :
    Reared plat scene U { s with object := Function.update s.object pid (f (s.object pid)) } := by
  have kept : (Function.update s.object pid (f (s.object pid)) scene.pid).pageTable =
        (s.object scene.pid).pageTable ∧
      (Function.update s.object pid (f (s.object pid)) scene.pid).trapframe =
        (s.object scene.pid).trapframe ∧
      (Function.update s.object pid (f (s.object pid)) scene.pid).context =
        (s.object scene.pid).context := by
    rw [Function.update_apply]
    split
    next here =>
      rw [here]
      exact same _
    next => exact ⟨rfl, rfl, rfl⟩
  exact ⟨reared.rooted, kept.1.trans reared.root, kept.2.1.trans reared.trapframe,
    kept.2.2.trans reared.context⟩

theorem Reared.write (reared : Reared plat scene U s) (m : Memory)
    (changed : ∀ x, m x ≠ s.memory x → x ∈ U ∨ x ∈ scene.frame) :
    Reared plat scene U { s with memory := m } ∧
      ∀ va, leafAt m scene.root va = leafAt s.memory scene.root va := by
  rcases reared.rooted.2 with ⟨free, live, owner, ledger⟩
  have same : SameOn {x | TablePage s.memory scene.root x} s { s with memory := m } := by
    intro t page x low high
    by_contra different
    have known := ledger.pages t page
    have table : Held live owner (.table scene.pid) x := ⟨_, known.1, known.2, low, high⟩
    rcases changed x different with user | frame
    · cases held_unique ledger.wf (ledger.granted x user) table
    · cases held_unique ledger.wf (ledger.framed x frame) table
  have page : {x | TablePage m scene.root x} = {x | TablePage s.memory scene.root x} :=
    Set.ext (tablePage_congr _ _ scene.root same)
  have accounted : Accounted plat scene U scene.frame {x | TablePage s.memory scene.root x}
      { s with memory := m } := by
    refine ⟨free, live, owner, ledger.write ?_⟩
    intro x different
    rcases changed x different with user | frame
    · exact ⟨_, ledger.granted x user, rfl⟩
    · exact ⟨_, ledger.framed x frame, rfl⟩
  rw [← page] at accounted
  exact ⟨⟨⟨reared.rooted.1.congr _ same, accounted⟩, reared.root, reared.trapframe, reared.context⟩,
    leafAt_congr _ m scene.root same⟩

theorem wpr_allocate_reared (reared : Reared plat scene U s) (size : Nat) :
    wpr (GlobalState.allocate size)
      (fun a t => Reared plat scene (U ∪ Set.Ico a (a + size)) t ∧ a + size < usizeBound ∧
        (∀ va, leafAt t.memory scene.root va = leafAt s.memory scene.root va) ∧
        Steady scene.frame s t)
      (fun _ t => t = s) Any s := by
  rcases reared.rooted.2 with ⟨free, live, owner, ledger⟩
  apply wpr_weaken (wpr_allocateBlock ledger.wf size)
  case fails => exact fun _ _ same => same
  intro a t done
  rcases done with ⟨⟨free', allocated⟩, rest⟩
  have block := allocated.wellFormed.live_inside ⟨a, size⟩ List.mem_cons_self
  have bounded := allocated.wellFormed.bounded
  have object : t.object = s.object := by rw [rest]
  have same : SameOn {x | TablePage s.memory scene.root x} s t := by
    intro x page y low high
    have known := ledger.pages x page
    exact allocated.frame y (not_unused_of_held ledger.wf ⟨_, known.1, known.2, low, high⟩)
  have page : {x | TablePage t.memory scene.root x} = {x | TablePage s.memory scene.root x} :=
    Set.ext (tablePage_congr _ _ scene.root same)
  have accounted : Accounted plat scene (U ∪ Set.Ico a (a + size)) scene.frame
      {x | TablePage s.memory scene.root x} t := ⟨free', _, _, ledger.allocateUser allocated⟩
  rw [← page] at accounted
  refine ⟨⟨⟨reared.rooted.1.congr _ same, accounted⟩, ?_, ?_, ?_⟩, ?_, leafAt_congr _ _ scene.root same,
    object, ?_⟩
  · rw [object]
    exact reared.root
  · rw [object]
    exact reared.trapframe
  · rw [object]
    exact reared.context
  · simp only at block
    omega
  · intro x member
    exact allocated.frame x (not_unused_of_held ledger.wf (ledger.framed x member))

theorem wpr_map_reared (placed : Placed plat) (reared : Reared plat scene U s) (va pa size : Nat)
    (r w x u : Bool) (bounded : pa < usizeBound) :
    wpr (GlobalState.map plat scene.root va pa size r w x u)
      (fun _ t => Reared plat scene U t ∧ Steady scene.frame s t ∧
        (∀ va' entry, leafAt s.memory scene.root va' = some entry →
          leafAt t.memory scene.root va' = some entry) ∧
        (∀ va' entry, leafAt t.memory scene.root va' = some entry →
          leafAt s.memory scene.root va' = some entry ∨ entry.userModeAccessible = u) ∧
        ∀ j < size / pageSize, leafAt t.memory scene.root (va + j * pageSize) =
          some (.pack (pa + j * pageSize) (PageTableEntry.flags r w x u)))
      (fun _ t => Reared plat scene U t ∧ Steady scene.frame s t ∧
        ∀ va' entry, leafAt t.memory scene.root va' = some entry →
          leafAt s.memory scene.root va' = some entry ∨ entry.userModeAccessible = u) Any s := by
  have allowed : ∀ t : GlobalState, Grown (fun T s' => Accounted plat scene U scene.frame T s' ∧
      Steady (U ∪ scene.frame) s s') scene.root
      (Leaves va pa (size / pageSize) (PageTableEntry.flags r w x u))
      { s with held := .arch :: s.held } t →
      Reared plat scene U t ∧ Steady scene.frame s t ∧
        ∀ va' entry, leafAt t.memory scene.root va' = some entry →
          leafAt s.memory scene.root va' = some entry ∨ entry.userModeAccessible = u := by
    intro t grown
    have steady := grown.rooted.2.2
    refine ⟨⟨⟨grown.rooted.1, grown.rooted.2.1⟩, ?_, ?_, ?_⟩, steady.weaken Set.subset_union_right, ?_⟩
    · rw [steady.object]
      exact reared.root
    · rw [steady.object]
      exact reared.trapframe
    · rw [steady.object]
      exact reared.context
    · intro va' entry leaf
      rcases grown.only va' entry leaf with old | ⟨j, -, -, rfl⟩
      · exact Or.inl old
      · exact Or.inr (PageTableEntry.permissions_pack (pa + j * pageSize) r w x u).2.2.2
  have locked : Rooted (fun T s' => Accounted plat scene U scene.frame T s' ∧
      Steady (U ∪ scene.frame) s s') scene.root { s with held := .arch :: s.held } :=
    ⟨reared.rooted.1, reared.rooted.2, rfl, fun _ _ => rfl⟩
  have spec := map_spec (arch plat) (accountedSource placed scene U scene.frame s) va pa size r w x u
    bounded locked
  apply wpr_guarded_any
  apply wpr_weaken spec
  · intro _ t done
    rcases allowed t done.2.2.1 with ⟨reared', steady, only⟩
    exact ⟨⟨reared'.rooted, reared'.root, reared'.trapframe, reared'.context⟩, ⟨steady.object, steady.memory⟩,
      done.2.2.1.keeps, only, done.2.2.2⟩
  · intro _ t grown
    rcases allowed t grown with ⟨reared', steady, only⟩
    exact ⟨⟨reared'.rooted, reared'.root, reared'.trapframe, reared'.context⟩, ⟨steady.object, steady.memory⟩, only⟩

theorem wpr_mapPage_reared (placed : Placed plat) (reared : Reared plat scene U s) (va pa : Nat)
    (r w x u : Bool) (bounded : pa < usizeBound) :
    wpr (GlobalState.map plat scene.root va pa pageSize r w x u)
      (fun _ t => Reared plat scene U t ∧ Steady scene.frame s t ∧
        (∀ va' entry, leafAt s.memory scene.root va' = some entry →
          leafAt t.memory scene.root va' = some entry) ∧
        leafAt t.memory scene.root va = some (.pack pa (PageTableEntry.flags r w x u)))
      (fun _ _ => True) Any s := by
  apply wpr_weaken (wpr_map_reared placed reared va pa pageSize r w x u bounded)
  · intro _ t done
    rcases done with ⟨reared', steady, keeps, -, pages⟩
    have leaf := pages 0 (by decide)
    rw [Nat.zero_mul, Nat.add_zero, Nat.add_zero] at leaf
    exact ⟨reared', steady, keeps, leaf⟩
  · exact fun _ _ _ => trivial

end Steps

structure Nascent (plat : Platform) (scene : Scene) (pc : Word) (s : GlobalState) : Prop
    extends Labelled plat s.memory scene.root scene.trapframe where
  blank : Saved s.memory scene.trapframe (fun _ => 0) pc
  reared : ∃ U, Reared plat scene U s
  barren : Barren s.memory scene.root

section Creation

variable {plat : Platform} {scene : Scene} {U : Set Nat} {s t : GlobalState} {pc : Word}

theorem Steady.saved {x : Register → Word} (steady : Steady scene.frame s t)
    (saved : Saved s.memory scene.trapframe x pc) : Saved t.memory scene.trapframe x pc := by
  apply saved.congr
  intro y within
  rw [Set.mem_Ico] at within
  apply steady.memory y
  refine ⟨within.1, ?_⟩
  simp only [savedBytes, pageSize] at *
  omega

theorem Nascent.step (nascent : Nascent plat scene pc s) {U : Set Nat} (reared : Reared plat scene U t)
    (steady : Steady scene.frame s t)
    (only : ∀ va entry, leafAt t.memory scene.root va = some entry →
      leafAt s.memory scene.root va = some entry ∨ entry.userModeAccessible = true) :
    Nascent plat scene pc t where
  toLabelled := nascent.toLabelled.congr fun x low high => steady.memory x ⟨by omega, high⟩
  blank := steady.saved nascent.blank
  reared := ⟨U, reared⟩
  barren := by
    intro va entry leaf
    rcases only va entry leaf with old | user
    · exact nascent.barren va entry old
    · exact user

theorem Nascent.restage (nascent : Nascent plat scene pc s) (f : Process → Process)
    (same : ∀ process, (f process).pageTable = process.pageTable ∧
      (f process).trapframe = process.trapframe ∧ (f process).context = process.context) (pid : Nat) :
    Nascent plat scene pc { s with object := Function.update s.object pid (f (s.object pid)) } := by
  rcases nascent.reared with ⟨U, reared⟩
  exact ⟨nascent.toLabelled, nascent.blank, ⟨U, reared.restage f same pid⟩, nascent.barren⟩

/-- The copy of a segment stays within the block of the segment. -/
theorem wp_copySegment_reared {image : List UInt8} {segment : ProgramHeader} {pt memsz : Nat}
    (fits : segment.pFilesz ≤ memsz) (reared : Reared plat scene U s)
    (block : Set.Ico pt (pt + memsz) ⊆ U) :
    wp (copySegment image segment pt) (fun _ t => Reared plat scene U t ∧ Steady scene.frame s t ∧
      ∀ va, leafAt t.memory scene.root va = leafAt s.memory scene.root va) Any s := by
  rcases reared.rooted.2 with ⟨free, live, owner, ledger⟩
  rw [copySegment]
  simp only [wp_bind]
  apply wp_liftRust_any
  intro _ _
  apply wp_liftRust_any
  intro stop added
  apply wp_liftRust_any
  intro bytes sliced
  rcases (usizeAdd_eq_ok _ _ _).mp added with ⟨-, rfl⟩
  unfold sliceImage at sliced
  split at sliced
  next inside =>
    have taken := (Except.ok.inj sliced).symm
    have short : bytes.length ≤ memsz := by
      rw [taken, List.length_take, List.length_drop]
      omega
    have changed : ∀ x, s.memory.store pt bytes x ≠ s.memory x → x ∈ U := by
      intro x different
      have within : pt ≤ x ∧ x < pt + bytes.length := by
        by_contra outside
        exact different (if_neg outside)
      exact block ⟨within.1, by omega⟩
    have written := reared.write (s.memory.store pt bytes) fun x different => Or.inl (changed x different)
    rw [wp_def]
    refine ⟨written.1, ⟨rfl, ?_⟩, written.2⟩
    intro x member
    by_contra different
    cases held_unique ledger.wf (ledger.granted x (changed x different)) (ledger.framed x member)
  next => cases sliced

theorem preserves_loadSegment_nascent (placed : Placed plat) (image : List UInt8)
    {segment : ProgramHeader} (loadable : Loadable segment) :
    Preserves (Nascent plat scene pc) (loadSegment plat scene.pid scene.root image segment).run := by
  apply Preserves.of_wpr
  intro s nascent
  rcases nascent.reared with ⟨U, reared⟩
  rw [loadSegment]
  simp only [wpr_bind, wpr_lift]
  apply wp_liftRust_any
  intro codePageStart _
  apply wp_liftRust_any
  intro memsz rounded
  have fits := loadable.fits.trans (alignToPageSize_spec _ _ rounded).1
  apply wpr_weaken (wpr_allocate_reared reared memsz)
  case fails =>
    intro _ t same
    rw [same]
    exact nascent
  intro pt s₁ done
  rcases done with ⟨reared₁, bounded, leaves₁, steady₁⟩
  have nascent₁ := nascent.step reared₁ steady₁ fun va entry leaf => Or.inl ((leaves₁ va).symm.trans leaf)
  apply wpr_weaken (wpr_map_reared placed reared₁ codePageStart pt memsz _ _ _ true (by omega))
  case fails => exact fun _ t failed => nascent₁.step failed.1 failed.2.1 failed.2.2
  intro _ s₂ done
  rcases done with ⟨reared₂, steady₂, -, only, -⟩
  have nascent₂ := nascent₁.step reared₂ steady₂ only
  apply wp_weaken (wp_copySegment_reared fits reared₂ Set.subset_union_right)
  intro _ s₃ done
  rcases done with ⟨reared₃, steady₃, leaves₃⟩
  have nascent₃ := nascent₂.step reared₃ steady₃ fun va entry leaf => Or.inl ((leaves₃ va).symm.trans leaf)
  rw [wp_getObject]
  apply wp_liftRust_any
  intro heapStart _
  rw [wp_modifyObject]
  exact nascent₃.restage (fun process => { process with heapStart }) (fun _ => ⟨rfl, rfl, rfl⟩) scene.pid

theorem preserves_loadSegments_nascent (placed : Placed plat) (image : List UInt8)
    (segments : List ProgramHeader)
    (good : ∀ segment ∈ segments, segment.pType = ptLoad → Loadable segment) :
    Preserves (Nascent plat scene pc) (loadSegments plat scene.pid scene.root image segments).run := by
  induction segments with
  | nil => exact Preserves.run_pure ()
  | cons segment rest ih =>
      have loads : Preserves (Nascent plat scene pc)
          (loadIfLoadable plat scene.pid scene.root image segment).run := by
        unfold loadIfLoadable
        by_cases load : segment.pType = ptLoad
        · rw [if_pos load]
          exact preserves_loadSegment_nascent placed image (good segment List.mem_cons_self load)
        · rw [if_neg load]
          exact Preserves.run_pure ()
      have resets : Preserves (Nascent plat scene pc) (modifyObject scene.pid resetHeapEnd) := by
        intro s nascent
        rw [wp_modifyObject]
        exact nascent.restage resetHeapEnd (fun _ => ⟨rfl, rfl, rfl⟩) scene.pid
      apply loads.run_bind
      intro _
      apply resets.run_lift.run_bind
      intro _
      exact ih fun other later => good other (List.mem_cons_of_mem _ later)

theorem wp_initialiseTrapframe_nascent {halts : Halt → Prop} (reared : Reared plat scene U s)
    (barren : Barren s.memory scene.root) (aligned : scene.trapframe % pageSize = 0) :
    wp (initialiseTrapframe plat scene.trapframe scene.root) (fun _ t => Nascent plat scene 0 t)
      halts s := by
  rw [initialiseTrapframe]
  simp only [wp_bind]
  rw [wp_def, storeBytes]
  simp only
  rw [wp_def, storeWord]
  simp only
  rw [wp_def, storeWord]
  simp only
  rw [wp_def, storeWord]
  simp only
  rw [wp_def, storeWord]
  simp only
  have zeros : (List.replicate TrapFrame.bytes (0 : UInt8)).length = 304 := List.length_replicate
  have written := reared.write _ (fun x (different : ((((s.memory.store scene.trapframe
      (List.replicate TrapFrame.bytes 0)).write (scene.trapframe + TrapFrame.pageTable) 8
      scene.root).write (scene.trapframe + TrapFrame.satp) 8 (sv48 ||| scene.root >>> 12)).write
      (scene.trapframe + TrapFrame.kernelPageTable) 8 (sv48 ||| plat.kernelPageTable >>> 12)).write
      (scene.trapframe + TrapFrame.userTrapAddress) 8 plat.userTrapAddress x ≠ s.memory x) => by
    right
    by_contra outside
    apply different
    have apart : x < scene.trapframe ∨ scene.trapframe + pageSize ≤ x := by
      rw [Scene.frame, Set.mem_Ico] at outside
      omega
    simp only [TrapFrame.userTrapAddress, TrapFrame.kernelPageTable, TrapFrame.satp,
      TrapFrame.pageTable, pageSize] at apart ⊢
    rw [Memory.write, if_neg (by omega), Memory.write, if_neg (by omega), Memory.write,
      if_neg (by omega), Memory.write, if_neg (by omega), Memory.store, if_neg (by omega)])
  refine ⟨⟨aligned, ?_, ?_, ?_⟩, ?_, ⟨U, written.1⟩, ?_⟩
  · rw [word_write_apart _ _ (by simp only [TrapFrame.userTrapAddress, TrapFrame.kernelPageTable]; omega),
      word_write]
    rfl
  · rw [word_write]
  · rw [word_write_apart _ _ (by simp only [TrapFrame.userTrapAddress, TrapFrame.satp]; omega),
      word_write_apart _ _ (by simp only [TrapFrame.kernelPageTable, TrapFrame.satp]; omega),
      word_write]
    rfl
  · exact ((((saved_of_zeros s.memory scene.trapframe).write_behind _ _ (by decide)).write_behind _ _
      (by decide)).write_behind _ _ (by decide)).write_behind _ _ (by decide)
  · intro va entry leaf
    exact barren va entry ((written.2 va).symm.trans leaf)

theorem wp_storeField_reared {halts : Halt → Prop} (reared : Reared plat scene U s)
    (offset value : Nat) (low : offset + 8 ≤ pageSize) :
    wp (storeWord (scene.trapframe + offset) value) (fun _ t => Reared plat scene U t ∧
      t.memory = s.memory.write (scene.trapframe + offset) 8 value ∧ t.object = s.object ∧
      ∀ va, leafAt t.memory scene.root va = leafAt s.memory scene.root va) halts s := by
  have written := reared.write (s.memory.write (scene.trapframe + offset) 8 value) fun x different => by
    right
    by_contra outside
    apply different
    apply if_neg
    intro range
    exact outside ⟨by omega, by omega⟩
  rw [wp_def]
  exact ⟨written.1, rfl, rfl, written.2⟩

/-- User mode reaches the communication page. -/
def Communicates (m : Memory) (root : Nat) : Prop :=
  ∃ entry, leafAt m root kucomPage = some entry ∧ entry.userModeAccessible = true

theorem wpr_mapOtherPages_equipped (placed : Placed plat) (nascent : Nascent plat scene pc s)
    (bounded : scene.trapframe + pageSize < usizeBound) :
    wpr (mapOtherPages plat scene.root scene.pid)
      (fun _ t => Equipped plat t.memory scene.pid (t.object scene.pid) ∧
        (t.object scene.pid).context = .prepareFirstTimeExecution ∧
        Saved t.memory (t.object scene.pid).trapframe initialRegisters pc ∧
        Communicates t.memory (t.object scene.pid).pageTable) (fun _ _ => True) Any s := by
  rw [mapOtherPages]
  simp only [wpr_bind, wpr_lift]
  rcases nascent.reared with ⟨U₀, reared₀⟩
  apply wp_unwrapResult_any
  apply wpr_weaken (wpr_allocate_reared reared₀ _)
  case fails => exact fun _ _ _ => trivial
  intro stack s₁ done₁
  rcases done₁ with ⟨reared₁, bounded₁, leaves₁, steady₁⟩
  have nascent₁ := nascent.step reared₁ steady₁ fun va entry leaf => Or.inl ((leaves₁ va).symm.trans leaf)
  apply wpr_weaken (wpr_map_reared placed reared₁ stackStart stack _ true true false true (by omega))
  case fails => exact fun _ _ _ => trivial
  intro _ s₂ done₂
  rcases done₂ with ⟨reared₂, steady₂, -, only₂, -⟩
  have nascent₂ := nascent₁.step reared₂ steady₂ only₂
  apply wp_liftRust_any
  intro kernelStack isAddress
  rw [wp_modifyObject, wp_getObject]
  have nascent₃ := nascent₂.restage (fun process => { process with kernelStack }) (fun _ => ⟨rfl, rfl, rfl⟩)
    scene.pid
  have reared₃ := reared₂.restage (fun process => { process with kernelStack }) (fun _ => ⟨rfl, rfl, rfl⟩)
    scene.pid
  rw [reared₃.trapframe]
  apply wp_weaken (wp_storeField_reared reared₃ TrapFrame.sp _ (by decide))
  intro _ s₄ done₄
  rcases done₄ with ⟨reared₄, memory₄, -, -⟩
  have saved₄ : Saved s₄.memory scene.trapframe initialRegisters pc := by
    rw [memory₄]
    exact nascent₃.blank.write_sp _
  have labelled₄ : Labelled plat s₄.memory scene.root scene.trapframe := by
    apply nascent₃.toLabelled.congr
    intro x low high
    rw [memory₄]
    apply if_neg
    simp only [TrapFrame.sp, savedBytes] at *
    omega
  have code := placed.trampoline
  have start : plat.kernelEnd < usizeBound := by
    rcases reared₄.rooted.2 with ⟨free, live, owner, ledger⟩
    have known := ledger.start
    have bump := ledger.wf.bump
    have limit := ledger.wf.bounded
    omega
  apply wpr_weaken (wpr_mapPage_reared placed reared₄ trampoline plat.trampolineCodeAddress true false
    true false (by omega))
  case fails => exact fun _ _ _ => trivial
  intro _ s₅ done₅
  rcases done₅ with ⟨reared₅, steady₅, -, code₅⟩
  apply wpr_weaken (wpr_mapPage_reared placed reared₅ trapframeVa scene.trapframe true true false
    false (by omega))
  case fails => exact fun _ _ _ => trivial
  intro _ s₆ done₆
  rcases done₆ with ⟨reared₆, steady₆, keeps₆, frame₆⟩
  apply wpr_weaken (wpr_allocate_reared reared₆ _)
  case fails => exact fun _ _ _ => trivial
  intro errorPage s₇ done₇
  rcases done₇ with ⟨reared₇, bounded₇, leaves₇, steady₇⟩
  apply wpr_weaken (wpr_mapPage_reared placed reared₇ kucomPage errorPage true true false true
    (by omega))
  case fails => exact fun _ _ _ => trivial
  intro _ s₈ done₈
  rcases done₈ with ⟨reared₈, steady₈, keeps₈, kucom₈⟩
  have labelled₈ : Labelled plat s₈.memory scene.root scene.trapframe := by
    apply labelled₄.congr
    intro x low high
    have member : x ∈ scene.frame := ⟨by omega, high⟩
    rw [steady₈.memory x member, steady₇.memory x member, steady₆.memory x member,
      steady₅.memory x member]
  have saved₈ : Saved s₈.memory scene.trapframe initialRegisters pc :=
    steady₈.saved (steady₇.saved (steady₆.saved (steady₅.saved saved₄)))
  apply wp_weaken (wp_storeField_reared reared₈ TrapFrame.kernelPageTable _ (by decide))
  intro _ s₉ done₉
  rcases done₉ with ⟨reared₉, memory₉, -, leaves₉⟩
  apply wp_weaken (wp_storeField_reared reared₉ TrapFrame.kernelStack _ (by decide))
  intro _ t done
  rcases done with ⟨reared, memory, -, leaves⟩
  have keeps : ∀ va entry, leafAt s₆.memory scene.root va = some entry →
      leafAt t.memory scene.root va = some entry := by
    intro va entry leaf
    rw [leaves, leaves₉]
    apply keeps₈
    rw [leaves₇]
    exact leaf
  have kernelStackWord : word t.memory (scene.trapframe + TrapFrame.kernelStack) =
      BitVec.ofNat 64 kernelStack := by
    rw [memory, word_write]
  have labelled : Labelled plat t.memory scene.root scene.trapframe := by
    rw [memory, memory₉]
    exact labelled₈.relabel kernelStack
  have root := reared.root
  have trapframe := reared.trapframe
  refine ⟨⟨?_, ?_, ?_, ?_, kernelStack, isAddress, ?_⟩, reared.context, ?_, ?_⟩
  · rw [root, trapframe]
    exact labelled
  · rw [trapframe]
    exact bounded
  · rw [root]
    exact keeps _ _ (keeps₆ _ _ code₅)
  · rw [root, trapframe]
    exact keeps _ _ frame₆
  · rw [trapframe]
    exact kernelStackWord
  · rw [trapframe, memory, memory₉]
    exact (saved₈.write_behind _ _ (by decide)).write_behind _ _ (by decide)
  · rw [root]
    exact ⟨_, (leaves _).trans ((leaves₉ _).trans kucom₈),
      (PageTableEntry.permissions_pack _ _ _ _ _).2.2.2⟩

theorem wpr_loadImage_equipped (placed : Placed plat) (image : List UInt8)
    (good : GoodImage plat image) (reared : Reared plat scene U s) (barren : Barren s.memory scene.root)
    (aligned : scene.trapframe % pageSize = 0) (bounded : scene.trapframe + pageSize < usizeBound) :
    wpr (loadImage plat scene.pid scene.root scene.trapframe image)
      (fun _ t => Equipped plat t.memory scene.pid (t.object scene.pid) ∧
        (t.object scene.pid).context = .prepareFirstTimeExecution ∧
        ∃ elf, plat.minimalParse image = some elf ∧ Saved t.memory (t.object scene.pid).trapframe
          initialRegisters (BitVec.ofNat 64 elf.entry) ∧
          Communicates t.memory (t.object scene.pid).pageTable)
      (fun _ t => Nascent plat scene 0 t) Any s := by
  rw [loadImage, wpr_bind, wpr_lift]
  apply wp_weaken (wp_initialiseTrapframe_nascent reared barren aligned)
  intro _ s₁ nascent₁
  cases parsed : plat.minimalParse image with
  | none =>
      rw [wpr_bind, okOr, wpr_throw]
      exact nascent₁
  | some elf =>
      cases headers : elf.segments with
      | none =>
          rw [wpr_bind, okOr, wpr_pure, headers, wpr_bind, okOr, wpr_throw]
          exact nascent₁
      | some segments =>
          rw [wpr_bind, okOr, wpr_pure, headers, wpr_bind, okOr, wpr_pure, wpr_bind]
          have loads := @preserves_loadSegments_nascent plat scene 0 placed image segments
            (good elf segments parsed headers)
          apply wpr_weaken (loads.to_wpr nascent₁)
          case fails => exact fun _ _ kept => kept
          intro _ s₂ nascent₂
          rcases nascent₂.reared with ⟨U₂, reared₂⟩
          rw [wpr_bind, wpr_lift]
          apply wp_weaken (wp_storeField_reared reared₂ TrapFrame.sepc _ (by decide))
          intro _ s₃ done₃
          rcases done₃ with ⟨reared₃, memory₃, -, leaves₃⟩
          have nascent₃ : Nascent plat scene (BitVec.ofNat 64 elf.entry) s₃ := by
            refine ⟨?_, ?_, ⟨U₂, reared₃⟩, ?_⟩
            · apply nascent₂.toLabelled.congr
              intro x low high
              rw [memory₃]
              apply if_neg
              simp only [TrapFrame.sepc, savedBytes] at *
              omega
            · rw [memory₃]
              exact nascent₂.blank.write_sepc _
            · intro va entry leaf
              exact nascent₂.barren va entry ((leaves₃ va).symm.trans leaf)
          rw [wpr_lift]
          apply wp_expectResult
          exact wpr_mono (wpr_mapOtherPages_equipped placed nascent₃ bounded)
            (fun _ _ done => ⟨done.1, done.2.1, elf, rfl, done.2.2⟩) (fun _ _ _ => trivial)
            (fun _ _ => trivial)

/-- A new process is equipped. If its creation fails, the process that stays behind is not. -/
theorem wpr_assignProcess_equipped (placed : Placed plat) (intact : AllocatorIntact plat s)
    (name : List UInt8) {image : List UInt8} (good : GoodImage plat image) :
    wpr (assignProcess plat name image)
      (fun child t => child = s.pid + 1 ∧ Equipped plat t.memory (s.pid + 1) (t.object (s.pid + 1)) ∧
        (t.object (s.pid + 1)).context = .prepareFirstTimeExecution ∧
        ∃ elf, plat.minimalParse image = some elf ∧ Saved t.memory (t.object (s.pid + 1)).trapframe
          initialRegisters (BitVec.ofNat 64 elf.entry) ∧
          Communicates t.memory (t.object (s.pid + 1)).pageTable)
      (fun _ t => Unequipped plat t.memory (t.object (s.pid + 1)) ∧
        (t.object (s.pid + 1)).context = .prepareFirstTimeExecution) Any s := by
  rcases intact with ⟨⟨free, live, wf⟩, start⟩
  rw [assignProcess]
  simp only [wpr_bind, wpr_lift]
  apply wp_unwrapResult_any
  apply wpr_weaken (wpr_allocateBlock wf pageSize)
  case fails => exact fun _ _ _ => trivial
  intro root s₁ done₁
  rcases done₁ with ⟨⟨free₁, first⟩, rest₁⟩
  apply wp_unwrapResult_any
  apply wpr_weaken (wpr_allocateBlock first.wellFormed pageSize)
  case fails => exact fun _ _ _ => trivial
  intro trapframe s₂ done₂
  rcases done₂ with ⟨⟨free₂, second⟩, rest₂⟩
  have pid : s₂.pid = s.pid := by rw [rest₂, rest₁]
  have aligned : trapframe % pageSize = 0 := by
    have block := second.wellFormed.aligned ⟨trapframe, pageSize⟩ (by simp)
    rw [second.memoryStart.trans (first.memoryStart.trans start), placed.aligned] at block
    exact block
  have bounded : trapframe + pageSize < usizeBound := by
    have block := second.wellFormed.live_inside ⟨trapframe, pageSize⟩ List.mem_cons_self
    have high := second.wellFormed.bounded
    simp only at block
    omega
  apply wp_nextPid fun _ _ => trivial
  rw [wp_modifyObject, pid]
  apply wp_addProcess_any
  intro pids held
  apply wpr_guarded_any
  rw [buildProcess, wpr_bind, wpr_lift, wp_modifyObject]
  have barren : Barren s₂.memory root := by
    intro va entry leaf
    rw [leafAt_of_zero s₂.memory root (root_zeroed first second) va] at leaf
    cases leaf
  have loads := @wpr_loadImage_equipped plat (Scene.solitary (s.pid + 1) root trapframe) ∅
  have begins : ∀ t : GlobalState, t.allocator = s₂.allocator → t.memory = s₂.memory →
      t.object (s.pid + 1) = prepared name root trapframe (Process.default (s.pid + 1)) →
      Reared plat (Scene.solitary (s.pid + 1) root trapframe) ∅ t := by
    intro t allocator memory own
    have drawn := drawn_nil placed wf start first second allocator memory
      (congrArg Process.pageTable own) (congrArg Process.trapframe own)
    exact ⟨drawn.rooted, drawn.root, drawn.trapframe, congrArg Process.context own⟩
  apply wpr_mono (loads placed image good ?reared ?barren aligned bounded)
  case reared =>
    apply begins
    · rfl
    · rfl
    · simp only [Function.update_self]
  case barren => exact barren
  · intro _ t equipped
    rw [wpr_pure]
    exact ⟨rfl, equipped⟩
  · intro _ t nascent
    rcases nascent.reared with ⟨U, reared⟩
    have labelled := nascent.toLabelled
    have barren := nascent.barren
    rw [← reared.root, ← reared.trapframe] at labelled
    rw [← reared.root] at barren
    exact ⟨⟨labelled, barren⟩, reared.context⟩
  · exact fun _ h => h

end Creation

end Jangri
