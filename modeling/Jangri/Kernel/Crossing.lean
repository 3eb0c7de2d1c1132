import Jangri.Kernel.KernelSpace

namespace Jangri

open Lib Lib.Rv64

def trampolineWord : Word := BitVec.ofNat 64 trampoline

/-- The code of the trampoline page as the linker places it. `TRAMPOLINE_OFFSET` is where
`return_to_user_mode` starts. -/
structure TrampolineText (plat : Platform) (text : Text) where
  trampolineOffset : Nat
  stop : Nat
  handler : Located text plat.trampolineCodeAddress handleTrapsFromUserMode
    (plat.trampolineCodeAddress + trampolineOffset)
  returning : Located text (plat.trampolineCodeAddress + trampolineOffset) returnToUserModeCode
    (plat.trampolineCodeAddress + stop)
  inside : stop ≤ pageSize

/-- The kernel can write to all of the kernel stack of `p`, so that compiled code can run on it. -/
def HasStack (m : Memory) (satp : Word) (p : Nat) : Prop :=
  ∃ address, kernelStackAddress p = .ok address ∧
    ∀ va : Word, address ≤ va.toNat → va.toNat < address + 4 * pageSize →
      ∃ pa, Sv48.mmu m satp .supervisor .store va = some pa

/-- The mappings that the way between the kernel and its processes uses: the trampoline, RAM at its own
addresses, and the kernel stacks. From pid `2 ^ 49` on their addresses leave the upper half of the
address space. -/
structure KernelSpace (plat : Platform) (m : Memory) : Prop where
  bounded : plat.kernelPageTable < usizeBound
  aligned : plat.kernelPageTable % pageSize = 0
  codeBounded : plat.trampolineCodeAddress < usizeBound
  codeAligned : plat.trampolineCodeAddress % pageSize = 0
  code : leafAt m plat.kernelPageTable trampoline =
    some (.pack plat.trampolineCodeAddress (PageTableEntry.flags true false true false))
  ram : ∀ page ∈ plat.FreeRam, page % pageSize = 0 → leafAt m plat.kernelPageTable page =
    some (.pack page (PageTableEntry.flags true true false false))
  stacked : ∀ p < 2 ^ 49,
    HasStack m (Sv48.satpFor plat.kernelPageTable) p ↔ p < maximumProcess

theorem HasStack.congr {m m' : Memory} {root p : Nat} (bounded : root < usizeBound)
    (aligned : root % pageSize = 0) (same : ∀ va, leafAt m' root va = leafAt m root va)
    (stack : HasStack m (Sv48.satpFor root) p) : HasStack m' (Sv48.satpFor root) p := by
  rcases stack with ⟨address, known, stores⟩
  refine ⟨address, known, fun va from_ to_ => ?_⟩
  rcases stores va from_ to_ with ⟨pa, translated⟩
  rw [Sv48.mmu_satpFor bounded aligned] at translated
  rw [← same] at translated
  exact ⟨pa, (Sv48.mmu_satpFor bounded aligned).trans translated⟩

theorem KernelSpace.congr {plat : Platform} {m m' : Memory} (space : KernelSpace plat m)
    (same : ∀ va, leafAt m' plat.kernelPageTable va = leafAt m plat.kernelPageTable va) :
    KernelSpace plat m' where
  bounded := space.bounded
  aligned := space.aligned
  codeBounded := space.codeBounded
  codeAligned := space.codeAligned
  code := (same _).trans space.code
  ram := fun page free whole => (same _).trans (space.ram page free whole)
  stacked := by
    intro p small
    rw [← space.stacked p small]
    constructor
    · exact HasStack.congr space.bounded space.aligned fun va => (same va).symm
    · exact HasStack.congr space.bounded space.aligned same

theorem freeRam_lt {plat : Platform} {x : Nat} (free : x ∈ plat.FreeRam) : x < ramStop := free.2

section Stacks

variable {plat : Platform} (layout : KernelLayout plat) {stackCalls : List MapCall} {root p : Nat}
  {m : Memory}

theorem kernelStackAddress_lower {address : Nat} (known : kernelStackAddress p = .ok address)
    (small : p < 2 ^ 49) : 2 ^ 47 ≤ address := by
  have place := kernelStackAddress_ok known
  simp only [trampoline, pageSize] at place
  omega

theorem hasStack_of_low (tables : Tables m root) (laid : StackCalls plat 64 stackCalls)
    (charted : Charted root (fixedCalls plat ++ stackCalls) m) (low : p < 64) :
    HasStack m (Sv48.satpFor root) p := by
  have page := tables.aligned _ tablePage_root
  refine ⟨_, kernelStackAddress_eq (by omega), fun va from_ to_ => ?_⟩
  rcases KernelLayout.stack_leaf laid charted low from_ to_ with ⟨entry, leaf, writeable, supervisor⟩
  have canonical : Sv48.Canonical va.toNat := by
    right
    simp only [trampoline, pageSize] at *
    omega
  have permitted : Sv48.permits entry .supervisor .store = true := by
    rw [Sv48.permits, Sv48.allows, writeable, supervisor]
    rfl
  refine ⟨entry.getPhysicalAddress + va.toNat % pageSize, ?_⟩
  rw [Sv48.mmu_satpFor page.2 page.1, leaf, Option.bind_some, if_pos ⟨canonical, permitted⟩]

include layout in
theorem not_hasStack_of_high (tables : Tables m root) (laid : StackCalls plat 64 stackCalls)
    (charted : Charted root (fixedCalls plat ++ stackCalls) m) (high : 64 ≤ p) (small : p < 2 ^ 49) :
    ¬ HasStack m (Sv48.satpFor root) p := by
  rintro ⟨address, known, stores⟩
  have page := tables.aligned _ tablePage_root
  have place := kernelStackAddress_ok known
  have upper := kernelStackAddress_lower known small
  have inside : address < 2 ^ 64 := by
    simp only [trampoline, pageSize] at place
    omega
  have first : (BitVec.ofNat 64 address).toNat = address := by
    rw [BitVec.toNat_ofNat, Nat.mod_eq_of_lt inside]
  rcases stores (BitVec.ofNat 64 address) (by rw [first])
    (by rw [first]; simp only [pageSize]; omega) with ⟨pa, translated⟩
  rw [Sv48.mmu_satpFor page.2 page.1, first] at translated
  rcases Option.bind_eq_some_iff.mp translated with ⟨entry, leaf, allowed⟩
  split at allowed
  case isFalse => cases allowed
  case isTrue permitted =>
    have writeable : entry.writeable = true := (Bool.and_eq_true_iff.mp permitted.2).2
    have written := writeable_page layout laid charted leaf writeable
    have canonical : address / 2 ^ 47 = 2 ^ 17 - 1 :=
      permitted.1.resolve_left (by omega)
    have number : vpn address = address / pageSize % 2 ^ 36 := by
      simp only [vpn, pageSize]
    have bounds : 2 ^ 52 - 2 ^ 35 ≤ address / pageSize ∧ address / pageSize ≤ 2 ^ 52 - 326 := by
      simp only [trampoline, pageSize] at *
      omega
    have between := upper_half bounds.1 bounds.2
    have ram := layout.ram
    rw [KernelLayout.Writeable, number] at written
    omega

end Stacks

theorem KernelLayout.kernelSpace {plat : Platform} (layout : KernelLayout plat)
    {stackCalls : List MapCall} {m : Memory} (tables : Tables m plat.kernelPageTable)
    (laid : StackCalls plat 64 stackCalls)
    (charted : Charted plat.kernelPageTable (fixedCalls plat ++ stackCalls) m) :
    KernelSpace plat m where
  bounded := (tables.aligned _ tablePage_root).2
  aligned := (tables.aligned _ tablePage_root).1
  codeBounded := by
    have inText := layout.trampolineInText.2
    have rest := plat.rest
    have ram := layout.ram
    simp only [ramStop, usizeBound] at *
    omega
  codeAligned := layout.trampolineAligned
  code := by
    have present : trampolineCall plat ∈ fixedCalls plat ++ stackCalls :=
      List.mem_append_left _ (by simp [fixedCalls])
    have leaf := charted.leaf present (i := 0) (by simp only [trampolineCall, pageSize]; omega)
    simpa [MapCall.entry, trampolineCall, MapCall.flags] using leaf
  ram := by
    intro page free whole
    have rest := plat.rest
    have low := free.1
    have high := free.2
    have textAligned := layout.textAligned
    have present : ramCall plat ∈ fixedCalls plat ++ stackCalls :=
      List.mem_append_left _ (by simp [fixedCalls])
    have leaf := charted.leaf present (i := page - plat.endOfKernelText)
      (by simp only [ramCall]; omega)
    have here : (ramCall plat).va + (page - plat.endOfKernelText) = page := by
      simp only [ramCall]
      omega
    have frame : (ramCall plat).pa + (page - plat.endOfKernelText) / pageSize * pageSize = page := by
      simp only [ramCall, pageSize] at *
      omega
    rw [here, MapCall.entry, frame] at leaf
    exact leaf
  stacked := by
    intro p small
    constructor
    · intro stack
      by_contra high
      exact not_hasStack_of_high layout tables laid charted (not_lt.mp high) small stack
    · exact hasStack_of_low tables laid charted

def Process.OnlyRegisters (process : Process) (m m' : Memory) : Prop :=
  Set.EqOn m' m (Set.Ico process.trapframe (process.trapframe + savedBytes))ᶜ

structure Bridged (plat : Platform) (m : Memory) (process : Process) : Prop where
  bounded : process.pageTable < usizeBound
  aligned : process.pageTable % pageSize = 0
  frame : process.trapframe ∈ plat.FreeRam
  kernel : KernelSpace plat m
  lasting : ∀ m', process.OnlyRegisters m m' → ∀ va,
    leafAt m' process.pageTable va = leafAt m process.pageTable va ∧
      leafAt m' plat.kernelPageTable va = leafAt m plat.kernelPageTable va

section Crossing

variable {plat : Platform} {text : Text} {m : Memory} {pid : Nat} {process : Process} {h : Hart}

theorem Process.OnlyRegisters.write {m' : Memory} (alike : process.OnlyRegisters m m') (o value : Nat)
    (inside : o + 8 ≤ savedBytes) :
    process.OnlyRegisters m (m'.write (process.trapframe + o) 8 value) := by
  intro x outside
  rw [← alike outside]
  rw [Set.mem_compl_iff, Set.mem_Ico] at outside
  exact if_neg (by omega)

theorem trampolineWord_toNat : trampolineWord.toNat = trampoline := by decide

theorem trapframeWord_toNat : trapframeWord.toNat = trapframeVa := by decide

theorem window_of_pack {root pa size : Nat} {access : Rv64.Access} {va : Word} {r w x : Bool}
    {fine : Memory → Prop} (bounded : root < usizeBound) (aligned : root % pageSize = 0)
    (frame : pa < usizeBound ∧ pa % pageSize = 0)
    (leaf : ∀ m, fine m → leafAt m root va.toNat = some (.pack pa (PageTableEntry.flags r w x false)))
    (permitted : (match access with | .fetch => x | .load => r | .store => w) = true)
    (canonical : Sv48.Canonical va.toNat) (start : va.toNat % pageSize = 0) (inside : size ≤ pageSize) :
    Window Sv48.mmu fine (Sv48.satpFor root) access va pa size := by
  have rights := PageTableEntry.permissions_pack pa r w x false
  have permits : Sv48.permits (.pack pa (PageTableEntry.flags r w x false)) .supervisor access =
      true := by
    rw [Sv48.permits, rights.2.2.2]
    cases access with
    | fetch => simpa [Sv48.allows, rights] using permitted
    | load => simpa [Sv48.allows, rights] using permitted
    | store => simpa [Sv48.allows, rights] using permitted
  have address : (PageTableEntry.pack pa (PageTableEntry.flags r w x false)).getPhysicalAddress =
      pa := by
    rw [PageTableEntry.getPhysicalAddress_pack pa _ (PageTableEntry.flags_small r w x false) frame.1]
    have whole := frame.2
    rw [pageSize] at whole
    omega
  have window := Sv48.window_of_leaf bounded aligned leaf permits canonical start inside
  rw [address] at window
  exact window

section Windows

variable (bridged : Bridged plat m process)
include bridged

theorem Bridged.frame_bounds (whole : process.trapframe % pageSize = 0) :
    process.trapframe < usizeBound ∧ process.trapframe % pageSize = 0 := by
  have high := freeRam_lt bridged.frame
  refine ⟨?_, whole⟩
  simp only [ramStop, usizeBound] at *
  omega

theorem Bridged.frame_toNat (whole : process.trapframe % pageSize = 0) :
    (BitVec.ofNat 64 process.trapframe).toNat = process.trapframe :=
  (BitVec.toNat_ofNat _ _).trans (Nat.mod_eq_of_lt (bridged.frame_bounds whole).1)

theorem Bridged.kernelCode : Window Sv48.mmu (process.OnlyRegisters m) (Sv48.satpFor plat.kernelPageTable)
    .fetch trampolineWord plat.trampolineCodeAddress pageSize := by
  have kernel := bridged.kernel
  apply window_of_pack kernel.bounded kernel.aligned ⟨kernel.codeBounded, kernel.codeAligned⟩
    (r := true) (w := false) (x := true)
  · intro m' alike
    rw [trampolineWord_toNat, (bridged.lasting m' alike _).2]
    exact kernel.code
  · rfl
  · decide
  · decide
  · exact le_refl _

theorem Bridged.kernelFrame (whole : process.trapframe % pageSize = 0) :
    Window Sv48.mmu (process.OnlyRegisters m) (Sv48.satpFor plat.kernelPageTable) .load
      (BitVec.ofNat 64 process.trapframe) process.trapframe 304 := by
  have kernel := bridged.kernel
  have bounds := bridged.frame_bounds whole
  have high := freeRam_lt bridged.frame
  have value := bridged.frame_toNat whole
  apply window_of_pack kernel.bounded kernel.aligned bounds (r := true) (w := true) (x := false)
  · intro m' alike
    rw [value, (bridged.lasting m' alike _).2]
    exact kernel.ram _ bridged.frame whole
  · rfl
  · left
    rw [value]
    simp only [ramStop] at high
    omega
  · rw [value]
    exact whole
  · decide

theorem Bridged.userCode (equipped : Equipped plat m pid process) :
    Window Sv48.mmu (process.OnlyRegisters m) (Sv48.satpFor process.pageTable) .fetch trampolineWord
      plat.trampolineCodeAddress pageSize := by
  have kernel := bridged.kernel
  apply window_of_pack bridged.bounded bridged.aligned ⟨kernel.codeBounded, kernel.codeAligned⟩
    (r := true) (w := false) (x := true)
  · intro m' alike
    rw [trampolineWord_toNat, (bridged.lasting m' alike _).1]
    exact equipped.code
  · rfl
  · decide
  · decide
  · exact le_refl _

theorem Bridged.userFrame (equipped : Equipped plat m pid process) (access : Rv64.Access)
    (data : access ≠ .fetch) (size : Nat) (inside : size ≤ pageSize) :
    Window Sv48.mmu (process.OnlyRegisters m) (Sv48.satpFor process.pageTable) access trapframeWord
      process.trapframe size := by
  apply window_of_pack bridged.bounded bridged.aligned (bridged.frame_bounds equipped.aligned)
    (r := true) (w := true) (x := false)
  · intro m' alike
    rw [trapframeWord_toNat, (bridged.lasting m' alike _).1]
    exact equipped.frame
  · cases access with
    | fetch => exact absurd rfl data
    | load => rfl
    | store => rfl
  · decide
  · decide
  · exact inside

end Windows

/-- The trap of an equipped process ends in `user_trap`, in the address space of the kernel and on top
of the kernel stack of the process, with the registers in the trap frame. -/
theorem Bridged.enters (bridged : Bridged plat m process) (equipped : Equipped plat m pid process)
    (located : TrampolineText plat text) (memory : h.memory = m)
    (privilege : h.privilege = .supervisor) (satp : h.csr .satp = Sv48.satpFor process.pageTable)
    (pc : h.pc = trampolineWord) :
    ∃ h', h.steps Sv48.mmu text handleTrapsFromUserMode.length = some h' ∧
      Saved h'.memory process.trapframe h.x (h.csr .sepc) ∧ process.OnlyRegisters m h'.memory ∧
      h'.privilege = .supervisor ∧ h'.csr .satp = Sv48.satpFor plat.kernelPageTable ∧
      h'.pc = BitVec.ofNat 64 plat.userTrapAddress ∧
      ∃ address, kernelStackAddress pid = .ok address ∧
        h'.x .sp = BitVec.ofNat 64 address + 16384#64 := by
  have inside : located.trampolineOffset ≤ pageSize := by
    have further := located.returning.le
    have whole := located.inside
    omega
  have here : At Sv48.mmu (process.OnlyRegisters m) trampolineWord plat.trampolineCodeAddress pageSize h 0 := by
    refine ⟨?_, privilege, ?_, ?_⟩
    · rw [memory]
      exact Set.eqOn_refl _ _
    · rw [satp]
      exact bridged.userCode equipped
    · rw [pc]
      exact (BitVec.add_zero _).symm
  have root : word h.memory (process.trapframe + 272) = Sv48.satpFor plat.kernelPageTable := by
    rw [memory]
    exact equipped.kernelPageTable
  have stores := bridged.userFrame equipped .store (by decide) savedBytes (by decide)
  have loads := bridged.userFrame equipped .load (by decide) 304 (by decide)
  rw [← satp] at stores loads
  have spec := handleTrapsFromUserMode_spec here located.handler inside stores loads
    (fun m' o value alike low => alike.write o value low) (by rw [root]; exact bridged.kernelCode)
  rcases spec with ⟨h', ran, saved, alike, -, privilege', satp', pc', sp'⟩
  rcases equipped.kernelStack with ⟨address, known, stack⟩
  refine ⟨h', ran, saved, alike, privilege', satp'.trans root, ?_, address, known, ?_⟩
  · rw [pc', memory]
    exact equipped.userTrapAddress
  · have field : word h.memory (process.trapframe + 264) = BitVec.ofNat 64 address := by
      rw [memory]
      exact stack
    rw [sp', field]

/-- The way back to an equipped process ends in its address space, with the registers that are in its
trap frame. -/
theorem Bridged.leaves (bridged : Bridged plat m process) (equipped : Equipped plat m pid process)
    (located : TrampolineText plat text) (memory : h.memory = m)
    (privilege : h.privilege = .supervisor) (satp : h.csr .satp = Sv48.satpFor plat.kernelPageTable)
    (pc : h.pc = trampolineWord + BitVec.ofNat 64 located.trampolineOffset)
    (argument : h.x .a0 = BitVec.ofNat 64 process.trapframe) :
    ∃ h', h.steps Sv48.mmu text returnToUserModeCode.length = some h' ∧ h'.memory = m ∧
      (∀ x pc, Saved m process.trapframe x pc → h'.x = x) ∧ h'.pc = h.csr .sepc ∧ h'.privilege = h.previous ∧
      h'.csr = Function.update h.csr .satp (Sv48.satpFor process.pageTable) := by
  have whole := equipped.aligned
  have here : At Sv48.mmu (process.OnlyRegisters m) trampolineWord plat.trampolineCodeAddress pageSize h
      located.trampolineOffset := by
    refine ⟨?_, privilege, ?_, pc⟩
    · rw [memory]
      exact Set.eqOn_refl _ _
    · rw [satp]
      exact bridged.kernelCode
  have root : word h.memory (process.trapframe + 288) = Sv48.satpFor process.pageTable := by
    rw [memory]
    exact equipped.satp
  have physical := bridged.kernelFrame whole
  rw [← satp, ← argument] at physical
  have aligned : (h.x .a0).toNat % 8 = 0 := by
    rw [argument, bridged.frame_toNat whole]
    simp only [pageSize] at whole
    omega
  have spec := returnToUserModeCode_spec here located.returning located.inside physical aligned
    (by rw [root]; exact bridged.userCode equipped)
    (by rw [root]; exact bridged.userFrame equipped .load (by decide) _ (by decide))
  rcases spec with ⟨h', ran, memory', x', pc', privilege', csr'⟩
  rw [root] at csr'
  rw [memory] at x'
  exact ⟨h', ran, memory'.trans memory, x', pc', privilege', csr'⟩

/-- A process whose creation has failed cannot be returned to: behind the change of `satp` there is
nothing to fetch. -/
theorem Bridged.stuck (bridged : Bridged plat m process) (unequipped : Unequipped plat m process)
    (located : TrampolineText plat text) (memory : h.memory = m)
    (privilege : h.privilege = .supervisor) (satp : h.csr .satp = Sv48.satpFor plat.kernelPageTable)
    (pc : h.pc = trampolineWord + BitVec.ofNat 64 located.trampolineOffset)
    (argument : h.x .a0 = BitVec.ofNat 64 process.trapframe) :
    h.steps Sv48.mmu text returnToUserModeCode.length = none := by
  have whole := unequipped.aligned
  have here : At Sv48.mmu (process.OnlyRegisters m) trampolineWord plat.trampolineCodeAddress pageSize h
      located.trampolineOffset := by
    refine ⟨?_, privilege, ?_, pc⟩
    · rw [memory]
      exact Set.eqOn_refl _ _
    · rw [satp]
      exact bridged.kernelCode
  have aligned : (h.x .a0).toNat % 8 = 0 := by
    rw [argument, bridged.frame_toNat whole]
    simp only [pageSize] at whole
    omega
  have physical := bridged.kernelFrame whole
  rw [← satp, ← argument] at physical
  have code := located.returning
  rw [returnToUserModeCode_eq] at code
  rcases here.straight h code located.inside (fun n => if_pos privilege) here.sound rfl here.window with
    ⟨g₁, k₁, step₁, here₁, located₁, alike₁⟩
  rw [← alike₁.csr] at physical
  rcases here₁.load located₁ located.inside physical aligned (by rw [alike₁.x]) (by decide) with
    ⟨g₂, k₂, step₂, here₂, located₂, alike₂⟩
  have root₂ : g₂.x .a1 = Sv48.satpFor process.pageTable := by
    have field : word h.memory (process.trapframe + 288) = Sv48.satpFor process.pageTable := by
      rw [memory]
      exact unequipped.satp
    rw [← field]
    simp [alike₂.x, alike₁.memory, word]
  -- the hart goes over to an address space without the trampoline
  rcases located₂ with ⟨n, positive, found, remaining⟩
  have further := remaining.le
  have low : k₂ < pageSize := by
    have whole := located.inside
    omega
  have step₃ := here₂.step low found
  rw [Hart.exec, if_pos here₂.privilege] at step₃
  have blank : Sv48.mmu g₂.memory (Sv48.satpFor process.pageTable) .supervisor .fetch
      (g₂.after n) = none := by
    apply Sv48.fetch_of_user bridged.bounded bridged.aligned
    intro entry leaf
    have same : g₂.memory = m := alike₂.memory.trans (alike₁.memory.trans memory)
    rw [same] at leaf
    exact unequipped.barren _ entry leaf
  have step₄ : ((g₂.setCsr .satp (g₂.x .a1)).jump (g₂.after n)).step Sv48.mmu text = none := by
    have fetched : Sv48.mmu ((g₂.setCsr .satp (g₂.x .a1)).jump (g₂.after n)).memory
        (((g₂.setCsr .satp (g₂.x .a1)).jump (g₂.after n)).csr .satp)
        ((g₂.setCsr .satp (g₂.x .a1)).jump (g₂.after n)).privilege .fetch
        ((g₂.setCsr .satp (g₂.x .a1)).jump (g₂.after n)).pc = none := by
      have changed : ((g₂.setCsr .satp (g₂.x .a1)).jump (g₂.after n)).csr .satp =
          Sv48.satpFor process.pageTable := by simp [root₂]
      rw [← here₂.privilege] at blank
      rw [changed]
      exact blank
    rw [Hart.step, fetched]
    rfl
  change Hart.steps Sv48.mmu text (_ + 1 + 1 + 1 + 1) h = none
  rw [Hart.steps, step₁, Option.bind_some, Hart.steps, step₂, Option.bind_some, Hart.steps, step₃,
    Option.bind_some, Hart.steps, step₄]
  rfl

end Crossing

end Jangri
