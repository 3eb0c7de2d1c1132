import Jangri.Kernel.Crossing
import Jangri.Kernel.Progress
import Jangri.Kernel.Upkeep

/-! The kernel together with its hart.

In user mode the registers are those of the program, and a trap or a return goes through the code of the
trampoline, instruction by instruction. What compiled code does with the registers in between is left
open, but for the ones that the calling convention fixes. -/

namespace Jangri

open Lib Lib.Rv64

structure Platform.Paged (plat : Platform) (t : GlobalState) : Prop where
  placed : Placed plat
  tables : Tables t.memory plat.kernelPageTable
  space : KernelSpace plat t.memory

theorem KernelLayout.Boots.paged {plat : Platform} {layout : KernelLayout plat} {t : GlobalState}
    (boots : layout.Boots plat.kernelPageTable t) : plat.Paged t := by
  rcases boots.table with ⟨-, stackCalls, laid, built⟩
  exact ⟨layout.placed, built.rooted.1, layout.kernelSpace built.rooted.1 laid built.charted⟩

namespace Machine

structure Upheld (plat : Platform) (t : GlobalState) (m : Machine) : Prop where
  orderly : m.Orderly
  watched : Watched plat (tableMemory t.memory plat.kernelPageTable) ∅ t m.kernel
  ram : Manages ramStop m.kernel

variable {plat : Platform} {t : GlobalState} {m m' : Machine} {p : Nat}

theorem Upheld.step (paged : plat.Paged t) (upheld : Upheld plat t m)
    (equipped : m.mode = .user → ∀ p, m.kernel.currentProcess = some p →
      Equipped plat m.kernel.memory p (m.kernel.object p)) {event : Event}
    (good : ∀ image, m.Loads plat event image → GoodImage plat image)
    (taken : Steps plat m event m') : Upheld plat t m' := by
  have start : Watched plat (tableMemory t.memory plat.kernelPageTable) ∅ m.kernel m.kernel :=
    ⟨upheld.watched.toReserved, fun _ _ => rfl, upheld.watched.provided⟩
  have watched := provided_of_steps paged.placed paged.tables.wholePages upheld.orderly start equipped
    good taken
  exact ⟨upheld.orderly.steps taken, ⟨watched.toReserved,
    fun x member => (watched.kernel x member).trans (upheld.watched.kernel x member), watched.provided⟩,
    (manages_administrative ramStop).steps upheld.ram taken⟩

/-- The process that the machine works for is there. -/
theorem Upheld.working (upheld : Upheld plat t m) (busy : m.mode ≠ .scheduler)
    (current : m.kernel.currentProcess = some p) :
    p ∈ m.kernel.processes ∧ Alive (m.kernel.object p) := by
  have works : m.WorksFor p := ⟨busy, current⟩
  rcases works.working upheld.orderly upheld.watched.separated with ⟨root, tf, working⟩
  exact ⟨working.present, working.alive⟩

theorem Upheld.kernelLeaves (upheld : Upheld plat t m) (va : Nat) :
    leafAt m.kernel.memory plat.kernelPageTable va = leafAt t.memory plat.kernelPageTable va :=
  leafAt_congr _ _ _ (fun page isPage x low high =>
    upheld.watched.kernel x ⟨page, isPage, low, high⟩) va

theorem Upheld.hasStack_iff (paged : plat.Paged t) (upheld : Upheld plat t m) (p : Nat) :
    HasStack m.kernel.memory (Sv48.satpFor plat.kernelPageTable) p ↔
      HasStack t.memory (Sv48.satpFor plat.kernelPageTable) p := by
  constructor
  · exact HasStack.congr paged.space.bounded paged.space.aligned fun va => (upheld.kernelLeaves va).symm
  · exact HasStack.congr paged.space.bounded paged.space.aligned upheld.kernelLeaves

theorem Upheld.bridged (paged : plat.Paged t) (upheld : Upheld plat t m) (present : p ∈ m.kernel.processes)
    (alive : Alive (m.kernel.object p)) : Bridged plat m.kernel.memory (m.kernel.object p) := by
  rcases upheld.watched.isolated with ⟨free, live, owner, isolated, kernel⟩
  have tables := (isolated.spaces p present alive).tables
  have root := tables.aligned _ tablePage_root
  have page : ∀ page, TablePage m.kernel.memory plat.kernelPageTable page →
      TablePage t.memory plat.kernelPageTable page := by
    intro page
    exact (tablePage_congr t.memory m.kernel.memory _ (fun page isPage x low high =>
      upheld.watched.kernel x ⟨page, isPage, low, high⟩) page).mp
  have frame : ∀ x, (m.kernel.object p).trapframe ≤ x →
      x < (m.kernel.object p).trapframe + pageSize → Held live owner (.trapframe p) x :=
    isolated.frames p present
  refine ⟨root.2, root.1, ?_, paged.space.congr upheld.kernelLeaves, ?_⟩
  · rcases frame _ (le_refl _) (Nat.lt_add_of_pos_right (by decide)) with ⟨b, block, -, low, high⟩
    have inside := isolated.wf.live_inside b block
    have start := isolated.start
    have stop : m.kernel.allocator.memoryEnd = ramStop := upheld.ram
    exact ⟨by omega, by omega⟩
  · intro m' only va
    have changed : ∀ x, m' x ≠ m.kernel.memory x → (m.kernel.object p).trapframe ≤ x ∧
        x < (m.kernel.object p).trapframe + pageSize := by
      intro x different
      by_contra outside
      apply different
      apply only
      rw [Set.mem_compl_iff, Set.mem_Ico]
      simp only [savedBytes, pageSize] at *
      omega
    constructor
    · exact upheld.watched.separated.leaf_write present alive (fun x different => Or.inl (changed x different)) va
    · apply leafAt_congr
      intro t' isPage x low high
      by_contra different
      have range := changed x different
      have own := frame x range.1 range.2
      cases held_unique isolated.wf own (kernel x ⟨t', page t' isPage, low, high⟩)

theorem Upheld.current (upheld : Upheld plat t m) (busy : m.mode ≠ .scheduler) {event : Event}
    (taken : Steps plat m event m') : m'.kernel.currentProcess = m.kernel.currentProcess :=
  (moves_of_steps upheld.orderly taken).current.1 busy

theorem Upheld.saves (paged : plat.Paged t) (upheld : Upheld plat t m) (inUser : m.mode = .user)
    (current : m.kernel.currentProcess = some p)
    (equipped : Equipped plat m.kernel.memory p (m.kernel.object p)) {memory : Memory}
    (only : (m.kernel.object p).OnlyRegisters m.kernel.memory memory) :
    Upheld plat t ⟨{ m.kernel with memory }, .user⟩ ∧
      Equipped plat memory p (m.kernel.object p) ∧
      Undisturbed p m.kernel { m.kernel with memory } := by
  have busy : m.mode ≠ .scheduler := by
    rw [inUser]
    decide
  rcases upheld.working busy current with ⟨present, alive⟩
  have bridged := upheld.bridged paged present alive
  rcases upheld.watched.isolated with ⟨free, live, owner, isolated, kernel⟩
  have attached := isolated.attach upheld.watched.contexts present alive
  have stored : Attached plat (m.kernel.scene p (Isolated.foreign live owner p)) ∅
      { m.kernel with memory } := by
    apply attached.write
    intro x different
    right
    by_contra outside
    apply different
    apply only
    rw [Set.mem_compl_iff, Set.mem_Ico]
    simp only [Scene.frame, GlobalState.scene, Set.mem_Ico, savedBytes, pageSize] at *
    omega
  have reserved := Reserved.of_attached paged.placed paged.tables.wholePages isolated kernel rfl rfl rfl
    (fun _ known _ => known) stored
  have undisturbed : Undisturbed p m.kernel { m.kernel with memory } :=
    stored.undisturbed (isolated.covers p) rfl rfl fun _ known => known
  have equipped' : Equipped plat memory p (m.kernel.object p) := by
    apply equipped.congr rfl rfl
    · intro va entry leaf
      exact (bridged.lasting memory only va).1.trans leaf
    · intro x low _
      apply only
      rw [Set.mem_compl_iff, Set.mem_Ico]
      omega
  refine ⟨⟨?_, ⟨reserved.1, ?_, ?_⟩, upheld.ram⟩, equipped', undisturbed⟩
  · have orderly := upheld.orderly
    rw [Orderly, inUser] at orderly
    exact orderly
  · exact fun x member => (reserved.2 x member).trans (upheld.watched.kernel x member)
  · intro q present other alive
    have provided := upheld.watched.provided q present other alive
    by_cases here : q = p
    · rw [here] at provided ⊢
      exact ⟨provided.resumes, Or.inr equipped'⟩
    · exact (undisturbed q present here).provided alive provided

end Machine

/-- The kernel with its hart. While the kernel itself runs, the registers are those of its code. -/
structure Computer where
  kernel : GlobalState
  mode : Mode
  core : Core

inductive Action
  | compute
  | event (event : Event)

structure Returning (plat : Platform) (offset : Nat) (satp : Word) (s : GlobalState) (p trapframe : Nat)
    (h : Hart) : Prop where
  memory : h.memory = s.memory
  privilege : h.privilege = .supervisor
  previous : h.previous = .user
  satp : h.csr .satp = satp
  stvec : h.csr .stvec = trampolineWord
  sepc : h.csr .sepc = word s.memory ((s.object p).trapframe + TrapFrame.sepc)
  argument : h.x .a0 = BitVec.ofNat 64 trapframe
  pc : h.pc = trampolineWord + BitVec.ofNat 64 offset

namespace Computer

def machine (c : Computer) : Machine := ⟨c.kernel, c.mode⟩

def hart (c : Computer) : Hart := ⟨c.core, c.kernel.memory⟩

def Runs (c : Computer) (p : Nat) : Prop := c.mode = .user ∧ c.kernel.currentProcess = some p

/-- A trap brings the hart to `user_trap`. -/
structure Enters (plat : Platform) (text : Text) (c : Computer) (info : TrapInfo) (h : Hart) : Prop where
  inUser : c.mode = .user
  sepc : info.sepc = c.core.pc.toNat
  ran : c.hart.trap.steps Sv48.mmu text handleTrapsFromUserMode.length = some h
  called : h.pc = BitVec.ofNat 64 plat.userTrapAddress

section Steps

variable (plat : Platform) {text : Text} (located : TrampolineText plat text)

def Returns (satp : Word) (s : GlobalState) (p trapframe : Nat) (c : Computer) : Prop :=
  ∃ h h', Returning plat located.trampolineOffset satp s p trapframe h ∧
    h.steps Sv48.mmu text returnToUserModeCode.length = some h' ∧
    c = ⟨{ s with memory := h'.memory }, .user, h'.toCore⟩

/-- In user mode the program computes with its registers, writes to memory or traps. In the kernel
nothing but the trampoline changes `satp`. A thread that is switched to goes on only if its stack is
mapped, since every access to another stack traps on that same stack. -/
inductive Steps : Computer → Action → Computer → Prop
  | compute (c : Computer) (x : Register → Word) (pc : Word) (inUser : c.mode = .user) :
      Steps c .compute { c with core := { c.core with x, pc } }
  | store (c : Computer) (s : GlobalState) (va : Nat) (byte : UInt8)
      (taken : c.machine.Steps plat (.store va byte) ⟨s, .user⟩) :
      Steps c (.event (.store va byte)) { c with kernel := s }
  | scheduler (c : Computer) (event : Event) (s : GlobalState) (mode : Mode) (core : Core)
      (scheduling : c.mode = .scheduler) (taken : c.machine.Steps plat event ⟨s, mode⟩)
      (satp : core.csr .satp = c.core.csr .satp) : Steps c (.event event) ⟨s, mode, core⟩
  | leave (c : Computer) (info : TrapInfo) (h : Hart) (s : GlobalState) (core : Core)
      (enters : Enters plat text c info h)
      (taken : Machine.Steps plat ⟨{ c.kernel with memory := h.memory }, .user⟩ (.trap info)
        ⟨s, .scheduler⟩)
      (satp : core.csr .satp = h.csr .satp) : Steps c (.event (.trap info)) ⟨s, .scheduler, core⟩
  | stay (c : Computer) (info : TrapInfo) (h : Hart) (s : GlobalState) (p : Nat) (c' : Computer)
      (enters : Enters plat text c info h) (current : c.kernel.currentProcess = some p)
      (taken : Machine.Steps plat ⟨{ c.kernel with memory := h.memory }, .user⟩ (.trap info)
        ⟨s, .user⟩)
      (returns : Returns plat located (h.csr .satp) s p (c.kernel.object p).trapframe c') :
      Steps c (.event (.trap info)) c'
  | resume (c : Computer) (s : GlobalState) (p : Nat) (c' : Computer) (resumed : c.mode = .resumed)
      (current : c.kernel.currentProcess = some p)
      (stack : HasStack c.kernel.memory (c.core.csr .satp) p)
      (taken : c.machine.Steps plat .resume ⟨s, .user⟩)
      (returns : Returns plat located (c.core.csr .satp) s p (c.kernel.object p).resumeFrame c') :
      Steps c (.event .resume) c'

def Loads (text : Text) (c : Computer) (action : Action) (image : List UInt8) : Prop :=
  match action with
  | .compute => False
  | .event (.trap info) => ∃ h, Enters plat text c info h ∧
      Machine.Loads plat ⟨{ c.kernel with memory := h.memory }, .user⟩ (.trap info) image
  | .event event => c.machine.Loads plat event image

end Steps

/-- An equipped process runs in its own address space, and traps to the trampoline. -/
structure Running (plat : Platform) (c : Computer) (p : Nat) : Prop where
  equipped : Equipped plat c.kernel.memory p (c.kernel.object p)
  privilege : c.core.privilege = .user
  satp : c.core.csr .satp = Sv48.satpFor (c.kernel.object p).pageTable
  stvec : c.core.csr .stvec = trampolineWord

structure Sound (plat : Platform) (t : GlobalState) (c : Computer) : Prop where
  upheld : c.machine.Upheld plat t
  running : ∀ p, c.Runs p → Running plat c p
  kernelSatp : c.mode ≠ .user → c.core.csr .satp = Sv48.satpFor plat.kernelPageTable
  stacked : ∀ p, c.Runs p → HasStack t.memory (Sv48.satpFor plat.kernelPageTable) p

section Running

variable {plat : Platform} {text : Text} {located : TrampolineText plat text} {t s : GlobalState}
  {c c' : Computer} {p : Nat} {info : TrapInfo} {h : Hart}

theorem Runs.busy (runs : c.Runs p) : c.machine.mode ≠ .scheduler := by
  have inUser : c.machine.mode = .user := runs.1
  rw [inUser]
  decide

theorem Sound.bridged (paged : plat.Paged t) (sound : Sound plat t c) (runs : c.Runs p) :
    Bridged plat c.kernel.memory (c.kernel.object p) := by
  rcases sound.upheld.working runs.busy runs.2 with ⟨present, alive⟩
  exact sound.upheld.bridged paged present alive

/-- A trap always gets to `user_trap`, on top of the process's kernel stack. -/
theorem Sound.trap_enters (paged : plat.Paged t) (located : TrampolineText plat text)
    (sound : Sound plat t c) (runs : c.Runs p) :
    ∃ h, c.hart.trap.steps Sv48.mmu text handleTrapsFromUserMode.length = some h ∧
      h.pc = BitVec.ofNat 64 plat.userTrapAddress ∧ h.privilege = .supervisor ∧
      h.csr .satp = Sv48.satpFor plat.kernelPageTable ∧
      Saved h.memory (c.kernel.object p).trapframe c.core.x c.core.pc ∧
      (c.kernel.object p).OnlyRegisters c.kernel.memory h.memory ∧
      ∃ address, kernelStackAddress p = .ok address ∧
        h.x .sp = BitVec.ofNat 64 address + 16384#64 := by
  have running := sound.running p runs
  have satp : c.hart.trap.csr .satp = Sv48.satpFor (c.kernel.object p).pageTable := by
    rw [← running.satp]
    rfl
  rcases (sound.bridged paged runs).enters running.equipped located (h := c.hart.trap) rfl rfl satp
    running.stvec with ⟨h, ran, saved, only, privilege, satp', pc, stack⟩
  exact ⟨h, ran, pc, privilege, satp', saved, only, stack⟩

theorem Sound.enters (paged : plat.Paged t) (located : TrampolineText plat text)
    (sound : Sound plat t c) (runs : c.Runs p) (enters : Enters plat text c info h) :
    h.csr .satp = Sv48.satpFor plat.kernelPageTable ∧
      Saved h.memory (c.kernel.object p).trapframe c.core.x c.core.pc ∧
      (c.kernel.object p).OnlyRegisters c.kernel.memory h.memory := by
  rcases sound.trap_enters paged located runs with ⟨h', ran, -, -, satp, saved, only, -⟩
  have same : h = h' := Option.some.inj (enters.ran.symm.trans ran)
  rw [same]
  exact ⟨satp, saved, only⟩

/-- Only an equipped process is returned to, and it goes on with the registers in its trap frame. -/
theorem Returns.running {tf : Nat} (bridged : Bridged plat s.memory (s.object p))
    (provided : Provided plat s.memory p (s.object p)) (frame : tf = (s.object p).trapframe)
    (returns : Returns plat located (Sv48.satpFor plat.kernelPageTable) s p tf c') :
    c'.kernel = s ∧ c'.mode = .user ∧ Running plat c' p ∧
      ∀ x pc, Saved s.memory (s.object p).trapframe x pc → c'.core.x = x ∧ c'.core.pc = pc := by
  rcases returns with ⟨h, h', returning, ran, rfl⟩
  subst frame
  rcases provided.equipment with unequipped | equipped
  · have stuck := bridged.stuck unequipped located returning.memory returning.privilege returning.satp
      returning.pc returning.argument
    rw [stuck] at ran
    cases ran
  · rcases bridged.leaves equipped located returning.memory returning.privilege returning.satp
      returning.pc returning.argument with ⟨g, ran', memory, x, pc, privilege, csr⟩
    have same : h' = g := Option.some.inj (ran.symm.trans ran')
    subst same
    have kernel : ({ s with memory := h'.memory } : GlobalState) = s := by rw [memory]
    refine ⟨kernel, rfl, ⟨?_, ?_, ?_, ?_⟩, ?_⟩
    · rw [kernel]
      exact equipped
    · exact privilege.trans returning.previous
    · simp [csr]
    · simp [csr, returning.stvec]
    · intro y sepc saved
      refine ⟨x y sepc saved, ?_⟩
      have field : word s.memory ((s.object p).trapframe + TrapFrame.sepc) = sepc := by
        rw [word]
        have held := saved.sepc
        simp only [TrapFrame.sepc]
        rw [held, BitVec.ofNat_toNat, BitVec.setWidth_eq]
      exact pc.trans (returning.sepc.trans field)

end Running

section Keeping

variable {plat : Platform} {text : Text} {located : TrampolineText plat text} {t s : GlobalState}
  {c c' : Computer} {p : Nat} {info : TrapInfo} {h : Hart} {action : Action}

theorem runs_of_user (upheld : c.machine.Upheld plat t) (inUser : c.mode = .user) :
    ∃ p, c.Runs p := by
  have busy : c.machine.mode ≠ .scheduler := by
    change c.mode ≠ _
    rw [inUser]
    decide
  rcases Machine.working_of_orderly upheld.orderly upheld.watched.separated busy with
    ⟨p, root, tf, working⟩
  exact ⟨p, inUser, working.current⟩

structure Handled (plat : Platform) (t : GlobalState) (c : Computer) (p : Nat) (info : TrapInfo)
    (h : Hart) (s : GlobalState) (mode : Mode) : Prop where
  upheld : Machine.Upheld plat t ⟨s, mode⟩
  current : s.currentProcess = some p
  others : ∀ q ∈ c.kernel.processes, q ≠ p → Untouched c.kernel { c.kernel with memory := h.memory } q ∧
    Untouched { c.kernel with memory := h.memory } s q
  equipped : Equipped plat h.memory p (c.kernel.object p)
  trapped : ∃ returned, mode = (if returned = true then .user else .scheduler) ∧
    Trapped plat { c.kernel with memory := h.memory } p info returned s
  separated : Separated plat { c.kernel with memory := h.memory }

theorem Sound.handled {mode : Mode} (paged : plat.Paged t) (located : TrampolineText plat text)
    (sound : Sound plat t c) (runs : c.Runs p) (enters : Enters plat text c info h)
    (good : ∀ image, Loads plat text c (.event (.trap info)) image → GoodImage plat image)
    (taken : Machine.Steps plat ⟨{ c.kernel with memory := h.memory }, .user⟩ (.trap info) ⟨s, mode⟩) :
    Handled plat t c p info h s mode := by
  have running := sound.running p runs
  rcases sound.enters paged located runs enters with ⟨-, -, only⟩
  rcases sound.upheld.saves paged runs.1 runs.2 running.equipped only with
    ⟨upheld, equipped, undisturbed⟩
  have fine : ∀ image, Machine.Loads plat ⟨{ c.kernel with memory := h.memory }, .user⟩ (.trap info)
      image → GoodImage plat image := fun image loads => good image ⟨h, enters, loads⟩
  have works : Machine.WorksFor ⟨{ c.kernel with memory := h.memory }, .user⟩ p := ⟨by simp, runs.2⟩
  have after := upheld.step paged (fun _ q current => by
    have same : q = p := Option.some.inj (current.symm.trans runs.2)
    rw [same]
    exact equipped) fine taken
  have kept := Machine.kept_of_steps paged.placed upheld.orderly upheld.watched.separated fine taken
  have serves := Machine.serves_of_steps paged.placed upheld.orderly upheld.watched.separated fine works
    taken
  refine ⟨after, (upheld.current (by simp) taken).trans runs.2, ?_, equipped, ?_,
    upheld.watched.separated⟩
  · intro q present other
    refine ⟨undisturbed q present other, kept.untouched q present ?_⟩
    rintro ⟨-, current⟩
    exact other (Option.some.inj (current.symm.trans runs.2))
  · cases serves with
    | trap info returned mode mode' trapped => exact ⟨returned, mode', trapped⟩

theorem Handled.process {mode : Mode} (handled : Handled plat t c p info h s mode)
    (sound : Sound plat t c) (runs : c.Runs p) (stays : Alive (s.object p)) :
    (s.object p).pageTable = (c.kernel.object p).pageTable ∧
      (s.object p).trapframe = (c.kernel.object p).trapframe := by
  rcases handled.trapped with ⟨returned, -, trapped⟩
  rcases sound.upheld.working runs.busy runs.2 with ⟨present, alive⟩
  have provided := sound.upheld.watched.provided p present (Set.notMem_empty p) alive
  have process := trapped.process stays provided.resumes
  exact ⟨process.1, process.2.1⟩

theorem Handled.returned (paged : plat.Paged t) (handled : Handled plat t c p info h s .user)
    (sound : Sound plat t c) (runs : c.Runs p)
    (returns : Returns plat located (Sv48.satpFor plat.kernelPageTable) s p
      (c.kernel.object p).trapframe c') :
    c'.kernel = s ∧ c'.mode = .user ∧ Running plat c' p ∧
      ∀ x pc, Saved s.memory (s.object p).trapframe x pc → c'.core.x = x ∧ c'.core.pc = pc := by
  rcases handled.upheld.working (by simp) handled.current with ⟨present, alive⟩
  have bridged := handled.upheld.bridged paged present alive
  have provided := handled.upheld.watched.provided p present (Set.notMem_empty p) alive
  exact returns.running bridged provided (handled.process sound runs alive).2.symm

theorem Sound.resumed (paged : plat.Paged t) (sound : Sound plat t c) (resumed : c.mode = .resumed)
    (current : c.kernel.currentProcess = some p)
    (taken : c.machine.Steps plat .resume ⟨s, .user⟩)
    (returns : Returns plat located (c.core.csr .satp) s p (c.kernel.object p).resumeFrame c') :
    Machine.Upheld plat t ⟨s, .user⟩ ∧ s.currentProcess = some p ∧ Resumed plat c.kernel p s ∧
      (∀ q ∈ c.kernel.processes, q ≠ p → Untouched c.kernel s q) ∧ c'.kernel = s ∧ c'.mode = .user ∧
      Running plat c' p ∧
      ∀ x pc, Saved s.memory (s.object p).trapframe x pc → c'.core.x = x ∧ c'.core.pc = pc := by
  have busy : c.machine.mode ≠ .scheduler := by
    change c.mode ≠ _
    rw [resumed]
    decide
  have notUser : c.machine.mode ≠ .user := by
    change c.mode ≠ _
    rw [resumed]
    decide
  have fine : ∀ image, c.machine.Loads plat .resume image → GoodImage plat image := by
    rintro image (⟨-, name, impossible⟩ | ⟨-, info, impossible, -⟩)
    · cases impossible
    · cases impossible
  rcases sound.upheld.working busy current with ⟨present, alive⟩
  have works : c.machine.WorksFor p := ⟨busy, current⟩
  have after := sound.upheld.step paged (fun inUser => absurd inUser notUser) fine taken
  have serves := Machine.serves_of_steps paged.placed sound.upheld.orderly
    sound.upheld.watched.separated fine works taken
  have kept := Machine.kept_of_steps paged.placed sound.upheld.orderly
    sound.upheld.watched.separated fine taken
  have done : Resumed plat c.kernel p s := by
    cases serves with
    | resume mode mode' done => exact done
  have sparing := done.sparing sound.upheld.watched.separated present alive
  have current' : s.currentProcess = some p := (sound.upheld.current busy taken).trans current
  rcases after.working (by simp) current' with ⟨present', alive'⟩
  have bridged := after.bridged paged present' alive'
  have provided := after.watched.provided p present' (Set.notMem_empty p) alive'
  have frame : (c.kernel.object p).resumeFrame = (s.object p).trapframe := by
    have resumes := provided.resumes
    rw [sparing.object] at resumes ⊢
    exact resumes
  rw [sound.kernelSatp notUser] at returns
  refine ⟨after, current', done, ?_, returns.running bridged provided frame⟩
  intro q known other
  apply kept.untouched q known
  rintro ⟨-, isCurrent⟩
  exact other (Option.some.inj (isCurrent.symm.trans current))

theorem Sound.stored {va : Nat} {byte : UInt8} (paged : plat.Paged t) (sound : Sound plat t c)
    (runs : c.Runs p) (taken : c.machine.Steps plat (.store va byte) ⟨s, .user⟩) :
    Machine.Upheld plat t ⟨s, .user⟩ ∧ s.currentProcess = some p ∧ Sparing c.kernel p s ∧
      ∀ q ∈ c.kernel.processes, q ≠ p → Untouched c.kernel s q := by
  have fine : ∀ image, c.machine.Loads plat (.store va byte) image → GoodImage plat image := by
    rintro image (⟨-, name, impossible⟩ | ⟨-, info, impossible, -⟩)
    · cases impossible
    · cases impossible
  rcases sound.upheld.working runs.busy runs.2 with ⟨present, alive⟩
  have works : c.machine.WorksFor p := ⟨runs.busy, runs.2⟩
  have serves := Machine.serves_of_steps paged.placed sound.upheld.orderly
    sound.upheld.watched.separated fine works taken
  have kept := Machine.kept_of_steps paged.placed sound.upheld.orderly
    sound.upheld.watched.separated fine taken
  refine ⟨sound.upheld.step paged ?_ fine taken, (sound.upheld.current runs.busy taken).trans runs.2,
    ?_, ?_⟩
  · intro _ q current
    have same : q = p := Option.some.inj (current.symm.trans runs.2)
    rw [same]
    exact (sound.running p runs).equipped
  · cases serves with
    | store va byte mode mode' stored =>
        exact stored.sparing sound.upheld.watched.separated present alive
  · intro q known other
    apply kept.untouched q known
    rintro ⟨-, current⟩
    exact other (Option.some.inj (current.symm.trans runs.2))

theorem mode_of_store {va : Nat} {byte : UInt8}
    (taken : c.machine.Steps plat (.store va byte) ⟨s, .user⟩) : c.mode = .user := by
  rcases taken with ⟨operation, responds, -⟩
  change respond plat c.mode (.store va byte) = some operation at responds
  cases isMode : c.mode with
  | user => rfl
  | scheduler => rw [isMode] at responds; cases responds
  | resumed => rw [isMode] at responds; cases responds

theorem loads_of_scheduler {event : Event} (scheduling : c.mode = .scheduler)
    (good : ∀ image, Loads plat text c (.event event) image → GoodImage plat image)
    (image : List UInt8) (loads : c.machine.Loads plat event image) : GoodImage plat image := by
  rcases loads with ⟨-, name, rfl⟩ | ⟨inUser, -⟩
  · exact good image (Or.inl ⟨scheduling, name, rfl⟩)
  · change c.mode = .user at inUser
    rw [scheduling] at inUser
    cases inUser

theorem Sound.step (paged : plat.Paged t) (sound : Sound plat t c)
    (good : ∀ image, Loads plat text c action image → GoodImage plat image)
    (taken : Steps plat located c action c') : Sound plat t c' := by
  cases taken with
  | compute x pc inUser =>
      refine ⟨sound.upheld, ?_, sound.kernelSatp, sound.stacked⟩
      intro p runs
      have running := sound.running p runs
      exact ⟨running.equipped, running.privilege, running.satp, running.stvec⟩
  | store s va byte taken =>
      have inUser := mode_of_store taken
      rcases runs_of_user sound.upheld inUser with ⟨p, runs⟩
      rcases sound.stored paged runs taken with ⟨upheld, current, sparing, -⟩
      have running := sound.running p runs
      have only : ∀ q, s.currentProcess = some q → q = p :=
        fun q isCurrent => Option.some.inj (isCurrent.symm.trans current)
      refine ⟨?_, ?_, fun away => absurd inUser away, ?_⟩
      · change Machine.Upheld plat t ⟨s, c.mode⟩
        rw [inUser]
        exact upheld
      · rintro q ⟨-, isCurrent⟩
        rw [only q isCurrent]
        refine ⟨sparing.equipped running.equipped, running.privilege, ?_, running.stvec⟩
        rw [sparing.object]
        exact running.satp
      · rintro q ⟨-, isCurrent⟩
        rw [only q isCurrent]
        exact sound.stacked p runs
  | scheduler event s mode core scheduling taken satp =>
      have notUser : c.machine.mode ≠ .user := by
        change c.mode ≠ _
        rw [scheduling]
        decide
      have fine : ∀ image, c.machine.Loads plat event image → GoodImage plat image :=
        loads_of_scheduler scheduling good
      have away : mode ≠ .user :=
        (Machine.moves_of_steps sound.upheld.orderly taken).current.2 scheduling
      refine ⟨sound.upheld.step paged (fun inUser => absurd inUser notUser) fine taken, ?_, ?_, ?_⟩
      · rintro p ⟨inUser, -⟩
        exact absurd inUser away
      · exact fun _ => satp.trans (sound.kernelSatp notUser)
      · rintro p ⟨inUser, -⟩
        exact absurd inUser away
  | leave info h s core enters taken satp =>
      rcases runs_of_user sound.upheld enters.inUser with ⟨p, runs⟩
      have handled := sound.handled paged located runs enters good taken
      refine ⟨handled.upheld, ?_, ?_, ?_⟩
      · rintro q ⟨inUser, -⟩
        cases inUser
      · exact fun _ => satp.trans (sound.enters paged located runs enters).1
      · rintro q ⟨inUser, -⟩
        cases inUser
  | stay info h s p _ enters current taken returns =>
      have runs : c.Runs p := ⟨enters.inUser, current⟩
      have handled := sound.handled paged located runs enters good taken
      rw [(sound.enters paged located runs enters).1] at returns
      rcases handled.returned paged sound runs returns with ⟨kernel, mode, running, -⟩
      refine ⟨?_, ?_, fun away => absurd mode away, ?_⟩
      · rw [machine, kernel, mode]
        exact handled.upheld
      · rintro q ⟨-, isCurrent⟩
        rw [kernel, handled.current] at isCurrent
        rw [← Option.some.inj isCurrent]
        exact running
      · rintro q ⟨-, isCurrent⟩
        rw [kernel, handled.current] at isCurrent
        rw [← Option.some.inj isCurrent]
        exact sound.stacked p runs
  | resume s p _ resumed current stack taken returns =>
      rcases sound.resumed paged resumed current taken returns with
        ⟨upheld, current', -, -, kernel, mode, running, -⟩
      have notUser : c.mode ≠ .user := by
        rw [resumed]
        decide
      refine ⟨?_, ?_, fun away => absurd mode away, ?_⟩
      · rw [machine, kernel, mode]
        exact upheld
      · rintro q ⟨-, isCurrent⟩
        rw [kernel, current'] at isCurrent
        rw [← Option.some.inj isCurrent]
        exact running
      · rintro q ⟨-, isCurrent⟩
        rw [kernel, current'] at isCurrent
        rw [← Option.some.inj isCurrent]
        rw [sound.kernelSatp notUser] at stack
        exact (sound.upheld.hasStack_iff paged p).mp stack

end Keeping

end Computer

end Jangri
