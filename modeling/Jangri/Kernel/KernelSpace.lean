import Jangri.Kernel.Confinement
import Jangri.Kernel.KernelStacks
import Jangri.Kernel.Ram
import Jangri.Kernel.Watching

namespace Jangri

open Lib

def tableMemory (m : Memory) (root : Nat) : Set Nat :=
  {x | ∃ page, TablePage m root page ∧ page ≤ x ∧ x < page + pageSize}

theorem Tables.wholePages {m : Memory} {root : Nat} (tables : Tables m root) :
    WholePages (tableMemory m root) := by
  rintro x ⟨page, isPage, low, high⟩ y same
  have aligned := (tables.aligned page isPage).1
  refine ⟨page, isPage, ?_, ?_⟩
  · simp only [pageSize] at *
    omega
  · simp only [pageSize] at *
    omega

theorem Built.reserved {plat : Platform} {root : Nat} {calls : List MapCall} {s : GlobalState}
    (built : Built plat root calls s) (none : s.processes = []) :
    Reserved plat (tableMemory s.memory root) s := by
  rcases built.rooted.2 with ⟨free, live, owner, ledger⟩
  have nobody : ∀ q, q ∉ s.processes := by
    intro q present
    rw [none] at present
    cases present
  refine ⟨⟨free, live, fun _ => .kernel, ⟨ledger.wf, ledger.start, ?_, ?_⟩, ?_⟩, ?_⟩
  · exact fun q present => absurd present (nobody q)
  · exact fun q present => absurd present (nobody q)
  · rintro x ⟨page, isPage, low, high⟩
    exact ⟨⟨page, pageSize⟩, (ledger.pages page isPage).1, rfl, low, high⟩
  · exact fun q present => absurd present (nobody q)

/-- Everything that every run from `t` keeps, if `root` is the kernel's page table. -/
structure Sustained (plat : Platform) (root : Nat) (t : GlobalState) (u : Machine) : Prop where
  orderly : u.Orderly
  reserved : Reserved plat (tableMemory t.memory root) u.kernel
  same : ∀ x ∈ tableMemory t.memory root, u.kernel.memory x = t.memory x
  ram : Manages ramStop u.kernel

section Booting

variable {plat : Platform} (layout : KernelLayout plat) {root : Nat} {t : GlobalState} {m : Machine}
  {trace : List (Machine × Event)}

def KernelLayout.Boots (_ : KernelLayout plat) (root : Nat) (t : GlobalState) : Prop :=
  ∃ s : GlobalState, PageAllocator.new plat.kernelEnd ramStop = .ok s.allocator ∧
    Machine.Fresh ⟨s, .scheduler⟩ ∧ (initialiseKernelPageTable plat).run s = .ok (.ok root, t)

variable {layout}

theorem KernelLayout.Boots.table (boots : layout.Boots root t) :
    Machine.Fresh ⟨t, .scheduler⟩ ∧ ∃ stackCalls, StackCalls plat 64 stackCalls ∧
      Built plat root (fixedCalls plat ++ stackCalls) t := by
  rcases boots with ⟨s, new, fresh, returned⟩
  exact ⟨fresh_of_initialise fresh returned, layout.table_of_returned new returned⟩

theorem KernelLayout.Boots.sustained (boots : layout.Boots root t) :
    Sustained plat root t ⟨t, .scheduler⟩ := by
  rcases boots.table with ⟨fresh, stackCalls, laid, built⟩
  refine ⟨Machine.orderly_of_fresh fresh, built.reserved fresh.processes, fun _ _ => rfl, ?_⟩
  rcases boots with ⟨s, new, -, returned⟩
  have notNull : plat.kernelEnd ≠ 0 := by
    have aboveUart := layout.aboveUart
    have text := layout.text
    have rest := plat.rest
    simp only [uart0] at aboveUart
    omega
  have start : Manages ramStop s := by
    rcases PageAllocator.new_spec plat.kernelEnd ramStop notNull layout.ram.le (by decide) s.memory with
      ⟨alloc, created, -, -, stop, -⟩
    cases created.symm.trans new
    exact stop
  exact (preserves_initialised (manages_administrative ramStop)).returned start returned

theorem Sustained.step {u v : Machine} {event : Event} (placed : Placed plat)
    (tables : Tables t.memory root) (sustained : Sustained plat root t u)
    (good : ∀ image, u.Loads plat event image → GoodImage plat image)
    (taken : Machine.Steps plat u event v) : Sustained plat root t v := by
  have start : Watched plat (tableMemory t.memory root) Set.univ u.kernel u.kernel :=
    ⟨sustained.reserved, fun _ _ => rfl, fun q _ other => absurd (Set.mem_univ q) other⟩
  have watched := Machine.watched_of_steps placed tables.wholePages sustained.orderly start
    (fun p _ => Set.mem_univ p) good taken
  exact ⟨sustained.orderly.steps taken, watched.toReserved,
    fun x member => (watched.kernel x member).trans (sustained.same x member),
    (manages_administrative ramStop).steps sustained.ram taken⟩

theorem KernelLayout.Boots.run (boots : layout.Boots root t)
    (run : Run (Machine.Steps plat) ⟨t, .scheduler⟩ trace m)
    (good : ∀ step ∈ trace, ∀ image, step.1.Loads plat step.2 image → GoodImage plat image) :
    ∀ u ∈ Run.visited trace m, Sustained plat root t u := by
  rcases boots.table with ⟨-, stackCalls, laid, built⟩
  exact run.invariant_when (Sustained plat root t)
    (fun u event => ∀ image, u.Loads plat event image → GoodImage plat image) boots.sustained
    (fun u event v sustained loads taken => sustained.step layout.placed built.rooted.1 loads taken) good

end Booting

section Results

variable {plat : Platform} (layout : KernelLayout plat) {root : Nat} {t : GlobalState} {m : Machine}
  {trace : List (Machine × Event)}

/-- No run changes a page of the kernel's page table, and the kernel finds its address space as it has
built it. -/
theorem kernel_address_space_kept (boots : layout.Boots root t)
    (run : Run (Machine.Steps plat) ⟨t, .scheduler⟩ trace m)
    (good : ∀ step ∈ trace, ∀ image, step.1.Loads plat step.2 image → GoodImage plat image) :
    ∀ u ∈ Run.visited trace m,
      (∀ x ∈ tableMemory t.memory root, u.kernel.memory x = t.memory x) ∧
      (∀ va, leafAt u.kernel.memory root va = leafAt t.memory root va) ∧
      layout.Booted root u.kernel := by
  rcases boots.table with ⟨-, stackCalls, laid, built⟩
  intro u visited
  have sustained := boots.run run good u visited
  have pages : ∀ page, TablePage t.memory root page → ∀ x, page ≤ x → x < page + pageSize →
      u.kernel.memory x = t.memory x :=
    fun page isPage x low high => sustained.same x ⟨page, isPage, low, high⟩
  have leaves := leafAt_congr t.memory u.kernel.memory root pages
  exact ⟨sustained.same, leaves, layout.booted_of_charted laid (built.rooted.1.congr _ pages)
    (built.charted.congr _ leaves) sustained.orderly.held⟩

def Platform.FreeRam (plat : Platform) : Set Nat := Set.Ico plat.kernelEnd ramStop

/-- What the kernel gives a process is free RAM: its trap frame, its page table, and all that its user
mode reaches. In particular no program can get at the devices and the kernel image. -/
theorem process_memory_in_ram (boots : layout.Boots root t)
    (run : Run (Machine.Steps plat) ⟨t, .scheduler⟩ trace m)
    (good : ∀ step ∈ trace, ∀ image, step.1.Loads plat step.2 image → GoodImage plat image) :
    ∀ u ∈ Run.visited trace m, ∀ p ∈ u.kernel.processes,
      Set.Ico (u.kernel.object p).trapframe ((u.kernel.object p).trapframe + pageSize) ⊆ plat.FreeRam ∧
      (Alive (u.kernel.object p) →
        tableMemory u.kernel.memory (u.kernel.object p).pageTable ⊆ plat.FreeRam ∧
        {x | u.kernel.UserReaches p x} ⊆ plat.FreeRam) := by
  intro u visited p present
  have sustained := boots.run run good u visited
  rcases sustained.reserved.isolated with ⟨free, live, owner, isolated, -⟩
  have held : ∀ o x, Held live owner o x → x ∈ plat.FreeRam := by
    rintro o x ⟨b, block, -, low, high⟩
    have inside := isolated.wf.live_inside b block
    have start := isolated.start
    have stop : u.kernel.allocator.memoryEnd = ramStop := sustained.ram
    exact ⟨by omega, by omega⟩
  refine ⟨?_, fun alive => ⟨?_, ?_⟩⟩
  · rintro x ⟨low, high⟩
    exact held _ x (isolated.frames p present x low high)
  · rintro x ⟨page, isPage, low, high⟩
    have known := (isolated.spaces p present alive).pages page isPage
    exact held _ x ⟨_, known.1, known.2, low, high⟩
  · rintro x ⟨va, entry, leaf, accessible, low, high⟩
    exact held _ x ((isolated.spaces p present alive).users va entry leaf accessible x low high)

end Results

namespace Board

theorem bare_good : GoodImage linked bare := by
  intro elf segments parsed headers segment present
  rw [bare_parsed] at parsed
  cases parsed
  cases headers
  cases present

theorem bare_assigned {plat : Platform} (placed : Placed plat)
    (parsed : plat.minimalParse bare = some ⟨some [], 4096⟩) {t : GlobalState}
    (fresh : Machine.Fresh ⟨t, .scheduler⟩) (provisioned : Provisioned plat (23 * 63 + 23) t) :
    ∃ u, Machine.Steps plat ⟨t, .scheduler⟩ (.assign [] bare) ⟨u, .scheduler⟩ ∧
      u.processes = [1] ∧ u.pids = [1] ∧ u.Ready 1 ∧
      Equipped plat u.memory 1 (u.object 1) ∧
      (u.object 1).context = .prepareFirstTimeExecution ∧
      Communicates u.memory (u.object 1).pageTable := by
  have unused : t.pid = 0 := fresh.pid
  have good : GoodImage plat bare := by
    intro elf segments isElf headers segment present
    rw [parsed] at isElf
    cases isElf
    cases headers
    cases present
  have created := wpr_and (wpr_assignProcess_provisioned placed provisioned [] parsed rfl
    (by rw [unused]; decide) (kernelStackAddress_eq (by rw [unused]; decide)))
    (wpr_and (wpr_assignProcess_equipped placed provisioned.intact [] good)
      (wp_assignProcess (fun _ _ => trivial : Tolerant Any) plat [] bare fresh.held))
  rcases succeeded_of_wpr (wpr_mono created (fun _ _ done => done) (fun _ _ failed => failed.1)
    fun _ stopped => stopped.1) with
    ⟨child, u, ran, -, ⟨-, equipped, context, elf, -, -, communicates⟩, -, after⟩
  rw [unused] at equipped context communicates
  have pids : u.pids = [1] := by
    have queue : u.pids = t.pids ++ [t.pid + 1] := congrArg View.pids after
    rw [queue, fresh.pids, unused, List.nil_append]
  have processes : u.processes = [1] := by
    have table : u.processes = (t.pid + 1) :: t.processes := congrArg View.processes after
    rw [table, fresh.processes, unused]
  have ready : u.Ready 1 := by
    have state : (u.object (0 + 1)).processState =
        Function.update (fun p => (t.object p).processState) (t.pid + 1) .ready (0 + 1) :=
      congrFun (congrArg View.state after) (0 + 1)
    rw [unused, Function.update_self] at state
    exact state
  refine ⟨u, ⟨_, rfl, ?_⟩, processes, pids, ready, equipped, context, communicates⟩
  change ((assignProcess plat [] bare).run t >>=
    fun r => (pure Mode.scheduler : Kernel Mode) r.2) = _
  rw [ran]
  rfl

theorem linked_starts : ∃ root t u trace, linkedLayout.Boots root t ∧
    Run (Machine.Steps linked) ⟨t, .scheduler⟩ trace ⟨u, .scheduler⟩ ∧
    trace.map Prod.snd = [.assign [] bare] ∧
    (∀ step ∈ trace, ∀ image, step.1.Loads linked step.2 image → GoodImage linked image) ∧
    1 ∈ u.processes ∧ Alive (u.object 1) ∧ Communicates u.memory (u.object 1).pageTable := by
  rcases linked_provisioned with ⟨root, t, returned, -, provisioned⟩
  have fresh := fresh_of_initialise powered_fresh returned
  rcases bare_assigned linkedLayout.placed bare_parsed fresh provisioned with
    ⟨u, taken, processes, -, ready, -, -, communicates⟩
  refine ⟨root, t, u, _, ⟨powered, rfl, powered_fresh, returned⟩, Run.single taken, rfl, ?_, ?_, ?_,
    communicates⟩
  · intro step member image loads
    rw [List.mem_singleton.mp member] at loads
    rcases loads with ⟨-, name, assigned⟩ | ⟨-, info, trap, -⟩
    · cases assigned
      exact bare_good
    · cases trap
  · rw [processes]
    exact List.mem_singleton_self 1
  · intro r terminated
    cases terminated.symm.trans ready

end Board

theorem address_space_kept_at_start : ∃ root t m trace,
    Run (Machine.Steps Board.linked) ⟨t, .scheduler⟩ trace m ∧
    trace.map Prod.snd = [.assign [] Board.bare] ∧
    (∀ va, leafAt m.kernel.memory root va = leafAt t.memory root va) ∧
    Board.linkedLayout.Booted root m.kernel := by
  rcases Board.linked_starts with ⟨root, t, u, trace, boots, run, events, good, -⟩
  have kept := kernel_address_space_kept Board.linkedLayout boots run good _ (Run.last_mem_visited _ _)
  exact ⟨root, t, _, trace, run, events, kept.2⟩

/-- The first process has its trap frame and its communication page in RAM. -/
theorem first_frame_in_ram : ∃ t u trace x,
    Run (Machine.Steps Board.linked) ⟨t, .scheduler⟩ trace ⟨u, .scheduler⟩ ∧
    trace.map Prod.snd = [.assign [] Board.bare] ∧ 1 ∈ u.processes ∧
    (u.object 1).trapframe ∈ Board.linked.FreeRam ∧
    u.UserReaches 1 x ∧ x ∈ Board.linked.FreeRam := by
  rcases Board.linked_starts with
    ⟨root, t, u, trace, boots, run, events, good, present, alive, entry, leaf, accessible⟩
  have inRam := process_memory_in_ram Board.linkedLayout boots run good _ (Run.last_mem_visited _ _) 1
    present
  have reaches : u.UserReaches 1 entry.getPhysicalAddress :=
    ⟨kucomPage, entry, leaf, accessible, le_refl _, Nat.lt_add_of_pos_right (by decide)⟩
  exact ⟨t, u, trace, _, run, events, present,
    inRam.1 ⟨le_refl _, Nat.lt_add_of_pos_right (by decide)⟩, reaches, (inRam.2 alive).2 reaches⟩

end Jangri
