import Jangri.Kernel.Creations

/-! The kernel stacks of processes, in the page table of the kernel.

Stacks are mapped once, for the first `MAXIMUM_PROCESS` indices. Pids count up from 1 and are never
given out again, so the processes from `MAXIMUM_PROCESS` on have an address for their stack and no
memory there. -/

namespace Jangri

open Lib

/-! The table, whether or not there was memory for it to the end. -/

structure Built (plat : Platform) (root : Nat) (calls : List MapCall) (s : GlobalState) : Prop where
  rooted : Rooted (Accounted plat (Scene.solitary 0 root 0) ∅ ∅) root s
  charted : Charted root calls s.memory

theorem builtSteps {plat : Platform} (placed : Placed plat) :
    BootSteps plat (fun root _ calls s => Built plat root calls s) True where
  allocate := by
    intro root _ calls s built
    rcases built.rooted.2 with ⟨free, live, owner, ledger⟩
    apply wpr_weaken (wpr_allocateBlock ledger.wf (4 * pageSize))
    case fails => exact fun _ _ _ => trivial
    rintro a t ⟨⟨free', allocated⟩, -⟩
    rcases rooted_allocated placed built.rooted.1 built.charted ledger allocated with
      ⟨rooted, charted, behind⟩
    exact ⟨⟨rooted, charted⟩, behind⟩
  map := by
    intro root _ calls s c sound _ _ _ built
    have locked : Rooted (fun T t => Accounted plat (Scene.solitary 0 root 0) ∅ ∅ T t ∧
        Steady (∅ ∪ ∅) s t) root { s with held := .arch :: s.held } :=
      ⟨built.rooted.1, built.rooted.2, rfl, fun _ _ => rfl⟩
    have chart : Charted root calls (memory { s with held := .arch :: s.held }) := built.charted
    have small : c.pa < usizeBound := by
      have bounded := sound.bounded
      omega
    apply wpr_guarded_any
    apply wpr_weaken (call_charted (arch plat) (accountedSource placed _ ∅ ∅ s) c small locked chart)
    case fails => exact fun _ _ _ => trivial
    rintro _ t ⟨rooted, charted, -⟩
    exact ⟨⟨rooted.1, rooted.2.1⟩, charted⟩
  less := fun _ _ _ _ _ _ built => built

namespace KernelLayout

variable {plat : Platform} (layout : KernelLayout plat) {s t : GlobalState} {root : Nat}

include layout

theorem table_of_returned (new : PageAllocator.new plat.kernelEnd ramStop = .ok s.allocator)
    (returned : (initialiseKernelPageTable plat).run s =
      .ok (.ok root, t)) :
    ∃ stackCalls, StackCalls plat 64 stackCalls ∧
      Built plat root (fixedCalls plat ++ stackCalls) t := by
  have placed := layout.placed
  rcases layout.new_allocator new with ⟨wf, start, -, -⟩
  have first : wpr (GlobalState.allocate pageSize) (fun root t => Built plat root [] t)
      (fun _ _ => True) (fun _ => True) s := by
    apply wpr_weaken (wpr_allocateBlock wf pageSize)
    case fails => exact fun _ _ _ => trivial
    rintro root t ⟨⟨free', allocated⟩, -⟩
    rcases rooted_root placed wf start allocated with ⟨rooted, charted⟩
    exact ⟨rooted, charted⟩
  have spec := @wpr_initialise plat layout _ True (builtSteps placed) s 0 first
  unfold wpr at spec
  have done := wp_of_returns spec returned
  exact done

theorem built_of_returned (new : PageAllocator.new plat.kernelEnd ramStop = .ok s.allocator)
    (returned : (initialiseKernelPageTable plat).run s =
      .ok (.ok root, t)) :
    ∃ stackCalls, StackCalls plat 64 stackCalls ∧
      Charted root (fixedCalls plat ++ stackCalls) t.memory := by
  rcases layout.table_of_returned new returned with ⟨stackCalls, laid, built⟩
  exact ⟨stackCalls, laid, built.charted⟩

end KernelLayout

/-! The stack of one process. -/

def Process.InKernelStack (process : Process) (va : Nat) : Prop :=
  process.kernelStack ≤ va ∧ va < process.kernelStack + 4 * pageSize

/-- A page that the hardware can translate: it does so for canonical addresses only. -/
def Mapped (m : Memory) (root va : Nat) (entry : PageTableEntry) : Prop :=
  Sv48.Canonical va ∧ leafAt m root va = some entry

/-- In state `s` the kernel stack recorded for `p` is usable, and its own, in the page table below
`root` in memory `m`. -/
structure StackUsable (root : Nat) (m : Memory) (s : GlobalState) (p : Nat) : Prop where
  mapped : ∀ va, (s.object p).InKernelStack va →
    ∃ entry, Mapped m root va entry ∧ entry.writeable = true
  private_ : ∀ q ∈ s.processes, q ≠ p → Alive (s.object q) →
    ∀ va, (s.object p).InKernelStack va → ¬ (s.object q).InKernelStack va
  trampoline : ∀ va, (s.object p).InKernelStack va → ¬ (trampoline ≤ va ∧ va < trampoline + pageSize)
  guard : ∀ va, va < (s.object p).kernelStack → (s.object p).kernelStack ≤ va + pageSize →
    ¬ ∃ entry, Mapped m root va entry

theorem kernelStackAddress_ok {pid address : Nat} (known : kernelStackAddress pid = .ok address) :
    address + 5 * (pid + 1) * pageSize = Jangri.trampoline := by
  rw [kernelStackAddress] at known
  simp only [usizeAdd, usizeMul, usizeSub] at known
  split at known
  next =>
    rw [pure_eq_ok, ok_bind] at known
    split at known
    next =>
      rw [pure_eq_ok, ok_bind] at known
      split at known
      next =>
        rw [pure_eq_ok, ok_bind] at known
        split at known
        next above =>
          cases known
          exact Nat.sub_add_cancel above
        next => cases known
      next => cases known
    next => cases known
  next => cases known

section Stacks

variable {plat : Platform} (layout : KernelLayout plat) {stackCalls : List MapCall} {root p : Nat}
  {m : Memory} {s : GlobalState} {old : List Nat}

include layout

theorem stackUsable_of_low (laid : StackCalls plat 64 stackCalls)
    (charted : Charted root (fixedCalls plat ++ stackCalls) m) (records : Records old s)
    (recorded : kernelStackAddress p = .ok (s.object p).kernelStack) (low : p < 64) :
    StackUsable root m s p := by
  have address := kernelStackAddress_ok recorded
  have here : (s.object p).kernelStack = trampoline - 5 * (p + 1) * pageSize := by omega
  refine ⟨?_, ?_, ?_, ?_⟩
  · intro va inside
    have from_ := inside.1
    have to_ := inside.2
    rw [here] at from_ to_
    rcases KernelLayout.stack_mapped laid charted low from_ to_ with ⟨entry, leaf, writeable⟩
    refine ⟨entry, ⟨Or.inr ?_, leaf⟩, writeable⟩
    simp only [trampoline, pageSize] at *
    omega
  · intro q present other _ va inside inside'
    have from_ := inside.1
    have to_ := inside.2
    have from' := inside'.1
    have to' := inside'.2
    rcases records.kernelStacks q present with none_ | recorded'
    · simp only [trampoline, pageSize] at *
      omega
    · have address' := kernelStackAddress_ok recorded'
      simp only [trampoline, pageSize] at *
      omega
  · intro va inside both
    have to_ := inside.2
    simp only [trampoline, pageSize] at *
    omega
  · rintro va below near ⟨entry, -, leaf⟩
    rw [here] at below near
    rw [layout.stack_guarded laid charted low below near] at leaf
    cases leaf

/-- The pages of the devices, of the memory behind the text, and of the stacks and what is above
them. -/
def KernelLayout.Writeable (_ : KernelLayout plat) (page : Nat) : Prop :=
  page = 0x10000 ∨ (0xc000 ≤ page ∧ page < 0xc600) ∨
    (plat.endOfKernelText / 4096 ≤ page ∧ page < 0x180000) ∨ 2 ^ 36 - 321 ≤ page

theorem writeable_page (laid : StackCalls plat 64 stackCalls)
    (charted : Charted root (fixedCalls plat ++ stackCalls) m) {va : Nat} {entry : PageTableEntry}
    (leaf : leafAt m root va = some entry) (writeable : entry.writeable = true) :
    layout.Writeable (vpn va) := by
  rcases charted.only va entry leaf with ⟨c, present, j, inside, page, rfl⟩
  rw [(c.entry_rights j).2.1] at writeable
  rw [page]
  rcases List.mem_append.mp present with fixed | stack
  · simp only [fixedCalls, List.mem_cons, List.not_mem_nil, or_false] at fixed
    rcases fixed with rfl | rfl | rfl | rfl | rfl
    · cases writeable
    · exact Or.inr (Or.inr (Or.inl (layout.ram_within j inside)))
    · cases writeable
    · exact Or.inr (Or.inl (plic_within j inside))
    · have bounds := uart_within j inside
      exact Or.inl (by omega)
  · rcases laid.only c stack with ⟨l, before, pa, -, -, rfl⟩
    have bounds := stack_within before pa j inside
    exact Or.inr (Or.inr (Or.inr (by omega)))

theorem identical_mapped (charted : Charted root (fixedCalls plat ++ stackCalls) m) {va : Nat}
    (among : (plic ≤ va ∧ va < plic + plicSize) ∨ (plat.kernelStart ≤ va ∧ va < ramStop)) :
    ∃ entry, leafAt m root va = some entry := by
  have text := layout.text
  have ram := layout.ram
  have rest := plat.rest
  rcases among with ⟨low, high⟩ | ⟨low, high⟩
  · have device : plicCall ∈ fixedCalls plat ++ stackCalls :=
      List.mem_append_left _ (by simp [fixedCalls])
    rcases charted.identity device rfl low high with ⟨entry, leaf, -⟩
    exact ⟨entry, leaf⟩
  · by_cases inText : va < plat.endOfKernelText
    · have code : textCall plat ∈ fixedCalls plat ++ stackCalls :=
        List.mem_append_left _ (by simp [fixedCalls])
      rcases charted.identity code rfl low (by simp only [textCall]; omega) with
        ⟨entry, leaf, -⟩
      exact ⟨entry, leaf⟩
    · have data : ramCall plat ∈ fixedCalls plat ++ stackCalls :=
        List.mem_append_left _ (by simp [fixedCalls])
      rcases charted.identity data rfl (not_lt.mp inText)
        (by simp only [ramCall]; omega) with ⟨entry, leaf, -⟩
      exact ⟨entry, leaf⟩

/-- Stacks start at multiples of five pages. Where such a page and the one behind it are writeable, the
page before it is mapped. -/
theorem no_guard {page n : Nat} (slot : page + 5 * n = 2 ^ 52 - 1) (low : page < 2 ^ 35)
    (first : layout.Writeable page) (second : layout.Writeable (page + 1)) :
    1 ≤ page ∧ ((0xc000 ≤ page - 1 ∧ page - 1 < 0xc600) ∨
      (plat.kernelStart / 4096 ≤ page - 1 ∧ page - 1 < 0x180000)) := by
  have start := layout.startAligned
  have aboveUart := layout.aboveUart
  have text := layout.text
  have textAligned := layout.textAligned
  have devices : 0x10001 ≤ plat.kernelStart / 4096 ∧
      plat.kernelStart / 4096 < plat.endOfKernelText / 4096 := by
    simp only [uart0, pageSize] at *
    omega
  unfold KernelLayout.Writeable at first second
  omega

omit layout in
theorem upper_half {page : Nat} (lower : 2 ^ 52 - 2 ^ 35 ≤ page) (below : page ≤ 2 ^ 52 - 326) :
    2 ^ 35 ≤ page % 2 ^ 36 ∧ page % 2 ^ 36 ≤ 2 ^ 36 - 326 := by
  omega

/-- From the process `MAXIMUM_PROCESS` on no address of a stack has a stack. Most are not mapped at
all; one that happens to lie in a device or in memory has no guard page. -/
theorem not_stackUsable_of_high (laid : StackCalls plat 64 stackCalls)
    (charted : Charted root (fixedCalls plat ++ stackCalls) m)
    (recorded : kernelStackAddress p = .ok (s.object p).kernelStack) (high : 64 ≤ p) :
    ¬ StackUsable root m s p := by
  intro usable
  have address := kernelStackAddress_ok recorded
  obtain ⟨page, slot, here⟩ : ∃ page, page + 5 * (p + 1) = 2 ^ 52 - 1 ∧
      (s.object p).kernelStack = page * pageSize := by
    refine ⟨2 ^ 52 - 1 - 5 * (p + 1), ?_, ?_⟩
    · simp only [trampoline, pageSize] at address
      omega
    · simp only [trampoline, pageSize] at *
      omega
  have writes : ∀ k < 4, Sv48.Canonical ((page + k) * pageSize) ∧
      layout.Writeable (vpn ((page + k) * pageSize)) := by
    intro k few
    have inside : (s.object p).InKernelStack ((page + k) * pageSize) := by
      rw [Process.InKernelStack, here]
      simp only [pageSize]
      omega
    rcases usable.mapped _ inside with ⟨entry, ⟨canonical, leaf⟩, writeable⟩
    exact ⟨canonical, writeable_page layout laid charted leaf writeable⟩
  have number : ∀ k, vpn ((page + k) * pageSize) = (page + k) % 2 ^ 36 := by
    intro k
    simp only [vpn, pageSize]
    omega
  have first := writes 0 (by decide)
  have second := writes 1 (by decide)
  rw [number, Nat.add_zero] at first
  rw [number] at second
  rcases first.1 with low | upper
  · have small : page < 2 ^ 35 := by
      simp only [pageSize] at low
      omega
    rw [Nat.mod_eq_of_lt (by omega)] at first second
    rcases no_guard layout slot small first.2 second.2 with ⟨positive, among⟩
    have mapped : ∃ entry, leafAt m root ((page - 1) * pageSize) = some entry := by
      apply identical_mapped layout charted
      have start := layout.startAligned
      simp only [plic, plicSize, ramStop, pageSize] at *
      omega
    rcases mapped with ⟨entry, leaf⟩
    apply usable.guard ((page - 1) * pageSize) _ _ ⟨entry, Or.inl _, leaf⟩
    · rw [here]
      simp only [pageSize]
      omega
    · rw [here]
      simp only [pageSize]
      omega
    · simp only [pageSize]
      omega
  · have bounds : 2 ^ 52 - 2 ^ 35 ≤ page ∧ page ≤ 2 ^ 52 - 326 := by
      simp only [pageSize] at upper
      omega
    have place := upper_half bounds.1 bounds.2
    have ram := layout.ram
    have inFirst := first.2
    unfold KernelLayout.Writeable at inFirst
    omega

theorem stackUsable_iff (laid : StackCalls plat 64 stackCalls)
    (charted : Charted root (fixedCalls plat ++ stackCalls) m) (records : Records old s)
    (recorded : kernelStackAddress p = .ok (s.object p).kernelStack) :
    StackUsable root m s p ↔ p < maximumProcess := by
  constructor
  · intro usable
    by_contra high
    exact not_stackUsable_of_high layout laid charted recorded (not_lt.mp high) usable
  · exact fun low => stackUsable_of_low layout laid charted records recorded low

end Stacks

/-! Booting leaves the process table alone. -/

section Booting

variable {halts : Halt → Prop} {free : List Lock}

theorem keeps_mapKernelStackFrom (tolerant : Tolerant halts) (plat : Platform)
    (arch_ : .arch ∈ free) (allocator : .allocator ∈ free) (kernelPageTable remaining i : Nat) :
    Keeps halts free (mapKernelStackFrom plat kernelPageTable remaining i) := by
  induction remaining generalizing i with
  | zero => exact keeps_pure ()
  | succ remaining ih =>
      apply keeps_bind (keeps_expectResult tolerant _ (keeps_allocate tolerant allocator _))
      intro physicalAddress
      apply keeps_bind (keeps_liftRust tolerant (calm_kernelStackAddress i))
      intro address
      apply keeps_bind
        (keeps_unwrapResult tolerant (keeps_map tolerant plat arch_ allocator _ _ _ _ _ _ _ _))
      intro _
      exact ih (i + 1)

theorem keeps_initialiseKernelPageTable (tolerant : Tolerant halts) (plat : Platform)
    (arch_ : .arch ∈ free) (allocator : .allocator ∈ free) :
    Keeps halts free (initialiseKernelPageTable plat).run := by
  have maps : ∀ root va pa size r w x u,
      Keeps halts free (GlobalState.map plat root va pa size r w x u).run :=
    fun _ _ _ _ _ _ _ _ => keeps_map tolerant plat arch_ allocator _ _ _ _ _ _ _ _
  apply keeps_run_bind
    (keeps_run_lift (keeps_unwrapResult tolerant (keeps_allocate tolerant allocator _)))
  intro root
  apply keeps_run_bind (keeps_run_lift (keeps_mapKernelStackFrom tolerant plat arch_ allocator _ _ _))
  intro _
  apply keeps_run_bind (maps _ _ _ _ _ _ _ _)
  intro _
  apply keeps_run_bind (maps _ _ _ _ _ _ _ _)
  intro _
  apply keeps_run_bind (keeps_run_lift (keeps_liftRust tolerant (calm_usizeSub _ _)))
  intro textSize
  apply keeps_run_bind (maps _ _ _ _ _ _ _ _)
  intro _
  apply keeps_run_bind (keeps_run_lift (keeps_liftRust tolerant (calm_usizeSub _ _)))
  intro ramSize
  apply keeps_run_bind (maps _ _ _ _ _ _ _ _)
  intro _
  apply keeps_run_bind (maps _ _ _ _ _ _ _ _)
  intro _
  exact keeps_pure _

theorem fresh_of_initialise {plat : Platform} {s t : GlobalState}
    {result : Except Error Nat} (fresh : Machine.Fresh ⟨s, .scheduler⟩)
    (returned : (initialiseKernelPageTable plat).run s = .ok (result, t)) :
    Machine.Fresh ⟨t, .scheduler⟩ := by
  have keeps : Keeps (fun _ => True) [.arch, .allocator]
      (initialiseKernelPageTable plat).run :=
    keeps_initialiseKernelPageTable (fun _ _ => trivial) plat (by simp) (by simp)
  have idle : s.held = [] := fresh.held
  have same : view t = view s := keeps.returned (free_of_idle idle) returned
  exact
    { mode := rfl
      processes := (congrArg View.processes same).trans fresh.processes
      pids := (congrArg View.pids same).trans fresh.pids
      currentProcess := (congrArg View.currentProcess same).trans fresh.currentProcess
      pid := (congrArg View.pid same).trans fresh.pid
      held := (congrArg View.held same).trans fresh.held
      numReaders := (congrArg View.numReaders same).trans fresh.numReaders }

end Booting

theorem records_of_assignProcess {plat : Platform} {s u : GlobalState} {old : List Nat}
    {name image : List UInt8} {child : Nat} (idle : s.held = []) (records : Records old s)
    (created : (assignProcess plat name image).run s = .ok (.ok child, u)) :
    child = s.pid + 1 ∧ Records old u ∧
      kernelStackAddress child = .ok (u.object child).kernelStack := by
  have tolerant : Tolerant fun _ => True := fun _ _ => trivial
  have recorded : wpr (assignProcess plat name image) _ _ Any s :=
    wpr_assignProcess_records name image records
  have counted := wp_assignProcess tolerant plat name image idle
  unfold wpr at recorded counted
  have numbered := wp_of_returns counted created
  have done := wp_of_returns recorded created
  exact ⟨numbered.1, done⟩

/-- Whatever happens after booting, a process whose stack has been recorded has a usable one exactly
when its pid is below `MAXIMUM_PROCESS`. A process that is created has the next pid. -/
theorem kernel_stack_usable_iff {plat : Platform} (layout : KernelLayout plat) {s t : GlobalState}
    {root : Nat} {m : Machine} {trace : List (Machine × Event)}
    (new : PageAllocator.new plat.kernelEnd ramStop = .ok s.allocator)
    (fresh : Machine.Fresh ⟨s, .scheduler⟩)
    (returned : (initialiseKernelPageTable plat).run s =
      .ok (.ok root, t))
    (run : Run (Machine.Steps plat) ⟨t, .scheduler⟩ trace m) :
    (∀ p ∈ m.kernel.processes, (m.kernel.object p).kernelStack ≠ 0 →
      (StackUsable root t.memory m.kernel p ↔ p < maximumProcess)) ∧
    ∀ name image child u, (assignProcess plat name image).run m.kernel = .ok (.ok child, u) →
      (StackUsable root t.memory u child ↔ m.kernel.pid + 1 < maximumProcess) := by
  rcases layout.built_of_returned new returned with ⟨stackCalls, laid, charted⟩
  rcases Machine.records_of_run (fresh_of_initialise fresh returned) run with ⟨orderly, records⟩
  constructor
  · intro p present stacked
    exact stackUsable_iff layout laid charted records
      ((records.kernelStacks p present).resolve_left stacked)
  · intro name image child u created
    rcases records_of_assignProcess orderly.held records created with ⟨numbered, after, recorded⟩
    rw [stackUsable_iff layout laid charted after recorded, numbered]

namespace Board

theorem powered_fresh : Machine.Fresh ⟨powered, .scheduler⟩ := ⟨rfl, rfl, rfl, rfl, rfl, rfl, rfl⟩

def bare : List UInt8 := program.set 56 0

theorem bare_parsed : linked.minimalParse bare = some ⟨some [], 4096⟩ := rfl

theorem linked_provisioned : ∃ root t, (initialiseKernelPageTable linked).run powered = .ok (.ok root, t) ∧ t.pid = 0 ∧
    Provisioned linked (0 + 23 * 64) t := by
  have boots := @KernelLayout.wpr_initialiseKernelPageTable linked linkedLayout powered rfl rfl
    (0 + 23 * 64) (by decide)
  rcases succeeded_of_wpr boots with ⟨root, t, ran, stackCalls, laid, booting⟩
  have fresh := fresh_of_initialise powered_fresh ran
  rcases booting.rooted.2 with ⟨free, live, owner, ledger⟩
  exact ⟨root, t, ran, fresh.pid, ⟨fresh.held, fresh.numReaders⟩,
    ⟨⟨free, live, ledger.wf⟩, ledger.start⟩, booting.roomy⟩

end Board

theorem first_process_has_stack : ∃ root t u,
    (initialiseKernelPageTable Board.linked).run Board.powered = .ok (.ok root, t) ∧
    (assignProcess Board.linked [] Board.bare).run t = .ok (.ok 1, u) ∧
    StackUsable root t.memory u 1 := by
  rcases Board.linked_provisioned with ⟨root, t, returned, unused, provisioned⟩
  have now : Provisioned Board.linked (23 * 63 + 23) t := provisioned
  rcases succeeded_of_wpr (wpr_assignProcess_provisioned Board.linkedLayout.placed now []
    Board.bare_parsed rfl (by rw [unused]; decide)
    (kernelStackAddress_eq (by rw [unused]; decide))) with ⟨child, u, created, numbered, -⟩
  have usable := (kernel_stack_usable_iff Board.linkedLayout rfl Board.powered_fresh returned
    .nil).2 [] Board.bare child u created
  rw [unused] at numbered usable
  rw [numbered] at created usable
  exact ⟨root, t, u, returned, created, usable.mpr (by decide)⟩

theorem last_process_has_no_stack : ∃ root t trace m u,
    (initialiseKernelPageTable Board.linked).run Board.powered = .ok (.ok root, t) ∧
    Run (Machine.Steps Board.linked) ⟨t, .scheduler⟩ trace ⟨m, .scheduler⟩ ∧
    trace.map Prod.snd = List.replicate 63 (.assign [] Board.bare) ∧
    (∀ step ∈ trace, ∃ child v, (assignProcess Board.linked [] Board.bare).run step.1.kernel =
      .ok (.ok child, v)) ∧
    (assignProcess Board.linked [] Board.bare).run m = .ok (.ok 64, u) ∧
    ¬ StackUsable root t.memory u 64 := by
  rcases Board.linked_provisioned with ⟨root, t, returned, unused, provisioned⟩
  have placed := Board.linkedLayout.placed
  have all : Provisioned Board.linked (0 + 23 + 23 * 63) t := provisioned
  rcases run_of_provisioned placed [] Board.bare_parsed rfl 63 all (by rw [unused]; decide) with
    ⟨m, trace, run, events, successful, counted, left⟩
  rw [unused] at counted
  rcases succeeded_of_wpr (wpr_assignProcess_provisioned placed left [] Board.bare_parsed rfl
    (by rw [counted]; decide) (kernelStackAddress_eq (by rw [counted]; decide))) with
    ⟨child, u, created, numbered, -⟩
  rw [counted] at numbered
  subst numbered
  refine ⟨root, t, trace, m, u, returned, run, events, successful, created, ?_⟩
  rcases Board.linkedLayout.built_of_returned rfl returned with ⟨stackCalls, laid, charted⟩
  rcases Machine.records_of_run (fresh_of_initialise Board.powered_fresh returned) run with
    ⟨orderly, records⟩
  rcases records_of_assignProcess orderly.held records created with ⟨-, after, recorded⟩
  rw [stackUsable_iff Board.linkedLayout laid charted after recorded]
  decide

end Jangri
