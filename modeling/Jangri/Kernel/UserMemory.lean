import Jangri.Kernel.Preemption

namespace Jangri

open Lib Lib.Rv64

def GlobalState.kucomBytes (plat : Platform) (s : GlobalState) (p : Nat) : Set Nat :=
  {x | ∃ entry, leafAt s.memory (s.object p).pageTable kucomPage = some entry ∧
    x ∈ Set.Ico entry.getPhysicalAddress (entry.getPhysicalAddress + plat.layout.size)}

/-- User mode of `p` finds in `t` what it has found in `s`, except in `written`. Unless its memory
`grows`, it finds nothing else. -/
structure Recalls (grows : Prop) (written : Set Nat) (s t : GlobalState) (p : Nat) : Prop where
  pageTable : (t.object p).pageTable = (s.object p).pageTable
  leaves : ∀ va entry, leafAt s.memory (s.object p).pageTable va = some entry →
    leafAt t.memory (s.object p).pageTable va = some entry
  only : ¬ grows → ∀ va,
    leafAt t.memory (s.object p).pageTable va = leafAt s.memory (s.object p).pageTable va
  bytes : ∀ va entry, leafAt s.memory (s.object p).pageTable va = some entry →
    entry.userModeAccessible = true → ∀ x, entry.getPhysicalAddress ≤ x →
    x < entry.getPhysicalAddress + pageSize → x ∉ written → t.memory x = s.memory x

section Retaining

variable {plat : Platform} {grows : Prop} {written : Set Nat} {s t u : GlobalState} {p : Nat}
  {info : TrapInfo} {returned : Bool} {request : Syscall} {result : SyscallResult}

theorem Recalls.trans (first : Recalls grows written s t p) (second : Recalls grows written t u p) :
    Recalls grows written s u p := by
  have leaves := second.leaves
  have only := second.only
  have bytes := second.bytes
  rw [first.pageTable] at leaves only bytes
  refine ⟨second.pageTable.trans first.pageTable, ?_, ?_, ?_⟩
  · exact fun va entry leaf => leaves va entry (first.leaves va entry leaf)
  · exact fun same va => (only same va).trans (first.only same va)
  · intro va entry leaf accessible x low high kept
    rw [bytes va entry (first.leaves va entry leaf) accessible x low high kept,
      first.bytes va entry leaf accessible x low high kept]

theorem Recalls.of_same (pageTable : (t.object p).pageTable = (s.object p).pageTable)
    (memory : t.memory = s.memory) : Recalls grows written s t p := by
  refine ⟨pageTable, ?_, ?_, ?_⟩
  · intro va entry leaf
    rw [memory]
    exact leaf
  · intro _ va
    rw [memory]
  · intro va entry _ _ x _ _ _
    rw [memory]

theorem Untouched.recalls (alive : Alive (s.object p)) (untouched : Untouched s t p) :
    Recalls grows written s t p where
  pageTable := untouched.same.pageTable
  leaves := fun va _ leaf => (untouched.leaves alive va).trans leaf
  only := fun _ => untouched.leaves alive
  bytes := fun va entry leaf accessible x low high _ =>
    untouched.users alive va entry leaf accessible x low high

/-- The trap frame is nothing that user mode finds. -/
theorem Separated.recalls_frame (separated : Separated plat s) (present : p ∈ s.processes)
    (alive : Alive (s.object p)) {m : Memory} (changed : ∀ x, m x ≠ s.memory x →
      (s.object p).trapframe ≤ x ∧ x < (s.object p).trapframe + pageSize) :
    Recalls grows written s { s with memory := m } p := by
  have leaves := separated.leaf_write present alive fun x different => Or.inl (changed x different)
  refine ⟨rfl, fun va entry leaf => (leaves va).trans leaf, fun _ => leaves, ?_⟩
  intro va entry leaf accessible x low high _
  by_contra different
  have inFrame := changed x different
  exact separated.frame_apart present alive leaf accessible inFrame.1 inFrame.2 ⟨low, high⟩

theorem Answered.recalls (separated : Separated plat s) (present : p ∈ s.processes)
    (alive : Alive (s.object p)) (pageTable : (t.object p).pageTable = (s.object p).pageTable)
    (answered : Answered plat s.memory (s.object p).pageTable result t.memory)
    (allowed : s.kucomBytes plat p ⊆ written) : Recalls grows written s t p := by
  have leaves := separated.leaf_write present alive (answered.own separated present alive)
  refine ⟨pageTable, fun va entry leaf => (leaves va).trans leaf, fun _ => leaves, ?_⟩
  intro va entry _ _ x _ _ kept
  rcases answered with ⟨page, leaf, memory⟩
  rw [memory]
  apply if_neg
  rintro ⟨low, high⟩
  rw [plat.layout.length_encode] at high
  exact kept (allowed ⟨page, leaf, low, high⟩)

theorem Recalls.kucomBytes (recalls : Recalls grows written s t p)
    (same : leafAt t.memory (s.object p).pageTable kucomPage =
      leafAt s.memory (s.object p).pageTable kucomPage) : t.kucomBytes plat p = s.kucomBytes plat p := by
  rw [GlobalState.kucomBytes, GlobalState.kucomBytes, recalls.pageTable, same]

theorem Performed.recalls (separated : Separated plat s) (present : p ∈ s.processes)
    (alive : Alive (s.object p)) (performed : Performed plat s p request returned t)
    (stays : Alive (t.object p)) (allowed : s.kucomBytes plat p ⊆ written) :
    Recalls grows written s t p := by
  cases performed with
  | granted size t whole room object answered =>
      exact answered.recalls separated present alive (by rw [object]) allowed
  | refused size t full object answered =>
      exact answered.recalls separated present alive (by rw [object]) allowed
  | written start len t object answered =>
      exact answered.recalls separated present alive (by rw [object]) allowed
  | read t object answered => exact answered.recalls separated present alive (by rw [object]) allowed
  | exited status t gone => exact absurd stays gone
  | spawned nameStart nameLen start len wait result s₁ t ran separated₁ untouched object answered =>
      have first : Recalls grows written s s₁ p := untouched.recalls alive
      have alive₁ := untouched.same.alive.mpr alive
      rw [← first.kucomBytes (untouched.leaves alive kucomPage)] at allowed
      rw [← untouched.same.pageTable] at answered
      exact first.trans
        (answered.recalls separated₁ untouched.present alive₁ (by rw [object]) allowed)
  | yielded t memory object =>
      apply Recalls.of_same _ memory
      rw [object]
      exact ((s.object p).switched_space _).1

theorem Trapped.recalls (separated : Separated plat s) (present : p ∈ s.processes)
    (alive : Alive (s.object p)) (trapped : Trapped plat s p info returned t)
    (stays : Alive (t.object p)) :
    Recalls (info.isPageFault = .ok true) {x | info.isSyscall = true ∧ x ∈ s.kucomBytes plat p} s t p := by
  cases trapped with
  | ticked t isTimer memory object =>
      apply Recalls.of_same _ memory
      rw [object]
      exact ((s.object p).switched_space _).1
  | passed code t isInterrupt memory object => exact Recalls.of_same (by rw [object]) memory
  | faulted t isFault object grown =>
      have pageTable : (t.object p).pageTable = (s.object p).pageTable := by rw [object]
      split at grown
      next =>
        exact ⟨pageTable, grown.leaves, fun same => absurd isFault same,
          fun va entry leaf accessible x low high _ => grown.users va entry leaf accessible x low high⟩
      next => exact Recalls.of_same pageTable grown
  | called request returned t isCall requests performed =>
      have advanced := separated.advance present alive
      have frame : ∀ x, (s.advanced p).memory x ≠ s.memory x →
          (s.object p).trapframe ≤ x ∧ x < (s.object p).trapframe + pageSize := by
        intro x different
        by_contra outside
        apply different
        apply if_neg
        intro inside
        apply outside
        simp only [TrapFrame.sepc, pageSize] at *
        omega
      have first : Recalls (info.isPageFault = .ok true)
          {x | info.isSyscall = true ∧ x ∈ s.kucomBytes plat p} s (s.advanced p) p :=
        separated.recalls_frame present alive frame
      have leaf := separated.leaf_write present alive own_advanced kucomPage
      apply first.trans (performed.recalls advanced present alive stays ?_)
      rw [first.kucomBytes leaf]
      exact fun x inside => ⟨isCall, inside⟩

theorem Trapped.isCall {trapframe pageTable : Nat} (trapped : Trapped plat s p info false t)
    (inHandle : (t.object p).context = .yieldInHandle trapframe pageTable) :
    info.isSyscall = true := by
  cases trapped with
  | ticked t isTimer memory object =>
      rw [object] at inHandle
      cases inHandle
  | called request returned t isCall requests performed => exact isCall

theorem Resumed.recalls (separated : Separated plat s) (present : p ∈ s.processes)
    (alive : Alive (s.object p)) (resumed : Resumed plat s p t)
    (allowed : ∀ trapframe pageTable, (s.object p).context = .yieldInHandle trapframe pageTable →
      s.kucomBytes plat p ⊆ written) : Recalls grows written s t p := by
  cases resumed with
  | went t elsewhere memory object => exact Recalls.of_same (by rw [object]) memory
  | yielded trapframe pageTable t inHandle object answered =>
      exact answered.recalls separated present alive (by rw [object])
        (allowed trapframe pageTable inHandle)

end Retaining

namespace Computer

structure Remembers (plat : Platform) (grows : Prop) (written : Set Nat) (s : GlobalState) (c : Computer)
    (p : Nat) : Prop where
  present : p ∈ c.kernel.processes
  recalls : Alive (c.kernel.object p) → Recalls grows written s c.kernel p
  pending : ¬ c.Runs p → Alive (c.kernel.object p) → ∀ trapframe pageTable,
    (c.kernel.object p).context = .yieldInHandle trapframe pageTable →
    c.kernel.kucomBytes plat p ⊆ written

section Remembering

variable {plat : Platform} {text : Text} {located : TrampolineText plat text} {t s : GlobalState}
  {c c' : Computer} {p : Nat} {info : TrapInfo} {action : Action} {grows : Prop} {written : Set Nat}

theorem Remembers.step (paged : plat.Paged t) (sound : Sound plat t c)
    (remembers : Remembers plat grows written s c p) (away : ¬ c.Runs p)
    (good : ∀ image, Loads plat text c action image → GoodImage plat image)
    (taken : Steps plat located c action c') : Remembers plat grows written s c' p := by
  cases sound.meanwhile paged remembers.present away good taken with
  | away stopped untouched =>
      refine ⟨untouched.present, ?_, ?_⟩
      · intro stays
        have alive := untouched.same.alive.mp stays
        exact (remembers.recalls alive).trans (untouched.recalls alive)
      · intro _ stays trapframe pageTable inHandle
        have alive := untouched.same.alive.mp stays
        have kept : Recalls grows written c.kernel c'.kernel p := untouched.recalls alive
        rw [untouched.same.context] at inHandle
        rw [kept.kucomBytes (untouched.leaves alive kucomPage)]
        exact remembers.pending away alive trapframe pageTable inHandle
  | back runs alive resumed running restored =>
      have present := ((sound.step paged good taken).upheld.working runs.busy runs.2).1
      refine ⟨present, fun _ => ?_, fun stopped => absurd runs stopped⟩
      exact (remembers.recalls alive).trans (resumed.recalls sound.upheld.watched.separated
        remembers.present alive (remembers.pending away alive))

/-- From its trap on, the memory of a program is what it was. -/
theorem Sound.remembers (paged : plat.Paged t) (sound : Sound plat t c) (runs : c.Runs p)
    (good : ∀ image, Loads plat text c (.event (.trap info)) image → GoodImage plat image)
    (taken : Steps plat located c (.event (.trap info)) c') :
    Remembers plat (info.isPageFault = .ok true)
      {x | info.isSyscall = true ∧ x ∈ c.kernel.kucomBytes plat p} c.kernel c' p := by
  have separated : Separated plat c.kernel := sound.upheld.watched.separated
  have working : p ∈ c.kernel.processes ∧ Alive (c.kernel.object p) :=
    sound.upheld.working runs.busy runs.2
  rcases working with ⟨present, alive⟩
  have recalls : ∀ {h : Hart} {s : GlobalState} {mode : Mode}, Enters plat text c info h →
      Handled plat t c p info h s mode → Alive (s.object p) →
      Recalls (info.isPageFault = .ok true) {x | info.isSyscall = true ∧ x ∈ c.kernel.kucomBytes plat p}
        c.kernel s p := by
    intro h s mode enters handled stays
    have only := (sound.enters paged located runs enters).2.2
    have saves : Recalls (info.isPageFault = .ok true)
        {x | info.isSyscall = true ∧ x ∈ c.kernel.kucomBytes plat p} c.kernel
        { c.kernel with memory := h.memory } p := by
      apply separated.recalls_frame present alive
      intro x different
      by_contra outside
      apply different
      apply only
      rw [Set.mem_compl_iff, Set.mem_Ico]
      simp only [savedBytes, pageSize] at *
      omega
    rcases handled.trapped with ⟨returned, -, trapped⟩
    have handles := trapped.recalls handled.separated present alive stays
    rw [saves.kucomBytes ((sound.bridged paged runs).lasting _ only _).1] at handles
    exact saves.trans handles
  cases taken with
  | scheduler event s mode core scheduling taken satp => exact absurd scheduling runs.busy
  | leave info h s core enters taken satp =>
      have handled := sound.handled paged located runs enters good taken
      have upheld := (sound.upheld.saves paged runs.1 runs.2 (sound.running p runs).equipped
        (sound.enters paged located runs enters).2.2).1
      refine ⟨(Machine.moves_of_steps upheld.orderly taken).present p present, recalls enters handled, ?_⟩
      intro _ stays trapframe pageTable inHandle
      rcases handled.trapped with ⟨returned, mode, trapped⟩
      cases returned with
      | true => cases mode
      | false =>
          have isCall := trapped.isCall inHandle
          have noFault : ¬ info.isPageFault = .ok true := by
            intro isFault
            rw [not_call_of_fault isFault] at isCall
            cases isCall
          have kept := recalls enters handled stays
          rw [kept.kucomBytes (kept.only noFault kucomPage)]
          exact fun x inside => ⟨isCall, inside⟩
  | stay info h s q _ enters current taken returns =>
      have same : q = p := Option.some.inj (current.symm.trans runs.2)
      subst same
      have handled := sound.handled paged located runs enters good taken
      rw [(sound.enters paged located runs enters).1] at returns
      rcases handled.returned paged sound runs returns with ⟨rfl, mode, -, -⟩
      have back : c'.Runs q := ⟨mode, handled.current⟩
      have present' := (handled.upheld.working (by simp) handled.current).1
      exact ⟨present', recalls enters handled, fun stopped => absurd back stopped⟩

end Remembering

def reaches (c : Computer) (access : Rv64.Access) (va : Word) : Option Nat :=
  Sv48.mmu c.kernel.memory (c.core.csr .satp) .user access va

section Reaching

variable {plat : Platform} {c d : Computer} {p : Nat} {grows : Prop} {written : Set Nat}

theorem Running.reaches_eq (running : Running plat c p)
    (bridged : Bridged plat c.kernel.memory (c.kernel.object p)) (access : Rv64.Access) (va : Word) :
    c.reaches access va = (leafAt c.kernel.memory (c.kernel.object p).pageTable va.toNat).bind fun entry =>
      if Sv48.Canonical va.toNat ∧ Sv48.permits entry .user access = true then
        some (entry.getPhysicalAddress + va.toNat % pageSize)
      else none := by
  rw [reaches, running.satp, Sv48.mmu_satpFor bridged.bounded bridged.aligned]

theorem Running.recalls (running : Running plat c p) (running' : Running plat d p)
    (bridged : Bridged plat c.kernel.memory (c.kernel.object p))
    (bridged' : Bridged plat d.kernel.memory (d.kernel.object p))
    (recalls : Recalls grows written c.kernel d.kernel p) :
    (¬ grows → ∀ access va, d.reaches access va = c.reaches access va) ∧
      ∀ access va pa, c.reaches access va = some pa → d.reaches access va = some pa ∧
        (pa ∉ written → d.kernel.memory pa = c.kernel.memory pa) := by
  constructor
  · intro same access va
    rw [running.reaches_eq bridged, running'.reaches_eq bridged', recalls.pageTable,
      recalls.only same]
  · intro access va pa found
    rw [running.reaches_eq bridged, Option.bind_eq_some_iff] at found
    rcases found with ⟨entry, leaf, reached⟩
    rw [running'.reaches_eq bridged', recalls.pageTable, recalls.leaves _ _ leaf, Option.bind_some]
    refine ⟨reached, ?_⟩
    rcases Option.ite_none_right_eq_some.mp reached with ⟨⟨-, permitted⟩, isPa⟩
    have accessible : entry.userModeAccessible = true := by
      rw [Sv48.permits, Bool.and_eq_true] at permitted
      exact (beq_iff_eq.mp permitted.1).trans (decide_eq_true rfl)
    have offset : va.toNat % pageSize < pageSize := Nat.mod_lt _ (by decide)
    have isPa := Option.some.inj isPa
    exact recalls.bytes _ entry leaf accessible pa (by omega) (by omega)

end Reaching

end Computer

section Results

variable {plat : Platform} (layout : KernelLayout plat) {text : Text} (located : TrampolineText plat text)
  {t : GlobalState} {core : Core} {c d : Computer} {p : Nat} {info : TrapInfo}
  {before after : List (Computer × Action)}

/-- A program that is interrupted finds its memory again as it was, whatever the kernel and the other
programs have done in between. What it could reach it still reaches, and nothing more unless it has had
a page fault; all bytes are the same but for the answer to a system call. -/
theorem memory_recalled (boots : layout.Boots plat.kernelPageTable t)
    (paging : core.csr .satp = Sv48.satpFor plat.kernelPageTable)
    (run : Run (Computer.Steps plat located) ⟨t, .scheduler, core⟩
      (before ++ (c, .event (.trap info)) :: after) d)
    (good : ∀ step ∈ before ++ (c, .event (.trap info)) :: after, ∀ image,
      Computer.Loads plat text step.1 step.2 image → GoodImage plat image)
    (runs : c.Runs p) (away : ∀ step ∈ after, ¬ step.1.Runs p) (back : d.Runs p) :
    (info.isPageFault ≠ .ok true → ∀ access va, d.reaches access va = c.reaches access va) ∧
      ∀ access va pa, c.reaches access va = some pa → d.reaches access va = some pa ∧
        (d.kernel.memory pa = c.kernel.memory pa ∨
          info.isSyscall = true ∧ pa ∈ c.kernel.kucomBytes plat p) := by
  have paged := boots.paged
  have sound := (Computer.Sound.boot layout boots paging).run located paged run good c
    (List.mem_append_left _ (List.mem_map_of_mem (List.mem_append_right _ List.mem_cons_self)))
  rcases run.split with ⟨c', taken, -, rest⟩
  have fine : ∀ image, Computer.Loads plat text c (.event (.trap info)) image → GoodImage plat image :=
    good (c, .event (.trap info)) (List.mem_append_right _ List.mem_cons_self)
  have start := sound.remembers paged runs fine taken
  rcases sound.lasting located (fun u => Computer.Remembers plat (info.isPageFault = .ok true)
      {x | info.isSyscall = true ∧ x ∈ c.kernel.kucomBytes plat p} c.kernel u p) paged taken rest
    (fun step member => good step (List.mem_append_right _ member)) away start
    (fun _ _ _ sound remembers away good taken => remembers.step paged sound away good taken) with
    ⟨soundD, remembers⟩
  have alive := (soundD.upheld.working back.busy back.2).2
  have recalled := (sound.running p runs).recalls (soundD.running p back) (sound.bridged paged runs)
    (soundD.bridged paged back) (remembers.recalls alive)
  refine ⟨recalled.1, ?_⟩
  intro access va pa found
  have same := recalled.2 access va pa found
  refine ⟨same.1, ?_⟩
  by_cases answered : info.isSyscall = true ∧ pa ∈ c.kernel.kucomBytes plat p
  · exact Or.inr answered
  · exact Or.inl (same.2 answered)

end Results

theorem preempted_memory_same : ∃ root t before u after d,
    Run (Computer.Steps (Board.paged root) (Board.located root))
      ⟨t, .scheduler, Board.pagedCore root⟩ (before ++ (u, .event (.trap Board.tick)) :: after) d ∧
    u.Runs 1 ∧ d.Runs 1 ∧ (∀ access va, d.reaches access va = u.reaches access va) ∧
    ∀ access va pa, u.reaches access va = some pa → d.kernel.memory pa = u.kernel.memory pa := by
  rcases Board.first_preempted with
    ⟨root, t, before, u, after, d, boots, run, good, runs, registers, pc, away, back⟩
  have same := memory_recalled (Board.pagedLayout root) (Board.located root) boots rfl run good runs away
    back
  refine ⟨root, t, before, u, after, d, run, runs, back, same.1 (by decide), ?_⟩
  intro access va pa found
  rcases (same.2 access va pa found).2 with kept | ⟨isCall, -⟩
  · exact kept
  · cases isCall

end Jangri
