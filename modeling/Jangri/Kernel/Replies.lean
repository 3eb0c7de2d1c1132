import Jangri.Janglib.Wrappers
import Jangri.Kernel.Disclosure
import Jangri.Kernel.LazyHeap
import Jangri.Kernel.Upkeep

namespace Jangri

open Lib

section Fits

variable {σ : Type} [HasMemory σ] {plat : Platform}

theorem gives_walk {allocate : Nat → Fallible σ Nat}
    (supplies : ∀ size, Gives (fun _ => True) Error.Fits (allocate size)) (va level pageTable : Nat) :
    Gives (fun _ => True) Error.Fits (walk allocate va true level pageTable) := by
  induction level generalizing pageTable with
  | zero => exact Gives.pure trivial
  | succ level ih =>
      rw [walk]
      apply Gives.lift_bind
      intro entry
      apply Gives.ite
      · exact ih _
      · rw [if_pos rfl]
        apply (supplies pageSize).bind
        intro page _
        apply Gives.lift_bind
        intro entry
        apply Gives.lift_bind
        exact fun _ => ih page

theorem gives_mapPages {arch : Riscv σ}
    (supplies : ∀ size, Gives (fun _ => True) Error.Fits (arch.allocate size))
    (parameter : arch.parameterAddress < usizeBound) (pageTable : Nat) (r w x u : Bool)
    (pages va pa : Nat) (small : va < usizeBound) :
    Gives (fun _ => True) Error.Fits (arch.mapPages pageTable r w x u pages va pa) := by
  induction pages generalizing va pa with
  | zero => exact Gives.pure trivial
  | succ pages ih =>
      have walks : Gives (fun _ => True) Error.Fits
          (getPageTableEntryAddress arch.allocate pageTable va true) := by
        rw [getPageTableEntryAddress]
        apply Gives.ite
        · exact Gives.throw small
        · exact gives_walk supplies _ _ _
      rw [Riscv.mapPages]
      apply walks.bind
      intro address _
      apply Gives.lift_bind
      intro entry
      apply Gives.ite
      · exact Gives.throw ⟨small, parameter⟩
      · apply Gives.lift_bind
        intro _
        apply Gives.lift_bind
        exact fun pa => ih _ pa (Nat.mod_lt _ (by decide))

theorem gives_archMap {arch : Riscv σ}
    (supplies : ∀ size, Gives (fun _ => True) Error.Fits (arch.allocate size))
    (parameter : arch.parameterAddress < usizeBound) (pageTable va pa size : Nat) (r w x u : Bool)
    (small : va < usizeBound) (smallSize : size < usizeBound) :
    Gives (fun _ => True) Error.Fits (arch.map pageTable va pa size r w x u) := by
  rw [Riscv.map]
  apply Gives.ite
  · exact Gives.throw small
  · apply Gives.ite
    · exact Gives.throw smallSize
    · apply Gives.ite
      · exact Gives.throw trivial
      · exact gives_mapPages supplies parameter _ _ _ _ _ _ _ _ small

theorem gives_guarded {α : Type} {good : α → Prop} (mutex : Lock) {x : KernelResult α}
    (gives : Gives good Error.Fits x) : Gives good Error.Fits (guarded mutex x) := by
  intro s
  apply wpr_guarded_any
  exact gives _

theorem gives_allocatorAllocate (size : Nat) :
    Gives (fun _ => True) Error.Fits (allocatorAllocate size) := by
  intro s
  unfold wpr
  rw [allocatorAllocate, ExceptT.run_mk, wp_def]
  cases s.allocator.allocate ⟨s.memory, s.nodeId⟩ size with
  | error e => trivial
  | ok done =>
      rcases done with ⟨result, allocator, store⟩
      cases result with
      | some start => trivial
      | none => trivial

theorem gives_map (parameter : plat.parameterAddress < usizeBound) (pageTable va pa size : Nat)
    (r w x u : Bool) (small : va < usizeBound) (smallSize : size < usizeBound) :
    Gives (fun _ => True) Error.Fits (GlobalState.map plat pageTable va pa size r w x u) := by
  apply gives_guarded
  apply gives_archMap _ parameter _ _ _ _ _ _ _ _ small smallSize
  intro size
  apply gives_guarded
  exact Gives.lift_bind fun _ => gives_allocatorAllocate size

theorem gives_loadSegments (parameter : plat.parameterAddress < usizeBound) (pid pageTable : Nat)
    (image : List UInt8) (segments : List ProgramHeader) :
    Gives (fun _ => True) Error.Fits (loadSegments plat pid pageTable image segments) := by
  induction segments with
  | nil => exact Gives.pure trivial
  | cons segment rest ih =>
      have loads : Gives (fun _ => True) Error.Fits (loadSegment plat pid pageTable image segment) := by
        intro s
        rw [loadSegment, wpr_bind, wpr_lift]
        apply wp_liftRust_any
        intro start rounded
        rw [wpr_bind, wpr_lift]
        apply wp_liftRust_any
        intro memsz roundedSize
        have small := (alignToPageSize_spec _ _ rounded).2.2.2
        have smallSize := (alignToPageSize_spec _ _ roundedSize).2.2.2
        apply (gives_guarded _ (gives_allocatorAllocate memsz)).bind
        intro pt _
        apply (gives_map parameter _ _ _ _ _ _ _ _ small smallSize).bind
        intro _ _
        apply Gives.lift_bind
        intro _
        apply Gives.lift_bind
        intro process
        apply Gives.lift_bind
        exact fun _ => Gives.lift_last _
      rw [loadSegments]
      apply Gives.bind
      · exact Gives.ite _ loads (Gives.pure trivial)
      · intro _ _
        exact Gives.lift_bind fun _ => ih

theorem gives_okOr {α : Type} (x : Option α) (e : Error) (fits : e.Fits) :
    Gives (fun _ => True) Error.Fits (okOr x e) := by
  cases x with
  | some a => exact Gives.pure trivial
  | none => exact Gives.throw fits

theorem gives_assignProcess (parameter : plat.parameterAddress < usizeBound) (name image : List UInt8) :
    Gives (· < usizeBound) Error.Fits (assignProcess plat name image) := by
  have loads : ∀ pid pageTable trapframe,
      Gives (fun _ => True) Error.Fits (loadImage plat pid pageTable trapframe image) := by
    intro pid pageTable trapframe
    rw [loadImage]
    apply Gives.lift_bind
    intro _
    apply (gives_okOr _ .elfError trivial).bind
    intro elf _
    apply (gives_okOr _ .elfError trivial).bind
    intro segments _
    apply (gives_loadSegments parameter _ _ _ _).bind
    intro _ _
    exact Gives.lift_bind fun _ => Gives.lift_last _
  rw [assignProcess]
  apply Gives.lift_bind
  intro pageTable
  apply Gives.lift_bind
  intro trapframe s
  rw [wpr_bind, wpr_lift, wp_def, nextPid]
  cases counted : usizeAdd s.pid 1 with
  | error e => trivial
  | ok pid =>
      have small : pid < usizeBound := by
        rcases (usizeAdd_eq_ok _ _ _).mp counted with ⟨small, rfl⟩
        exact small
      apply Gives.lift_bind
      intro _
      apply Gives.lift_bind
      intro _
      have builds : Gives (fun _ => True) Error.Fits
          (buildProcess plat pid pageTable trapframe name image) :=
        Gives.lift_bind fun _ => loads _ _ _
      apply (gives_guarded _ builds).bind
      exact fun _ _ => Gives.pure small

theorem wpr_spawn_fits {s : GlobalState} (parameter : plat.parameterAddress < usizeBound)
    (idle : s.held = []) (caller nameStart nameLen start len : Nat) (wait : Bool) (pageTable : Nat) :
    wpr (spawn plat caller nameStart nameLen start len wait pageTable)
      (fun _ _ => s.pid + 1 < usizeBound) (fun e _ => e.Fits) Any s := by
  rw [spawn, wpr_bind, wpr_lift]
  apply wp_weaken (wp_sliceRead _)
  rintro name _ rfl
  rw [wpr_bind, wpr_lift]
  apply wp_liftRust_any
  intro name' _
  rw [wpr_bind, wpr_lift]
  apply wp_weaken (wp_sliceRead _)
  rintro image _ rfl
  have tolerant : Tolerant Any := fun _ _ => trivial
  have assigned := wpr_and (gives_assignProcess parameter name' image _)
    (wp_assignProcess tolerant plat name' image idle)
  rw [wpr_bind]
  apply wpr_mono assigned
  · rintro child t ⟨small, isNext, -⟩
    rw [isNext] at small
    apply Gives.lift_bind
    intro _
    apply gives_guarded
    apply Gives.lift_bind
    intro childPid
    apply Gives.lift_bind
    exact fun _ => Gives.pure small
  · exact fun _ _ failed => failed.1
  · exact fun _ _ => trivial

end Fits

inductive Answers (plat : Platform) (s : GlobalState) (p : Nat) : Syscall → SyscallResult → Prop
  | granted (size : Nat) (whole : size % pageSize = 0)
      (room : (s.object p).heapEnd + size < stackGuard) :
      Answers plat s p (.wantMemory size) (.wantMemory (.ok ((s.object p).heapEnd, size)))
  | refused (size : Nat) (full : stackGuard ≤ (s.object p).heapEnd + size) :
      Answers plat s p (.wantMemory size) (.wantMemory (.error .memoryNotAvailable))
  | written (start len : Nat) : Answers plat s p (.write start len) (.write (.ok len))
  | read : Answers plat s p .readChar
      (.readChar (.ok (s.inputBuffer.head?.map fun byte => Char.ofNat byte.toNat)))
  | spawned (nameStart nameLen start len : Nat) (wait : Bool) (result : Except Error Nat)
      (t : GlobalState)
      (ran : (spawn plat p nameStart nameLen start len wait (s.object p).pageTable).run s =
        .ok (result, t)) :
      Answers plat s p (.spawn nameStart nameLen start len wait) (.spawn result)
  | yielded : Answers plat s p .yield .yield

section Answers

variable {plat : Platform} {s : GlobalState} {p : Nat} {request : Syscall} {result : SyscallResult}

theorem Answers.fits (parameter : plat.parameterAddress < usizeBound) (idle : s.held = [])
    (old : p ≠ s.pid + 1) (small : (SyscallInfo.syscall request).Fits)
    (answers : Answers plat s p request result) : (SyscallInfo.syscallResult result).Fits := by
  cases answers with
  | granted size whole room =>
      have bound : stackGuard < usizeBound := by decide
      exact ⟨by omega, small⟩
  | refused size full => trivial
  | written start len => exact small.2
  | read => trivial
  | spawned nameStart nameLen start len wait result t ran =>
      have tolerant : Tolerant Any := fun _ _ => trivial
      have spec := wpr_and (wpr_spawn_fits parameter idle p nameStart nameLen start len wait
        (s.object p).pageTable) (wp_spawn tolerant plat p nameStart nameLen start len wait
          (s.object p).pageTable idle old)
      unfold wpr at spec
      have done := wp_of_returns spec ran
      cases result with
      | ok child =>
          rcases done with ⟨bound, isNext, -⟩
          change child < usizeBound
          rw [isNext]
          exact bound
      | error e => exact done.1
  | yielded => trivial

theorem Answers.finish (answers : Answers plat s p request result) :
    Wrapper.finish request (.syscallResult result) = .ok result := by
  cases answers with
  | granted size whole room => rfl
  | refused size full => rfl
  | written start len =>
      change (assert (len = len) _ >>= fun _ => pure (SyscallResult.write (.ok len))) = _
      rw [assert_of_true _ _ rfl]
      rfl
  | read => rfl
  | spawned nameStart nameLen start len wait result t ran => rfl
  | yielded => rfl

end Answers

def GlobalState.kucom (plat : Platform) (s : GlobalState) (p : Nat) : Option (List UInt8) :=
  (leafAt s.memory (s.object p).pageTable kucomPage).map fun entry =>
    s.memory.load entry.getPhysicalAddress plat.layout.size

section Page

variable {plat : Platform} {s t : GlobalState} {p : Nat} {info : TrapInfo} {returned : Bool}
  {request : Syscall} {result : SyscallResult}

theorem requests_iff : s.Requests plat p request ↔
    ∃ bytes, s.kucom plat p = some bytes ∧ plat.layout.decode bytes = .syscall request := by
  simp only [GlobalState.Requests, GlobalState.kucom, Option.map_eq_some_iff]
  constructor
  · rintro ⟨entry, leaf, decoded⟩
    exact ⟨_, ⟨entry, leaf, rfl⟩, decoded⟩
  · rintro ⟨_, ⟨entry, leaf, rfl⟩, decoded⟩
    exact ⟨entry, leaf, decoded⟩

theorem kucom_kept {bytes : List UInt8} (pageTable : (t.object p).pageTable = (s.object p).pageTable)
    (leaves : ∀ entry, leafAt s.memory (s.object p).pageTable kucomPage = some entry →
      leafAt t.memory (s.object p).pageTable kucomPage = some entry)
    (same : ∀ entry, leafAt s.memory (s.object p).pageTable kucomPage = some entry →
      ∀ x, entry.getPhysicalAddress ≤ x → x < entry.getPhysicalAddress + pageSize →
        t.memory x = s.memory x) (holds : s.kucom plat p = some bytes) :
    t.kucom plat p = some bytes := by
  rcases Option.map_eq_some_iff.mp holds with ⟨entry, leaf, loaded⟩
  rw [GlobalState.kucom, pageTable, leaves entry leaf, Option.map_some, ← loaded]
  have fits := plat.layout.fits
  have bytes := Memory.load_congr s.memory t.memory entry.getPhysicalAddress plat.layout.size
    fun x low high => same entry leaf x low (by omega)
  rw [bytes]

theorem Untouched.kucom {bytes : List UInt8} (separated : Separated plat s)
    (present : p ∈ s.processes) (alive : Alive (s.object p)) (untouched : Untouched s t p)
    (holds : s.kucom plat p = some bytes) : t.kucom plat p = some bytes := by
  apply kucom_kept untouched.same.pageTable _ _ holds
  · exact fun entry leaf => (untouched.leaves alive _).trans leaf
  · intro entry leaf
    exact untouched.users alive _ entry leaf (separated.kucom_accessible present alive leaf)

theorem Answered.kucom (separated : Separated plat s) (present : p ∈ s.processes)
    (alive : Alive (s.object p)) (pageTable : (t.object p).pageTable = (s.object p).pageTable)
    (answered : Answered plat s.memory (s.object p).pageTable result t.memory) :
    t.kucom plat p = some (plat.layout.encode (.syscallResult result)) := by
  have mapped := separated.leaf_write present alive (answered.own separated present alive) kucomPage
  rcases answered with ⟨entry, leaf, memory⟩
  have length := plat.layout.length_encode (.syscallResult result)
  rw [GlobalState.kucom, pageTable, mapped, leaf, Option.map_some, memory, ← length, Memory.load_store]

theorem Trapped.kucom {bytes : List UInt8} (separated : Separated plat s) (present : p ∈ s.processes)
    (alive : Alive (s.object p)) (noCall : info.isSyscall = false)
    (trapped : Trapped plat s p info returned t) (holds : s.kucom plat p = some bytes) :
    t.kucom plat p = some bytes := by
  cases trapped with
  | ticked t isTimer memory object =>
      rw [GlobalState.kucom, object, ((s.object p).switched_space _).1, memory]
      exact holds
  | passed code t isInterrupt memory object =>
      rw [GlobalState.kucom, object, memory]
      exact holds
  | faulted t isFault object grown =>
      have pageTable : (t.object p).pageTable = (s.object p).pageTable := by rw [object]
      split at grown
      next =>
        apply kucom_kept pageTable (grown.leaves kucomPage) _ holds
        intro entry leaf
        exact grown.users kucomPage entry leaf (separated.kucom_accessible present alive leaf)
      next =>
        rw [GlobalState.kucom, pageTable, grown]
        exact holds
  | called request returned t isCall requests performed =>
      rw [noCall] at isCall
      cases isCall

theorem kucom_saved (separated : Separated plat s) (present : p ∈ s.processes)
    (alive : Alive (s.object p)) (registers : List UInt8) (sepc : Nat) {bytes : List UInt8}
    (holds : s.kucom plat p = some bytes) :
    (s.saved p registers sepc).kucom plat p = some bytes := by
  have leaves := leaf_saved separated present alive registers sepc kucomPage
  have same : ∀ entry, leafAt s.memory (s.object p).pageTable kucomPage = some entry →
      ∀ x, entry.getPhysicalAddress ≤ x → x < entry.getPhysicalAddress + pageSize →
        (s.saved p registers sepc).memory x = s.memory x := by
    intro entry leaf x low high
    apply TrapFrame.save_elsewhere
    by_contra inside
    rw [not_or, not_lt, not_le] at inside
    have accessible := separated.kucom_accessible present alive leaf
    have last : x < (s.object p).trapframe + pageSize := by
      simp only [TrapFrame.pageTable, pageSize] at *
      omega
    exact separated.frame_apart present alive leaf accessible inside.1 last ⟨low, high⟩
  have pageTable : ((s.saved p registers sepc).object p).pageTable = (s.object p).pageTable := rfl
  apply kucom_kept pageTable
  · intro entry leaf
    exact leaves.trans leaf
  · exact same
  · exact holds

theorem Trapped.answers (separated : Separated plat s) (present : p ∈ s.processes)
    (alive : Alive (s.object p)) (isCall : info.isSyscall = true) (requests : s.Requests plat p request)
    (trapped : Trapped plat s p info returned t) (stays : Alive (t.object p)) :
    (returned = true ∧ ∃ result, Answers plat (s.advanced p) p request result ∧
        t.kucom plat p = some (plat.layout.encode (.syscallResult result))) ∨
      (returned = false ∧ request = .yield ∧
        ∃ trapframe pageTable, (t.object p).context = .yieldInHandle trapframe pageTable) := by
  have advanced := separated.advance present alive
  cases trapped with
  | ticked t isTimer memory object =>
      rw [TrapInfo.isSyscall, isTimer] at isCall
      cases isCall
  | passed code t isInterrupt memory object =>
      rw [TrapInfo.isSyscall, isInterrupt] at isCall
      cases isCall
  | faulted t isFault object grown =>
      rw [not_call_of_fault isFault] at isCall
      cases isCall
  | called request' returned t _ requests' performed =>
      have same := requests.unique requests'
      subst same
      cases performed with
      | granted size t whole room object answered =>
          refine Or.inl ⟨rfl, _, .granted size whole room, answered.kucom advanced present alive ?_⟩
          rw [object]
      | refused size t full object answered =>
          exact Or.inl ⟨rfl, _, .refused size full, answered.kucom advanced present alive (by rw [object])⟩
      | written start len t object answered =>
          exact Or.inl ⟨rfl, _, .written start len, answered.kucom advanced present alive (by rw [object])⟩
      | read t object answered =>
          exact Or.inl ⟨rfl, _, .read, answered.kucom advanced present alive (by rw [object])⟩
      | exited status t gone => exact absurd stays gone
      | spawned nameStart nameLen start len wait result s₁ t ran separated₁ untouched object answered =>
          have alive₁ := untouched.same.alive.mpr alive
          rw [← untouched.same.pageTable] at answered
          exact Or.inl ⟨rfl, _, .spawned _ _ _ _ _ _ _ ran,
            answered.kucom separated₁ untouched.present alive₁ (by rw [object])⟩
      | yielded t memory object =>
          refine Or.inr ⟨rfl, rfl, (s.object p).trapframe, (s.object p).pageTable, ?_⟩
          rw [object]
          rfl

end Page

/-- The program that causes the event neither stores nor makes a system call. -/
def Event.Quiet : Event → Prop
  | .store _ _ => False
  | .trap info => info.isSyscall = false
  | _ => True

namespace Machine

def Runs (m : Machine) (p : Nat) : Prop := m.mode = .user ∧ m.kernel.currentProcess = some p

/-- The thread of `p` has switched away inside of `handle`, and has still to write its answer. -/
def Pending (m : Machine) (p : Nat) : Prop :=
  ¬ m.Runs p ∧ ∃ trapframe pageTable, (m.kernel.object p).context = .yieldInHandle trapframe pageTable

structure Page (plat : Platform) (held : List UInt8 → Prop) (m : Machine) (p : Nat) : Prop where
  present : p ∈ m.kernel.processes
  holds : Alive (m.kernel.object p) → ¬ m.Pending p →
    ∃ bytes, m.kernel.kucom plat p = some bytes ∧ held bytes
  pending : Alive (m.kernel.object p) → m.Pending p →
    held (plat.layout.encode (.syscallResult .yield))

section Steps

variable {plat : Platform} {held : List UInt8 → Prop} {m m' : Machine} {p : Nat} {event : Event}

theorem Runs.works (runs : m.Runs p) : m.WorksFor p := worksFor_of_user runs.1 runs.2

theorem Runs.not_pending (runs : m.Runs p) : ¬ m.Pending p := fun pending => pending.1 runs

theorem Page.untouched (orderly : m.Orderly) (separated : Separated plat m.kernel)
    (page : Page plat held m p) (away : ¬ m.WorksFor p) (untouched : Untouched m.kernel m'.kernel p)
    (taken : Steps plat m event m') : Page plat held m' p := by
  have stopped : ¬ m.Runs p := fun runs => away runs.works
  have stopped' : ¬ m'.Runs p := by
    rintro ⟨inUser, current⟩
    have moves := (moves_of_steps orderly taken).current
    by_cases scheduling : m.mode = .scheduler
    · exact moves.2 scheduling inUser
    · exact away ⟨scheduling, (moves.1 scheduling).symm.trans current⟩
  have same : m'.Pending p ↔ m.Pending p := by
    rw [Pending, Pending, untouched.same.context]
    exact and_congr_left fun _ => iff_of_true stopped' stopped
  refine ⟨untouched.present, ?_, ?_⟩
  · intro stays settled
    have alive := untouched.same.alive.mp stays
    rcases page.holds alive (fun pending => settled (same.mpr pending)) with ⟨bytes, found, isHeld⟩
    exact ⟨bytes, untouched.kucom separated page.present alive found, isHeld⟩
  · intro stays pending
    exact page.pending (untouched.same.alive.mp stays) (same.mp pending)

theorem Page.step (placed : Placed plat) (orderly : m.Orderly) (separated : Separated plat m.kernel)
    (page : Page plat held m p) (quiet : m.Runs p → event.Quiet)
    (good : ∀ image, m.Loads plat event image → GoodImage plat image)
    (taken : Steps plat m event m') : Page plat held m' p := by
  by_cases works : m.WorksFor p
  case neg =>
    have kept := kept_of_steps placed orderly separated good taken
    exact page.untouched orderly separated works (kept.untouched p page.present works) taken
  have known := (moves_of_steps orderly taken).present p page.present
  have current : m'.kernel.currentProcess = some p :=
    ((moves_of_steps orderly taken).current.1 works.1).trans works.2
  rcases works.working orderly separated with ⟨root, tf, working⟩
  have alive := working.alive
  cases serves_of_steps placed orderly separated good works taken with
  | resume mode mode' resumed =>
      have runs' : m'.Runs p := ⟨mode', current⟩
      have stopped : ¬ m.Runs p := by
        rintro ⟨inUser, -⟩
        rw [mode] at inUser
        cases inUser
      refine ⟨known, fun _ _ => ?_, fun _ pending => absurd pending runs'.not_pending⟩
      cases resumed with
      | went t elsewhere memory object =>
          have settled : ¬ m.Pending p := by
            rintro ⟨-, trapframe, pageTable, inHandle⟩
            exact elsewhere trapframe pageTable inHandle
          rcases page.holds alive settled with ⟨bytes, found, isHeld⟩
          refine ⟨bytes, ?_, isHeld⟩
          rw [GlobalState.kucom, memory, object]
          exact found
      | yielded trapframe pageTable t inHandle object answered =>
          have pending : m.Pending p := ⟨stopped, trapframe, pageTable, inHandle⟩
          exact ⟨_, answered.kucom separated page.present alive (by rw [object]),
            page.pending alive pending⟩
  | trap info returned mode mode' trapped =>
      have runs : m.Runs p := ⟨mode, works.2⟩
      have noCall : info.isSyscall = false := quiet runs
      rcases page.holds alive runs.not_pending with ⟨bytes, found, isHeld⟩
      have settled : ¬ m'.Pending p := by
        rintro ⟨stopped, trapframe, pageTable, inHandle⟩
        cases trapped with
        | ticked t isTimer memory object =>
            rw [object] at inHandle
            cases inHandle
        | passed code t isInterrupt memory object => exact stopped ⟨mode', current⟩
        | faulted t isFault object grown => exact stopped ⟨mode', current⟩
        | called request returned t isCall requests performed =>
            rw [noCall] at isCall
            cases isCall
      exact ⟨known, fun _ _ => ⟨bytes, trapped.kucom separated page.present alive noCall found, isHeld⟩,
        fun _ pending => absurd pending settled⟩
  | save registers sepc mode mode' saved =>
      have runs : m.Runs p := ⟨mode, works.2⟩
      have runs' : m'.Runs p := ⟨mode', current⟩
      rcases page.holds alive runs.not_pending with ⟨bytes, found, isHeld⟩
      refine ⟨known, fun _ _ => ⟨bytes, ?_, isHeld⟩, fun _ pending => absurd pending runs'.not_pending⟩
      rw [saved]
      exact kucom_saved separated page.present alive registers sepc found
  | store va byte mode mode' stored => exact absurd (quiet ⟨mode, works.2⟩) id

/-- Behind a system call the page holds the answer, as soon as the program runs again. -/
theorem page_of_call (placed : Placed plat) (orderly : m.Orderly) (separated : Separated plat m.kernel)
    (runs : m.Runs p) {info : TrapInfo} (isCall : info.isSyscall = true) {request : Syscall}
    (requests : m.kernel.Requests plat p request)
    (good : ∀ image, m.Loads plat (.trap info) image → GoodImage plat image)
    (taken : Steps plat m (.trap info) m') :
    Page plat (fun bytes => ∃ result, Answers plat (m.kernel.advanced p) p request result ∧
      bytes = plat.layout.encode (.syscallResult result)) m' p := by
  rcases runs.works.working orderly separated with ⟨root, tf, working⟩
  have known := (moves_of_steps orderly taken).present p working.present
  have current : m'.kernel.currentProcess = some p :=
    ((moves_of_steps orderly taken).current.1 runs.works.1).trans runs.2
  cases serves_of_steps placed orderly separated good runs.works taken with
  | trap info returned mode mode' trapped =>
      have answers := trapped.answers separated working.present working.alive isCall requests
      refine ⟨known, ?_, ?_⟩
      · intro stays settled
        rcases answers stays with ⟨-, result, answers, found⟩ | ⟨isLeft, -, context⟩
        · exact ⟨_, found, result, answers, rfl⟩
        · refine absurd ⟨?_, context⟩ settled
          rintro ⟨inUser, -⟩
          rw [mode', isLeft] at inUser
          cases inUser
      · intro stays pending
        rcases answers stays with ⟨isBack, -⟩ | ⟨-, rfl, -⟩
        · rw [isBack] at mode'
          exact absurd ⟨mode', current⟩ pending.1
        · exact ⟨.yield, .yielded, rfl⟩

end Steps

section Runs

variable {plat : Platform} {held : List UInt8 → Prop} {m m' : Machine} {p : Nat}
  {trace : List (Machine × Event)}

theorem Page.run (placed : Placed plat) (orderly : m.Orderly) (separated : Separated plat m.kernel)
    (page : Page plat held m p) (run : Run (Steps plat) m trace m')
    (good : ∀ step ∈ trace, ∀ image, step.1.Loads plat step.2 image → GoodImage plat image)
    (quiet : ∀ step ∈ trace, step.1.Runs p → step.2.Quiet) :
    m'.Orderly ∧ Separated plat m'.kernel ∧ Page plat held m' p := by
  have kept := run.invariant_when (fun u => u.Orderly ∧ Separated plat u.kernel ∧ Page plat held u p)
    (fun u event => (∀ image, u.Loads plat event image → GoodImage plat image) ∧
      (u.Runs p → event.Quiet)) ⟨orderly, separated, page⟩ ?_
    fun step member => ⟨good step member, quiet step member⟩
  · exact kept m' (Run.last_mem_visited trace m')
  · intro t event u holds allowed taken
    exact ⟨holds.1.steps taken,
      (kept_of_steps placed holds.1 holds.2.1 allowed.1 taken).separated,
      holds.2.2.step placed holds.1 holds.2.1 allowed.2 allowed.1 taken⟩

theorem Page.found (orderly : m.Orderly) (separated : Separated plat m.kernel)
    (page : Page plat held m p) (runs : m.Runs p) :
    ∃ bytes, m.kernel.kucom plat p = some bytes ∧ held bytes := by
  rcases runs.works.working orderly separated with ⟨root, tf, working⟩
  exact page.holds working.alive runs.not_pending

theorem page_of_request {request : Syscall} (orderly : m.Orderly) (separated : Separated plat m.kernel)
    (runs : m.Runs p) (requests : m.kernel.Requests plat p request) :
    Page plat (fun bytes => plat.layout.decode bytes = .syscall request) m p := by
  rcases runs.works.working orderly separated with ⟨root, tf, working⟩
  exact ⟨working.present, fun _ _ => requests_iff.mp requests,
    fun _ pending => absurd pending runs.not_pending⟩

end Runs

end Machine

/-- Between the request and the look at the answer the kernel may switch as often as it likes. -/
theorem requests_answered (plat : Platform) (m a c c' d : Machine)
    (before middle after : List (Machine × Event)) (p : Nat) (request : Syscall) (info : TrapInfo)
    (booted : m.Booted plat) (parameter : plat.parameterAddress < usizeBound)
    (asked : Run (Machine.Steps plat) m before a) (run : Run (Machine.Steps plat) a middle c)
    (called : Machine.Steps plat c (.trap info) c') (run' : Run (Machine.Steps plat) c' after d)
    (good : ∀ step ∈ before ++ middle ++ (c, .trap info) :: after, ∀ image,
      step.1.Loads plat step.2 image → GoodImage plat image)
    (quiet : ∀ step ∈ middle ++ after, step.1.Runs p → step.2.Quiet)
    (requests : a.kernel.Requests plat p request) (fits : (SyscallInfo.syscall request).Fits)
    (runs : a.Runs p) (calls : c.Runs p) (isCall : info.isSyscall = true) (looks : d.Runs p) :
    ∃ result bytes, Answers plat (c.kernel.advanced p) p request result ∧
      d.kernel.kucom plat p = some bytes ∧ plat.layout.decode bytes = .syscallResult result ∧
      Wrapper.finish request (plat.layout.decode bytes) = .ok result := by
  have placed := booted.placed
  have start := Machine.separated_of_run booted asked
    (fun step member => good step (by simp [member])) a (Run.last_mem_visited before a)
  have asking := Machine.page_of_request start.1 start.2 runs requests
  rcases asking.run placed start.1 start.2 run (fun step member => good step (by simp [member]))
    (fun step member => quiet step (by simp [member])) with ⟨orderly, separated, page⟩
  have requests' : c.kernel.Requests plat p request :=
    requests_iff.mpr (page.found orderly separated calls)
  have loads := good (c, .trap info) (by simp)
  have answered := Machine.page_of_call placed orderly separated calls isCall requests' loads called
  have separated' := (Machine.kept_of_steps placed orderly separated loads called).separated
  rcases answered.run placed (orderly.steps called) separated' run'
    (fun step member => good step (by simp [member]))
    (fun step member => quiet step (by simp [member])) with ⟨orderlyD, separatedD, pageD⟩
  rcases pageD.found orderlyD separatedD looks with ⟨bytes, found, result, answers, rfl⟩
  rcases calls.works.working orderly separated with ⟨root, tf, working⟩
  have old : p ≠ c.kernel.pid + 1 := by
    rintro rfl
    exact Machine.not_present_of_orderly orderly working.present
  have small : (SyscallInfo.syscallResult result).Fits :=
    Answers.fits (s := c.kernel.advanced p) parameter orderly.held old fits answers
  have decoded := plat.layout.decode_encode _ small
  refine ⟨result, _, answers, found, decoded, ?_⟩
  rw [decoded]
  exact answers.finish

namespace Board

def askReadChar : List Event := [.store (kucomPage + 8) 2]

def preempted : List Event := [timer, .schedule, .resume]

theorem preempted_quiet : ∀ event ∈ preempted, event.Quiet := by
  intro event member
  simp only [preempted, List.mem_cons, List.not_mem_nil, or_false] at member
  rcases member with rfl | rfl | rfl
  · rfl
  · trivial
  · trivial

def shows (info : SyscallInfo) (u : Machine) : Bool :=
  decide (u.mode = .user ∧ u.kernel.currentProcess = some 1 ∧
    (u.kernel.kucom plat 1).map plat.layout.decode = some info)

theorem runs_of_shows {info : SyscallInfo} {u : Machine} (holds : shows info u = true) : u.Runs 1 :=
  ⟨(of_decide_eq_true holds).1, (of_decide_eq_true holds).2.1⟩

theorem requests_of_shows {request : Syscall} {u : Machine} (holds : shows (.syscall request) u = true) :
    u.kernel.Requests plat 1 request :=
  requests_iff.mpr (Option.map_eq_some_iff.mp (of_decide_eq_true holds).2.2)

def readInterrupted : Option (Machine × Machine × Machine × Machine) := do
  let a ← Machine.followIf plat harmless boot (started ++ askReadChar)
  let c ← Machine.followIf plat harmless a preempted
  let c' ← Machine.follow plat c [call]
  let d ← Machine.followIf plat harmless c' preempted
  pure (a, c, c', d)

theorem readInterrupted_runs : ∃ a c c' d before middle after,
    Run (Machine.Steps plat) boot before a ∧ Run (Machine.Steps plat) a middle c ∧
      Machine.Steps plat c call c' ∧ Run (Machine.Steps plat) c' after d ∧
      (∀ step ∈ before ++ middle ++ (c, call) :: after, ∀ image,
        step.1.Loads plat step.2 image → GoodImage plat image) ∧
      (∀ step ∈ middle ++ after, step.2.Quiet) ∧
      a.kernel.Requests plat 1 .readChar ∧ a.Runs 1 ∧ c.Runs 1 ∧ d.Runs 1 := by
  have passed : readInterrupted.map (fun (a, c, _, d) => shows (.syscall .readChar) a &&
      shows (.syscall .readChar) c && harmless c call &&
      shows (.syscallResult (.readChar (.ok none))) d) = some true := by
    decide +kernel
  rcases Option.map_eq_some_iff.mp passed with ⟨stages, followed, shown⟩
  simp only [readInterrupted, Option.bind_eq_bind, Option.bind_eq_some_iff, Option.pure_def,
    Option.some.injEq] at followed
  rcases followed with ⟨a, toA, c, toC, c', toC', d, toD, rfl⟩
  simp only [Bool.and_eq_true] at shown
  rcases Machine.run_of_followIf _ toA with ⟨before, asked, -, safeA⟩
  rcases Machine.run_of_followIf _ toC with ⟨middle, run, labelsC, safeC⟩
  rcases Machine.run_of_followIf _ toD with ⟨after, run', labelsD, safeD⟩
  have labels : (middle ++ after).map Prod.snd = preempted ++ preempted := by
    rw [List.map_append, labelsC, labelsD]
  refine ⟨a, c, c', d, before, middle, after, asked, run, Machine.steps_of_follow toC', run', ?_, ?_,
    requests_of_shows shown.1.1.1, runs_of_shows shown.1.1.1, runs_of_shows shown.1.1.2,
    runs_of_shows shown.2⟩
  · intro step member
    rcases List.mem_append.mp member with earlier | later
    · rcases List.mem_append.mp earlier with first | second
      · exact good_of_harmless (safeA step first)
      · exact good_of_harmless (safeC step second)
    · rcases List.mem_cons.mp later with rfl | last
      · exact good_of_harmless shown.1.2
      · exact good_of_harmless (safeD step last)
  · intro step member
    apply preempted_quiet
    have listed : step.2 ∈ (middle ++ after).map Prod.snd := List.mem_map_of_mem member
    rw [labels, List.mem_append, or_self] at listed
    exact listed

end Board

theorem interrupted_read_answered : ∃ (d : Machine) (bytes : List UInt8) (result : SyscallResult),
    d.Runs 1 ∧ d.kernel.kucom Board.plat 1 = some bytes ∧
      Wrapper.finish .readChar (Board.plat.layout.decode bytes) = .ok result := by
  rcases Board.readInterrupted_runs with
    ⟨a, c, c', d, before, middle, after, asked, run, called, run', good, quiet, requests, runs, calls,
      looks⟩
  rcases requests_answered Board.plat Board.boot a c c' d before middle after 1 .readChar _
    Board.boot_booted (by decide) asked run called run' good (fun step member _ => quiet step member)
    requests trivial runs calls rfl looks with ⟨result, bytes, -, found, -, finished⟩
  exact ⟨d, bytes, result, looks, found, finished⟩

end Jangri
