import Jangri.Kernel.Records

namespace Jangri

open Lib

/-- The heap is mapped up to `currentlyUnmappedStart`, and from there to its end it is not. -/
structure LazyHeap (s : GlobalState) (q : Nat) : Prop where
  start : (s.object q).heapStart ≤ (s.object q).currentlyUnmappedStart
  stop : (s.object q).currentlyUnmappedStart ≤ (s.object q).heapEnd
  mapped : ∀ va, (s.object q).heapStart ≤ va → va < (s.object q).currentlyUnmappedStart →
    Accessible s.memory (s.object q).pageTable va
  unmapped : ∀ va, (s.object q).currentlyUnmappedStart ≤ va → va < (s.object q).heapEnd →
    leafAt s.memory (s.object q).pageTable va = none

/-- A page fault finds nothing reserved or strikes what is reserved, and a request for memory is
granted only where nothing is mapped. -/
structure GlobalState.HeapSafe (plat : Platform) (s : GlobalState) (p : Nat) (info : TrapInfo) :
    Prop where
  fault : info.isPageFault = .ok true →
    (s.object p).currentlyUnmappedStart = (s.object p).heapEnd ∨ (s.object p).Reserves info.stval
  grant : info.isSyscall = true → ∀ size, s.Requests plat p (.wantMemory size) →
    (s.object p).heapEnd + size < stackGuard → ∀ va, (s.object p).heapEnd ≤ va →
      va < (s.object p).heapEnd + size → leafAt s.memory (s.object p).pageTable va = none

section Heap

variable {plat : Platform} {s t : GlobalState} {p q : Nat} {info : TrapInfo}

theorem LazyHeap.congr (heap : LazyHeap s q)
    (heapStart : (t.object q).heapStart = (s.object q).heapStart)
    (heapEnd : (t.object q).heapEnd = (s.object q).heapEnd)
    (unmapped : (t.object q).currentlyUnmappedStart = (s.object q).currentlyUnmappedStart)
    (pageTable : (t.object q).pageTable = (s.object q).pageTable)
    (leaves : ∀ va, leafAt t.memory (s.object q).pageTable va =
      leafAt s.memory (s.object q).pageTable va) : LazyHeap t q := by
  refine ⟨?_, ?_, ?_, ?_⟩
  · rw [heapStart, unmapped]
    exact heap.start
  · rw [heapEnd, unmapped]
    exact heap.stop
  · intro va low high
    rw [heapStart] at low
    rw [unmapped] at high
    unfold Accessible
    rw [pageTable, leaves]
    exact heap.mapped va low high
  · intro va low high
    rw [unmapped] at low
    rw [heapEnd] at high
    rw [pageTable, leaves]
    exact heap.unmapped va low high

theorem LazyHeap.of_same (heap : LazyHeap s q) (object : t.object q = s.object q)
    (leaves : ∀ va, leafAt t.memory (s.object q).pageTable va =
      leafAt s.memory (s.object q).pageTable va) : LazyHeap t q :=
  heap.congr (congrArg _ object) (congrArg _ object) (congrArg _ object) (congrArg _ object) leaves

theorem LazyHeap.untouched (heap : LazyHeap s q) (alive : Alive (s.object q))
    (untouched : Untouched s t q) : LazyHeap t q :=
  heap.congr untouched.same.heapStart untouched.same.heapEnd untouched.same.currentlyUnmappedStart
    untouched.same.pageTable (untouched.leaves alive)

theorem lazyHeap_of_empty (empty : (s.object q).HeapEmpty) : LazyHeap s q := by
  rcases empty with ⟨isEnd, isUnmapped, -⟩
  refine ⟨?_, ?_, ?_, ?_⟩
  · rw [isUnmapped]
  · rw [isUnmapped, isEnd]
  · intro va low high
    rw [isUnmapped] at high
    omega
  · intro va low high
    rw [isUnmapped] at low
    rw [isEnd] at high
    omega

theorem GlobalState.Requests.unique {request request' : Syscall} (first : s.Requests plat p request)
    (second : s.Requests plat p request') : request = request' := by
  rcases first with ⟨entry, leaf, decoded⟩
  rcases second with ⟨entry', leaf', decoded'⟩
  have same := leaf.symm.trans leaf'
  cases same
  exact SyscallInfo.syscall.inj (decoded.symm.trans decoded')

theorem heapSafe_of_interrupt {code : Nat} (isInterrupt : info.trap = .interrupt code) :
    s.HeapSafe plat p info where
  fault := by
    intro isFault
    rw [TrapInfo.isPageFault, isInterrupt] at isFault
    cases isFault
  grant := by
    intro isCall
    rw [TrapInfo.isSyscall, isInterrupt] at isCall
    cases isCall

theorem not_call_of_fault (isFault : info.isPageFault = .ok true) : info.isSyscall = false := by
  cases call : info.isSyscall with
  | false => rfl
  | true =>
      have cause : info.trap = .exception 8 := of_decide_eq_true call
      rw [TrapInfo.isPageFault, cause] at isFault
      cases isFault

theorem switched_heap (process : Process) (context : Context) :
    (process.switched context).heapStart = process.heapStart ∧
      (process.switched context).heapEnd = process.heapEnd ∧
      (process.switched context).currentlyUnmappedStart = process.currentlyUnmappedStart ∧
      (process.switched context).pageTable = process.pageTable := by
  rw [Process.switched, readyIfRunning]
  split
  · exact ⟨rfl, rfl, rfl, rfl⟩
  · exact ⟨rfl, rfl, rfl, rfl⟩

theorem Performed.heap {request : Syscall} {returned : Bool}
    (performed : Performed plat s p request returned t) (stays : Alive (t.object p))
    (other : ∀ size, request = .wantMemory size → stackGuard ≤ (s.object p).heapEnd + size) :
    (t.object p).heapStart = (s.object p).heapStart ∧ (t.object p).heapEnd = (s.object p).heapEnd ∧
      (t.object p).currentlyUnmappedStart = (s.object p).currentlyUnmappedStart ∧
      (t.object p).pageTable = (s.object p).pageTable := by
  cases performed with
  | granted size t whole room object answered =>
      have full := other size rfl
      omega
  | refused size t full object answered => simp [object]
  | written start len t object answered => simp [object]
  | read t object answered => simp [object]
  | exited status t gone => exact absurd stays gone
  | spawned nameStart nameLen start len wait result s₁ t ran separated untouched object answered =>
      rw [object]
      exact ⟨untouched.same.heapStart, untouched.same.heapEnd, untouched.same.currentlyUnmappedStart,
        untouched.same.pageTable⟩
  | yielded t memory object =>
      rw [object]
      exact switched_heap _ _

/-- A page fault keeps the heap in order exactly when it strikes what is reserved, or when nothing
is. -/
theorem lazyHeap_faulted (heap : LazyHeap s p) (isFault : info.isPageFault = .ok true)
    (object : t.object p = { s.object p with currentlyUnmappedStart := (s.object p).heapEnd })
    (grown : if (s.object p).Reserves info.stval then Backed s p t else t.memory = s.memory) :
    LazyHeap t p ↔ s.HeapSafe plat p info := by
  have start : (t.object p).heapStart = (s.object p).heapStart := by rw [object]
  have stop : (t.object p).heapEnd = (s.object p).heapEnd := by rw [object]
  have raised : (t.object p).currentlyUnmappedStart = (s.object p).heapEnd := by rw [object]
  have root : (t.object p).pageTable = (s.object p).pageTable := by rw [object]
  constructor
  · intro after
    refine ⟨fun _ => ?_, ?_⟩
    · by_cases reserved : (s.object p).Reserves info.stval
      · exact Or.inr reserved
      · rw [if_neg reserved] at grown
        by_contra neither
        have gap : (s.object p).currentlyUnmappedStart < (s.object p).heapEnd :=
          lt_of_le_of_ne heap.stop fun same => neither (Or.inl same)
        -- the first address of the gap was not mapped, and still is not
        have vacant := heap.unmapped _ (le_refl _) gap
        rcases after.mapped (s.object p).currentlyUnmappedStart (by rw [start]; exact heap.start)
          (by rw [raised]; exact gap) with ⟨entry, leaf, -⟩
        rw [root, grown, vacant] at leaf
        cases leaf
    · intro isCall
      rw [not_call_of_fault isFault] at isCall
      cases isCall
  · intro safe
    refine ⟨?_, ?_, ?_, ?_⟩
    · rw [start, raised]
      exact heap.start.trans heap.stop
    · rw [raised, stop]
    · intro va low high
      rw [start] at low
      rw [raised] at high
      rw [root]
      by_cases reserved : (s.object p).Reserves info.stval
      · rw [if_pos reserved] at grown
        exact grown.mapped va low high
      · rw [if_neg reserved] at grown
        have level := (safe.fault isFault).resolve_right reserved
        rw [grown]
        exact heap.mapped va low (by rw [level]; exact high)
    · intro va low high
      rw [raised] at low
      rw [stop] at high
      omega

/-- A grant keeps the heap in order exactly when nothing is mapped where it is granted. -/
theorem lazyHeap_granted (heap : LazyHeap s p) {size : Nat}
    (object : t.object p = { s.object p with heapEnd := (s.object p).heapEnd + size })
    (leaves : ∀ va, leafAt t.memory (s.object p).pageTable va =
      leafAt s.memory (s.object p).pageTable va) :
    LazyHeap t p ↔ ∀ va, (s.object p).heapEnd ≤ va → va < (s.object p).heapEnd + size →
      leafAt s.memory (s.object p).pageTable va = none := by
  have start : (t.object p).heapStart = (s.object p).heapStart := by rw [object]
  have stop : (t.object p).heapEnd = (s.object p).heapEnd + size := by rw [object]
  have kept : (t.object p).currentlyUnmappedStart = (s.object p).currentlyUnmappedStart := by
    rw [object]
  have root : (t.object p).pageTable = (s.object p).pageTable := by rw [object]
  have below := heap.stop
  constructor
  · intro after va low high
    have vacant := after.unmapped va (by rw [kept]; omega) (by rw [stop]; exact high)
    rw [root, leaves] at vacant
    exact vacant
  · intro free
    refine ⟨?_, ?_, ?_, ?_⟩
    · rw [start, kept]
      exact heap.start
    · rw [kept, stop]
      omega
    · intro va low high
      rw [start] at low
      rw [kept] at high
      unfold Accessible
      rw [root, leaves]
      exact heap.mapped va low high
    · intro va low high
      rw [kept] at low
      rw [stop] at high
      rw [root, leaves]
      by_cases inside : va < (s.object p).heapEnd
      · exact heap.unmapped va low inside
      · exact free va (by omega) high

theorem lazyHeap_called (separated : Separated plat s) (present : p ∈ s.processes)
    (alive : Alive (s.object p)) (heap : LazyHeap s p) (isCall : info.isSyscall = true)
    {request : Syscall} {returned : Bool} (requests : s.Requests plat p request)
    (performed : Performed plat (s.advanced p) p request returned t) (stays : Alive (t.object p)) :
    LazyHeap t p ↔ s.HeapSafe plat p info := by
  have leaves : ∀ va, leafAt t.memory (s.object p).pageTable va =
      leafAt s.memory (s.object p).pageTable va := by
    intro va
    have before := separated.leaf_write present alive own_advanced va
    have after := performed.leaf (separated.advance present alive) present alive stays va
    exact after.trans before
  have noFault : info.isPageFault ≠ .ok true := by
    intro isFault
    rw [not_call_of_fault isFault] at isCall
    cases isCall
  -- what matters of `HeapSafe` is what it says about the request that has been made
  have safe_iff : s.HeapSafe plat p info ↔ ∀ size, request = .wantMemory size →
      (s.object p).heapEnd + size < stackGuard → ∀ va, (s.object p).heapEnd ≤ va →
        va < (s.object p).heapEnd + size → leafAt s.memory (s.object p).pageTable va = none := by
    constructor
    · intro safe size isWant
      rw [isWant] at requests
      exact safe.grant isCall size requests
    · intro free
      refine ⟨fun isFault => absurd isFault noFault, ?_⟩
      intro _ size wants
      exact free size (requests.unique wants)
  by_cases granted : ∃ size, request = .wantMemory size ∧
      (s.object p).heapEnd + size < stackGuard
  · rcases granted with ⟨size, rfl, room⟩
    have object : t.object p = { s.object p with heapEnd := (s.object p).heapEnd + size } := by
      cases performed with
      | granted size t whole room' object answered => exact object
      | refused size t full object answered =>
          have same : ((s.advanced p).object p).heapEnd = (s.object p).heapEnd := rfl
          omega
    rw [lazyHeap_granted heap object leaves, safe_iff]
    constructor
    · intro free size' isWant _
      cases isWant
      exact free
    · exact fun free => free size rfl room
  · have other : ∀ size, request = .wantMemory size →
        stackGuard ≤ ((s.advanced p).object p).heapEnd + size := by
      intro size isWant
      by_contra small
      exact granted ⟨size, isWant, by
        have same : ((s.advanced p).object p).heapEnd = (s.object p).heapEnd := rfl
        omega⟩
    have same := performed.heap stays other
    apply iff_of_true
    · exact heap.congr same.1 same.2.1 same.2.2.1 same.2.2.2 leaves
    · rw [safe_iff]
      exact fun size isWant room => absurd ⟨size, isWant, room⟩ granted

theorem lazyHeap_trapped (separated : Separated plat s) (present : p ∈ s.processes)
    (alive : Alive (s.object p)) (heap : LazyHeap s p) {returned : Bool}
    (trapped : Trapped plat s p info returned t) (stays : Alive (t.object p)) :
    LazyHeap t p ↔ s.HeapSafe plat p info := by
  cases trapped with
  | ticked t isTimer memory object =>
      apply iff_of_true _ (heapSafe_of_interrupt isTimer)
      have same := switched_heap (s.object p) (.yieldInUserTrap (s.object p).trapframe)
      rw [← object] at same
      apply heap.congr same.1 same.2.1 same.2.2.1 same.2.2.2
      intro va
      rw [memory]
  | passed code t isInterrupt memory object =>
      apply iff_of_true _ (heapSafe_of_interrupt isInterrupt)
      apply heap.of_same object
      intro va
      rw [memory]
  | faulted t isFault object grown => exact lazyHeap_faulted heap isFault object grown
  | called request returned t isCall requests performed =>
      exact lazyHeap_called separated present alive heap isCall requests performed stays

theorem heapSafe_of_gone (alive : Alive (s.object p)) {returned : Bool}
    (trapped : Trapped plat s p info returned t) (gone : ¬ Alive (t.object p)) :
    s.HeapSafe plat p info := by
  cases trapped with
  | ticked t isTimer memory object => exact heapSafe_of_interrupt isTimer
  | passed code t isInterrupt memory object => exact heapSafe_of_interrupt isInterrupt
  | faulted t isFault object grown =>
      apply absurd _ gone
      rw [object]
      exact alive
  | called request returned t isCall requests performed =>
      refine ⟨?_, ?_⟩
      · intro isFault
        rw [not_call_of_fault isFault] at isCall
        cases isCall
      · intro _ size wants
        have same := requests.unique wants
        subst same
        apply absurd _ gone
        cases performed with
        | granted size t whole room object answered =>
            rw [object]
            exact alive
        | refused size t full object answered =>
            rw [object]
            exact alive

/-- Neither going on nor a store changes the mappings. -/
theorem lazyHeap_resumed (separated : Separated plat s) (present : p ∈ s.processes)
    (alive : Alive (s.object p)) (heap : LazyHeap s p) (resumed : Resumed plat s p t) :
    LazyHeap t p := by
  cases resumed with
  | went t elsewhere memory object =>
      apply heap.of_same object
      intro va
      rw [memory]
  | yielded trapframe pageTable t inHandle object answered =>
      apply heap.of_same object
      exact separated.leaf_write present alive (answered.own separated present alive)

theorem leaf_stored (separated : Separated plat s) (present : p ∈ s.processes)
    (alive : Alive (s.object p)) {va : Nat} {byte : UInt8} (stored : Stored s p va byte t) (va' : Nat) :
    leafAt t.memory (s.object p).pageTable va' = leafAt s.memory (s.object p).pageTable va' := by
  cases stored with
  | hit entry t leaf accessible writeable memory object =>
      apply separated.leaf_write present alive
      intro x different
      right
      refine ⟨va, entry, leaf, accessible, ?_⟩
      by_contra outside
      apply different
      rw [memory]
      apply if_neg
      intro inside
      apply outside
      have low : va % pageSize < pageSize := Nat.mod_lt _ (by decide)
      exact ⟨by omega, by omega⟩
  | missed t denied memory object => rw [memory]

theorem lazyHeap_stored (separated : Separated plat s) (present : p ∈ s.processes)
    (alive : Alive (s.object p)) (heap : LazyHeap s p) {va : Nat} {byte : UInt8}
    (stored : Stored s p va byte t) : LazyHeap t p := by
  apply heap.of_same _ (leaf_stored separated present alive stored)
  cases stored with
  | hit entry t leaf accessible writeable memory object => exact object
  | missed t denied memory object => exact object

/-- The trampoline's stores are in the trap frame, which holds no table. -/
theorem leaf_saved (separated : Separated plat s) (present : p ∈ s.processes)
    (alive : Alive (s.object p)) (registers : List UInt8) (sepc va : Nat) :
    leafAt (s.saved p registers sepc).memory (s.object p).pageTable va =
      leafAt s.memory (s.object p).pageTable va := by
  apply separated.leaf_write present alive
  intro x different
  left
  by_contra outside
  apply different
  apply TrapFrame.save_elsewhere
  simp only [TrapFrame.pageTable, pageSize] at *
  omega

end Heap

namespace Machine

variable {plat : Platform} {m m' : Machine}

def HeapsOrdered (m : Machine) : Prop :=
  ∀ q ∈ m.kernel.processes, Alive (m.kernel.object q) → LazyHeap m.kernel q

def HeapSafe (plat : Platform) (m : Machine) (event : Event) : Prop :=
  ∀ p info, m.mode = .user → m.kernel.currentProcess = some p → event = .trap info →
    m.kernel.HeapSafe plat p info

theorem heapSafe_of_serves {p : Nat} {event : Event} (works : m.WorksFor p)
    (present : p ∈ m.kernel.processes) (alive : Alive (m.kernel.object p))
    (separated : Separated plat m.kernel) (heap : LazyHeap m.kernel p)
    (serves : Serves plat m p m' event) :
    (Alive (m'.kernel.object p) → LazyHeap m'.kernel p) ↔ m.HeapSafe plat event := by
  cases serves with
  | resume mode mode' resumed =>
      apply iff_of_true
      · exact fun _ => lazyHeap_resumed separated present alive heap resumed
      · intro q info _ _ isTrap
        cases isTrap
  | save registers sepc mode mode' saved =>
      apply iff_of_true
      · intro _
        rw [saved]
        exact heap.of_same rfl (leaf_saved separated present alive registers sepc)
      · intro q info _ _ isTrap
        cases isTrap
  | store va byte mode mode' stored =>
      apply iff_of_true
      · exact fun _ => lazyHeap_stored separated present alive heap stored
      · intro q info _ _ isTrap
        cases isTrap
  | trap info returned mode mode' trapped =>
      have exactly : m.HeapSafe plat (.trap info) ↔ m.kernel.HeapSafe plat p info := by
        constructor
        · exact fun safe => safe p info mode works.2 rfl
        · intro safe q info' _ current isTrap
          cases isTrap
          have same := works.2.symm.trans current
          cases same
          exact safe
      rw [exactly]
      by_cases stays : Alive (m'.kernel.object p)
      · rw [← lazyHeap_trapped separated present alive heap trapped stays]
        exact ⟨fun after => after stays, fun after _ => after⟩
      · apply iff_of_true (fun alive' => absurd alive' stays)
        exact heapSafe_of_gone alive trapped stays

theorem heapsOrdered_steps (placed : Placed plat) (orderly : m.Orderly)
    (separated : Separated plat m.kernel) (records : Records m.kernel.processes m.kernel)
    {event : Event} (good : ∀ image, m.Loads plat event image → GoodImage plat image)
    (ordered : m.HeapsOrdered) (taken : Steps plat m event m') :
    m'.HeapsOrdered ↔ m.HeapSafe plat event := by
  have kept := kept_of_steps placed orderly separated good taken
  have recorded := records_of_steps orderly records taken
  have moves := moves_of_steps orderly taken
  have others : ∀ q ∈ m'.kernel.processes, Alive (m'.kernel.object q) → ¬ m.WorksFor q →
      LazyHeap m'.kernel q := by
    intro q present alive idle
    by_cases before : q ∈ m.kernel.processes
    · have untouched := kept.untouched q before idle
      have aliveBefore := untouched.same.alive.mp alive
      exact (ordered q before aliveBefore).untouched aliveBefore untouched
    · exact lazyHeap_of_empty (recorded.heaps q present before)
  by_cases busy : ∃ p, m.WorksFor p
  · rcases busy with ⟨p, works⟩
    rcases works.working orderly separated with ⟨root, tf, working⟩
    have serves := serves_of_steps placed orderly separated good works taken
    rw [← heapSafe_of_serves works working.present working.alive separated
      (ordered p working.present working.alive) serves]
    have present' : p ∈ m'.kernel.processes := moves.present p working.present
    constructor
    · exact fun all alive => all p present' alive
    · intro own r present alive
      by_cases here : r = p
      · rw [here] at alive ⊢
        exact own alive
      · apply others r present alive
        intro worksR
        exact here (Option.some.inj (worksR.2.symm.trans works.2))
  · apply iff_of_true
    · intro q present alive
      exact others q present alive fun works => busy ⟨q, works⟩
    · intro p info isUser current _
      exact absurd ⟨p, worksFor_of_user isUser current⟩ busy

end Machine

section Results

variable (plat : Platform) (m m' : Machine) (trace : List (Machine × Event))

/-- In every state of a run each process has its heap mapped up to `currentlyUnmappedStart` and not
beyond, exactly when every step of the run is safe: no page fault outside of what is reserved while
something is, and no grant of addresses that are mapped already. -/
theorem lazy_heap_iff (booted : m.Booted plat) (run : Run (Machine.Steps plat) m trace m')
    (good : ∀ step ∈ trace, ∀ image, step.1.Loads plat step.2 image → GoodImage plat image) :
    (∀ u ∈ Run.visited trace m', ∀ q ∈ u.kernel.processes, Alive (u.kernel.object q) →
      LazyHeap u.kernel q) ↔ ∀ step ∈ trace, step.1.HeapSafe plat step.2 := by
  have none : ∀ q, q ∉ m.kernel.processes := by
    intro q present
    rw [booted.fresh.processes] at present
    cases present
  have restricted := run.restrict (fun u event => ∀ image, u.Loads plat event image →
    GoodImage plat image) good
  apply restricted.good_iff (fun u => u.Orderly ∧ Separated plat u.kernel ∧
    Records u.kernel.processes u.kernel) Machine.HeapsOrdered
  · refine ⟨Machine.orderly_of_fresh booted.fresh, booted.separated, ?_, ?_⟩
    · exact fun q present => absurd present (none q)
    · exact fun q present => absurd present (none q)
  · exact fun q present => absurd present (none q)
  · intro t event u inv taken
    rcases inv with ⟨orderly, separated, records⟩
    rcases taken with ⟨loads, taken⟩
    refine ⟨orderly.steps taken,
      (Machine.kept_of_steps booted.placed orderly separated loads taken).separated, ?_⟩
    exact ⟨(Machine.records_of_steps orderly records taken).kernelStacks,
      fun q present new => absurd present new⟩
  · intro t event u inv ordered taken
    rcases inv with ⟨orderly, separated, records⟩
    rcases taken with ⟨loads, taken⟩
    exact Machine.heapsOrdered_steps booted.placed orderly separated records loads ordered taken

end Results

namespace Board

def askMemory : Event := .store (kucomPage + 17) 0x10

def storeFault (stval : Nat) : Event := .trap ⟨.exception 15, 0, stval, 0, []⟩

def heeds (m : Machine) : Event → Bool
  | .trap info =>
      match m.kernel.currentProcess with
      | none => true
      | some p =>
          let process := m.kernel.object p
          (info.isPageFault != .ok true || decide (process.Reserves info.stval)) &&
            (!info.isSyscall ||
              (leafAt m.kernel.memory process.pageTable kucomPage).any fun entry =>
                match plat.layout.decode (m.kernel.memory.load entry.getPhysicalAddress plat.layout.size) with
                | .syscall (.wantMemory size) => decide (process.heapEnd % pageSize = 0) &&
                    decide (size ≤ pageSize) &&
                    (leafAt m.kernel.memory process.pageTable process.heapEnd).isNone
                | _ => true)
  | _ => true

theorem heapSafe_of_heeds {m : Machine} {event : Event} (safe : heeds m event = true) :
    m.HeapSafe plat event := by
  rintro p info - current rfl
  simp only [heeds, current, Bool.and_eq_true, Bool.or_eq_true, decide_eq_true_eq] at safe
  refine ⟨fun isFault => Or.inr ?_, ?_⟩
  · rcases safe.1 with other | reserved
    · simp [isFault] at other
    · exact reserved
  · rintro isCall size ⟨entry, leaf, request⟩ - va low high
    rcases safe.2 with other | checked
    · simp [isCall] at other
    · rw [leaf, Option.any_some, request] at checked
      simp only [Bool.and_eq_true, decide_eq_true_eq, Option.isNone_iff_eq_none] at checked
      rw [leafAt_page _ _ _ va checked.1.1 low (by omega)]
      exact checked.2

end Board

theorem touched_page_is_mapped : ∃ u trace, Run (Machine.Steps Board.plat) Board.boot trace u ∧
    trace.map Prod.snd =
      Board.started ++ [Board.askMemory, Board.call, Board.storeFault 8192] ∧
    (∀ w ∈ Run.visited trace u, ∀ q ∈ w.kernel.processes, Alive (w.kernel.object q) →
      LazyHeap w.kernel q) ∧
    ∃ entry, leafAt u.kernel.memory (u.kernel.object 1).pageTable 8192 = some entry := by
  rcases Board.good_run_of_checks Board.heeds
    (Board.started ++ [Board.askMemory, Board.call, Board.storeFault 8192])
    (fun u => decide (1 ∈ u.kernel.processes ∧ u.stateOf 1 = .running ∧
      (u.kernel.object 1).heapStart = 8192 ∧ (u.kernel.object 1).currentlyUnmappedStart = 12288))
    (by decide +kernel) with ⟨u, trace, run, labels, good, safe, holds⟩
  rcases of_decide_eq_true holds with ⟨present, runs, start, level⟩
  have lazy_ := (lazy_heap_iff Board.plat _ u trace Board.boot_booted run good).mpr
    fun step member => Board.heapSafe_of_heeds (safe step member)
  have alive : Alive (u.kernel.object 1) := by
    intro r terminated
    cases terminated.symm.trans runs
  have heap := lazy_ u (Run.last_mem_visited trace u) 1 present alive
  rcases heap.mapped 8192 (by omega) (by omega) with ⟨entry, leaf, -⟩
  exact ⟨u, trace, run, labels, lazy_, entry, leaf⟩

/-- The first process asks for a page of memory and touches address 0: its heap counts as mapped
now, and it is not. -/
theorem stray_fault_loses_heap : ∃ u trace, Run (Machine.Steps Board.plat) Board.boot trace u ∧
    trace.map Prod.snd =
      Board.started ++ [Board.askMemory, Board.call, Board.storeFault 0] ∧
    1 ∈ u.kernel.processes ∧ Alive (u.kernel.object 1) ∧ ¬ LazyHeap u.kernel 1 := by
  rcases Board.good_run_of_check (Board.started ++ [Board.askMemory, Board.call, Board.storeFault 0])
    (fun u => decide (1 ∈ u.kernel.processes ∧ u.stateOf 1 = .running ∧
      (u.kernel.object 1).heapStart < (u.kernel.object 1).currentlyUnmappedStart ∧
      leafAt u.kernel.memory (u.kernel.object 1).pageTable (u.kernel.object 1).heapStart = none))
    (by decide +kernel) with ⟨u, trace, run, labels, -, holds⟩
  rcases of_decide_eq_true holds with ⟨present, runs, some_, vacant⟩
  refine ⟨u, trace, run, labels, present, ?_, ?_⟩
  · intro r terminated
    have impossible := terminated.symm.trans runs
    cases impossible
  · intro heap
    rcases heap.mapped _ (le_refl _) some_ with ⟨entry, leaf, -⟩
    rw [vacant] at leaf
    cases leaf

end Jangri
