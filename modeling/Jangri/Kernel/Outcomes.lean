import Jangri.Kernel.Answering

namespace Jangri

open Lib

def Answered (plat : Platform) (m : Memory) (root : Nat) (result : SyscallResult) (m' : Memory) :
    Prop :=
  ∃ entry, leafAt m root kucomPage = some entry ∧
    m' = m.store entry.getPhysicalAddress (plat.layout.encode (.syscallResult result))

def Process.switched (process : Process) (context : Context) : Process :=
  { readyIfRunning process with context }

def GlobalState.Requests (plat : Platform) (s : GlobalState) (p : Nat) (request : Syscall) : Prop :=
  ∃ entry, leafAt s.memory (s.object p).pageTable kucomPage = some entry ∧
    plat.layout.decode (s.memory.load entry.getPhysicalAddress plat.layout.size) = .syscall request

inductive Performed (plat : Platform) (s : GlobalState) (p : Nat) :
    Syscall → Bool → GlobalState → Prop
  | granted (size : Nat) (t : GlobalState) (whole : size % pageSize = 0)
      (room : (s.object p).heapEnd + size < stackGuard)
      (object : t.object p = { s.object p with heapEnd := (s.object p).heapEnd + size })
      (answered : Answered plat s.memory (s.object p).pageTable
        (.wantMemory (.ok ((s.object p).heapEnd, size))) t.memory) :
      Performed plat s p (.wantMemory size) true t
  | refused (size : Nat) (t : GlobalState) (full : stackGuard ≤ (s.object p).heapEnd + size)
      (object : t.object p = s.object p)
      (answered : Answered plat s.memory (s.object p).pageTable
        (.wantMemory (.error .memoryNotAvailable)) t.memory) :
      Performed plat s p (.wantMemory size) true t
  | written (start len : Nat) (t : GlobalState) (object : t.object p = s.object p)
      (answered : Answered plat s.memory (s.object p).pageTable (.write (.ok len)) t.memory) :
      Performed plat s p (.write start len) true t
  | read (t : GlobalState) (object : t.object p = s.object p)
      (answered : Answered plat s.memory (s.object p).pageTable
        (.readChar (.ok (s.inputBuffer.head?.map fun byte => Char.ofNat byte.toNat))) t.memory) :
      Performed plat s p .readChar true t
  | exited (status : Except Error Nat) (t : GlobalState) (gone : ¬ Alive (t.object p)) :
      Performed plat s p (.exit status) false t
  | spawned (nameStart nameLen start len : Nat) (wait : Bool) (result : Except Error Nat)
      (s₁ t : GlobalState)
      (ran : (spawn plat p nameStart nameLen start len wait (s.object p).pageTable).run s =
        .ok (result, s₁))
      (separated : Separated plat s₁) (untouched : Untouched s s₁ p)
      (object : t.object p = s₁.object p)
      (answered : Answered plat s₁.memory (s.object p).pageTable (.spawn result) t.memory) :
      Performed plat s p (.spawn nameStart nameLen start len wait) true t
  | yielded (t : GlobalState) (memory : t.memory = s.memory)
      (object : t.object p = (s.object p).switched
        (.yieldInHandle (s.object p).trapframe (s.object p).pageTable)) :
      Performed plat s p .yield false t

structure Backed (s : GlobalState) (p : Nat) (t : GlobalState) : Prop where
  leaves : ∀ va entry, leafAt s.memory (s.object p).pageTable va = some entry →
    leafAt t.memory (s.object p).pageTable va = some entry
  users : ∀ va entry, leafAt s.memory (s.object p).pageTable va = some entry →
    entry.userModeAccessible = true → ∀ x, entry.getPhysicalAddress ≤ x →
      x < entry.getPhysicalAddress + pageSize → t.memory x = s.memory x
  frame : ∀ x, (s.object p).trapframe ≤ x → x < (s.object p).trapframe + pageSize →
    t.memory x = s.memory x
  mapped : ∀ va, (s.object p).heapStart ≤ va → va < (s.object p).heapEnd →
    Accessible t.memory (s.object p).pageTable va

inductive Trapped (plat : Platform) (s : GlobalState) (p : Nat) (info : TrapInfo) :
    Bool → GlobalState → Prop
  | ticked (t : GlobalState) (isTimer : info.trap = .interrupt 5) (memory : t.memory = s.memory)
      (object : t.object p = (s.object p).switched (.yieldInUserTrap (s.object p).trapframe)) :
      Trapped plat s p info false t
  | passed (code : Nat) (t : GlobalState) (isInterrupt : info.trap = .interrupt code)
      (memory : t.memory = s.memory) (object : t.object p = s.object p) :
      Trapped plat s p info true t
  | faulted (t : GlobalState) (isFault : info.isPageFault = .ok true)
      (object : t.object p = { s.object p with currentlyUnmappedStart := (s.object p).heapEnd })
      (grown : if (s.object p).Reserves info.stval then Backed s p t else t.memory = s.memory) :
      Trapped plat s p info true t
  | called (request : Syscall) (returned : Bool) (t : GlobalState) (isCall : info.isSyscall = true)
      (requests : s.Requests plat p request)
      (performed : Performed plat (s.advanced p) p request returned t) :
      Trapped plat s p info returned t

inductive Resumed (plat : Platform) (s : GlobalState) (p : Nat) : GlobalState → Prop
  | went (t : GlobalState)
      (elsewhere : ∀ trapframe pageTable, (s.object p).context ≠ .yieldInHandle trapframe pageTable)
      (memory : t.memory = s.memory) (object : t.object p = s.object p) : Resumed plat s p t
  | yielded (trapframe pageTable : Nat) (t : GlobalState)
      (inHandle : (s.object p).context = .yieldInHandle trapframe pageTable)
      (object : t.object p = s.object p)
      (answered : Answered plat s.memory (s.object p).pageTable .yield t.memory) : Resumed plat s p t

inductive Stored (s : GlobalState) (p va : Nat) (byte : UInt8) : GlobalState → Prop
  | hit (entry : PageTableEntry) (t : GlobalState)
      (leaf : leafAt s.memory (s.object p).pageTable va = some entry)
      (accessible : entry.userModeAccessible = true) (writeable : entry.writeable = true)
      (memory : t.memory = s.memory.write (entry.getPhysicalAddress + va % pageSize) 1 byte.toNat)
      (object : t.object p = s.object p) : Stored s p va byte t
  | missed (t : GlobalState) (denied : ∀ entry, leafAt s.memory (s.object p).pageTable va = some entry →
      ¬ (entry.userModeAccessible = true ∧ entry.writeable = true)) (memory : t.memory = s.memory)
      (object : t.object p = s.object p) : Stored s p va byte t

section Calls

variable {plat : Platform} {p root tf : Nat} {origin s : GlobalState}

theorem wp_writeResult_stored (root : Nat) (result : SyscallResult) :
    wp (writeResult plat root result) (fun _ t => t.object = s.object ∧
      Answered plat s.memory root result t.memory) Any s := by
  rw [writeResult, UserMemorySlice.write, wp_bind]
  apply wp_unwrapResult_any
  apply wpr_weaken (wpr_va2pa root kucomPage)
  case fails => exact fun _ _ _ => trivial
  intro start t found
  rcases found with ⟨rfl, entry, leaf, rfl⟩
  rw [wp_bind]
  apply wp_liftRust_any
  intro _ _
  have start : kucomPage % pageSize = 0 := by decide
  have whole : (plat.layout.encode (.syscallResult result)).take
      (min pageSize (plat.layout.encode (.syscallResult result)).length) =
      plat.layout.encode (.syscallResult result) := by
    rw [plat.layout.length_encode, min_eq_right plat.layout.fits]
    apply List.take_of_length_le
    rw [plat.layout.length_encode]
  apply wp_storeMapped plat
  case stops => exact fun _ => trivial
  intro _
  rw [wp_def, storeBytes, start, Nat.add_zero, whole]
  simp only
  exact ⟨trivial, entry, leaf, rfl⟩

theorem wp_yieldCpu_switched (idle : s.held = []) (context : Context)
    (current : s.currentProcess = some p) :
    wp (yieldCpu context) (fun _ t => t.memory = s.memory ∧
      t.object p = (s.object p).switched context) Any s := by
  rw [yieldCpu, wp_bind, wp_bind, wp_getCurrentProcess (by simp [idle]), wp_liftRust, current]
  simp only [expect, pure_eq_ok]
  rw [wp_bind]
  apply wp_withLock_any
  rw [wp_modifyObject]
  apply wp_switchAway
  intro q isCurrent
  have same : p = q := Option.some.inj (current.symm.trans isCurrent)
  subst same
  refine ⟨rfl, ?_⟩
  simp only [Function.update_self]
  rfl

theorem wp_perform_cases (placed : Placed plat) (working : Working plat p root tf origin s)
    (idle : s.held = []) (new : s.pid + 1 ∉ s.processes) (request : Syscall)
    (good : ∀ nameStart nameLen start len wait name image s₁ s₂,
      request = .spawn nameStart nameLen start len wait →
      UserMemorySlice.read ⟨nameStart, root, nameLen⟩ plat (translate plat) s = .ok (name, s₁) →
      UserMemorySlice.read ⟨start, root, len⟩ plat (translate plat) s₁ = .ok (image, s₂) →
      GoodImage plat image) :
    wp (perform plat p tf root request) (fun returned t => Performed plat s p request returned t)
      Any s := by
  have answers : ∀ (u : GlobalState) result (post : Bool → GlobalState → Prop),
      (∀ t, t.object = u.object → Answered plat u.memory root result t.memory → post true t) →
      wp (writeResult plat root result >>= fun _ => pure true) post Any u := by
    intro u result post done
    rw [wp_bind]
    apply wp_weaken (wp_writeResult_stored root result)
    intro _ t answered
    rw [wp_pure]
    exact done t answered.1 answered.2
  rcases working.root with rfl
  cases request with
  | wantMemory size =>
      rw [perform, wp_bind]
      apply wp_mono (wp_wantMemory_exact idle working.current size)
      case stops => exact fun _ _ => trivial
      intro result s₁ done
      rcases done with ⟨⟨whole, -⟩, ⟨rfl, full, rfl⟩ | ⟨rfl, room, rfl⟩⟩
      · apply answers
        intro t same answered
        exact .refused size t full (congrFun same p) answered
      · apply answers
        intro t same answered
        have object : (extended s p size).object p =
            { s.object p with heapEnd := (s.object p).heapEnd + size } := Function.update_self _ _ _
        exact .granted size t whole room ((congrFun same p).trans object) answered
  | write start len =>
      rw [perform, wp_bind]
      apply wp_weaken (wp_sliceRead _)
      intro bytes t same
      rw [wp_bind]
      apply wp_liftRust_any
      intro text _
      rw [wp_bind, same, wp_def, consoleWrite]
      simp only
      apply answers
      exact fun t same answered => .written start len t (congrFun same p) answered
  | readChar =>
      rw [perform, wp_bind, dequeueInput]
      apply wp_withLock_any
      rw [wp_def]
      cases queued : s.inputBuffer with
      | nil =>
          simp only [List.erase_cons_head]
          apply answers
          intro t same answered
          have object : t.object p = s.object p := congrFun same p
          apply Performed.read t object
          rw [queued]
          exact answered
      | cons byte rest =>
          simp only [List.erase_cons_head]
          apply answers
          intro t same answered
          have object : t.object p = s.object p := congrFun same p
          apply Performed.read t object
          rw [queued]
          exact answered
  | exit status =>
      rcases working.separated.attach working.present working.alive with ⟨foreign, -, attached⟩
      rw [perform, wp_bind]
      apply wp_weaken (wp_exit_separated attached working.current _)
      intro _ t left
      rcases left with ⟨-, U, world⟩
      rw [wp_pure]
      exact .exited status t fun alive => world.2.alive.mp alive
  | spawn nameStart nameLen start len wait =>
      have spawned := wpr_spawn placed working new nameStart nameLen start len wait
        (fun name image s₁ s₂ => good _ _ _ _ _ name image s₁ s₂ rfl)
      unfold wpr at spawned
      rw [perform, wp_bind]
      apply wp_mono_run spawned
      case stops => exact fun _ h => h
      intro result s₁ ran done
      have kept : Working plat p (s.object p).pageTable tf origin s₁ ∧ Untouched s s₁ p := by
        cases result with
        | ok child => exact done
        | error e => exact done
      apply answers
      intro t same answered
      exact .spawned nameStart nameLen start len wait result s₁ t ran kept.1.separated kept.2
        (congrFun same p) answered
  | yield =>
      rw [perform, wp_bind]
      apply wp_weaken (wp_yieldCpu_switched idle _ working.current)
      intro _ t done
      rw [wp_pure]
      apply Performed.yielded t done.1
      rw [done.2, working.trapframe]
  | shutdown =>
      rw [perform, wp_def]
      trivial

theorem wp_handle_cases (placed : Placed plat) (working : Working plat p root tf s s)
    (idle : s.held = []) (new : s.pid + 1 ∉ s.processes) (good : ∀ image, ReadsImage plat s image → GoodImage plat image)
    (info : TrapInfo) (isCall : info.isSyscall = true) :
    wp (handle plat) (fun returned t => Trapped plat s p info returned t) Any s := by
  rcases working.root with rfl
  rcases working.trapframe with rfl
  rw [handle, wp_bind, wp_bind, wp_getCurrentProcess (by simp [idle]), wp_liftRust, working.current]
  simp only [expect, pure_eq_ok]
  rw [wp_bind, wp_withLock _ _ _ (by simp [idle]), wp_getObject]
  simp only [List.erase_cons_head]
  have advances : wp (handleSyscall (s.object p).trapframe) (fun _ t => t = s.advanced p ∧
      s.sepc p + 4 < usizeBound) Any s := wp_handleSyscall_iff fun _ _ => trivial
  have keeps : Preserves (Working plat p (s.object p).pageTable (s.object p).trapframe s)
      (handleSyscall (s.object p).trapframe) := by
    apply preserves_working
    intro scene _ _ isFrame _
    rw [← isFrame]
    exact preserves_handleSyscall
  rw [wp_bind]
  apply wp_mono_run (wp_and advances (keeps s working))
  case stops => exact fun _ h => h.1
  intro _ s₁ advanced done
  rcases done with ⟨⟨rfl, -⟩, working₁⟩
  have idle₁ : (s.advanced p).held = [] := idle
  have reads : wp (readRequest plat (s.object p).pageTable) _ Any (s.advanced p) :=
    wp_readRequest_iff working₁ idle₁ fun _ _ => trivial
  rw [wp_bind]
  apply wp_mono_run reads
  case stops => exact fun _ h => h
  intro request s₂ read done
  rcases done with ⟨rfl, entry, leaf₁, decoded⟩
  have leaf := (working.leaf_advanced kucomPage).symm.trans leaf₁
  rw [working.kucom_advanced leaf _ plat.layout.fits] at decoded
  cases request with
  | syscall request =>
      apply wp_mono (wp_perform_cases placed working₁ idle₁ new request ?_)
      · exact fun returned t performed =>
          .called request returned t isCall ⟨entry, leaf, decoded.symm⟩ performed
      · exact fun _ h => h
      · intro nameStart nameLen start len wait name image t₁ t₂ isSpawn readName readImage
        apply good
        subst isSpawn
        exact ⟨p, nameStart, nameLen, start, len, wait, name, _, _, t₁, t₂, working.current,
          advanced, read, readName, readImage⟩
  | syscallResult result =>
      rw [wp_def]
      trivial
  | empty =>
      rw [wp_def]
      trivial

end Calls

section Traps

variable {plat : Platform} {p root tf : Nat} {origin s : GlobalState}

def Scene.reach (scene : Scene) (m : Memory) : Set Nat :=
  {x | ∃ va entry, leafAt m scene.root va = some entry ∧ entry.userModeAccessible = true ∧
    x ∈ Set.Ico entry.getPhysicalAddress (entry.getPhysicalAddress + pageSize)}

theorem Attached.include_reach {scene : Scene} {G : Set Nat} (attached : Attached plat scene G s) :
    Attached plat scene (scene.reach s.memory) s := by
  rcases attached with ⟨U, -, rooted, fitted⟩
  refine ⟨U, ?_, rooted, fitted⟩
  intro x member
  rcases member with ⟨va, entry, leaf, accessible, inside⟩
  exact fitted.users va entry leaf accessible x inside.1 inside.2

theorem wp_handleException_cases (placed : Placed plat) (working : Working plat p root tf origin s)
    (idle : s.held = []) (info : TrapInfo) :
    wp (handleException plat p info) (fun returned t => Trapped plat s p info returned t) Any s := by
  apply wp_handleException_mapped (fun _ _ => trivial) plat (Or.inr trivial) p idle working.current
  intro t isFault ran _
  have locked : Working plat p root tf origin { s with held := .process p :: s.held } :=
    working_stable s _ ⟨rfl, rfl, rfl, rfl, rfl⟩ working
  rcases locked.separated.attach locked.present locked.alive with ⟨foreign, -, attached⟩
  have grows := wpr_growHeap placed attached.include_reach info.stval
  unfold wpr at grows
  have done := wp_of_returns grows ran
  rcases done with ⟨-, grown⟩
  have object : t.object p = s.object p := by
    split at grown
    next => exact congrFun grown.1.object p
    next => rw [grown]
  apply Trapped.faulted _ isFault
  · simp only [Function.update_self]
    rw [object]
  · by_cases reserved : (s.object p).Reserves info.stval
    · rw [if_pos reserved]
      split at grown
      next =>
        refine ⟨grown.1.leaves, ?_, ?_, grown.2⟩
        · intro va entry leaf accessible x low high
          exact grown.1.memory x (Or.inl ⟨va, entry, leaf, accessible, low, high⟩)
        · exact fun x low high => grown.1.memory x (Or.inr ⟨low, high⟩)
      next stray => exact absurd reserved stray
    · rw [if_neg reserved]
      split at grown
      next inside => exact absurd inside reserved
      next => rw [grown]

theorem wp_handleExternalInterrupt_frame (info : TrapInfo) :
    wp (handleExternalInterrupt info) (fun _ t => t.memory = s.memory ∧ t.object = s.object)
      Any s := by
  have stable : Stable fun t => t.memory = s.memory ∧ t.object = s.object := by
    intro t u same kept
    exact ⟨same.memory.trans kept.1, same.object.trans kept.2⟩
  exact preserves_handleExternalInterrupt stable info s ⟨rfl, rfl⟩

theorem wp_dispatch_cases (placed : Placed plat) (working : Working plat p root tf s s)
    (idle : s.held = []) (new : s.pid + 1 ∉ s.processes) (info : TrapInfo)
    (good : info.isSyscall = true → ∀ image, ReadsImage plat s image → GoodImage plat image) :
    wp (dispatch plat p tf info) (fun returned t => Trapped plat s p info returned t) Any s := by
  unfold dispatch
  split
  next isTimer =>
    rw [wp_bind]
    apply wp_weaken (wp_yieldCpu_switched idle _ working.current)
    intro _ t done
    rw [wp_pure]
    apply Trapped.ticked t (of_decide_eq_true isTimer) done.1
    rw [done.2, working.trapframe]
  next =>
    split
    next isExternal =>
      rw [wp_bind]
      apply wp_weaken (wp_handleExternalInterrupt_frame info)
      intro _ t done
      rw [wp_pure]
      exact .passed 9 t (of_decide_eq_true isExternal) done.1 (congrFun done.2 p)
    next =>
      split
      next => exact wp_handleException_cases placed working idle info
      next noException =>
        split
        next isCall => exact wp_handle_cases placed working idle new (good isCall) info isCall
        next noCall =>
          rw [wp_pure]
          cases isTrap : info.trap with
          | interrupt code => exact .passed code s isTrap rfl rfl
          | exception code =>
              have unknown : info.isException = true := by
                rw [TrapInfo.isException, isTrap]
                simp [noCall]
              exact absurd unknown noException

theorem wp_returnToUserMode_same :
    wp returnToUserMode (fun mode t => mode = .user ∧ t = s) Any s := by
  rw [returnToUserMode, setUpSupervisorToUserModeTransition, wp_bind, wp_bind, currentProcess,
    wp_bind, GlobalState.getCurrentProcess]
  apply wp_withLock_any
  rw [wp_read]
  apply wp_liftRust_any
  intro q _
  apply wp_withLock_any
  rw [wp_pure, wp_pure]
  simp only [List.erase_cons_head, and_self]

theorem wp_userTrap_cases (placed : Placed plat) (working : Working plat p root tf s s)
    (idle : s.held = []) (new : s.pid + 1 ∉ s.processes) (info : TrapInfo)
    (good : info.isSyscall = true → ∀ image, ReadsImage plat s image → GoodImage plat image) :
    wp (userTrap plat info) (fun mode t => ∃ returned,
      mode = (if returned = true then .user else .scheduler) ∧
        Trapped plat s p info returned t) Any s := by
  rw [userTrap, wp_bind, wp_bind, wp_getCurrentProcess (by simp [idle]), wp_liftRust, working.current]
  simp only [expect, pure_eq_ok]
  rw [wp_bind, wp_withLock _ _ _ (by simp [idle]), wp_getObject]
  simp only [List.erase_cons_head]
  rw [wp_bind, working.trapframe]
  apply wp_weaken (wp_dispatch_cases placed working idle new info good)
  intro returned t trapped
  rw [leave, wp_ite]
  cases returned with
  | true =>
      apply wp_weaken wp_returnToUserMode_same
      intro mode u done
      rw [done.2]
      exact ⟨true, done.1, trapped⟩
  | false =>
      rw [if_neg (by decide), wp_pure]
      exact ⟨false, rfl, trapped⟩

theorem wp_switchedTo_cases (working : Working plat p root tf origin s) :
    wp (switchedTo plat) (fun mode t => mode = .user ∧ Resumed plat s p t) Any s := by
  rw [wp_def, switchedTo_of_current working.current, ← wp_def]
  have returns : ∀ u, Resumed plat s p u →
      wp returnToUserMode (fun mode t => mode = .user ∧ Resumed plat s p t) Any u := by
    intro u resumed
    apply wp_weaken wp_returnToUserMode_same
    intro mode t done
    rw [done.2]
    exact ⟨done.1, resumed⟩
  cases isContext : (s.object p).context with
  | unset =>
      rw [wp_def]
      trivial
  | prepareFirstTimeExecution =>
      rw [goOn, prepareFirstTimeExecution, wp_bind, wp_bind, GlobalState.getCurrentProcess]
      apply wp_withLock_any
      rw [wp_read]
      apply wp_liftRust_any
      intro q _
      rw [wp_bind]
      apply wp_withLock_any
      rw [wp_pure]
      simp only [List.erase_cons_head]
      apply returns
      exact .went s (by simp [isContext]) rfl rfl
  | yieldInUserTrap trapframe =>
      apply returns
      exact .went s (by simp [isContext]) rfl rfl
  | yieldInHandle trapframe pageTable =>
      have same : pageTable = (s.object p).pageTable :=
        working.separated.contexts p working.present trapframe pageTable isContext
      rw [goOn, wp_bind, same]
      apply wp_weaken (wp_writeResult_stored _ .yield)
      intro _ t answered
      exact returns t (.yielded trapframe pageTable t isContext (congrFun answered.1 p) answered.2)
  | exit =>
      rw [wp_def]
      trivial

theorem wp_userStore_cases (working : Working plat p root tf origin s) (va : Nat) (byte : UInt8) :
    wp (userStore va byte) (fun mode t => mode = .user ∧ Stored s p va byte t) Any s := by
  rw [wp_def, userStore_of_current working.current]
  cases leaf : leafAt s.memory (s.object p).pageTable va with
  | none =>
      refine ⟨rfl, .missed s ?_ rfl rfl⟩
      intro entry found
      rw [leaf] at found
      cases found
  | some entry =>
      by_cases permitted : entry.userModeAccessible ∧ entry.writeable
      · simp only [if_pos permitted]
        exact ⟨trivial, .hit entry _ leaf permitted.1 permitted.2 rfl rfl⟩
      · simp only [if_neg permitted]
        refine ⟨trivial, .missed s ?_ rfl rfl⟩
        intro entry' found
        rw [leaf] at found
        cases found
        exact permitted

end Traps

section Keeping

variable {plat : Platform} {p : Nat} {s t : GlobalState}

def GlobalState.Own (s : GlobalState) (p x : Nat) : Prop :=
  ((s.object p).trapframe ≤ x ∧ x < (s.object p).trapframe + pageSize) ∨
    ∃ va entry, leafAt s.memory (s.object p).pageTable va = some entry ∧
      entry.userModeAccessible = true ∧ entry.getPhysicalAddress ≤ x ∧
      x < entry.getPhysicalAddress + pageSize

theorem Separated.leaf_write (separated : Separated plat s) (present : p ∈ s.processes)
    (alive : Alive (s.object p)) {m : Memory} (changed : ∀ x, m x ≠ s.memory x → s.Own p x)
    (va : Nat) : leafAt m (s.object p).pageTable va = leafAt s.memory (s.object p).pageTable va := by
  rcases separated.isolated with ⟨free, live, owner, isolated⟩
  have space := isolated.spaces p present alive
  apply leafAt_congr
  intro page isPage x low high
  have known := space.pages page isPage
  have inTable : Held live owner (.table p) x := ⟨_, known.1, known.2, low, high⟩
  by_contra different
  rcases changed x different with frame | ⟨va', entry, leaf, accessible, first, last⟩
  · have same := held_unique isolated.wf inTable (isolated.frames p present x frame.1 frame.2)
    cases same
  · have same := held_unique isolated.wf inTable
      (space.users va' entry leaf accessible x first last)
    cases same

theorem own_advanced (x : Nat) (different : (s.advanced p).memory x ≠ s.memory x) : s.Own p x := by
  left
  by_contra outside
  apply different
  apply if_neg
  intro inside
  apply outside
  simp only [TrapFrame.sepc, pageSize] at *
  omega

theorem Answered.within {m m' : Memory} {root : Nat} {result : SyscallResult}
    (answered : Answered plat m root result m') {entry : PageTableEntry}
    (leaf : leafAt m root kucomPage = some entry) (x : Nat) (different : m' x ≠ m x) :
    entry.getPhysicalAddress ≤ x ∧ x < entry.getPhysicalAddress + pageSize := by
  rcases answered with ⟨entry', leaf', rfl⟩
  have same := leaf'.symm.trans leaf
  cases same
  by_contra outside
  apply different
  apply if_neg
  have small := plat.layout.fits
  rw [plat.layout.length_encode]
  omega

theorem Answered.own {m' : Memory} {result : SyscallResult} (separated : Separated plat s)
    (present : p ∈ s.processes) (alive : Alive (s.object p))
    (answered : Answered plat s.memory (s.object p).pageTable result m') (x : Nat)
    (different : m' x ≠ s.memory x) : s.Own p x := by
  rcases answered with ⟨entry, leaf, stored⟩
  have inside := Answered.within ⟨entry, leaf, stored⟩ leaf x different
  exact Or.inr ⟨kucomPage, entry, leaf, separated.kucom_accessible present alive leaf, inside.1, inside.2⟩

theorem Separated.advance (separated : Separated plat s) (present : p ∈ s.processes)
    (alive : Alive (s.object p)) : Separated plat (s.advanced p) := by
  rcases separated.attach present alive with ⟨foreign, -, attached⟩
  apply (attached.write (s.advanced p).memory _).detach
  intro x different
  right
  by_contra outside
  apply different
  apply if_neg
  intro inside
  apply outside
  simp only [TrapFrame.sepc, Scene.frame, GlobalState.scene, Set.mem_Ico, pageSize] at *
  omega

theorem Performed.leaf {request : Syscall} {returned : Bool} (separated : Separated plat s)
    (present : p ∈ s.processes) (alive : Alive (s.object p))
    (performed : Performed plat s p request returned t) (stays : Alive (t.object p)) (va : Nat) :
    leafAt t.memory (s.object p).pageTable va = leafAt s.memory (s.object p).pageTable va := by
  have answers : ∀ {result : SyscallResult} {m : Memory},
      Answered plat s.memory (s.object p).pageTable result m →
      leafAt m (s.object p).pageTable va = leafAt s.memory (s.object p).pageTable va :=
    fun answered => separated.leaf_write present alive (answered.own separated present alive) va
  cases performed with
  | granted size t whole room object answered => exact answers answered
  | refused size t full object answered => exact answers answered
  | written start len t object answered => exact answers answered
  | read t object answered => exact answers answered
  | exited status t gone => exact absurd stays gone
  | spawned nameStart nameLen start len wait result s₁ t ran separated₁ untouched object answered =>
      have alive₁ := untouched.same.alive.mpr alive
      have same := untouched.leaves alive va
      rw [← untouched.same.pageTable] at answered same ⊢
      rw [separated₁.leaf_write untouched.present alive₁
        (answered.own separated₁ untouched.present alive₁) va, same]
  | yielded t memory object => rw [memory]

end Keeping

namespace Machine

variable {plat : Platform} {m m' : Machine} {p : Nat}

/-- What one step of the machine does for the process it works for. -/
inductive Serves (plat : Platform) (m : Machine) (p : Nat) (m' : Machine) : Event → Prop
  | resume (mode : m.mode = .resumed) (mode' : m'.mode = .user)
      (resumed : Resumed plat m.kernel p m'.kernel) : Serves plat m p m' .resume
  | trap (info : TrapInfo) (returned : Bool) (mode : m.mode = .user)
      (mode' : m'.mode = if returned = true then .user else .scheduler)
      (trapped : Trapped plat m.kernel p info returned m'.kernel) : Serves plat m p m' (.trap info)
  | save (registers : List UInt8) (sepc : Nat) (mode : m.mode = .user) (mode' : m'.mode = .user)
      (saved : m'.kernel = m.kernel.saved p registers sepc) : Serves plat m p m' (.save registers sepc)
  | store (va : Nat) (byte : UInt8) (mode : m.mode = .user) (mode' : m'.mode = .user)
      (stored : Stored m.kernel p va byte m'.kernel) : Serves plat m p m' (.store va byte)

theorem serves_of_steps (placed : Placed plat) (orderly : m.Orderly)
    (separated : Separated plat m.kernel) {event : Event}
    (good : ∀ image, m.Loads plat event image → GoodImage plat image) (works : m.WorksFor p)
    (taken : Steps plat m event m') : Serves plat m p m' event := by
  rcases works.working orderly separated with ⟨root, tf, working⟩
  rcases works with ⟨busy, current⟩
  have idle : m.kernel.held = [] := orderly.held
  have new := not_present_of_orderly orderly
  rcases taken with ⟨operation, responds, ended⟩
  unfold respond at responds
  split at responds
  next _ _ isMode => exact absurd isMode busy
  next isMode => exact absurd isMode busy
  next _ isMode => exact absurd isMode busy
  next isMode =>
    cases responds
    have done := wp_of_returns (wp_switchedTo_cases working) ended
    exact .resume isMode done.1 done.2
  next registers sepc isMode =>
    cases responds
    have done := Except.ok.inj ((saveRegisters_of_current current registers sepc).symm.trans ended)
    rcases Prod.mk.inj done with ⟨isMode', saved⟩
    exact .save registers sepc isMode isMode'.symm saved.symm
  next info isMode =>
    cases responds
    have spec := wp_userTrap_cases placed working idle new info
      fun isCall image reads => good image (Or.inr ⟨isMode, info, rfl, isCall, reads⟩)
    have done := wp_of_returns spec ended
    rcases done with ⟨returned, isMode', trapped⟩
    exact .trap info returned isMode isMode' trapped
  next va byte isMode =>
    cases responds
    have done := wp_of_returns (wp_userStore_cases working va byte) ended
    exact .store va byte isMode done.1 done.2
  next => cases responds

end Machine

end Jangri
