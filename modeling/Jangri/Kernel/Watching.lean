import Jangri.Kernel.Reserve

namespace Jangri

open Lib

structure Watched (plat : Platform) (K D : Set Nat) (origin s : GlobalState) : Prop
    extends Reserved plat K s where
  kernel : ∀ x ∈ K, s.memory x = origin.memory x
  provided : ∀ q ∈ s.processes, q ∉ D → Alive (s.object q) → Provided plat s.memory q (s.object q)

structure Attending (plat : Platform) (K D : Set Nat) (p root tf : Nat) (origin s : GlobalState) : Prop
    extends Watched plat K D origin s where
  left : p ∈ D
  present : p ∈ s.processes
  alive : Alive (s.object p)
  root : (s.object p).pageTable = root
  trapframe : (s.object p).trapframe = tf
  current : s.currentProcess = some p

section Attending

variable {plat : Platform} {K D : Set Nat} {α : Type} {p root tf : Nat}
  {origin s t : GlobalState}

theorem watched_stable : Stable (Watched plat K D origin) := by
  intro s t same watched
  refine ⟨⟨?_, ?_⟩, ?_, ?_⟩
  · rw [same.processes, same.object, same.allocator, same.memory]
    exact watched.isolated
  · rw [same.processes, same.object]
    exact watched.contexts
  · rw [same.memory]
    exact watched.kernel
  · rw [same.processes, same.object, same.memory]
    exact watched.provided

theorem attending_stable : Stable (Attending plat K D p root tf origin) := by
  intro s t same attending
  refine ⟨watched_stable s t same attending.toWatched, attending.left, ?_, ?_, ?_, ?_, ?_⟩
  · rw [same.processes]
    exact attending.present
  · rw [same.object]
    exact attending.alive
  · rw [same.object]
    exact attending.root
  · rw [same.object]
    exact attending.trapframe
  · rw [same.currentProcess]
    exact attending.current

theorem Untouched.provided {q : Nat} (untouched : Untouched s t q) (alive : Alive (s.object q))
    (provided : Provided plat s.memory q (s.object q)) : Provided plat t.memory q (t.object q) := by
  apply provided.congr untouched.same.pageTable untouched.same.trapframe
    (provided.resumes_congr untouched.same.trapframe untouched.same.context) (untouched.leaves alive)
  intro x low high
  exact untouched.frame x (by omega) high

theorem Watched.after (watched : Watched plat K D origin s) (left : p ∈ D)
    (reserved : Reserved plat K t ∧ ∀ x ∈ K, t.memory x = s.memory x)
    (processes : t.processes = s.processes) (undisturbed : Undisturbed p s t) :
    Watched plat K D origin t where
  toReserved := reserved.1
  kernel := fun x member => (reserved.2 x member).trans (watched.kernel x member)
  provided := by
    intro q present other alive
    rw [processes] at present
    have notSelf : q ≠ p := by
      rintro rfl
      exact other left
    have untouched := undisturbed q present notSelf
    have oldAlive := untouched.same.alive.mp alive
    exact untouched.provided oldAlive (watched.provided q present other oldAlive)

theorem preserves_attending (placed : Placed plat) (whole : WholePages K) {x : Kernel α}
    (keeps : ∀ scene : Scene, scene.pid = p → scene.root = root → scene.trapframe = tf →
      scene.current = some p → Preserves (Attached plat scene ∅) x) :
    Preserves (Attending plat K D p root tf origin) x := by
  intro s attending
  rcases attending.isolated with ⟨free, live, owner, isolated, kernel⟩
  have attached := isolated.attach attending.contexts attending.present attending.alive
  apply wp_weaken (keeps _ rfl attending.root attending.trapframe attending.current s attached)
  intro _ t kept
  have onstage := kept.onstage
  have reserved := Reserved.of_attached placed whole isolated kernel rfl rfl rfl
    (fun q known _ => known) kept
  have undisturbed : Undisturbed p s t := kept.undisturbed (isolated.covers p) rfl rfl fun _ known => known
  refine ⟨attending.toWatched.after attending.left reserved onstage.processes undisturbed,
    attending.left, ?_, onstage.alive.mpr trivial, onstage.root.trans attending.root,
    onstage.trapframe.trans attending.trapframe, onstage.current.trans attending.current⟩
  rw [onstage.processes]
  exact onstage.present

theorem Watched.update (watched : Watched plat K D origin s) (q : Nat) (process : Process)
    (same : SameSpace process (s.object q)) :
    Watched plat K D origin { s with object := Function.update s.object q process } := by
  have every := sameSpace_update s.object q process same
  rcases watched.isolated with ⟨free, live, owner, isolated, kernel⟩
  refine ⟨⟨⟨free, live, owner, ⟨isolated.wf, isolated.start, ?_, ?_⟩, kernel⟩, ?_⟩, watched.kernel, ?_⟩
  · intro r present
    rw [(every r).trapframe]
    exact isolated.frames r present
  · intro r present alive
    rw [(every r).pageTable]
    exact isolated.spaces r present ((every r).alive.mp alive)
  · intro r present
    simp only
    rw [(every r).context, (every r).pageTable]
    exact watched.contexts r present
  · intro r present other alive
    have provided := watched.provided r present other ((every r).alive.mp alive)
    exact provided.congr (every r).pageTable (every r).trapframe
      (provided.resumes_congr (every r).trapframe (every r).context) (fun _ => rfl) fun _ _ _ => rfl

theorem Attending.update (attending : Attending plat K D p root tf origin s) (q : Nat) (process : Process)
    (same : SameSpace process (s.object q)) :
    Attending plat K D p root tf origin { s with object := Function.update s.object q process } where
  toWatched := attending.toWatched.update q process same
  left := attending.left
  present := attending.present
  alive := (sameSpace_update s.object q process same p).alive.mpr attending.alive
  root := (sameSpace_update s.object q process same p).pageTable.trans attending.root
  trapframe := (sameSpace_update s.object q process same p).trapframe.trans attending.trapframe
  current := attending.current

theorem wpr_assignProcess_watched (placed : Placed plat) (whole : WholePages K)
    (watched : Watched plat K D origin s) (name image : List UInt8) (good : GoodImage plat image) :
    wpr (assignProcess plat name image)
      (fun child t => child = s.pid + 1 ∧ Made plat s t ∧ Watched plat K D origin t)
      (fun _ t => Made plat s t ∧ Watched plat K D origin t) Any s := by
  rcases watched.isolated with ⟨free, live, owner, isolated, kernel⟩
  have made : ∀ t, (∃ root trapframe, Attached plat
      (s.nursery root trapframe (Isolated.foreign live owner (s.pid + 1))) ∅ t) →
      Provided plat t.memory (s.pid + 1) (t.object (s.pid + 1)) →
      Made plat s t ∧ Watched plat K D origin t := by
    intro t attached child
    rcases attached with ⟨root, trapframe, attached⟩
    have made := made_of_attached (isolated.covers (s.pid + 1)) attached
    have reserved := Reserved.of_attached placed whole isolated kernel rfl rfl rfl
      (fun q known other => (List.mem_cons.mp known).resolve_left other) attached
    refine ⟨made, ⟨reserved.1, fun x member => (reserved.2 x member).trans (watched.kernel x member), ?_⟩⟩
    intro q present other alive
    by_cases here : q = s.pid + 1
    · rw [here]
      exact child
    · rw [made.processes] at present
      have old := (List.mem_cons.mp present).resolve_left here
      have untouched := made.undisturbed q old here
      have oldAlive := untouched.same.alive.mp alive
      exact untouched.provided oldAlive (watched.provided q old other oldAlive)
  have fresh : ∀ t : GlobalState, (t.object (s.pid + 1)).context = .prepareFirstTimeExecution →
      (t.object (s.pid + 1)).resumeFrame = (t.object (s.pid + 1)).trapframe := by
    intro t context
    rw [Process.resumeFrame, context]
  have intact := watched.separated.allocatorIntact
  apply wpr_mono (wpr_and (wpr_assignProcess_attached placed watched.separated isolated name image good)
    (wpr_assignProcess_equipped placed intact name good))
  · rintro child t ⟨⟨isChild, attached⟩, -, equipped, context, -⟩
    exact ⟨isChild, made t attached ⟨fresh t context, Or.inr equipped⟩⟩
  · rintro e t ⟨attached, unequipped, context⟩
    exact made t attached ⟨fresh t context, Or.inl unequipped⟩
  · exact fun _ _ => trivial

theorem Attending.made (attending : Attending plat K D p root tf origin s) (made : Made plat s t)
    (watched : Watched plat K D origin t) (new : s.pid + 1 ∉ s.processes) :
    Attending plat K D p root tf origin t := by
  have old : p ≠ s.pid + 1 := by
    rintro rfl
    exact new attending.present
  have same := (made.others p old).toSameSpace
  refine ⟨watched, attending.left, ?_, same.alive.mpr attending.alive, same.pageTable.trans attending.root,
    same.trapframe.trans attending.trapframe, made.currentProcess.trans attending.current⟩
  rw [made.processes]
  exact List.mem_cons_of_mem _ attending.present

end Attending

section Calls

variable {plat : Platform} {K D : Set Nat} {p root tf : Nat} {origin s : GlobalState}

theorem wpr_spawn_attending (placed : Placed plat) (whole : WholePages K)
    (attending : Attending plat K D p root tf origin s) (new : s.pid + 1 ∉ s.processes)
    (nameStart nameLen start len : Nat) (wait : Bool)
    (good : ∀ name image s₁ s₂,
      UserMemorySlice.read ⟨nameStart, root, nameLen⟩ plat (translate plat) s = .ok (name, s₁) →
      UserMemorySlice.read ⟨start, root, len⟩ plat (translate plat) s₁ = .ok (image, s₂) →
      GoodImage plat image) :
    wpr (spawn plat p nameStart nameLen start len wait root)
      (fun _ t => Attending plat K D p root tf origin t) (fun _ t => Attending plat K D p root tf origin t)
      Any s := by
  rw [spawn]
  simp only [wpr_bind, wpr_lift]
  apply wp_mono_run (wp_sliceRead _)
  case stops => exact fun _ h => h
  intro name s₁ readName same₁
  apply wp_liftRust_any
  intro name' _
  apply wp_mono_run (wp_sliceRead _)
  case stops => exact fun _ h => h
  intro image s₂ readImage same₂
  rw [same₂, same₁]
  apply wpr_weaken (wpr_assignProcess_watched placed whole attending.toWatched name' image
    (good name image s₁ s₂ readName readImage))
  case fails => exact fun _ t done => attending.made done.1 done.2 new
  intro child s₃ done
  have attending₃ := attending.made done.2.1 done.2.2 new
  rw [setParent]
  apply wp_withLock_any
  rw [wp_modifyObject]
  have linked := attending₃.update child { s₃.object child with parent := some p } ⟨rfl, rfl, rfl, Iff.rfl⟩
  simp only [List.erase_cons_head]
  apply wpr_guarded_any
  rw [wpr_bind, wpr_lift]
  apply wp_withLock_any
  rw [wp_bind, wp_getObject, wp_pure, wpr_bind, wpr_lift, wp_modifyObject, wpr_pure]
  simp only [List.erase_cons_head]
  apply linked.update p
  refine ⟨rfl, rfl, rfl, iff_of_true ?_ linked.alive⟩
  intro r same
  unfold adoptChild at same
  simp only at same
  split at same
  · cases same
  · exact linked.alive r same

theorem wp_perform_watched (placed : Placed plat) (whole : WholePages K)
    (attending : Attending plat K D p root tf origin s) (new : s.pid + 1 ∉ s.processes) (request : Syscall)
    (good : ∀ nameStart nameLen start len wait name image s₁ s₂,
      request = .spawn nameStart nameLen start len wait →
      UserMemorySlice.read ⟨nameStart, root, nameLen⟩ plat (translate plat) s = .ok (name, s₁) →
      UserMemorySlice.read ⟨start, root, len⟩ plat (translate plat) s₁ = .ok (image, s₂) →
      GoodImage plat image) :
    wp (perform plat p tf root request) (fun _ t => Watched plat K D origin t) Any s := by
  have answered : ∀ t, Attending plat K D p root tf origin t → ∀ result,
      wp (writeResult plat root result >>= fun _ => pure true)
        (fun _ u => Watched plat K D origin u) Any t := by
    intro t attendingT result
    have writes : Preserves (Attending plat K D p root tf origin) (writeResult plat root result) := by
      apply preserves_attending placed whole
      intro scene _ isRoot _ _
      rw [← isRoot]
      exact preserves_writeResult result
    rw [wp_bind]
    apply wp_weaken (writes t attendingT)
    intro _ u kept
    rw [wp_pure]
    exact kept.toWatched
  cases request with
  | wantMemory size =>
      have grants : Preserves (Attending plat K D p root tf origin) (wantMemory size).run :=
        preserves_attending placed whole fun _ isPid _ _ current =>
          preserves_wantMemory (by rw [isPid, current]) size
      rw [perform, wp_bind]
      apply wp_weaken (grants s attending)
      exact fun result t kept => answered t kept _
  | write start len =>
      rw [perform, wp_bind]
      apply wp_weaken (wp_sliceRead _)
      intro bytes t same
      rw [wp_bind]
      apply wp_liftRust_any
      intro text _
      rw [wp_bind, same]
      apply wp_weaken (preserves_consoleWrite attending_stable text s attending)
      exact fun _ u kept => answered u kept _
  | readChar =>
      rw [perform, wp_bind]
      apply wp_weaken (preserves_dequeueInput attending_stable s attending)
      exact fun char t kept => answered t kept _
  | exit status =>
      rcases attending.isolated with ⟨free, live, owner, isolated, kernel⟩
      have attached := isolated.attach attending.contexts attending.present attending.alive
      rw [perform, wp_bind]
      apply wp_weaken (wp_exit_separated attached attending.current _)
      intro _ t done
      rcases done with ⟨-, U, world⟩
      have gone : ¬ Alive (t.object p) := fun alive => (world.2.alive.mp alive).elim
      have reserved := Reserved.of_world placed whole isolated kernel rfl rfl rfl
        (fun q known _ => known) world fun _ _ _ _ alive => absurd alive gone
      have undisturbed : Undisturbed p s t :=
        world.undisturbed (isolated.covers p) rfl rfl fun _ known => known
      rw [wp_pure]
      exact attending.toWatched.after attending.left reserved world.2.processes undisturbed
  | spawn nameStart nameLen start len wait =>
      have spawned := wpr_spawn_attending placed whole attending new nameStart nameLen start len wait
        (fun name image s₁ s₂ => good _ _ _ _ _ name image s₁ s₂ rfl)
      unfold wpr at spawned
      rw [perform, wp_bind]
      apply wp_weaken spawned
      intro r t done
      apply answered
      cases r with
      | ok child => exact done
      | error e => exact done
  | yield =>
      have yields : Preserves (Attending plat K D p root tf origin) (yieldCpu (.yieldInHandle tf root)) := by
        apply preserves_attending placed whole
        intro scene isPid isRoot _ isCurrent
        apply preserves_yieldCpu
        · intro tf' pt same
          rw [isRoot]
          exact (Context.yieldInHandle.inj same).2.symm
        · rw [isPid]
          exact isCurrent
      rw [perform, wp_bind]
      apply wp_weaken (yields s attending)
      intro _ t kept
      rw [wp_pure]
      exact kept.toWatched
  | shutdown =>
      rw [perform, wp_def]
      trivial

theorem wp_handle_watched (placed : Placed plat) (whole : WholePages K)
    (attending : Attending plat K D p root tf origin s) (new : s.pid + 1 ∉ s.processes)
    (good : ∀ image, ReadsImage plat s image → GoodImage plat image) :
    wp (handle plat) (fun _ t => Watched plat K D origin t) Any s := by
  rcases attending.root with rfl
  rcases attending.trapframe with rfl
  have advances : Preserves (Attending plat K D p (s.object p).pageTable (s.object p).trapframe origin)
      (handleSyscall (s.object p).trapframe) := by
    apply preserves_attending placed whole
    intro scene _ _ isFrame _
    rw [← isFrame]
    exact preserves_handleSyscall
  apply wp_handle_any attending.current (advances s attending)
  intro s₁ request attending₁ pid processes reads
  apply wp_perform_watched placed whole attending₁
  · rw [pid, processes]
    exact new
  · intro nameStart nameLen start len wait name image t₁ t₂ isSpawn readName readImage
    exact good image (reads _ _ _ _ _ _ _ _ _ isSpawn readName readImage)

end Calls

section Traps

variable {plat : Platform} {K D : Set Nat} {p root tf : Nat} {origin s : GlobalState}

theorem wp_handleException_watched (placed : Placed plat) (whole : WholePages K)
    (attending : Attending plat K D p root tf origin s) (idle : s.held = []) (info : TrapInfo) :
    wp (handleException plat p info) (fun _ t => Watched plat K D origin t) Any s := by
  apply wp_handleException_mapped (fun _ _ => trivial) plat (Or.inr trivial) p idle attending.current
  intro t _ ran _
  have grows : Preserves (Attending plat K D p root tf origin) (growHeap plat p info.stval).run := by
    apply preserves_attending placed whole
    intro scene isPid _ _ _
    rw [← isPid]
    exact preserves_growHeap placed info.stval
  have locked : Attending plat K D p root tf origin { s with held := .process p :: s.held } :=
    attending_stable s _ ⟨rfl, rfl, rfl, rfl, rfl⟩ attending
  have grown := grows.returned locked ran
  have raised := grown.update p { t.object p with currentlyUnmappedStart := (t.object p).heapEnd }
    ⟨rfl, rfl, rfl, Iff.rfl⟩
  apply watched_stable _ _ ?_ raised.toWatched
  exact ⟨rfl, rfl, rfl, rfl, rfl⟩

theorem wp_dispatch_watched (placed : Placed plat) (whole : WholePages K)
    (attending : Attending plat K D p root tf origin s) (idle : s.held = [])
    (new : s.pid + 1 ∉ s.processes) (info : TrapInfo)
    (good : info.isSyscall = true → ∀ image, ReadsImage plat s image → GoodImage plat image) :
    wp (dispatch plat p tf info) (fun _ t => Watched plat K D origin t) Any s := by
  unfold dispatch
  split
  · have yields : Preserves (Attending plat K D p root tf origin) (yieldCpu (.yieldInUserTrap tf)) := by
      apply preserves_attending placed whole
      intro scene isPid _ _ isCurrent
      apply preserves_yieldCpu
      · intro tf' pt impossible
        cases impossible
      · rw [isPid]
        exact isCurrent
    rw [wp_bind]
    apply wp_weaken (yields s attending)
    intro _ t kept
    rw [wp_pure]
    exact kept.toWatched
  · split
    · rw [wp_bind]
      apply wp_weaken (preserves_handleExternalInterrupt watched_stable info s attending.toWatched)
      intro _ t kept
      rw [wp_pure]
      exact kept
    · split
      · exact wp_handleException_watched placed whole attending idle info
      · split
        next isCall => exact wp_handle_watched placed whole attending new (good isCall)
        next =>
          rw [wp_pure]
          exact attending.toWatched

theorem wp_userTrap_watched (placed : Placed plat) (whole : WholePages K)
    (attending : Attending plat K D p root tf origin s) (idle : s.held = [])
    (new : s.pid + 1 ∉ s.processes) (info : TrapInfo)
    (good : info.isSyscall = true → ∀ image, ReadsImage plat s image → GoodImage plat image) :
    wp (userTrap plat info) (fun _ t => Watched plat K D origin t) Any s := by
  apply wp_userTrap_any watched_stable attending.current
  rw [attending.trapframe]
  exact wp_dispatch_watched placed whole attending idle new info good

theorem wp_switchedTo_watched (placed : Placed plat) (whole : WholePages K)
    (attending : Attending plat K D p root tf origin s) :
    wp (switchedTo plat) (fun _ t => Watched plat K D origin t) Any s := by
  rw [wp_def, switchedTo_of_current attending.current, ← wp_def]
  cases isContext : (s.object p).context with
  | unset =>
      rw [wp_def]
      trivial
  | prepareFirstTimeExecution =>
      have prepares : Preserves (Watched plat K D origin) prepareFirstTimeExecution := by
        apply Preserves.bind
        · apply (preserves_getCurrentProcess watched_stable).bind
          intro found
          exact preserves_liftRust _
        · intro process
          apply (preserves_withLock watched_stable _ (Preserves.pure ())).bind
          intro _
          exact preserves_returnToUserMode watched_stable
      exact prepares s attending.toWatched
  | yieldInUserTrap trapframe =>
      exact preserves_returnToUserMode watched_stable s attending.toWatched
  | yieldInHandle trapframe pageTable =>
      have same : pageTable = root :=
        (attending.contexts p attending.present trapframe pageTable isContext).trans attending.root
      have writes : Preserves (Attending plat K D p root tf origin) (writeResult plat pageTable .yield) := by
        apply preserves_attending placed whole
        intro scene _ isRoot _ _
        rw [same, ← isRoot]
        exact preserves_writeResult .yield
      rw [goOn, wp_bind]
      apply wp_weaken (writes s attending)
      intro _ t kept
      exact preserves_returnToUserMode watched_stable t kept.toWatched
  | exit =>
      rw [wp_def]
      trivial

theorem wp_schedule_watched (watched : Watched plat K D origin s) (idle : s.held = []) :
    wp schedule (fun _ t => Watched plat K D origin t) Any s := by
  rw [schedule, wp_bind]
  have found := @wp_findReadyProcess Any (fun _ _ => trivial) s idle
  apply wp_mono (wp_and (preserves_findReadyProcess watched_stable s watched) found)
  case stops => exact fun _ _ => trivial
  intro r t done
  rcases done with ⟨kept, ⟨pids, rotated⟩, ready⟩
  cases r with
  | none =>
      rw [wp_pure]
      exact kept
  | some pid =>
      have isReady : (t.object pid).processState = .ready := by
        have states := congrFun (congrArg View.state rotated) pid
        exact states.trans (ready pid rfl).2
      have idleT : t.held = [] := (congrArg View.held rotated).trans idle
      simp only [wp_bind]
      have same := @wp_getProcess Any (fun _ _ => trivial) t pid idleT
      apply wp_weaken same
      intro r u looked
      rcases looked with ⟨rfl, isPid⟩
      apply wp_liftRust_any
      intro process unwrapped
      have known : r = some process := (unwrap_eq_ok _ _).mp unwrapped
      have isProcess := isPid process known
      subst isProcess
      apply wp_withLock_any
      rw [wp_modifyObject]
      rw [GlobalState.setCurrentProcess]
      apply wp_withLock_any
      rw [wp_def]
      simp only [List.erase_cons_head, wp_pure]
      have runs : SameSpace { u.object process with processState := .running } (u.object process) := by
        refine ⟨rfl, rfl, rfl, ?_⟩
        apply iff_of_true
        · intro r impossible
          cases impossible
        · intro r impossible
          rw [isReady] at impossible
          cases impossible
      have updated := kept.update process _ runs
      exact ⟨⟨updated.isolated, updated.contexts⟩, updated.kernel, updated.provided⟩

theorem wp_userStore_watched (placed : Placed plat) (whole : WholePages K)
    (attending : Attending plat K D p root tf origin s) (va : Nat) (byte : UInt8) :
    wp (userStore va byte) (fun _ t => Watched plat K D origin t) Any s := by
  rcases attending.isolated with ⟨free, live, owner, isolated, kernel⟩
  have attached := isolated.attach attending.contexts attending.present attending.alive
  rw [wp_def, userStore_of_current attending.current]
  cases leaf : leafAt s.memory (s.object p).pageTable va with
  | none => exact attending.toWatched
  | some entry =>
      by_cases permitted : entry.userModeAccessible ∧ entry.writeable
      · simp only [if_pos permitted]
        have stored : Attached plat (s.scene p (Isolated.foreign live owner p))
            (∅ ∪ Set.Ico entry.getPhysicalAddress (entry.getPhysicalAddress + pageSize))
            { s with
              memory := s.memory.write (entry.getPhysicalAddress + va % pageSize) 1 byte.toNat } := by
          apply (attached.include_frame leaf permitted.1).write
          intro x different
          left
          right
          by_contra outside
          apply different
          apply if_neg
          intro range
          apply outside
          have low : va % pageSize < pageSize := Nat.mod_lt _ (by decide)
          exact ⟨by omega, by omega⟩
        have reserved := Reserved.of_attached placed whole isolated kernel rfl rfl rfl
          (fun _ known _ => known) stored
        exact attending.toWatched.after attending.left reserved rfl
          (stored.undisturbed (isolated.covers p) rfl rfl fun _ known => known)
      · simp only [if_neg permitted]
        exact attending.toWatched

theorem wp_saveRegisters_watched (placed : Placed plat) (whole : WholePages K)
    (attending : Attending plat K D p root tf origin s) (registers : List UInt8) (sepc : Nat) :
    wp (saveRegisters registers sepc) (fun _ t => Watched plat K D origin t) Any s := by
  rcases attending.isolated with ⟨free, live, owner, isolated, kernel⟩
  have attached := isolated.attach attending.contexts attending.present attending.alive
  rw [wp_def, saveRegisters_of_current attending.current]
  have saved := attached.saves registers sepc
  have reserved := Reserved.of_attached placed whole isolated kernel rfl rfl rfl
    (fun _ known _ => known) saved
  exact attending.toWatched.after attending.left reserved rfl
    (saved.undisturbed (isolated.covers p) rfl rfl fun _ known => known)

end Traps

namespace Machine

variable {plat : Platform} {K D : Set Nat} {m m' : Machine}

theorem wp_respond_watched {s : GlobalState} (placed : Placed plat) (whole : WholePages K) (mode : Mode)
    (orderly : View.Orderly mode (view s)) (watched : Watched plat K D s s)
    (served : ∀ p, WorksFor ⟨s, mode⟩ p → p ∈ D) (event : Event) (operation : Kernel Mode)
    (responds : respond plat mode event = some operation)
    (good : ∀ image, Loads plat ⟨s, mode⟩ event image → GoodImage plat image) :
    wp operation (fun _ t => Watched plat K D s t) Any s := by
  have idle : s.held = [] := orderly.held
  have new := not_present_of_orderly orderly
  have attending : ∀ _ : mode ≠ .scheduler, ∃ p root tf, Attending plat K D p root tf s s := by
    intro busy
    rcases working_of_orderly orderly watched.separated busy with ⟨p, root, tf, working⟩
    exact ⟨p, root, tf, watched, served p ⟨busy, working.current⟩, working.present, working.alive,
      working.root, working.trapframe, working.current⟩
  unfold respond at responds
  split at responds
  next name image =>
    cases responds
    have assigned := wpr_assignProcess_watched placed whole watched name image
      (good image (Or.inl ⟨rfl, name, rfl⟩))
    unfold wpr at assigned
    rw [wp_bind]
    apply wp_weaken assigned
    intro r t done
    rw [wp_pure]
    cases r with
    | ok child => exact done.2.2
    | error e => exact done.2
  next =>
    cases responds
    exact wp_schedule_watched watched idle
  next info =>
    cases responds
    have stays : Preserves (Watched plat K D s) (supervisorTrap info) := by
      unfold supervisorTrap
      apply Preserves.ite
      · exact Preserves.pure _
      · apply Preserves.ite
        · apply (preserves_handleExternalInterrupt watched_stable info).bind
          intro _
          exact Preserves.pure _
        · exact Preserves.ite _ (preserves_halt _) (Preserves.pure _)
    exact stays s watched
  next =>
    cases responds
    rcases attending (by decide) with ⟨p, root, tf, attending⟩
    exact wp_switchedTo_watched placed whole attending
  next registers sepc =>
    cases responds
    rcases attending (by decide) with ⟨p, root, tf, attending⟩
    exact wp_saveRegisters_watched placed whole attending registers sepc
  next info =>
    cases responds
    rcases attending (by decide) with ⟨p, root, tf, attending⟩
    apply wp_userTrap_watched placed whole attending idle new info
    intro isCall image reads
    exact good image (Or.inr ⟨rfl, info, rfl, isCall, reads⟩)
  next va byte =>
    cases responds
    rcases attending (by decide) with ⟨p, root, tf, attending⟩
    exact wp_userStore_watched placed whole attending va byte
  next => cases responds

theorem watched_of_steps (placed : Placed plat) (whole : WholePages K) (orderly : m.Orderly)
    (watched : Watched plat K D m.kernel m.kernel) (served : ∀ p, m.WorksFor p → p ∈ D) {event : Event}
    (good : ∀ image, m.Loads plat event image → GoodImage plat image)
    (taken : Steps plat m event m') : Watched plat K D m.kernel m'.kernel := by
  rcases taken with ⟨operation, responds, ended⟩
  have spec := wp_respond_watched placed whole m.mode orderly watched served event operation responds good
  have done := wp_of_returns spec ended
  exact done

end Machine

end Jangri
