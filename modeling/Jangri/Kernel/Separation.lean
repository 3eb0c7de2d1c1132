import Jangri.Allocator.Runs
import Jangri.Kernel.Runs
import Jangri.Kernel.Serving

namespace Jangri

open Lib

/-- Address spaces are separate, and all processes but `p` as they were in `origin`. Of `p` only the
trap frame has stayed where it was. -/
structure Settled (plat : Platform) (p : Nat) (origin s : GlobalState) : Prop where
  separated : Separated plat s
  undisturbed : Undisturbed p origin s
  frame : p ∈ origin.processes → (s.object p).trapframe = (origin.object p).trapframe

structure Working (plat : Platform) (p root tf : Nat) (origin s : GlobalState) : Prop
    extends Settled plat p origin s where
  present : p ∈ s.processes
  alive : Alive (s.object p)
  root : (s.object p).pageTable = root
  trapframe : (s.object p).trapframe = tf
  current : s.currentProcess = some p

section Working

variable {plat : Platform} {α : Type} {p root tf : Nat} {origin s t : GlobalState}

theorem undisturbed_stable : Stable (Undisturbed p origin) := by
  intro s t same undisturbed q present other
  have untouched := undisturbed q present other
  refine ⟨?_, ?_, ?_, ?_, ?_⟩
  · rw [same.processes]
    exact untouched.present
  · rw [same.object]
    exact untouched.same
  · rw [same.memory]
    exact untouched.frame
  · rw [same.memory]
    exact untouched.leaves
  · rw [same.memory]
    exact untouched.users

theorem settled_stable : Stable (Settled plat p origin) := by
  intro s t same settled
  refine ⟨separated_stable s t same settled.separated,
    undisturbed_stable s t same settled.undisturbed, ?_⟩
  rw [same.object]
  exact settled.frame

theorem working_stable : Stable (Working plat p root tf origin) := by
  intro s t same working
  refine ⟨settled_stable s t same working.toSettled, ?_, ?_, ?_, ?_, ?_⟩
  · rw [same.processes]
    exact working.present
  · rw [same.object]
    exact working.alive
  · rw [same.object]
    exact working.root
  · rw [same.object]
    exact working.trapframe
  · rw [same.currentProcess]
    exact working.current

theorem preserves_working {x : Kernel α}
    (keeps : ∀ scene : Scene, scene.pid = p → scene.root = root → scene.trapframe = tf →
      scene.current = some p → Preserves (Attached plat scene ∅) x) :
    Preserves (Working plat p root tf origin) x := by
  intro s working
  rcases working.separated.attach working.present working.alive with ⟨foreign, covers, attached⟩
  apply wp_weaken (keeps _ rfl working.root working.trapframe working.current s attached)
  intro _ t kept
  have onstage := kept.onstage
  have present : p ∈ t.processes := by
    rw [onstage.processes]
    exact onstage.present
  have undisturbed : Undisturbed p s t := kept.undisturbed covers rfl rfl fun _ known => known
  have frame : p ∈ origin.processes → (t.object p).trapframe = (origin.object p).trapframe :=
    fun known => onstage.trapframe.trans (working.frame known)
  exact ⟨⟨kept.detach, working.undisturbed.trans undisturbed, frame⟩, present, onstage.alive.mpr trivial,
    onstage.root.trans working.root, onstage.trapframe.trans working.trapframe,
    onstage.current.trans working.current⟩

theorem sameSpace_update (object : Nat → Process) (q : Nat) (process : Process)
    (same : SameSpace process (object q)) (r : Nat) :
    SameSpace (Function.update object q process r) (object r) := by
  by_cases here : r = q
  · rw [here, Function.update_self]
    exact same
  · rw [Function.update_of_ne here]
    exact SameSpace.refl _

theorem Separated.same (separated : Separated plat s) (object : Nat → Process)
    (same : ∀ q, SameSpace (object q) (s.object q)) :
    Separated plat { s with object := object } := by
  rcases separated.isolated with ⟨free, live, owner, isolated⟩
  refine ⟨⟨free, live, owner, isolated.wf, isolated.start, ?_, ?_⟩, ?_⟩
  · intro q present
    change Holds live owner (.trapframe q) (object q).trapframe pageSize
    rw [(same q).trapframe]
    exact isolated.frames q present
  · intro q present alive
    change Space s.memory live owner q (object q).pageTable
    rw [(same q).pageTable]
    exact isolated.spaces q present ((same q).alive.mp alive)
  · intro q present
    change ContextFits (object q).context (object q).pageTable
    rw [(same q).context, (same q).pageTable]
    exact separated.contexts q present

theorem Undisturbed.update (undisturbed : Undisturbed p origin s) (q : Nat) (process : Process)
    (heap : q ≠ p → SameProcess process (s.object q)) :
    Undisturbed p origin { s with object := Function.update s.object q process } := by
  intro r present other
  have untouched := undisturbed r present other
  have same : SameProcess (Function.update s.object q process r) (s.object r) := by
    by_cases here : r = q
    · rw [here, Function.update_self]
      rw [here] at other
      exact heap other
    · rw [Function.update_of_ne here]
      exact SameProcess.refl _
  exact ⟨untouched.present, same.trans untouched.same, untouched.frame, untouched.leaves,
    untouched.users⟩

theorem Settled.update (settled : Settled plat p origin s) (q : Nat) (process : Process)
    (same : SameSpace process (s.object q)) (heap : q ≠ p → SameProcess process (s.object q)) :
    Settled plat p origin { s with object := Function.update s.object q process } where
  separated := settled.separated.same _ (sameSpace_update s.object q process same)
  undisturbed := settled.undisturbed.update q process heap
  frame := fun known =>
    (sameSpace_update s.object q process same p).trapframe.trans (settled.frame known)

theorem Working.update (working : Working plat p root tf origin s) (q : Nat) (process : Process)
    (same : SameSpace process (s.object q)) (heap : q ≠ p → SameProcess process (s.object q)) :
    Working plat p root tf origin { s with object := Function.update s.object q process } where
  toSettled := working.toSettled.update q process same heap
  present := working.present
  alive := (sameSpace_update s.object q process same p).alive.mpr working.alive
  root := (sameSpace_update s.object q process same p).pageTable.trans working.root
  trapframe := (sameSpace_update s.object q process same p).trapframe.trans working.trapframe
  current := working.current

theorem Made.settle (made : Made plat s t) (settled : Settled plat p origin s)
    (new : s.pid + 1 ∉ s.processes) (stranger : p ∈ origin.processes → p ≠ s.pid + 1) :
    Settled plat p origin t where
  separated := made.separated
  undisturbed := by
    apply settled.undisturbed.trans
    intro q present _
    apply made.undisturbed q present
    rintro rfl
    exact new present
  frame := fun known => (made.others p (stranger known)).trapframe.trans (settled.frame known)

theorem Working.untouched_made (working : Working plat p root tf origin s) (made : Made plat s t)
    (new : s.pid + 1 ∉ s.processes) : Untouched s t p := by
  apply made.undisturbed p working.present
  rintro rfl
  exact new working.present

theorem Untouched.leaf (untouched : Untouched s t p) (working : Working plat p root tf origin s)
    (va : Nat) : leafAt t.memory root va = leafAt s.memory root va := by
  have same := untouched.leaves working.alive va
  rw [working.root] at same
  exact same

theorem Untouched.update (untouched : Untouched origin s p) (q : Nat) (process : Process)
    (same : SameProcess process (s.object q)) :
    Untouched origin { s with object := Function.update s.object q process } p := by
  refine ⟨untouched.present, ?_, untouched.frame, untouched.leaves, untouched.users⟩
  apply SameProcess.trans _ untouched.same
  by_cases here : p = q
  · rw [here]
    simp only [Function.update_self]
    exact same
  · simp only [Function.update_of_ne here]
    exact SameProcess.refl _

theorem Working.made (working : Working plat p root tf origin s) (made : Made plat s t)
    (new : s.pid + 1 ∉ s.processes) : Working plat p root tf origin t := by
  have old : p ≠ s.pid + 1 := by
    rintro rfl
    exact new working.present
  have same := (made.others p old).toSameSpace
  refine ⟨made.settle working.toSettled new fun _ => old, ?_, same.alive.mpr working.alive,
    same.pageTable.trans working.root, same.trapframe.trans working.trapframe,
    made.currentProcess.trans working.current⟩
  rw [made.processes]
  exact List.mem_cons_of_mem _ working.present

end Working

def ReadsImage (plat : Platform) (s : GlobalState) (image : List UInt8) : Prop :=
  ∃ p nameStart nameLen start len wait name s₁ s₂ s₃ s₄, s.currentProcess = some p ∧
    handleSyscall (s.object p).trapframe s = .ok ((), s₁) ∧
    readRequest plat (s.object p).pageTable s₁ =
      .ok (.syscall (.spawn nameStart nameLen start len wait), s₂) ∧
    UserMemorySlice.read ⟨nameStart, (s.object p).pageTable, nameLen⟩ plat (translate plat) s₂ =
      .ok (name, s₃) ∧
    UserMemorySlice.read ⟨start, (s.object p).pageTable, len⟩ plat (translate plat) s₃ = .ok (image, s₄)

section Calls

variable {plat : Platform} {p root tf : Nat} {origin s : GlobalState}

theorem wpr_spawn (placed : Placed plat) (working : Working plat p root tf origin s)
    (new : s.pid + 1 ∉ s.processes) (nameStart nameLen start len : Nat) (wait : Bool)
    (good : ∀ name image s₁ s₂,
      UserMemorySlice.read ⟨nameStart, root, nameLen⟩ plat (translate plat) s = .ok (name, s₁) →
      UserMemorySlice.read ⟨start, root, len⟩ plat (translate plat) s₁ = .ok (image, s₂) →
      GoodImage plat image) :
    wpr (spawn plat p nameStart nameLen start len wait root)
      (fun _ t => Working plat p root tf origin t ∧ Untouched s t p)
      (fun _ t => Working plat p root tf origin t ∧ Untouched s t p) Any s := by
  rw [spawn]
  simp only [wpr_bind, wpr_lift]
  apply wp_mono_run (wp_sliceRead _)
  case stops => exact fun _ h => h
  intro name s₁ readName same₁
  apply wp_liftRust_any
  intro name' _
  apply wp_mono_run (wp_sliceRead _)
  case stops => exact fun _ h => h
  intro image s₂ readImage same₂
  rw [same₂, same₁]
  apply wpr_weaken (wpr_assignProcess placed working.separated name' image
    (good name image s₁ s₂ readName readImage))
  case fails => exact fun _ t made => ⟨working.made made new, working.untouched_made made new⟩
  intro child s₃ done
  have working₃ := working.made done.2 new
  rw [setParent]
  apply wp_withLock_any
  rw [wp_modifyObject]
  have linked := working₃.update child { s₃.object child with parent := some p }
    ⟨rfl, rfl, rfl, Iff.rfl⟩ fun _ => ⟨⟨rfl, rfl, rfl, Iff.rfl⟩, rfl, rfl, rfl⟩
  have untouched := (working.untouched_made done.2 new).update child
    { s₃.object child with parent := some p } ⟨⟨rfl, rfl, rfl, Iff.rfl⟩, rfl, rfl, rfl⟩
  simp only [List.erase_cons_head]
  apply wpr_guarded_any
  rw [wpr_bind, wpr_lift]
  apply wp_withLock_any
  rw [wp_bind, wp_getObject, wp_pure, wpr_bind, wpr_lift, wp_modifyObject, wpr_pure]
  simp only [List.erase_cons_head]
  have adopts : ∀ process childPid, Alive process →
      SameProcess (adoptChild child childPid wait process) process := by
    intro process childPid alive
    refine ⟨⟨rfl, rfl, rfl, iff_of_true ?_ alive⟩, rfl, rfl, rfl⟩
    intro r same
    unfold adoptChild at same
    simp only at same
    split at same
    · cases same
    · exact alive r same
  have same := adopts _ (s₃.object child).id linked.alive
  refine ⟨?_, ?_⟩
  · exact linked.update p _ (adopts _ _ linked.alive).toSameSpace fun other => absurd rfl other
  · exact untouched.update p _ (adopts _ _ linked.alive)

theorem wp_perform_separated (placed : Placed plat) (working : Working plat p root tf origin s)
    (new : s.pid + 1 ∉ s.processes) (request : Syscall)
    (good : ∀ nameStart nameLen start len wait name image s₁ s₂,
      request = .spawn nameStart nameLen start len wait →
      UserMemorySlice.read ⟨nameStart, root, nameLen⟩ plat (translate plat) s = .ok (name, s₁) →
      UserMemorySlice.read ⟨start, root, len⟩ plat (translate plat) s₁ = .ok (image, s₂) →
      GoodImage plat image) :
    wp (perform plat p tf root request) (fun _ t => Settled plat p origin t) Any s := by
  have answered : ∀ t, Working plat p root tf origin t → ∀ result,
      wp (writeResult plat root result >>= fun _ => pure true)
        (fun _ u => Settled plat p origin u) Any t := by
    intro t workingT result
    have writes : Preserves (Working plat p root tf origin) (writeResult plat root result) := by
      apply preserves_working
      intro scene _ isRoot _ _
      rw [← isRoot]
      exact preserves_writeResult result
    rw [wp_bind]
    apply wp_weaken (writes t workingT)
    intro _ u kept
    rw [wp_pure]
    exact kept.toSettled
  cases request with
  | wantMemory size =>
      have grants : Preserves (Working plat p root tf origin) (wantMemory size).run :=
        preserves_working fun _ isPid _ _ current => preserves_wantMemory (by rw [isPid, current]) size
      rw [perform, wp_bind]
      apply wp_weaken (grants s working)
      exact fun result t kept => answered t kept _
  | write start len =>
      rw [perform, wp_bind]
      apply wp_weaken (wp_sliceRead _)
      intro bytes t same
      rw [wp_bind]
      apply wp_liftRust_any
      intro text _
      rw [wp_bind, same]
      apply wp_weaken (preserves_consoleWrite working_stable text s working)
      exact fun _ u kept => answered u kept _
  | readChar =>
      rw [perform, wp_bind]
      apply wp_weaken (preserves_dequeueInput working_stable s working)
      exact fun char t kept => answered t kept _
  | exit status =>
      rcases working.separated.attach working.present working.alive with ⟨foreign, covers, attached⟩
      rw [perform, wp_bind]
      apply wp_weaken (wp_exit_separated attached working.current _)
      intro _ t done
      rcases done with ⟨separated, U, world⟩
      have undisturbed : Undisturbed p s t := world.undisturbed covers rfl rfl fun _ known => known
      rw [wp_pure]
      exact ⟨separated, working.undisturbed.trans undisturbed,
        fun known => world.2.trapframe.trans (working.frame known)⟩
  | spawn nameStart nameLen start len wait =>
      have spawned := wpr_spawn placed working new nameStart nameLen start len wait
        (fun name image s₁ s₂ => good _ _ _ _ _ name image s₁ s₂ rfl)
      unfold wpr at spawned
      rw [perform, wp_bind]
      apply wp_weaken spawned
      intro r t done
      apply answered
      cases r with
      | ok child => exact done.1
      | error e => exact done.1
  | yield =>
      have yields : Preserves (Working plat p root tf origin) (yieldCpu (.yieldInHandle tf root)) := by
        apply preserves_working
        intro scene isPid isRoot _ isCurrent
        apply preserves_yieldCpu
        · intro tf' pt same
          rw [isRoot]
          exact (Context.yieldInHandle.inj same).2.symm
        · rw [isPid]
          exact isCurrent
      rw [perform, wp_bind]
      apply wp_weaken (yields s working)
      intro _ t kept
      rw [wp_pure]
      exact kept.toSettled
  | shutdown =>
      rw [perform, wp_def]
      trivial

/-- Up to the request in the page `handle` does the same for every process; `pre` is what skipping the
`ecall` leaves. -/
theorem wp_handle_any {pre : GlobalState → Prop} {post : Bool → GlobalState → Prop}
    (current : s.currentProcess = some p)
    (advances : wp (handleSyscall (s.object p).trapframe) (fun _ t => pre t) Any s)
    (performs : ∀ s₁ request, pre s₁ → s₁.pid = s.pid → s₁.processes = s.processes →
      (∀ nameStart nameLen start len wait name image t₁ t₂,
        request = .spawn nameStart nameLen start len wait →
        UserMemorySlice.read ⟨nameStart, (s.object p).pageTable, nameLen⟩ plat (translate plat) s₁ =
          .ok (name, t₁) →
        UserMemorySlice.read ⟨start, (s.object p).pageTable, len⟩ plat (translate plat) t₁ =
          .ok (image, t₂) → ReadsImage plat s image) →
      wp (perform plat p (s.object p).trapframe (s.object p).pageTable request) post Any s₁) :
    wp (handle plat) post Any s := by
  rw [handle, wp_bind, wp_bind, GlobalState.getCurrentProcess]
  apply wp_withLock_any
  rw [wp_read]
  apply wp_liftRust_any
  intro caller found
  have isCaller : caller = p := by
    rw [current] at found
    cases found
    rfl
  subst isCaller
  simp only [List.erase_cons_head]
  rw [wp_bind]
  apply wp_withLock_any
  rw [wp_getObject]
  simp only [List.erase_cons_head]
  rw [wp_bind]
  have quiet : wp (handleSyscall (s.object caller).trapframe) (fun _ t => view t = view s) Any s :=
    @keeps_handleSyscall Any [] (fun _ _ => trivial) _ s fun _ needed => by cases needed
  apply wp_mono_run (wp_and advances quiet)
  case stops => exact fun _ _ => trivial
  intro _ s₁ advanced done
  rcases done with ⟨holds, viewed⟩
  have pid : s₁.pid = s.pid := congrArg View.pid viewed
  have processes : s₁.processes = s.processes := congrArg View.processes viewed
  rw [wp_bind]
  apply wp_mono_run (wp_requestRead _)
  case stops => exact fun _ h => h
  intro request s₂ read same
  cases request with
  | syscall request =>
      rw [same]
      apply performs s₁ request holds pid processes
      intro nameStart nameLen start len wait name image t₁ t₂ isSpawn readName readImage
      subst isSpawn
      rw [← same] at readName
      exact ⟨caller, nameStart, nameLen, start, len, wait, name, s₁, s₂, t₁, t₂, current,
        advanced, read, readName, readImage⟩
  | syscallResult result =>
      rw [wp_def]
      trivial
  | empty =>
      rw [wp_def]
      trivial

theorem wp_handle_separated (placed : Placed plat) (working : Working plat p root tf origin s)
    (new : s.pid + 1 ∉ s.processes) (good : ∀ image, ReadsImage plat s image → GoodImage plat image) :
    wp (handle plat) (fun _ t => Settled plat p origin t) Any s := by
  rcases working.root with rfl
  rcases working.trapframe with rfl
  have advances : Preserves (Working plat p (s.object p).pageTable (s.object p).trapframe origin)
      (handleSyscall (s.object p).trapframe) := by
    apply preserves_working
    intro scene _ _ isFrame _
    rw [← isFrame]
    exact preserves_handleSyscall
  apply wp_handle_any working.current (advances s working)
  intro s₁ request working₁ pid processes reads
  apply wp_perform_separated placed working₁
  · rw [pid, processes]
    exact new
  · intro nameStart nameLen start len wait name image t₁ t₂ isSpawn readName readImage
    exact good image (reads _ _ _ _ _ _ _ _ _ isSpawn readName readImage)

end Calls

section Traps

variable {plat : Platform} {p root tf : Nat} {origin s : GlobalState}

theorem wp_handleException_separated (placed : Placed plat) (working : Working plat p root tf origin s)
    (idle : s.held = []) (info : TrapInfo) :
    wp (handleException plat p info) (fun _ t => Settled plat p origin t) Any s := by
  apply wp_handleException_mapped (fun _ _ => trivial) plat (Or.inr trivial) p idle working.current
  intro t _ ran _
  have grows : Preserves (Working plat p root tf origin) (growHeap plat p info.stval).run := by
    apply preserves_working
    intro scene isPid _ _ _
    rw [← isPid]
    exact preserves_growHeap placed info.stval
  have locked : Working plat p root tf origin { s with held := .process p :: s.held } :=
    working_stable s _ ⟨rfl, rfl, rfl, rfl, rfl⟩ working
  have grown := grows.returned locked ran
  have raised := grown.update p { t.object p with currentlyUnmappedStart := (t.object p).heapEnd }
    ⟨rfl, rfl, rfl, Iff.rfl⟩ fun other => absurd rfl other
  apply settled_stable _ _ ?_ raised.toSettled
  exact ⟨rfl, rfl, rfl, rfl, rfl⟩

theorem wp_dispatch_separated (placed : Placed plat) (working : Working plat p root tf origin s)
    (idle : s.held = []) (new : s.pid + 1 ∉ s.processes) (info : TrapInfo)
    (good : info.isSyscall = true → ∀ image, ReadsImage plat s image → GoodImage plat image) :
    wp (dispatch plat p tf info) (fun _ t => Settled plat p origin t) Any s := by
  unfold dispatch
  split
  · have yields : Preserves (Working plat p root tf origin) (yieldCpu (.yieldInUserTrap tf)) := by
      apply preserves_working
      intro scene isPid _ _ isCurrent
      apply preserves_yieldCpu
      · intro tf' pt impossible
        cases impossible
      · rw [isPid]
        exact isCurrent
    rw [wp_bind]
    apply wp_weaken (yields s working)
    intro _ t kept
    rw [wp_pure]
    exact kept.toSettled
  · split
    · rw [wp_bind]
      apply wp_weaken (preserves_handleExternalInterrupt settled_stable info s working.toSettled)
      intro _ t kept
      rw [wp_pure]
      exact kept
    · split
      · exact wp_handleException_separated placed working idle info
      · split
        next isCall => exact wp_handle_separated placed working new (good isCall)
        next =>
          rw [wp_pure]
          exact working.toSettled

/-- Around the dispatch `userTrap` touches nothing that an invariant may look at. -/
theorem wp_userTrap_any {inv : GlobalState → Prop} (stable : Stable inv)
    (current : s.currentProcess = some p) {info : TrapInfo}
    (dispatches : wp (dispatch plat p (s.object p).trapframe info) (fun _ t => inv t) Any s) :
    wp (userTrap plat info) (fun _ t => inv t) Any s := by
  rw [userTrap, wp_bind, wp_bind, GlobalState.getCurrentProcess]
  apply wp_withLock_any
  rw [wp_read]
  apply wp_liftRust_any
  intro caller found
  have isCaller : caller = p := by
    rw [current] at found
    cases found
    rfl
  subst isCaller
  simp only [List.erase_cons_head]
  rw [wp_bind]
  apply wp_withLock_any
  rw [wp_getObject]
  simp only [List.erase_cons_head]
  rw [wp_bind]
  apply wp_weaken dispatches
  intro returned t holds
  unfold leave
  exact Preserves.ite _ (preserves_returnToUserMode stable) (Preserves.pure _) t holds

theorem wp_userTrap_separated (placed : Placed plat) (working : Working plat p root tf origin s)
    (idle : s.held = []) (new : s.pid + 1 ∉ s.processes) (info : TrapInfo)
    (good : info.isSyscall = true → ∀ image, ReadsImage plat s image → GoodImage plat image) :
    wp (userTrap plat info) (fun _ t => Settled plat p origin t) Any s := by
  apply wp_userTrap_any settled_stable working.current
  rw [working.trapframe]
  exact wp_dispatch_separated placed working idle new info good

theorem switchedTo_of_current (current : s.currentProcess = some p) :
    switchedTo plat s = goOn plat (s.object p).context s := by
  simp only [switchedTo, current]

theorem wp_switchedTo_separated (working : Working plat p root tf origin s) :
    wp (switchedTo plat) (fun _ t => Settled plat p origin t) Any s := by
  rw [wp_def, switchedTo_of_current working.current, ← wp_def]
  cases isContext : (s.object p).context with
  | unset =>
      rw [wp_def]
      trivial
  | prepareFirstTimeExecution =>
      have prepares : Preserves (Settled plat p origin) prepareFirstTimeExecution := by
        apply Preserves.bind
        · apply (preserves_getCurrentProcess settled_stable).bind
          intro found
          exact preserves_liftRust _
        · intro process
          apply (preserves_withLock settled_stable _ (Preserves.pure ())).bind
          intro _
          exact preserves_returnToUserMode settled_stable
      exact prepares s working.toSettled
  | yieldInUserTrap trapframe =>
      exact preserves_returnToUserMode settled_stable s working.toSettled
  | yieldInHandle trapframe pageTable =>
      have same : pageTable = root :=
        (working.separated.contexts p working.present trapframe pageTable isContext).trans working.root
      have writes : Preserves (Working plat p root tf origin) (writeResult plat pageTable .yield) := by
        apply preserves_working
        intro scene _ isRoot _ _
        rw [same, ← isRoot]
        exact preserves_writeResult .yield
      rw [goOn, wp_bind]
      apply wp_weaken (writes s working)
      intro _ t kept
      exact preserves_returnToUserMode settled_stable t kept.toSettled
  | exit =>
      rw [wp_def]
      trivial

theorem wp_schedule_separated (settled : Settled plat p origin s) (idle : s.held = []) :
    wp schedule (fun _ t => Settled plat p origin t) Any s := by
  rw [schedule, wp_bind]
  have found := @wp_findReadyProcess Any (fun _ _ => trivial) s idle
  apply wp_mono (wp_and (preserves_findReadyProcess settled_stable s settled) found)
  case stops => exact fun _ _ => trivial
  intro r t done
  rcases done with ⟨kept, ⟨pids, rotated⟩, ready⟩
  cases r with
  | none =>
      rw [wp_pure]
      exact kept
  | some pid =>
      have isReady : (t.object pid).processState = .ready := by
        have states := congrFun (congrArg View.state rotated) pid
        exact states.trans (ready pid rfl).2
      have idleT : t.held = [] := (congrArg View.held rotated).trans idle
      simp only [wp_bind]
      have same := @wp_getProcess Any (fun _ _ => trivial) t pid idleT
      apply wp_weaken same
      intro r u looked
      rcases looked with ⟨rfl, isPid⟩
      apply wp_liftRust_any
      intro process unwrapped
      have known : r = some process := (unwrap_eq_ok _ _).mp unwrapped
      have isProcess := isPid process known
      subst isProcess
      apply wp_withLock_any
      rw [wp_modifyObject]
      rw [GlobalState.setCurrentProcess]
      apply wp_withLock_any
      rw [wp_def]
      simp only [List.erase_cons_head, wp_pure]
      have runs : SameProcess { u.object process with processState := .running }
          (u.object process) := by
        refine ⟨⟨rfl, rfl, rfl, ?_⟩, rfl, rfl, rfl⟩
        apply iff_of_true
        · intro r impossible
          cases impossible
        · intro r impossible
          rw [isReady] at impossible
          cases impossible
      have updated := kept.update process _ runs.toSameSpace fun _ => runs
      exact ⟨⟨updated.separated.isolated, updated.separated.contexts⟩, fun q present other =>
        ⟨(updated.undisturbed q present other).present, (updated.undisturbed q present other).same,
          (updated.undisturbed q present other).frame, (updated.undisturbed q present other).leaves,
          (updated.undisturbed q present other).users⟩, updated.frame⟩

theorem userStore_of_current (current : s.currentProcess = some p) (va : Nat) (byte : UInt8) :
    userStore va byte s = match leafAt s.memory (s.object p).pageTable va with
      | some entry =>
          if entry.userModeAccessible ∧ entry.writeable then
            .ok (.user, { s with
              memory := s.memory.write (entry.getPhysicalAddress + va % pageSize) 1 byte.toNat })
          else .ok (.user, s)
      | none => .ok (.user, s) := by
  have found : (s.currentProcess.bind fun pid => leafAt s.memory (s.object pid).pageTable va) =
      leafAt s.memory (s.object p).pageTable va := by
    rw [current, Option.bind_some]
  rw [userStore]
  generalize (s.currentProcess.bind fun pid => leafAt s.memory (s.object pid).pageTable va) = leaf
    at found ⊢
  subst found
  rfl

theorem wp_userStore_separated (working : Working plat p root tf origin s) (va : Nat) (byte : UInt8) :
    wp (userStore va byte) (fun _ t => Settled plat p origin t) Any s := by
  rcases working.separated.attach working.present working.alive with ⟨foreign, covers, attached⟩
  rw [wp_def, userStore_of_current working.current]
  cases leaf : leafAt s.memory (s.object p).pageTable va with
  | none => exact working.toSettled
  | some entry =>
      by_cases permitted : entry.userModeAccessible ∧ entry.writeable
      · simp only [if_pos permitted]
        have stored : Attached plat (s.scene p foreign)
            (∅ ∪ Set.Ico entry.getPhysicalAddress (entry.getPhysicalAddress + pageSize))
            { s with
              memory := s.memory.write (entry.getPhysicalAddress + va % pageSize) 1 byte.toNat } := by
          apply (attached.include_frame leaf permitted.1).write
          intro x different
          left
          right
          by_contra outside
          apply different
          apply if_neg
          intro range
          apply outside
          have low : va % pageSize < pageSize := Nat.mod_lt _ (by decide)
          exact ⟨by omega, by omega⟩
        exact ⟨stored.detach, working.undisturbed.trans (stored.undisturbed covers rfl rfl fun _ k => k),
          working.frame⟩
      · simp only [if_neg permitted]
        exact working.toSettled

theorem saveRegisters_of_current (current : s.currentProcess = some p) (registers : List UInt8)
    (sepc : Nat) : saveRegisters registers sepc s = .ok (.user, s.saved p registers sepc) := by
  rw [saveRegisters, current]

theorem Attached.saves {foreign G : Set Nat} (attached : Attached plat (s.scene p foreign) G s)
    (registers : List UInt8) (sepc : Nat) :
    Attached plat (s.scene p foreign) G (s.saved p registers sepc) := by
  apply attached.write
  intro x different
  right
  by_contra outside
  apply different
  apply TrapFrame.save_elsewhere
  simp only [Scene.frame, GlobalState.scene, Set.mem_Ico, TrapFrame.pageTable, pageSize] at *
  omega

theorem wp_saveRegisters_separated (working : Working plat p root tf origin s) (registers : List UInt8)
    (sepc : Nat) :
    wp (saveRegisters registers sepc) (fun _ t => Settled plat p origin t) Any s := by
  rcases working.separated.attach working.present working.alive with ⟨foreign, covers, attached⟩
  rw [wp_def, saveRegisters_of_current working.current]
  have saved := attached.saves registers sepc
  exact ⟨saved.detach, working.undisturbed.trans (saved.undisturbed covers rfl rfl fun _ k => k),
    working.frame⟩

end Traps

namespace Machine

variable {plat : Platform} {m m' : Machine} {trace : List (Machine × Event)}

def Loads (plat : Platform) (m : Machine) (event : Event) (image : List UInt8) : Prop :=
  (m.mode = .scheduler ∧ ∃ name, event = .assign name image) ∨
    (m.mode = .user ∧ ∃ info, event = .trap info ∧ info.isSyscall = true ∧
      ReadsImage plat m.kernel image)

/-- The kernel as `main` leaves it before the first process: its allocator was created over the
memory behind the kernel image, and has served the kernel's own requests. -/
structure Booted (plat : Platform) (m : Machine) : Prop where
  fresh : m.Fresh
  placed : Placed plat
  allocator : ∃ stop start sys calls, plat.kernelEnd ≠ 0 ∧ plat.kernelEnd ≤ stop ∧
    stop < usizeBound ∧ System.Initial plat.kernelEnd stop start ∧
    Run System.Steps start calls sys ∧ m.kernel.allocator = sys.alloc ∧
    m.kernel.memory = sys.store.memory

theorem Booted.separated (booted : m.Booted plat) : Separated plat m.kernel := by
  rcases booted.allocator with
    ⟨stop, start, sys, calls, notNull, ordered, bounded, initial, run, isAllocator, isMemory⟩
  have none : ∀ p, p ∉ m.kernel.processes := by
    intro p present
    rw [booted.fresh.processes] at present
    cases present
  have created := System.inv_initial plat.kernelEnd stop notNull ordered bounded start initial
  have served := run.invariant_last (System.Inv plat.kernelEnd stop) created
    (System.inv_step plat.kernelEnd stop)
  rcases served with ⟨free, wf, -, isStart, -⟩
  refine ⟨⟨free, sys.live, fun _ => .kernel, ?_, ?_, ?_, ?_⟩, ?_⟩
  · rw [isAllocator, isMemory]
    exact wf
  · rw [isAllocator]
    exact isStart
  · exact fun q present => absurd present (none q)
  · exact fun q present => absurd present (none q)
  · exact fun q present => absurd present (none q)

theorem not_present_of_orderly {s : GlobalState} {mode : Mode} (orderly : View.Orderly mode (view s)) :
    s.pid + 1 ∉ s.processes := by
  intro present
  exact orderly.fresh _ present rfl

theorem working_of_orderly {s : GlobalState} {mode : Mode} (orderly : View.Orderly mode (view s))
    (separated : Separated plat s) (busy : mode ≠ .scheduler) :
    ∃ p root tf, Working plat p root tf s s := by
  rcases orderly.current busy with ⟨p, present, current, state⟩
  refine ⟨p, _, _, ⟨⟨separated, Undisturbed.refl p s, fun _ => rfl⟩, present, ?_, rfl, rfl, current⟩⟩
  intro r terminated
  have same : (view s).state p = .terminated r := terminated
  rcases state with runs | ⟨c, waits⟩
  · rw [same] at runs
    cases runs
  · rw [same] at waits
    cases waits

def WorksFor (m : Machine) (p : Nat) : Prop :=
  m.mode ≠ .scheduler ∧ m.kernel.currentProcess = some p

theorem worksFor_of_user {m : Machine} {p : Nat} (isUser : m.mode = .user)
    (current : m.kernel.currentProcess = some p) : m.WorksFor p := by
  refine ⟨?_, current⟩
  rw [isUser]
  decide

theorem WorksFor.working {m : Machine} {p : Nat} (works : m.WorksFor p) (orderly : m.Orderly)
    (separated : Separated plat m.kernel) : ∃ root tf, Working plat p root tf m.kernel m.kernel := by
  rcases working_of_orderly orderly separated works.1 with ⟨q, root, tf, working⟩
  have same : q = p := Option.some.inj (working.current.symm.trans works.2)
  exact ⟨root, tf, same ▸ working⟩

structure Kept (plat : Platform) (m : Machine) (t : GlobalState) : Prop where
  separated : Separated plat t
  untouched : ∀ q ∈ m.kernel.processes, ¬m.WorksFor q → Untouched m.kernel t q
  frames : ∀ q ∈ m.kernel.processes, (t.object q).trapframe = (m.kernel.object q).trapframe

theorem frames_of_settled {s t : GlobalState} {p : Nat} (settled : Settled plat p s t) (q : Nat)
    (present : q ∈ s.processes) : (t.object q).trapframe = (s.object q).trapframe := by
  by_cases here : q = p
  · rw [here] at present ⊢
    exact settled.frame present
  · exact (settled.undisturbed q present here).same.trapframe

theorem Kept.of_scheduler {s t : GlobalState} (settled : Settled plat (s.pid + 1) s t)
    (new : s.pid + 1 ∉ s.processes) : Kept plat ⟨s, .scheduler⟩ t where
  separated := settled.separated
  untouched := by
    intro q present _
    apply settled.undisturbed q present
    rintro rfl
    exact new present
  frames := frames_of_settled settled

theorem Kept.of_working {s t : GlobalState} {mode : Mode} {p root tf : Nat} (busy : mode ≠ .scheduler)
    (working : Working plat p root tf s s) (settled : Settled plat p s t) : Kept plat ⟨s, mode⟩ t where
  separated := settled.separated
  untouched := by
    intro q present idle
    apply settled.undisturbed q present
    rintro rfl
    exact idle ⟨busy, working.current⟩
  frames := frames_of_settled settled

theorem wp_respond_separated {s : GlobalState} (placed : Placed plat) (mode : Mode)
    (orderly : View.Orderly mode (view s)) (separated : Separated plat s) (event : Event)
    (operation : Kernel Mode) (responds : respond plat mode event = some operation)
    (good : ∀ image, Loads plat ⟨s, mode⟩ event image → GoodImage plat image) :
    wp operation (fun _ t => Kept plat ⟨s, mode⟩ t) Any s := by
  have idle : s.held = [] := orderly.held
  have new := not_present_of_orderly orderly
  have settled : Settled plat (s.pid + 1) s s :=
    ⟨separated, Undisturbed.refl _ s, fun _ => rfl⟩
  unfold respond at responds
  split at responds
  next name image =>
    cases responds
    have stranger : s.pid + 1 ∈ s.processes → s.pid + 1 ≠ s.pid + 1 :=
      fun present => absurd present new
    have assigned := wpr_assignProcess placed separated name image
      (good image (Or.inl ⟨rfl, name, rfl⟩))
    unfold wpr at assigned
    rw [wp_bind]
    apply wp_weaken assigned
    intro r t done
    rw [wp_pure]
    cases r with
    | ok child => exact Kept.of_scheduler (done.2.settle settled new stranger) new
    | error e => exact Kept.of_scheduler (done.settle settled new stranger) new
  next =>
    cases responds
    apply wp_weaken (wp_schedule_separated settled idle)
    exact fun _ t kept => Kept.of_scheduler kept new
  next info =>
    cases responds
    have stays : Preserves (Settled plat (s.pid + 1) s) (supervisorTrap info) := by
      unfold supervisorTrap
      apply Preserves.ite
      · exact Preserves.pure _
      · apply Preserves.ite
        · apply (preserves_handleExternalInterrupt settled_stable info).bind
          intro _
          exact Preserves.pure _
        · exact Preserves.ite _ (preserves_halt _) (Preserves.pure _)
    apply wp_weaken (stays s settled)
    exact fun _ t kept => Kept.of_scheduler kept new
  next =>
    cases responds
    rcases working_of_orderly orderly separated (by decide) with ⟨p, _, _, working⟩
    apply wp_weaken (wp_switchedTo_separated working)
    exact fun _ t kept => Kept.of_working (by decide) working kept
  next registers sepc =>
    cases responds
    rcases working_of_orderly orderly separated (by decide) with ⟨p, _, _, working⟩
    apply wp_weaken (wp_saveRegisters_separated working registers sepc)
    exact fun _ t kept => Kept.of_working (by decide) working kept
  next info =>
    cases responds
    rcases working_of_orderly orderly separated (by decide) with ⟨p, _, _, working⟩
    apply wp_weaken (wp_userTrap_separated placed working idle new info ?_)
    exact fun _ t kept => Kept.of_working (by decide) working kept
    intro isCall image reads
    exact good image (Or.inr ⟨rfl, info, rfl, isCall, reads⟩)
  next va byte =>
    cases responds
    rcases working_of_orderly orderly separated (by decide) with ⟨p, _, _, working⟩
    apply wp_weaken (wp_userStore_separated working va byte)
    exact fun _ t kept => Kept.of_working (by decide) working kept
  next => cases responds

theorem kept_of_steps (placed : Placed plat) (orderly : m.Orderly)
    (separated : Separated plat m.kernel) {event : Event}
    (good : ∀ image, m.Loads plat event image → GoodImage plat image)
    (taken : Steps plat m event m') : Kept plat m m'.kernel := by
  rcases taken with ⟨operation, responds, ended⟩
  have spec := wp_respond_separated placed m.mode orderly separated event operation responds good
  have done := wp_of_returns spec ended
  exact done

theorem separated_of_run (booted : m.Booted plat) (run : Run (Steps plat) m trace m')
    (good : ∀ step ∈ trace, ∀ image, step.1.Loads plat step.2 image → GoodImage plat image) :
    ∀ u ∈ Run.visited trace m', u.Orderly ∧ Separated plat u.kernel := by
  apply run.invariant_when (fun u => u.Orderly ∧ Separated plat u.kernel)
    (fun u event => ∀ image, u.Loads plat event image → GoodImage plat image)
  · exact ⟨orderly_of_fresh booted.fresh, booted.separated⟩
  · intro t event u kept loads taken
    exact ⟨kept.1.steps taken, (kept_of_steps booted.placed kept.1 kept.2 loads taken).separated⟩
  · exact good

end Machine

end Jangri
