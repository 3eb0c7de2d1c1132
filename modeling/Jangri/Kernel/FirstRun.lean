import Jangri.Kernel.Preemption

namespace Jangri

open Lib Lib.Rv64

def EntersAt (plat : Platform) (image : List UInt8) (pc : Word) : Prop :=
  ∃ elf, plat.minimalParse image = some elf ∧ pc = BitVec.ofNat 64 elf.entry

def Begun (plat : Platform) (images : List UInt8 → Prop) (s : GlobalState) (p : Nat) : Prop :=
  Unequipped plat s.memory (s.object p) ∨ ∃ image pc, images image ∧ EntersAt plat image pc ∧
    Saved s.memory (s.object p).trapframe initialRegisters pc

def Newborn (plat : Platform) (images : List UInt8 → Prop) (s t : GlobalState) : Prop :=
  ∀ q ∈ t.processes, q ∉ s.processes → Alive (t.object q) → Begun plat images t q

section Beginning

variable {plat : Platform} {images : List UInt8 → Prop} {s t u : GlobalState} {p : Nat}
  {image : List UInt8}

theorem Begun.congr (begun : Begun plat images s p)
    (pageTable : (t.object p).pageTable = (s.object p).pageTable)
    (trapframe : (t.object p).trapframe = (s.object p).trapframe)
    (leaves : ∀ va, leafAt t.memory (s.object p).pageTable va = leafAt s.memory (s.object p).pageTable va)
    (frame : ∀ x, (s.object p).trapframe ≤ x → x < (s.object p).trapframe + pageSize →
      t.memory x = s.memory x) : Begun plat images t p := by
  rcases begun with unequipped | ⟨image, pc, loaded, enters, saved⟩
  · left
    apply unequipped.congr pageTable trapframe leaves
    intro x low high
    exact frame x (by omega) high
  · right
    refine ⟨image, pc, loaded, enters, ?_⟩
    rw [trapframe]
    exact saved.kept frame

theorem Begun.untouched (begun : Begun plat images s p) (alive : Alive (s.object p))
    (untouched : Untouched s t p) : Begun plat images t p :=
  begun.congr untouched.same.pageTable untouched.same.trapframe (untouched.leaves alive) untouched.frame

theorem Newborn.of_processes (same : t.processes = s.processes) : Newborn plat images s t := by
  intro q present new
  rw [same] at present
  exact absurd present new

theorem newborn_stable : Stable (Newborn plat images s) := by
  intro t u same newborn q present new alive
  rw [same.processes] at present
  rw [same.object] at alive
  apply (newborn q present new alive).congr
  · rw [same.object]
  · rw [same.object]
  · intro va
    rw [same.memory]
  · intro x _ _
    rw [same.memory]

theorem Newborn.after (newborn : Newborn plat images s t) (same : u.processes = t.processes)
    (undisturbed : Undisturbed p t u) (known : p ∈ s.processes) : Newborn plat images s u := by
  intro q present new alive
  rw [same] at present
  have other : q ≠ p := by
    rintro rfl
    exact new known
  have untouched := undisturbed q present other
  have before := untouched.same.alive.mp alive
  exact (newborn q present new before).untouched before untouched

theorem wpr_assignProcess_begun (images : List UInt8 → Prop) (placed : Placed plat)
    (separated : Separated plat s) (name : List UInt8) (loaded : images image) (good : GoodImage plat image) :
    wpr (assignProcess plat name image)
      (fun child t => child = s.pid + 1 ∧ t.processes = (s.pid + 1) :: s.processes ∧
        Begun plat images t (s.pid + 1))
      (fun _ t => t.processes = (s.pid + 1) :: s.processes ∧ Begun plat images t (s.pid + 1)) Any s := by
  have made := wpr_assignProcess placed separated name image good
  have equipped := wpr_assignProcess_equipped placed separated.allocatorIntact name good
  apply wpr_mono (wpr_and made equipped)
  · rintro child t ⟨⟨isChild, made⟩, -, -, -, elf, parsed, saved, -⟩
    exact ⟨isChild, made.processes, Or.inr ⟨image, _, loaded, ⟨elf, parsed, rfl⟩, saved⟩⟩
  · rintro e t ⟨made, unequipped, -⟩
    exact ⟨made.processes, Or.inl unequipped⟩
  · exact fun _ _ => trivial

end Beginning

section Spawning

variable {plat : Platform} {images : List UInt8 → Prop} {α : Type} {p root tf : Nat}
  {origin s : GlobalState}

theorem wpr_spawn_begun (placed : Placed plat) (working : Working plat p root tf origin s)
    (new : s.pid + 1 ∉ s.processes) (good : ∀ image, images image → GoodImage plat image) (nameStart nameLen start len : Nat)
    (wait : Bool) (reads : ∀ name image s₁ s₂,
      UserMemorySlice.read ⟨nameStart, root, nameLen⟩ plat (translate plat) s = .ok (name, s₁) →
      UserMemorySlice.read ⟨start, root, len⟩ plat (translate plat) s₁ = .ok (image, s₂) → images image) :
    wpr (spawn plat p nameStart nameLen start len wait root)
      (fun _ t => t.processes = (s.pid + 1) :: s.processes ∧ Begun plat images t (s.pid + 1))
      (fun _ t => t.processes = (s.pid + 1) :: s.processes ∧ Begun plat images t (s.pid + 1)) Any s := by
  rw [spawn]
  simp only [wpr_bind, wpr_lift]
  apply wp_mono_run (wp_sliceRead _)
  case stops => exact fun _ h => h
  intro name s₁ readName same₁
  apply wp_liftRust_any
  intro name' _
  apply wp_mono_run (wp_sliceRead _)
  case stops => exact fun _ h => h
  intro image s₂ readImage same₂
  have loaded := reads name image s₁ s₂ readName readImage
  rw [same₂, same₁]
  apply wpr_weaken (wpr_assignProcess_begun images placed working.separated name' loaded (good image loaded))
  case fails => exact fun _ t done => done
  intro child s₃ done
  rcases done with ⟨rfl, processes, begun⟩
  have other : s.pid + 1 ≠ p := by
    rintro rfl
    exact new working.present
  rw [setParent]
  apply wp_withLock_any
  rw [wp_modifyObject]
  simp only [List.erase_cons_head]
  apply wpr_guarded_any
  rw [wpr_bind, wpr_lift]
  apply wp_withLock_any
  rw [wp_bind, wp_getObject, wp_pure, wpr_bind, wpr_lift, wp_modifyObject, wpr_pure]
  simp only [List.erase_cons_head]
  refine ⟨processes, ?_⟩
  apply begun.congr
  · simp only [Function.update_of_ne other, Function.update_self]
  · simp only [Function.update_of_ne other, Function.update_self]
  · exact fun _ => rfl
  · exact fun _ _ _ => rfl

theorem wp_resident (working : Working plat p root tf origin s) {x : Kernel α}
    (keeps : ∀ scene : Scene, scene.pid = p → scene.root = root → scene.trapframe = tf →
      scene.current = some p → Preserves (Attached plat scene ∅) x) :
    wp x (fun _ t => t.processes = s.processes ∧ Undisturbed p s t) Any s := by
  rcases working.separated.attach working.present working.alive with ⟨foreign, covers, attached⟩
  apply wp_weaken (keeps _ rfl working.root working.trapframe working.current s attached)
  intro _ t kept
  exact ⟨kept.onstage.processes, kept.undisturbed covers rfl rfl fun _ known => known⟩

theorem wp_perform_newborn (placed : Placed plat) (working : Working plat p root tf origin s)
    (new : s.pid + 1 ∉ s.processes) (request : Syscall)
    (good : ∀ image, images image → GoodImage plat image)
    (reads : ∀ nameStart nameLen start len wait name image s₁ s₂,
      request = .spawn nameStart nameLen start len wait →
      UserMemorySlice.read ⟨nameStart, root, nameLen⟩ plat (translate plat) s = .ok (name, s₁) →
      UserMemorySlice.read ⟨start, root, len⟩ plat (translate plat) s₁ = .ok (image, s₂) → images image) :
    wp (perform plat p tf root request) (fun _ t => Newborn plat images s t) Any s := by
  have answered : ∀ t, Working plat p root tf origin t → Newborn plat images s t → ∀ result,
      wp (writeResult plat root result >>= fun _ => pure true)
        (fun _ u => Newborn plat images s u) Any t := by
    intro t workingT newborn result
    have writes : wp (writeResult plat root result)
        (fun _ u => u.processes = t.processes ∧ Undisturbed p t u) Any t := by
      apply wp_resident workingT
      intro scene _ isRoot _ _
      rw [← isRoot]
      exact preserves_writeResult result
    rw [wp_bind]
    apply wp_weaken writes
    intro _ u kept
    rw [wp_pure]
    exact newborn.after kept.1 kept.2 working.present
  cases request with
  | wantMemory size =>
      have keeps : ∀ scene : Scene, scene.pid = p → scene.root = root → scene.trapframe = tf →
          scene.current = some p → Preserves (Attached plat scene ∅) (wantMemory size).run :=
        fun _ isPid _ _ current => preserves_wantMemory (by rw [isPid, current]) size
      rw [perform, wp_bind]
      apply wp_mono (wp_and (preserves_working keeps s working) (wp_resident working keeps))
      case stops => exact fun _ _ => trivial
      exact fun result t done => answered t done.1 (Newborn.of_processes done.2.1) _
  | write start len =>
      rw [perform, wp_bind]
      apply wp_weaken (wp_sliceRead _)
      intro bytes t same
      rw [wp_bind]
      apply wp_liftRust_any
      intro text _
      rw [wp_bind, same, wp_def, consoleWrite]
      simp only
      apply answered
      · exact working_stable s _ ⟨rfl, rfl, rfl, rfl, rfl⟩ working
      · exact Newborn.of_processes rfl
  | readChar =>
      have known : Stable fun t : GlobalState => t.processes = s.processes :=
        fun _ _ same kept => same.processes.trans kept
      rw [perform, wp_bind]
      apply wp_mono (wp_and (preserves_dequeueInput working_stable s working)
        (preserves_dequeueInput known s rfl))
      case stops => exact fun _ _ => trivial
      exact fun char t done => answered t done.1 (Newborn.of_processes done.2) _
  | exit status =>
      rcases working.separated.attach working.present working.alive with ⟨foreign, covers, attached⟩
      rw [perform, wp_bind]
      apply wp_weaken (wp_exit_separated attached working.current _)
      intro _ t done
      rcases done with ⟨-, U, world⟩
      rw [wp_pure]
      exact Newborn.of_processes world.2.processes
  | spawn nameStart nameLen start len wait =>
      have begun := wpr_spawn_begun placed working new good nameStart nameLen start len wait
        (fun name image s₁ s₂ => reads _ _ _ _ _ name image s₁ s₂ rfl)
      have kept := wpr_spawn placed working new nameStart nameLen start len wait
        (fun name image s₁ s₂ first second =>
          good image (reads _ _ _ _ _ name image s₁ s₂ rfl first second))
      have spawned := wpr_and kept begun
      unfold wpr at spawned
      rw [perform, wp_bind]
      apply wp_mono spawned
      case stops => exact fun _ _ => trivial
      intro result t done
      have both : (Working plat p root tf origin t ∧ Untouched s t p) ∧
          t.processes = (s.pid + 1) :: s.processes ∧ Begun plat images t (s.pid + 1) := by
        cases result with
        | ok child => exact done
        | error e => exact done
      apply answered t both.1.1
      intro q present stranger _
      rw [both.2.1, List.mem_cons] at present
      rcases present with rfl | old
      · exact both.2.2
      · exact absurd old stranger
  | yield =>
      have yields : wp (yieldCpu (.yieldInHandle tf root))
          (fun _ t => t.processes = s.processes ∧ Undisturbed p s t) Any s := by
        apply wp_resident working
        intro scene isPid isRoot _ isCurrent
        apply preserves_yieldCpu
        · intro tf' pt same
          rw [isRoot]
          exact (Context.yieldInHandle.inj same).2.symm
        · rw [isPid]
          exact isCurrent
      rw [perform, wp_bind]
      apply wp_weaken yields
      intro _ t kept
      rw [wp_pure]
      exact Newborn.of_processes kept.1
  | shutdown =>
      rw [perform, wp_def]
      trivial

theorem wp_handle_newborn (placed : Placed plat) (working : Working plat p root tf origin s)
    (new : s.pid + 1 ∉ s.processes) (good : ∀ image, images image → GoodImage plat image)
    (reads : ∀ image, ReadsImage plat s image → images image) :
    wp (handle plat) (fun _ t => Newborn plat images s t) Any s := by
  rcases working.root with rfl
  rcases working.trapframe with rfl
  have advances : Preserves (Working plat p (s.object p).pageTable (s.object p).trapframe origin)
      (handleSyscall (s.object p).trapframe) := by
    apply preserves_working
    intro scene _ _ isFrame _
    rw [← isFrame]
    exact preserves_handleSyscall
  apply wp_handle_any working.current (advances s working)
  intro s₁ request working₁ pid processes asked
  have free : s₁.pid + 1 ∉ s₁.processes := by
    rw [pid, processes]
    exact new
  apply wp_weaken (wp_perform_newborn placed working₁ free request good ?_)
  · intro _ t newborn q present stranger
    rw [← processes] at stranger
    exact newborn q present stranger
  · intro nameStart nameLen start len wait name image t₁ t₂ isSpawn readName readImage
    exact reads image (asked _ _ _ _ _ _ _ _ _ isSpawn readName readImage)

theorem wp_dispatch_newborn (placed : Placed plat) (working : Working plat p root tf origin s)
    (idle : s.held = []) (new : s.pid + 1 ∉ s.processes) (info : TrapInfo)
    (good : ∀ image, images image → GoodImage plat image)
    (reads : info.isSyscall = true → ∀ image, ReadsImage plat s image → images image) :
    wp (dispatch plat p tf info) (fun _ t => Newborn plat images s t) Any s := by
  unfold dispatch
  split
  · have yields : wp (yieldCpu (.yieldInUserTrap tf))
        (fun _ t => t.processes = s.processes ∧ Undisturbed p s t) Any s := by
      apply wp_resident working
      intro scene isPid _ _ isCurrent
      apply preserves_yieldCpu
      · intro tf' pt impossible
        cases impossible
      · rw [isPid]
        exact isCurrent
    rw [wp_bind]
    apply wp_weaken yields
    intro _ t kept
    rw [wp_pure]
    exact Newborn.of_processes kept.1
  · split
    · have known : Stable fun t : GlobalState => t.processes = s.processes :=
        fun _ _ same kept => same.processes.trans kept
      rw [wp_bind]
      apply wp_weaken (preserves_handleExternalInterrupt known info s rfl)
      intro _ t kept
      rw [wp_pure]
      exact Newborn.of_processes kept
    · split
      · apply wp_handleException_mapped (fun _ _ => trivial) plat (Or.inr trivial) p idle working.current
        intro t _ _ viewed
        apply Newborn.of_processes
        have processes : t.processes = s.processes := congrArg View.processes viewed
        exact processes
      · split
        next isCall => exact wp_handle_newborn placed working new good (reads isCall)
        next =>
          rw [wp_pure]
          exact Newborn.of_processes rfl

theorem wp_userTrap_newborn (placed : Placed plat) (working : Working plat p root tf origin s)
    (idle : s.held = []) (new : s.pid + 1 ∉ s.processes) (info : TrapInfo)
    (good : ∀ image, images image → GoodImage plat image)
    (reads : info.isSyscall = true → ∀ image, ReadsImage plat s image → images image) :
    wp (userTrap plat info) (fun _ t => Newborn plat images s t) Any s := by
  apply wp_userTrap_any newborn_stable working.current
  rw [working.trapframe]
  exact wp_dispatch_newborn placed working idle new info good reads

end Spawning

theorem View.Moves.continued_view {v w : View} {mode : Mode} {asked : Asked}
    (moves : View.Moves asked .resumed v mode w) : w = v := by
  cases moves with
  | continued => rfl

namespace Machine

variable {plat : Platform} {m m' : Machine}

theorem wp_schedule_processes {s : GlobalState} (idle : s.held = []) :
    wp schedule (fun _ t => t.processes = s.processes) Any s := by
  have found := @wp_findReadyProcess Any (fun _ _ => trivial) s idle
  rw [schedule, wp_bind]
  apply wp_weaken found
  intro r t done
  rcases done with ⟨⟨pids, rotated⟩, -⟩
  have processes : t.processes = s.processes := congrArg View.processes rotated
  have idleT : t.held = [] := (congrArg View.held rotated).trans idle
  cases r with
  | none =>
      rw [wp_pure]
      exact processes
  | some pid =>
      simp only [wp_bind]
      apply wp_weaken (@wp_getProcess Any (fun _ _ => trivial) t pid idleT)
      intro r u looked
      rcases looked with ⟨rfl, -⟩
      apply wp_liftRust_any
      intro process _
      apply wp_withLock_any
      rw [wp_modifyObject, GlobalState.setCurrentProcess]
      apply wp_withLock_any
      rw [wp_def]
      simp only [wp_pure]
      exact processes

theorem wp_respond_newborn {s : GlobalState} (placed : Placed plat) (mode : Mode)
    (orderly : View.Orderly mode (view s)) (separated : Separated plat s) (event : Event)
    (operation : Kernel Mode) (responds : respond plat mode event = some operation)
    (good : ∀ image, Loads plat ⟨s, mode⟩ event image → GoodImage plat image) :
    wp operation (fun _ t => Newborn plat (Loads plat ⟨s, mode⟩ event) s t) Any s := by
  have idle : s.held = [] := orderly.held
  have new := not_present_of_orderly orderly
  have known : Stable fun t : GlobalState => t.processes = s.processes :=
    fun _ _ same kept => same.processes.trans kept
  have moves := wp_respond (fun _ _ => trivial : Tolerant Any) plat (Or.inr trivial) mode orderly event
    operation responds
  unfold respond at responds
  split at responds
  next name image =>
    cases responds
    have loads : Loads plat ⟨s, .scheduler⟩ (.assign name image) image := Or.inl ⟨rfl, name, rfl⟩
    have begun := wpr_assignProcess_begun (Loads plat ⟨s, .scheduler⟩ (.assign name image)) placed separated
      name loads (good image loads)
    unfold wpr at begun
    rw [wp_bind]
    apply wp_weaken begun
    intro r t done
    have both : t.processes = (s.pid + 1) :: s.processes ∧
        Begun plat (Loads plat ⟨s, .scheduler⟩ (.assign name image)) t (s.pid + 1) := by
      cases r with
      | ok child => exact done.2
      | error e => exact done
    rw [wp_pure]
    intro q present stranger _
    rw [both.1, List.mem_cons] at present
    rcases present with rfl | old
    · exact both.2
    · exact absurd old stranger
  next =>
    cases responds
    apply wp_weaken (wp_schedule_processes idle)
    exact fun _ t same => Newborn.of_processes same
  next info =>
    cases responds
    have stays : Preserves (fun t : GlobalState => t.processes = s.processes) (supervisorTrap info) := by
      unfold supervisorTrap
      apply Preserves.ite
      · exact Preserves.pure _
      · apply Preserves.ite
        · apply (preserves_handleExternalInterrupt known info).bind
          intro _
          exact Preserves.pure _
        · exact Preserves.ite _ (preserves_halt _) (Preserves.pure _)
    apply wp_weaken (stays s rfl)
    exact fun _ t same => Newborn.of_processes same
  next =>
    cases responds
    apply wp_weaken moves
    intro mode' t moved
    exact Newborn.of_processes (congrArg View.processes moved.continued_view)
  next registers sepc =>
    cases responds
    rcases working_of_orderly orderly separated (by decide) with ⟨p, root, tf, working⟩
    rw [wp_def, saveRegisters_of_current working.current]
    exact Newborn.of_processes rfl
  next info =>
    cases responds
    rcases working_of_orderly orderly separated (by decide) with ⟨p, root, tf, working⟩
    apply wp_userTrap_newborn placed working idle new info good
    exact fun isCall image reads => Or.inr ⟨rfl, info, rfl, isCall, reads⟩
  next va byte =>
    cases responds
    rcases working_of_orderly orderly separated (by decide) with ⟨p, root, tf, working⟩
    rw [wp_def, userStore_of_current working.current]
    cases leafAt s.memory (s.object p).pageTable va with
    | none => exact Newborn.of_processes rfl
    | some entry =>
        by_cases permitted : entry.userModeAccessible ∧ entry.writeable
        · simp only [if_pos permitted]
          exact Newborn.of_processes rfl
        · simp only [if_neg permitted]
          exact Newborn.of_processes rfl
  next => cases responds

theorem newborn_of_steps (placed : Placed plat) (orderly : m.Orderly) (separated : Separated plat m.kernel)
    {event : Event} (good : ∀ image, m.Loads plat event image → GoodImage plat image)
    (taken : Steps plat m event m') : Newborn plat (m.Loads plat event) m.kernel m'.kernel := by
  rcases taken with ⟨operation, responds, ended⟩
  have spec := wp_respond_newborn placed m.mode orderly separated event operation responds good
  have done := wp_of_returns spec ended
  exact done

end Machine

namespace Computer

/-- When the program of `p` runs it is at the start of one of `images`. Until then it has begun, but has
not run. -/
structure Starts (plat : Platform) (images : List UInt8 → Prop) (c : Computer) (p : Nat) : Prop where
  present : p ∈ c.kernel.processes
  away : ¬ c.Runs p → Alive (c.kernel.object p) → Begun plat images c.kernel p
  back : c.Runs p → c.core.x = initialRegisters ∧
    ∃ image, images image ∧ EntersAt plat image c.core.pc

section Starting

variable {plat : Platform} {text : Text} {located : TrampolineText plat text} {t : GlobalState}
  {c c' : Computer} {p : Nat} {images : List UInt8 → Prop} {action : Action}

theorem Sound.begets (paged : plat.Paged t) (sound : Sound plat t c)
    (good : ∀ image, Loads plat text c action image → GoodImage plat image)
    (taken : Steps plat located c action c') (new : p ∉ c.kernel.processes)
    (born : p ∈ c'.kernel.processes) : Starts plat (Loads plat text c action) c' p := by
  have separated : Separated plat c.kernel := sound.upheld.watched.separated
  have stranger : ∀ {q : Nat}, c.Runs q → c'.kernel.currentProcess = some q → ¬ c'.Runs p := by
    rintro q runs current ⟨-, current'⟩
    have same : q = p := Option.some.inj (current.symm.trans current')
    rw [← same] at new
    exact new (sound.upheld.working runs.busy runs.2).1
  have begins : ∀ {h : Hart} {s : GlobalState} {mode : Mode} {info : TrapInfo}, Enters plat text c info h →
      (∀ image, Loads plat text c (.event (.trap info)) image → GoodImage plat image) →
      Machine.Steps plat ⟨{ c.kernel with memory := h.memory }, .user⟩ (.trap info) ⟨s, mode⟩ →
      p ∈ s.processes → Alive (s.object p) →
      Begun plat (Loads plat text c (.event (.trap info))) s p := by
    intro h s mode info enters good taken present alive
    rcases runs_of_user sound.upheld enters.inUser with ⟨q, runs⟩
    have only := (sound.enters paged located runs enters).2.2
    have upheld := (sound.upheld.saves paged runs.1 runs.2 (sound.running q runs).equipped only).1
    have newborn := Machine.newborn_of_steps paged.placed upheld.orderly upheld.watched.separated
      (fun image loads => good image ⟨h, enters, loads⟩) taken
    rcases newborn p present new alive with unequipped | ⟨image, pc, loads, started⟩
    · exact Or.inl unequipped
    · exact Or.inr ⟨image, pc, ⟨h, enters, loads⟩, started⟩
  cases taken with
  | compute x pc inUser => exact absurd born new
  | store s va byte taken =>
      rcases runs_of_user sound.upheld (mode_of_store taken) with ⟨q, runs⟩
      have current := (sound.stored paged runs taken).2.1
      have newborn := Machine.newborn_of_steps paged.placed sound.upheld.orderly separated good taken
      exact ⟨born, fun _ alive => newborn p born new alive,
        fun runs' => absurd runs' (stranger runs current)⟩
  | scheduler event s mode core scheduling taken satp =>
      have fine : ∀ image, c.machine.Loads plat event image → GoodImage plat image :=
        loads_of_scheduler scheduling good
      have newborn := Machine.newborn_of_steps paged.placed sound.upheld.orderly separated fine taken
      refine ⟨born, ?_, ?_⟩
      · intro _ alive
        rcases newborn p born new alive with unequipped | ⟨image, pc, loads, started⟩
        · exact Or.inl unequipped
        · refine Or.inr ⟨image, pc, ?_, started⟩
          rcases loads with ⟨isMode, name, rfl⟩ | ⟨inUser, -⟩
          · exact Or.inl ⟨isMode, name, rfl⟩
          · change c.mode = .user at inUser
            rw [scheduling] at inUser
            cases inUser
      · rintro ⟨inUser, -⟩
        exact absurd inUser ((Machine.moves_of_steps sound.upheld.orderly taken).current.2 scheduling)
  | leave info h s core enters taken satp =>
      refine ⟨born, fun _ alive => begins enters good taken born alive, ?_⟩
      rintro ⟨inUser, -⟩
      cases inUser
  | stay info h s q _ enters current taken returns =>
      have runs : c.Runs q := ⟨enters.inUser, current⟩
      have handled := sound.handled paged located runs enters good taken
      rw [(sound.enters paged located runs enters).1] at returns
      rcases handled.returned paged sound runs returns with ⟨rfl, -, -, -⟩
      exact ⟨born, fun _ alive => begins enters good taken born alive,
        fun runs' => absurd runs' (stranger runs handled.current)⟩
  | resume s q _ resumed current stack taken returns =>
      rcases sound.resumed paged resumed current taken returns with ⟨-, -, -, -, rfl, -⟩
      have moved := Machine.moves_of_steps sound.upheld.orderly taken
      rw [show c.machine.mode = .resumed from resumed] at moved
      have same : c'.kernel.processes = c.kernel.processes :=
        congrArg View.processes moved.continued_view
      rw [same] at born
      exact absurd born new

theorem Starts.equipped (sound : Sound plat t c) (starts : Starts plat images c p) :
    Starts plat (fun image => images image ∧ Equipped plat c.kernel.memory p (c.kernel.object p)) c p := by
  refine ⟨starts.present, fun away alive => ?_, fun runs => ?_⟩
  · have provided := sound.upheld.watched.provided p starts.present (Set.notMem_empty p) alive
    rcases provided.equipment with unequipped | equipped
    · exact Or.inl unequipped
    · rcases starts.away away alive with unequipped | ⟨image, pc, loads, begun⟩
      · exact Or.inl unequipped
      · exact Or.inr ⟨image, pc, ⟨loads, equipped⟩, begun⟩
  · rcases starts.back runs with ⟨registers, image, loads, enters⟩
    exact ⟨registers, image, ⟨loads, (sound.running p runs).equipped⟩, enters⟩

theorem Starts.step (paged : plat.Paged t) (sound : Sound plat t c) (starts : Starts plat images c p)
    (away : ¬ c.Runs p)
    (good : ∀ image, Loads plat text c action image → GoodImage plat image)
    (taken : Steps plat located c action c') : Starts plat images c' p := by
  cases sound.meanwhile paged starts.present away good taken with
  | away stopped untouched =>
      refine ⟨untouched.present, ?_, fun runs => absurd runs stopped⟩
      intro _ stays
      have alive := untouched.same.alive.mp stays
      exact (starts.away away alive).untouched alive untouched
  | back runs alive resumed running restored =>
      have sparing : Sparing c.kernel p c'.kernel :=
        resumed.sparing sound.upheld.watched.separated starts.present alive
      have present := ((sound.step paged good taken).upheld.working runs.busy runs.2).1
      refine ⟨present, fun gone => absurd runs gone, fun _ => ?_⟩
      have begun : Begun plat images c'.kernel p :=
        (starts.away away alive).congr (by rw [sparing.object]) (by rw [sparing.object]) sparing.leaves
          sparing.frame
      rcases begun with unequipped | ⟨image, pc, loaded, enters, saved⟩
      · exact absurd running.equipped unequipped.not_equipped
      · have registers := restored initialRegisters pc saved
        rw [registers.2]
        exact ⟨registers.1, image, loaded, enters⟩

end Starting

end Computer

section Results

variable {plat : Platform} (layout : KernelLayout plat) {text : Text} (located : TrampolineText plat text)
  {t : GlobalState} {core : Core} {c c' d : Computer} {p : Nat}
  {action : Action} {before after : List (Computer × Action)}

/-- Whether the kernel or another program has asked for it, a program starts at the entry point of the
image it was loaded from, with nothing in its registers but the top of its stack, however much else
happens before it runs. It runs only if the step that has made its process has equipped it. -/
theorem program_starts (boots : layout.Boots plat.kernelPageTable t)
    (paging : core.csr .satp = Sv48.satpFor plat.kernelPageTable)
    (run : Run (Computer.Steps plat located) ⟨t, .scheduler, core⟩ before c)
    (taken : Computer.Steps plat located c action c')
    (rest : Run (Computer.Steps plat located) c' after d)
    (good : ∀ step ∈ before ++ (c, action) :: after, ∀ image,
      Computer.Loads plat text step.1 step.2 image → GoodImage plat image)
    (new : p ∉ c.kernel.processes) (born : p ∈ c'.kernel.processes)
    (away : ∀ step ∈ after, ¬ step.1.Runs p) (runs : d.Runs p) :
    Equipped plat c'.kernel.memory p (c'.kernel.object p) ∧
      d.core.x = initialRegisters ∧ ∃ image elf, Computer.Loads plat text c action image ∧
        plat.minimalParse image = some elf ∧ d.core.pc = BitVec.ofNat 64 elf.entry := by
  have paged := boots.paged
  have sound := (Computer.Sound.boot layout boots paging).run located paged run
    (fun step member => good step (List.mem_append_left _ member)) c (Run.last_mem_visited _ _)
  have fine : ∀ image, Computer.Loads plat text c action image → GoodImage plat image :=
    good (c, action) (List.mem_append_right _ List.mem_cons_self)
  have start := (sound.begets paged fine taken new born).equipped (sound.step paged fine taken)
  have starts := sound.lasting located
    (fun u => u.Starts plat (fun image => Computer.Loads plat text c action image ∧
      Equipped plat c'.kernel.memory p (c'.kernel.object p)) p) paged taken rest
    (fun step member => good step (List.mem_append_right _ member)) away start
    (fun _ _ _ sound starts away good taken => starts.step paged sound away good taken)
  rcases starts.2.back runs with ⟨registers, image, ⟨loads, equipped⟩, elf, parsed, pc⟩
  exact ⟨equipped, registers, image, elf, loads, parsed, pc⟩

end Results

theorem first_program_starts : ∃ root t c after d,
    Computer.Steps (Board.paged root) (Board.located root) ⟨t, .scheduler, Board.pagedCore root⟩
      (.event (.assign [] Board.bare)) c ∧
    Run (Computer.Steps (Board.paged root) (Board.located root)) c after d ∧
    d.Runs 1 ∧ d.core.x = initialRegisters ∧ d.core.pc = 4096#64 := by
  rcases Board.first_waits with ⟨root, t, c, boots, created, waiting⟩
  have good := Board.assign_good (t := t) root
  have sound := (Computer.Sound.boot (Board.pagedLayout root) boots rfl).step boots.paged good created
  have stack := (boots.paged.space.stacked 1 (by decide)).mpr (by decide)
  rcases waiting.goes_over boots.paged (Board.located root) sound stack with
    ⟨v, d, scheduled, resumed, switched, alone⟩
  have new : 1 ∉ t.processes := by
    rw [boots.table.1.processes]
    exact List.not_mem_nil
  have starts := program_starts (Board.pagedLayout root) (Board.located root) boots rfl Run.nil created
    ((Run.single scheduled).snoc _ switched) ?_ new waiting.present ?_ alone.runs
  · rcases starts with ⟨-, registers, image, elf, ⟨-, name, same⟩ | ⟨inUser, -⟩, parsed, pc⟩
    · cases same
      cases parsed.symm.trans (Board.paged_parsed root)
      exact ⟨root, t, c, _, d, created, (Run.single scheduled).snoc _ switched, alone.runs, registers, pc⟩
    · cases inUser
  · intro step member image loads
    rcases List.mem_cons.mp member with rfl | later
    · exact good image loads
    · rcases List.mem_cons.mp later with rfl | last
      · exact absurd loads (Computer.not_loads (fun _ _ => by simp) (fun _ => by simp) image)
      · rcases List.mem_singleton.mp last with rfl
        exact absurd loads (Computer.not_loads (fun _ _ => by simp) (fun _ => by simp) image)
  · intro step member
    rcases List.mem_cons.mp member with rfl | later
    · rintro ⟨inUser, -⟩
      rw [waiting.scheduling] at inUser
      cases inUser
    · rcases List.mem_singleton.mp later with rfl
      rintro ⟨inUser, -⟩
      rw [resumed] at inUser
      cases inUser

end Jangri
