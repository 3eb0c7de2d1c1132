import Jangri.Kernel.Computer

namespace Jangri

open Lib Lib.Rv64

def TrapInfo.goesOnAt (info : TrapInfo) (pc : Word) : Word :=
  if info.isSyscall = true then pc + 4#64 else pc

section Frames

variable {plat : Platform} {s t : GlobalState} {p : Nat} {info : TrapInfo} {x : Register → Word}
  {pc : Word}

theorem Saved.entered (saved : Saved s.memory (s.object p).trapframe x pc) :
    Saved (s.entered p info).memory (s.object p).trapframe x (info.goesOnAt pc) := by
  unfold GlobalState.entered TrapInfo.goesOnAt
  split
  case isFalse => exact saved
  have sepc : s.sepc p = pc.toNat := saved.sepc
  refine ⟨?_, ?_⟩
  · intro slot member
    have low : slot.2 + 8 ≤ TrapFrame.sepc := by
      revert slot
      decide
    rw [← saved.registers slot member]
    apply Memory.read_write_apart
    omega
  · have small : (pc.toNat + 4) % 256 ^ 8 < 256 ^ 8 := Nat.mod_lt _ (by decide)
    have next : (pc + 4#64).toNat = (pc.toNat + 4) % 256 ^ 8 := by
      rw [BitVec.toNat_add]
      rfl
    rw [next, GlobalState.advanced, sepc]
    simp only [TrapFrame.sepc]
    rw [← Memory.write_mod, Memory.read_write_same _ _ _ _ small]

theorem Saved.kept {m m' : Memory} {tf : Nat} (saved : Saved m tf x pc)
    (frame : ∀ a, tf ≤ a → a < tf + pageSize → m' a = m a) : Saved m' tf x pc := by
  apply saved.congr
  intro a inside
  rw [Set.mem_Ico] at inside
  apply frame a inside.1
  simp only [savedBytes, pageSize] at *
  omega

theorem Untouched.goesOn (untouched : Untouched s t p)
    {satp : Word} (held : Alive (s.object p) → Saved s.memory (s.object p).trapframe x pc ∧
      Sv48.satpFor (s.object p).pageTable = satp) (stays : Alive (t.object p)) :
    Saved t.memory (t.object p).trapframe x pc ∧ Sv48.satpFor (t.object p).pageTable = satp := by
  rcases held (untouched.same.alive.mp stays) with ⟨saved, space⟩
  rw [untouched.same.trapframe, untouched.same.pageTable]
  exact ⟨saved.kept untouched.frame, space⟩

end Frames

namespace Computer

structure GoesOn (c : Computer) (p : Nat) (x : Register → Word) (pc satp : Word) : Prop where
  present : p ∈ c.kernel.processes
  away : ¬ c.Runs p → Alive (c.kernel.object p) →
    Saved c.kernel.memory (c.kernel.object p).trapframe x pc ∧
      Sv48.satpFor (c.kernel.object p).pageTable = satp
  back : c.Runs p → c.core.x = x ∧ c.core.pc = pc ∧ c.core.csr .satp = satp

section Preempting

variable {plat : Platform} {text : Text} {located : TrampolineText plat text} {t s : GlobalState}
  {c c' d : Computer} {p : Nat} {info : TrapInfo} {action : Action} {x : Register → Word}
  {pc satp : Word}

theorem Sound.traps (paged : plat.Paged t) (sound : Sound plat t c) (runs : c.Runs p)
    (good : ∀ image, Loads plat text c (.event (.trap info)) image → GoodImage plat image)
    (taken : Steps plat located c (.event (.trap info)) c') :
    GoesOn c' p c.core.x (info.goesOnAt c.core.pc) (c.core.csr .satp) := by
  have running := sound.running p runs
  rcases sound.upheld.working runs.busy runs.2 with ⟨present, alive⟩
  have frame : ∀ {h : Hart} {s : GlobalState} {mode : Mode}, Enters plat text c info h →
      Handled plat t c p info h s mode → Alive (s.object p) →
      Saved s.memory (s.object p).trapframe c.core.x (info.goesOnAt c.core.pc) ∧
        Sv48.satpFor (s.object p).pageTable = c.core.csr .satp := by
    intro h s mode enters handled stays
    have process := handled.process sound runs stays
    rcases handled.trapped with ⟨returned, -, trapped⟩
    have saved : Saved ({ c.kernel with memory := h.memory } : GlobalState).memory
        (({ c.kernel with memory := h.memory } : GlobalState).object p).trapframe c.core.x c.core.pc :=
      (sound.enters paged located runs enters).2.1
    rw [process.1, process.2]
    exact ⟨saved.entered.kept (trapped.frame handled.separated present alive stays), running.satp.symm⟩
  cases taken with
  | scheduler event s mode core scheduling taken satp => exact absurd scheduling runs.busy
  | leave info h s core enters taken satp =>
      have handled := sound.handled paged located runs enters good taken
      have known := (Machine.moves_of_steps (sound.upheld.saves paged runs.1 runs.2 running.equipped
        (sound.enters paged located runs enters).2.2).1.orderly taken).present p present
      refine ⟨known, fun _ stays => frame enters handled stays, ?_⟩
      rintro ⟨inUser, -⟩
      cases inUser
  | stay info h s q _ enters current taken returns =>
      have same : q = p := Option.some.inj (current.symm.trans runs.2)
      subst same
      have handled := sound.handled paged located runs enters good taken
      rw [(sound.enters paged located runs enters).1] at returns
      rcases handled.returned paged sound runs returns with ⟨kernel, mode, running', restored⟩
      rcases handled.upheld.working (by simp) handled.current with ⟨present', alive'⟩
      have kept := frame enters handled alive'
      have registers := restored _ _ kept.1
      have back : c'.Runs q := ⟨mode, by rw [kernel]; exact handled.current⟩
      refine ⟨by rw [kernel]; exact present', fun away => absurd back away, fun _ => ?_⟩
      refine ⟨registers.1, registers.2, ?_⟩
      rw [running'.satp, kernel]
      exact kept.2

/-- What one step is for a process whose program does not run: the process is left alone, or its program
runs again. -/
inductive Meanwhile (plat : Platform) (c : Computer) (p : Nat) (c' : Computer) : Prop
  | away (stopped : ¬ c'.Runs p) (untouched : Untouched c.kernel c'.kernel p) : Meanwhile plat c p c'
  | back (runs : c'.Runs p) (alive : Alive (c.kernel.object p))
      (resumed : Resumed plat c.kernel p c'.kernel) (running : Running plat c' p)
      (restored : ∀ x pc, Saved c'.kernel.memory (c'.kernel.object p).trapframe x pc →
        c'.core.x = x ∧ c'.core.pc = pc) : Meanwhile plat c p c'

theorem Sound.meanwhile (paged : plat.Paged t) (sound : Sound plat t c)
    (present : p ∈ c.kernel.processes) (away : ¬ c.Runs p)
    (good : ∀ image, Loads plat text c action image → GoodImage plat image)
    (taken : Steps plat located c action c') : Meanwhile plat c p c' := by
  have stranger : ∀ {q : Nat}, c'.kernel.currentProcess = some q → q ≠ p → ¬ c'.Runs p := by
    rintro q current other ⟨-, isCurrent⟩
    exact other (Option.some.inj (current.symm.trans isCurrent))
  have different : ∀ {q : Nat}, c.Runs q → q ≠ p := by
    rintro q runs rfl
    exact away runs
  cases taken with
  | compute x' pc' inUser => exact .away away (Untouched.refl present)
  | store s va byte taken =>
      rcases runs_of_user sound.upheld (mode_of_store taken) with ⟨q, runs⟩
      rcases sound.stored paged runs taken with ⟨-, current, -, others⟩
      exact .away (stranger current (different runs)) (others p present (different runs).symm)
  | scheduler event s mode core scheduling taken satp' =>
      have fine : ∀ image, c.machine.Loads plat event image → GoodImage plat image :=
        loads_of_scheduler scheduling good
      have kept := Machine.kept_of_steps paged.placed sound.upheld.orderly
        sound.upheld.watched.separated fine taken
      apply Meanwhile.away
      · rintro ⟨inUser, -⟩
        exact (Machine.moves_of_steps sound.upheld.orderly taken).current.2 scheduling inUser
      · exact kept.untouched p present fun works => works.1 scheduling
  | leave info h s core enters taken satp' =>
      rcases runs_of_user sound.upheld enters.inUser with ⟨q, runs⟩
      have handled := sound.handled paged located runs enters good taken
      rcases handled.others p present (different runs).symm with ⟨first, second⟩
      apply Meanwhile.away
      · rintro ⟨inUser, -⟩
        cases inUser
      · exact first.trans second
  | stay info h s q _ enters current taken returns =>
      have runs : c.Runs q := ⟨enters.inUser, current⟩
      have handled := sound.handled paged located runs enters good taken
      rw [(sound.enters paged located runs enters).1] at returns
      rcases handled.returned paged sound runs returns with ⟨rfl, -, -, -⟩
      rcases handled.others p present (different runs).symm with ⟨first, second⟩
      exact .away (stranger handled.current (different runs)) (first.trans second)
  | resume s q _ resumed current stack taken returns =>
      rcases sound.resumed paged resumed current taken returns with
        ⟨-, current', done, others, rfl, mode, running, restored⟩
      by_cases here : q = p
      · subst here
        have alive := (sound.upheld.working (by simp [machine, resumed]) current).2
        exact .back ⟨mode, current'⟩ alive done running restored
      · exact .away (stranger current' here) (others p present fun same => here same.symm)

/-- Whatever happens while the program of `p` does not run, it goes on as it would have. -/
theorem GoesOn.step (paged : plat.Paged t) (sound : Sound plat t c) (goes : GoesOn c p x pc satp)
    (away : ¬ c.Runs p)
    (good : ∀ image, Loads plat text c action image → GoodImage plat image)
    (taken : Steps plat located c action c') : GoesOn c' p x pc satp := by
  cases sound.meanwhile paged goes.present away good taken with
  | away stopped untouched =>
      exact ⟨untouched.present, fun _ stays => untouched.goesOn (goes.away away) stays,
        fun back => absurd back stopped⟩
  | back runs alive resumed running restored =>
      rcases goes.away away alive with ⟨saved, space⟩
      have sparing := resumed.sparing sound.upheld.watched.separated goes.present alive
      have present := ((sound.step paged good taken).upheld.working runs.busy runs.2).1
      have saved' : Saved c'.kernel.memory (c'.kernel.object p).trapframe x pc := by
        rw [sparing.object]
        exact saved.kept sparing.frame
      have registers := restored x pc saved'
      refine ⟨present, fun gone => absurd runs gone, fun _ => ⟨registers.1, registers.2, ?_⟩⟩
      rw [running.satp, sparing.object]
      exact space

end Preempting

end Computer

namespace Computer

section Progress

variable {plat : Platform} {text : Text} {t s : GlobalState} {c c' : Computer} {p : Nat}

theorem Sound.timer (paged : plat.Paged t) (located : TrampolineText plat text) (sound : Sound plat t c)
    (runs : c.Runs p) {info : TrapInfo} (timer : info.trap = .interrupt 5)
    (sepc : info.sepc = c.core.pc.toNat) :
    ∃ v, Steps plat located c (.event (.trap info)) v ∧ v.mode = .scheduler ∧
      v.kernel.pids = c.kernel.pids ∧ v.kernel.processes = c.kernel.processes ∧
      v.kernel.object p =
        (c.kernel.object p).switched (.yieldInUserTrap (c.kernel.object p).trapframe) ∧
      Equipped plat v.kernel.memory p (c.kernel.object p) := by
  rcases sound.trap_enters paged located runs with ⟨h, ran, called, -, -, -, only, -⟩
  rcases sound.upheld.saves paged runs.1 runs.2 (sound.running p runs).equipped only with
    ⟨upheld, equipped, -⟩
  have taken := Machine.timer_possible plat upheld.orderly rfl runs.2 info timer
  exact ⟨_, .leave c info h _ h.toCore ⟨runs.1, sepc, ran, called⟩ taken rfl, rfl, rfl, rfl,
    Function.update_self _ _ _, equipped⟩

def leavingHart (plat : Platform) (offset : Nat) (s : GlobalState) (p trapframe : Nat) : Hart where
  x := Function.update (fun _ => 0) .a0 (BitVec.ofNat 64 trapframe)
  csr := fun csr => match csr with
    | .satp => Sv48.satpFor plat.kernelPageTable
    | .stvec => trampolineWord
    | .sepc => word s.memory ((s.object p).trapframe + TrapFrame.sepc)
    | .sscratch => 0
  previous := .user
  privilege := .supervisor
  pc := trampolineWord + BitVec.ofNat 64 offset
  memory := s.memory

theorem leavingHart_returning (plat : Platform) (offset : Nat) (s : GlobalState) (p trapframe : Nat) :
    Returning plat offset (Sv48.satpFor plat.kernelPageTable) s p trapframe
      (leavingHart plat offset s p trapframe) :=
  ⟨rfl, rfl, rfl, rfl, rfl, rfl, rfl, rfl⟩

theorem exists_returns (located : TrampolineText plat text) (bridged : Bridged plat s.memory (s.object p))
    (equipped : Equipped plat s.memory p (s.object p)) :
    ∃ v, Returns plat located (Sv48.satpFor plat.kernelPageTable) s p (s.object p).trapframe v := by
  have returning := leavingHart_returning plat located.trampolineOffset s p (s.object p).trapframe
  rcases bridged.leaves equipped located returning.memory returning.privilege returning.satp returning.pc
    returning.argument with ⟨h', ran, -⟩
  exact ⟨_, _, h', returning, ran, rfl⟩

theorem Sound.resumes (paged : plat.Paged t) (located : TrampolineText plat text)
    (sound : Sound plat t c) (resumed : c.mode = .resumed) (current : c.kernel.currentProcess = some p)
    (context : (c.kernel.object p).context = .prepareFirstTimeExecution ∨
      ∃ trapframe, (c.kernel.object p).context = .yieldInUserTrap trapframe)
    (equipped : Equipped plat c.kernel.memory p (c.kernel.object p))
    (stack : HasStack c.kernel.memory (Sv48.satpFor plat.kernelPageTable) p) :
    ∃ v, Steps plat located c (.event .resume) v ∧ v.Runs p ∧ v.kernel = c.kernel := by
  have busy : c.machine.mode ≠ .scheduler := by simp [machine, resumed]
  have notUser : c.mode ≠ .user := by simp [resumed]
  have taken : c.machine.Steps plat .resume ⟨c.kernel, .user⟩ :=
    Machine.resume_possible sound.upheld.orderly resumed current context
  rcases sound.upheld.working busy current with ⟨present, alive⟩
  have bridged := sound.upheld.bridged paged present alive
  have provided := sound.upheld.watched.provided p present (Set.notMem_empty p) alive
  rcases exists_returns located bridged equipped with ⟨v, returns⟩
  have back := returns.running bridged provided rfl
  rw [← sound.kernelSatp notUser, ← provided.resumes] at returns
  rw [← sound.kernelSatp notUser] at stack
  refine ⟨v, .resume c c.kernel p v resumed current stack taken returns, ⟨back.2.1, ?_⟩, back.1⟩
  rw [back.1]
  exact current

/-- A thread that is switched to gets to user mode exactly if its process is equipped and has a
stack. -/
theorem Sound.resume_iff (paged : plat.Paged t) (located : TrampolineText plat text)
    (sound : Sound plat t c) (resumed : c.mode = .resumed) (current : c.kernel.currentProcess = some p)
    (context : (c.kernel.object p).context = .prepareFirstTimeExecution ∨
      ∃ trapframe, (c.kernel.object p).context = .yieldInUserTrap trapframe) :
    (∃ v, Steps plat located c (.event .resume) v ∧ v.Runs p) ↔
      Equipped plat c.kernel.memory p (c.kernel.object p) ∧
        HasStack c.kernel.memory (Sv48.satpFor plat.kernelPageTable) p := by
  constructor
  · rintro ⟨v, steps, back⟩
    cases steps with
    | scheduler event s mode core scheduling taken satp =>
        rw [resumed] at scheduling
        cases scheduling
    | resume s q _ resumed current' stack taken' returns =>
        rcases sound.resumed paged resumed current' taken' returns with
          ⟨-, -, -, -, kernel, -, running, -⟩
        have taken : c.machine.Steps plat .resume ⟨c.kernel, .user⟩ :=
          Machine.resume_possible sound.upheld.orderly resumed current context
        have deterministic : (⟨s, .user⟩ : Machine) = ⟨c.kernel, .user⟩ :=
          Machine.steps_unique taken' taken
        cases deterministic
        have same : q = p := Option.some.inj (current'.symm.trans current)
        subst same
        have equipped := running.equipped
        rw [kernel] at equipped
        rw [sound.kernelSatp (by simp [resumed])] at stack
        exact ⟨equipped, stack⟩
  · rintro ⟨equipped, stack⟩
    rcases sound.resumes paged located resumed current context equipped stack with ⟨v, steps, back, -⟩
    exact ⟨v, steps, back⟩

structure Waiting (plat : Platform) (c : Computer) (p : Nat) : Prop where
  scheduling : c.mode = .scheduler
  queue : c.kernel.pids = [p]
  present : p ∈ c.kernel.processes
  ready : c.kernel.Ready p
  equipped : Equipped plat c.kernel.memory p (c.kernel.object p)
  context : (c.kernel.object p).context = .prepareFirstTimeExecution ∨
    ∃ trapframe, (c.kernel.object p).context = .yieldInUserTrap trapframe

structure Alone (c : Computer) (p : Nat) : Prop where
  runs : c.Runs p
  queue : c.kernel.pids = [p]
  present : p ∈ c.kernel.processes
  running : (c.kernel.object p).processState = .running

theorem Waiting.goes_over (paged : plat.Paged t) (located : TrampolineText plat text)
    (waiting : Waiting plat c p) (sound : Sound plat t c)
    (stack : HasStack t.memory (Sv48.satpFor plat.kernelPageTable) p) :
    ∃ v w, Steps plat located c (.event .schedule) v ∧ v.mode = .resumed ∧
      Steps plat located v (.event .resume) w ∧ Alone w p := by
  have queued : (view c.kernel).Queued := by
    intro pid member
    change pid ∈ c.kernel.pids at member
    rw [waiting.queue, List.mem_singleton] at member
    rw [member]
    exact waiting.present
  rcases Machine.schedule_possible plat sound.upheld.orderly queued waiting.scheduling with
    ⟨m', taken, found, pids, picks, done⟩
  change Picks c.kernel.Ready c.kernel.pids found pids at picks
  rw [waiting.queue] at picks
  have same : pids = [p] := List.perm_singleton.mp picks.rotated.perm
  have isFound : found = some p := by
    cases found with
    | none => exact absurd waiting.ready (picks.none_iff.mp rfl p List.mem_cons_self)
    | some q =>
        rcases picks.first q rfl with ⟨ahead, behind, whole, -⟩
        have member : q ∈ [p] := by simp [whole]
        rw [List.mem_singleton.mp member]
  subst isFound
  subst same
  subst done
  have steps : Steps plat located c (.event .schedule) ⟨_, .resumed, c.core⟩ :=
    .scheduler c .schedule _ .resumed c.core waiting.scheduling taken rfl
  have after := sound.step paged (fun image loads => by
    rcases loads with ⟨-, name, impossible⟩ | ⟨-, info, impossible, -⟩
    · cases impossible
    · cases impossible) steps
  have own := Function.update_self p
    ({ c.kernel.object p with processState := .running } : Process) c.kernel.object
  have equipped : Equipped plat c.kernel.memory p
      { c.kernel.object p with processState := .running } :=
    waiting.equipped.congr rfl rfl (fun _ _ leaf => leaf) fun _ _ _ => rfl
  have context := waiting.context
  rw [← own] at equipped
  rcases after.resumes paged located rfl rfl (by simpa [machine] using context) equipped
    ((after.upheld.hasStack_iff paged p).mpr stack) with ⟨w, goes, runs, kernel⟩
  refine ⟨_, w, steps, rfl, goes, runs, ?_, ?_, ?_⟩
  · rw [kernel]
  · rw [kernel]
    exact waiting.present
  · rw [kernel]
    exact congrArg Process.processState own

theorem Alone.timer (paged : plat.Paged t) (located : TrampolineText plat text) (alone : Alone c p)
    (sound : Sound plat t c) {info : TrapInfo} (timer : info.trap = .interrupt 5)
    (sepc : info.sepc = c.core.pc.toNat) :
    ∃ v, Steps plat located c (.event (.trap info)) v ∧ Waiting plat v p := by
  rcases sound.timer paged located alone.runs timer sepc with
    ⟨v, steps, mode, pids, processes, object, equipped⟩
  have ready : readyIfRunning (c.kernel.object p) =
      { c.kernel.object p with processState := .ready } := by
    rw [readyIfRunning, if_pos alone.running]
  rw [Process.switched, ready] at object
  refine ⟨v, steps, mode, pids.trans alone.queue, ?_, ?_, ?_, ?_⟩
  · rw [processes]
    exact alone.present
  · rw [GlobalState.Ready, object]
  · rw [object]
    exact equipped.congr rfl rfl (fun _ _ leaf => leaf) fun _ _ _ => rfl
  · rw [object]
    exact Or.inr ⟨_, rfl⟩

theorem not_loads {event : Event} (created : ∀ name image, event ≠ .assign name image)
    (asked : ∀ info, event = .trap info → info.isSyscall = false) (image : List UInt8) :
    ¬ Loads plat text c (.event event) image := by
  have machine : ∀ m : Machine, ¬ m.Loads plat event image := by
    rintro m (⟨-, name, assigned⟩ | ⟨-, info, trap, isSyscall, -⟩)
    · exact created name image assigned
    · rw [asked info trap] at isSyscall
      cases isSyscall
  cases event with
  | trap info =>
      rintro ⟨h, -, loads⟩
      exact machine _ loads
  | assign name image => exact machine _
  | schedule => exact machine _
  | resume => exact machine _
  | save registers sepc => exact machine _
  | store va byte => exact machine _
  | interrupt info => exact machine _

theorem no_compute (image : List UInt8) : ¬ Loads plat text c .compute image := fun loads => loads

theorem Waiting.preempted (paged : plat.Paged t) (located : TrampolineText plat text)
    (waiting : Waiting plat c p) (sound : Sound plat t c)
    (stack : HasStack t.memory (Sv48.satpFor plat.kernelPageTable) p) (x : Register → Word)
    (info : TrapInfo)
    (timer : info.trap = .interrupt 5) (pc : Word) (sepc : info.sepc = pc.toNat) :
    ∃ before u after d,
      Run (Steps plat located) c (before ++ (u, .event (.trap info)) :: after) d ∧
      (∀ step ∈ before ++ (u, .event (.trap info)) :: after, ∀ image, ¬ Loads plat text step.1 step.2 image) ∧
      u.Runs p ∧ u.core.x = x ∧ u.core.pc = pc ∧ (∀ step ∈ after, ¬ step.1.Runs p) ∧ d.Runs p := by
  have schedules : ∀ (c : Computer) image, ¬ Loads plat text c (.event .schedule) image :=
    fun _ => not_loads (fun _ _ => by simp) fun _ => by simp
  have resumes : ∀ (c : Computer) image, ¬ Loads plat text c (.event .resume) image :=
    fun _ => not_loads (fun _ _ => by simp) fun _ => by simp
  have interrupts : ∀ (c : Computer) image, ¬ Loads plat text c (.event (.trap info)) image := by
    intro c
    apply not_loads (fun _ _ => by simp)
    rintro _ ⟨⟩
    rw [TrapInfo.isSyscall, timer]
    rfl
  rcases waiting.goes_over paged located sound stack with ⟨v, w, scheduled, resumed, switched, alone⟩
  have sound₁ := sound.step paged (fun image loads => absurd loads (schedules _ image)) scheduled
  have sound₂ := sound₁.step paged (fun image loads => absurd loads (resumes _ image)) switched
  have computed : Steps plat located w .compute { w with core := { w.core with x, pc } } :=
    .compute w x pc alone.runs.1
  have sound₃ := sound₂.step paged (fun image loads => absurd loads (no_compute image)) computed
  have alone₃ : Alone { w with core := { w.core with x, pc } } p :=
    ⟨alone.runs, alone.queue, alone.present, alone.running⟩
  rcases alone₃.timer paged located sound₃ timer sepc with ⟨u, preempted, waiting₄⟩
  have sound₄ := sound₃.step paged (fun image loads => absurd loads (interrupts _ image)) preempted
  rcases waiting₄.goes_over paged located sound₄ stack with ⟨v', d, scheduled', resumed', switched', alone'⟩
  refine ⟨[(c, .event .schedule), (v, .event .resume), (w, .compute)],
    { w with core := { w.core with x, pc } }, [(u, .event .schedule), (v', .event .resume)], d, ?_, ?_,
    alone₃.runs, rfl, rfl, ?_, alone'.runs⟩
  · exact (((((Run.single scheduled).snoc _ switched).snoc _ computed).snoc _ preempted).snoc _
      scheduled').snoc _ switched'
  · intro step member
    simp only [List.cons_append, List.nil_append, List.mem_cons, List.not_mem_nil, or_false] at member
    rcases member with rfl | rfl | rfl | rfl | rfl | rfl
    · exact schedules c
    · exact resumes v
    · exact no_compute
    · exact interrupts _
    · exact schedules u
    · exact resumes v'
  · intro step member
    simp only [List.mem_cons, List.not_mem_nil, or_false] at member
    rcases member with rfl | rfl
    · rintro ⟨inUser, -⟩
      change u.mode = .user at inUser
      rw [waiting₄.scheduling] at inUser
      cases inUser
    · rintro ⟨inUser, -⟩
      change v'.mode = .user at inUser
      rw [resumed'] at inUser
      cases inUser

theorem Sound.queued {located : TrampolineText plat text} {action : Action} (sound : Sound plat t c)
    (queued : (view c.kernel).Queued) (taken : Steps plat located c action c') :
    (view c'.kernel).Queued := by
  have saved : ∀ h : Hart, c.mode = .user →
      Machine.Orderly ⟨{ c.kernel with memory := h.memory }, .user⟩ := by
    intro h inUser
    have orderly := sound.upheld.orderly
    change View.Orderly c.mode (view c.kernel) at orderly
    rw [inUser] at orderly
    exact orderly
  cases taken with
  | compute x pc inUser => exact queued
  | store s va byte taken => exact Machine.queued_of_steps sound.upheld.orderly queued taken
  | scheduler event s mode core scheduling taken satp =>
      exact Machine.queued_of_steps sound.upheld.orderly queued taken
  | leave info h s core enters taken satp =>
      exact Machine.queued_of_steps (m := ⟨{ c.kernel with memory := h.memory }, .user⟩)
        (saved h enters.inUser) queued taken
  | stay info h s p _ enters current taken returns =>
      rcases returns with ⟨g, g', -, -, rfl⟩
      exact Machine.queued_of_steps (m := ⟨{ c.kernel with memory := h.memory }, .user⟩)
        (saved h enters.inUser) queued taken
  | resume s p _ resumed current stack taken returns =>
      rcases returns with ⟨g, g', -, -, rfl⟩
      exact Machine.queued_of_steps sound.upheld.orderly queued taken

end Progress

end Computer

section Results

variable {plat : Platform} (layout : KernelLayout plat) {text : Text} (located : TrampolineText plat text)
  {t : GlobalState} {core : Core} {c c' d : Computer} {p : Nat} {info : TrapInfo} {action : Action}
  {trace before after : List (Computer × Action)}

theorem Computer.Sound.boot (boots : layout.Boots plat.kernelPageTable t)
    (paging : core.csr .satp = Sv48.satpFor plat.kernelPageTable) :
    Computer.Sound plat t ⟨t, .scheduler, core⟩ := by
  have sustained := boots.sustained
  rcases boots.table with ⟨fresh, -⟩
  refine ⟨⟨sustained.orderly, ⟨sustained.reserved, fun _ _ => rfl, ?_⟩, sustained.ram⟩, ?_,
    fun _ => paging, ?_⟩
  · intro q present
    have none : t.processes = [] := fresh.processes
    change q ∈ t.processes at present
    rw [none] at present
    cases present
  · rintro q ⟨inUser, -⟩
    cases inUser
  · rintro q ⟨inUser, -⟩
    cases inUser

theorem Computer.Sound.run (paged : plat.Paged t) (sound : Computer.Sound plat t c)
    (run : Run (Computer.Steps plat located) c trace d)
    (good : ∀ step ∈ trace, ∀ image, Computer.Loads plat text step.1 step.2 image →
      GoodImage plat image) :
    ∀ u ∈ Run.visited trace d, Computer.Sound plat t u :=
  run.invariant_when (Computer.Sound plat t)
    (fun u action => ∀ image, Computer.Loads plat text u action image → GoodImage plat image) sound
    (fun _ _ _ sound loads taken => sound.step paged loads taken) good

/-- What holds behind a step, and lasts while the program of `p` does not run, holds when it is back. -/
theorem Computer.Sound.lasting (inv : Computer → Prop) (paged : plat.Paged t) (sound : Computer.Sound plat t c)
    (taken : Computer.Steps plat located c action c') (rest : Run (Computer.Steps plat located) c' after d)
    (good : ∀ step ∈ (c, action) :: after, ∀ image,
      Computer.Loads plat text step.1 step.2 image → GoodImage plat image)
    (away : ∀ step ∈ after, ¬ step.1.Runs p) (start : inv c')
    (keeps : ∀ u action v, Computer.Sound plat t u → inv u → ¬ u.Runs p →
      (∀ image, Computer.Loads plat text u action image → GoodImage plat image) →
      Computer.Steps plat located u action v → inv v) :
    Computer.Sound plat t d ∧ inv d := by
  have kept := rest.invariant_when (fun u => Computer.Sound plat t u ∧ inv u)
    (fun u action => ¬ u.Runs p ∧
      ∀ image, Computer.Loads plat text u action image → GoodImage plat image)
    ⟨sound.step paged (good (c, action) List.mem_cons_self) taken, start⟩
    (fun u action v holds condition taken => ⟨holds.1.step paged condition.2 taken,
      keeps u action v holds.1 holds.2 condition.1 condition.2 taken⟩)
    (fun step member => ⟨away step member, good step (List.mem_cons_of_mem _ member)⟩)
  exact kept d (Run.last_mem_visited _ _)

/-- Preemption is transparent. When the program of a process traps, and some time later runs again for
the first time, it has all registers, its address space and its program counter back, however often the
kernel has switched in between; behind a system call it goes on with the next instruction. -/
theorem preemption_transparent (boots : layout.Boots plat.kernelPageTable t)
    (paging : core.csr .satp = Sv48.satpFor plat.kernelPageTable)
    (run : Run (Computer.Steps plat located) ⟨t, .scheduler, core⟩
      (before ++ (c, .event (.trap info)) :: after) d)
    (good : ∀ step ∈ before ++ (c, .event (.trap info)) :: after, ∀ image,
      Computer.Loads plat text step.1 step.2 image → GoodImage plat image)
    (runs : c.Runs p) (away : ∀ step ∈ after, ¬ step.1.Runs p) (back : d.Runs p) :
    d.core.x = c.core.x ∧ d.core.pc = info.goesOnAt c.core.pc ∧
      d.core.csr .satp = c.core.csr .satp := by
  have paged := boots.paged
  have sound := (Computer.Sound.boot layout boots paging).run located paged run good c
    (List.mem_append_left _ (List.mem_map_of_mem (List.mem_append_right _ List.mem_cons_self)))
  rcases run.split with ⟨c', taken, -, rest⟩
  have fine : ∀ image, Computer.Loads plat text c (.event (.trap info)) image → GoodImage plat image :=
    good (c, .event (.trap info)) (List.mem_append_right _ List.mem_cons_self)
  have start := sound.traps paged runs fine taken
  have goes := sound.lasting located
    (fun u => u.GoesOn p c.core.x (info.goesOnAt c.core.pc) (c.core.csr .satp)) paged taken rest
    (fun step member => good step (List.mem_append_right _ member)) away start
    (fun _ _ _ sound goes away good taken => goes.step paged sound away good taken)
  exact goes.2.back back

/-- Wherever a program is interrupted, the trap arrives: the trampoline runs to its end, saves all
registers in the trap frame of the process and calls `user_trap` in the address space of the kernel, with
`sp` at the top of the process's own kernel stack, which is mapped. Nothing else in memory changes. -/
theorem traps_arrive (boots : layout.Boots plat.kernelPageTable t)
    (paging : core.csr .satp = Sv48.satpFor plat.kernelPageTable)
    (run : Run (Computer.Steps plat located) ⟨t, .scheduler, core⟩ trace d)
    (good : ∀ step ∈ trace, ∀ image, Computer.Loads plat text step.1 step.2 image →
      GoodImage plat image) :
    ∀ u ∈ Run.visited trace d, ∀ p, u.Runs p →
      ∃ h, u.hart.trap.steps Sv48.mmu text handleTrapsFromUserMode.length = some h ∧
        h.pc = BitVec.ofNat 64 plat.userTrapAddress ∧ h.privilege = .supervisor ∧
        h.csr .satp = Sv48.satpFor plat.kernelPageTable ∧
        Saved h.memory (u.kernel.object p).trapframe u.core.x u.core.pc ∧
        (u.kernel.object p).OnlyRegisters u.kernel.memory h.memory ∧
        (∃ address, kernelStackAddress p = .ok address ∧
          h.x .sp = BitVec.ofNat 64 address + 16384#64) ∧
        HasStack h.memory (h.csr .satp) p := by
  have paged := boots.paged
  intro u visited p runs
  have sound := (Computer.Sound.boot layout boots paging).run located paged run good u visited
  rcases sound.trap_enters paged located runs with
    ⟨h, ran, called, privilege, satp, saved, only, stack⟩
  rcases sound.upheld.saves paged runs.1 runs.2 (sound.running p runs).equipped only with ⟨upheld, -⟩
  refine ⟨h, ran, called, privilege, satp, saved, only, stack, ?_⟩
  rw [satp]
  exact (upheld.hasStack_iff paged p).mpr (sound.stacked p runs)

/-- Preemption never stops the machine, as long as there are stacks. The timer takes any program off the
hart; the scheduler goes over to a process exactly when one in the queue is ready; and a thread that is
switched to gets to user mode, unless the creation of its process has failed or its pid is from
`MAXIMUM_PROCESS` on. -/
theorem preemption_goes_on (boots : layout.Boots plat.kernelPageTable t)
    (paging : core.csr .satp = Sv48.satpFor plat.kernelPageTable)
    (run : Run (Computer.Steps plat located) ⟨t, .scheduler, core⟩ trace d)
    (good : ∀ step ∈ trace, ∀ image, Computer.Loads plat text step.1 step.2 image →
      GoodImage plat image) :
    ∀ u ∈ Run.visited trace d,
      (∀ p, u.Runs p → ∀ info : TrapInfo, info.trap = .interrupt 5 → info.sepc = u.core.pc.toNat →
        ∃ v, Computer.Steps plat located u (.event (.trap info)) v ∧ v.mode = .scheduler ∧
          v.kernel.object p =
            (u.kernel.object p).switched (.yieldInUserTrap (u.kernel.object p).trapframe)) ∧
      (u.mode = .scheduler → ∃ v, Computer.Steps plat located u (.event .schedule) v ∧
        (v.mode = .resumed ↔ ∃ p ∈ u.kernel.pids, u.kernel.Ready p)) ∧
      (u.mode = .resumed → ∀ p, u.kernel.currentProcess = some p →
        ((u.kernel.object p).context = .prepareFirstTimeExecution ∨
          ∃ trapframe, (u.kernel.object p).context = .yieldInUserTrap trapframe) →
        ((∃ v, Computer.Steps plat located u (.event .resume) v ∧ v.Runs p) ↔
          Equipped plat u.kernel.memory p (u.kernel.object p) ∧
            HasStack u.kernel.memory (Sv48.satpFor plat.kernelPageTable) p)) ∧
      ∀ p < 2 ^ 49,
        HasStack u.kernel.memory (Sv48.satpFor plat.kernelPageTable) p ↔ p < maximumProcess := by
  have paged := boots.paged
  have start := Computer.Sound.boot layout boots paging
  have none : t.pids = [] := boots.table.1.pids
  have kept := run.invariant_when
    (fun u => Computer.Sound plat t u ∧ (view u.kernel).Queued)
    (fun u action => ∀ image, Computer.Loads plat text u action image → GoodImage plat image)
    ⟨start, by
      intro pid member
      change pid ∈ t.pids at member
      rw [none] at member
      cases member⟩
    (fun _ _ _ holds loads taken => ⟨holds.1.step paged loads taken, holds.1.queued holds.2 taken⟩) good
  intro u visited
  rcases kept u visited with ⟨sound, queued⟩
  refine ⟨?_, ?_, ?_, ?_⟩
  · intro p runs info timer sepc
    rcases sound.timer paged located runs timer sepc with ⟨v, steps, mode, -, -, object, -⟩
    exact ⟨v, steps, mode, object⟩
  · intro scheduling
    rcases Machine.schedule_possible plat sound.upheld.orderly queued scheduling with
      ⟨m', taken, found, pids, picks, done⟩
    refine ⟨⟨m'.kernel, m'.mode, u.core⟩,
      .scheduler u .schedule m'.kernel m'.mode u.core scheduling taken rfl, ?_⟩
    cases found with
    | none =>
        rw [done]
        apply iff_of_false
        · intro impossible
          cases impossible
        · rintro ⟨p, member, ready⟩
          exact picks.none_iff.mp rfl p member ready
    | some p =>
        rw [done]
        rcases picks.first p rfl with ⟨ahead, behind, queue, ready, -, -⟩
        apply iff_of_true rfl
        have member : p ∈ ahead ++ p :: behind := by simp
        exact ⟨p, queue ▸ member, ready⟩
  · intro resumed p current context
    exact sound.resume_iff paged located resumed current context
  · intro p small
    exact (sound.upheld.hasStack_iff paged p).trans (paged.space.stacked p small)

end Results

namespace Board

def paged (root : Nat) : Platform := { linked with kernelPageTable := root }

theorem pagedLayout (root : Nat) : KernelLayout (paged root) := { linkedLayout with }

def trampolineText : Text :=
  assemble linked.trampolineCodeAddress (handleTrapsFromUserMode ++ returnToUserModeCode)

def located (root : Nat) : TrampolineText (paged root) trampolineText where
  trampolineOffset := 4 * handleTrapsFromUserMode.length
  stop := 4 * (handleTrapsFromUserMode ++ returnToUserModeCode).length
  handler := located_assemble linked.trampolineCodeAddress [] handleTrapsFromUserMode
    returnToUserModeCode
  returning := by
    have back := located_assemble linked.trampolineCodeAddress handleTrapsFromUserMode
      returnToUserModeCode []
    rw [List.append_nil] at back
    exact back
  inside := by decide

def pagedCore (root : Nat) : Core where
  x := fun _ => 0
  csr := fun csr => match csr with
    | .satp => Sv48.satpFor root
    | _ => 0
  previous := .user
  privilege := .supervisor
  pc := 0

theorem map_paged (root : Nat) : GlobalState.map (paged root) = GlobalState.map linked := rfl

theorem mapKernelStackFrom_paged (root table remaining i : Nat) :
    mapKernelStackFrom (paged root) table remaining i = mapKernelStackFrom linked table remaining i := by
  induction remaining generalizing i with
  | zero => rfl
  | succ remaining ih => simp only [mapKernelStackFrom, map_paged, ih]

theorem initialise_paged (root : Nat) :
    initialiseKernelPageTable (paged root) = initialiseKernelPageTable linked := by
  simp only [initialiseKernelPageTable, mapKernelStack, mapKernelStackFrom_paged, map_paged]
  rfl

theorem paged_boots : ∃ root t, (pagedLayout root).Boots (paged root).kernelPageTable t ∧
    t.pid = 0 ∧ Provisioned (paged root) (23 * 63 + 23) t := by
  rcases linked_provisioned with ⟨root, t, returned, unused, provisioned⟩
  rw [← initialise_paged root] at returned
  exact ⟨root, t, ⟨powered, rfl, powered_fresh, returned⟩, unused, provisioned.idle, provisioned.intact,
    provisioned.roomy⟩

theorem paged_parsed (root : Nat) : (paged root).minimalParse bare = some ⟨some [], 4096⟩ := by
  rw [← bare_parsed, paged]

theorem paged_good (root : Nat) : GoodImage (paged root) bare := bare_good

theorem assign_good {t : GlobalState} (root : Nat) (image : List UInt8)
    (loads : Computer.Loads (paged root) trampolineText ⟨t, .scheduler, pagedCore root⟩
      (.event (.assign [] bare)) image) : GoodImage (paged root) image := by
  rcases loads with ⟨-, name, assigned⟩ | ⟨-, info, trap, -⟩
  · cases assigned
    exact paged_good root
  · cases trap

theorem first_waits : ∃ root t c, (pagedLayout root).Boots (paged root).kernelPageTable t ∧
    Computer.Steps (paged root) (located root) ⟨t, .scheduler, pagedCore root⟩
      (.event (.assign [] bare)) c ∧ Computer.Waiting (paged root) c 1 := by
  rcases paged_boots with ⟨root, t, boots, -, provisioned⟩
  rcases bare_assigned (pagedLayout root).placed (paged_parsed root) boots.table.1 provisioned with
    ⟨u, taken, processes, pids, ready, equipped, context, -⟩
  refine ⟨root, t, ⟨u, .scheduler, pagedCore root⟩, boots, ?_, rfl, pids, ?_, ready, equipped,
    Or.inl context⟩
  · exact .scheduler _ _ u .scheduler (pagedCore root) rfl taken rfl
  · rw [processes]
    exact List.mem_singleton_self 1

def tick : TrapInfo := ⟨.interrupt 5, 4096, 0, 0, []⟩

theorem first_preempted : ∃ root t before u after d,
    (pagedLayout root).Boots (paged root).kernelPageTable t ∧
    Run (Computer.Steps (paged root) (located root)) ⟨t, .scheduler, pagedCore root⟩
      (before ++ (u, .event (.trap tick)) :: after) d ∧
    (∀ step ∈ before ++ (u, .event (.trap tick)) :: after, ∀ image,
      Computer.Loads (paged root) trampolineText step.1 step.2 image → GoodImage (paged root) image) ∧
    u.Runs 1 ∧ u.core.x = (fun _ => 7#64) ∧ u.core.pc = 4096#64 ∧
    (∀ step ∈ after, ¬ step.1.Runs 1) ∧ d.Runs 1 := by
  rcases first_waits with ⟨root, t, c, boots, created, waiting⟩
  have good := assign_good (t := t) root
  have sound := (Computer.Sound.boot (pagedLayout root) boots rfl).step boots.paged good created
  have stack := (boots.paged.space.stacked 1 (by decide)).mpr (by decide)
  rcases waiting.preempted boots.paged (located root) sound stack (fun _ => 7#64) tick rfl 4096#64 rfl with
    ⟨before, u, after, d, run, quiet, runs, registers, pc, away, back⟩
  refine ⟨root, t, (⟨t, .scheduler, pagedCore root⟩, .event (.assign [] bare)) :: before, u, after, d,
    boots, (Run.single created).append run, ?_, runs, registers, pc, away, back⟩
  intro step member image loads
  rcases List.mem_cons.mp member with rfl | later
  · exact good image loads
  · exact absurd loads (quiet step later image)

end Board

theorem preempted_with_sevens : ∃ root t before u after d,
    Run (Computer.Steps (Board.paged root) (Board.located root))
      ⟨t, .scheduler, Board.pagedCore root⟩ (before ++ (u, .event (.trap Board.tick)) :: after) d ∧
    u.Runs 1 ∧ u.core.x = (fun _ => 7#64) ∧ u.core.pc = 4096#64 ∧
    d.Runs 1 ∧ d.core.x = (fun _ => 7#64) ∧ d.core.pc = 4096#64 := by
  rcases Board.first_preempted with
    ⟨root, t, before, u, after, d, boots, run, good, runs, registers, pc, away, back⟩
  have same := preemption_transparent (Board.pagedLayout root) (Board.located root) boots rfl run good runs
    away back
  refine ⟨root, t, before, u, after, d, run, runs, registers, pc, back, same.1.trans registers, ?_⟩
  rw [same.2.1, pc]
  rfl

theorem first_trap_arrives : ∃ (root : Nat) (u : Computer) (h : Hart), u.Runs 1 ∧
    u.hart.trap.steps Sv48.mmu Board.trampolineText handleTrapsFromUserMode.length = some h ∧
    h.pc = BitVec.ofNat 64 (Board.paged root).userTrapAddress := by
  rcases Board.first_preempted with
    ⟨root, t, before, u, after, d, boots, run, good, runs, -⟩
  have visited : u ∈ Run.visited (before ++ (u, .event (.trap Board.tick)) :: after) d :=
    List.mem_append_left _ (List.mem_map_of_mem (List.mem_append_right _ List.mem_cons_self))
  rcases traps_arrive (Board.pagedLayout root) (Board.located root) boots rfl run good u visited 1 runs with
    ⟨h, ran, called, -⟩
  exact ⟨root, u, h, runs, ran, called⟩

theorem first_process_taken_off : ∃ (root : Nat) (u v : Computer), u.Runs 1 ∧
    Computer.Steps (Board.paged root) (Board.located root) u (.event (.trap Board.tick)) v ∧
    v.mode = .scheduler ∧ ¬ HasStack u.kernel.memory (Sv48.satpFor root) 64 := by
  rcases Board.first_preempted with
    ⟨root, t, before, u, after, d, boots, run, good, runs, -, pc, -⟩
  have visited : u ∈ Run.visited (before ++ (u, .event (.trap Board.tick)) :: after) d :=
    List.mem_append_left _ (List.mem_map_of_mem (List.mem_append_right _ List.mem_cons_self))
  have goesOn := preemption_goes_on (Board.pagedLayout root) (Board.located root) boots rfl run good u
    visited
  rcases goesOn.1 1 runs Board.tick rfl (by rw [pc]; rfl) with ⟨v, taken, scheduling, -⟩
  have last := goesOn.2.2.2 64 (by decide)
  exact ⟨root, u, v, runs, taken, scheduling, fun stack => absurd (last.mp stack) (by decide)⟩

end Jangri
