import Jangri.Janglib.WordLayout
import Jangri.Kernel.Refinement

namespace Jangri

open Lib

namespace Machine

variable {plat : Platform} {m m' : Machine} {trace : List (Machine × Event)}

def follow (plat : Platform) (m : Machine) : List Event → Option Machine
  | [] => some m
  | event :: rest =>
      match respond plat m.mode event with
      | none => none
      | some operation =>
          match operation m.kernel with
          | .error _ => none
          | .ok (mode, kernel) => follow plat ⟨kernel, mode⟩ rest

theorem follow_cons (event : Event) (rest : List Event) : follow plat m (event :: rest) =
    (follow plat m [event]).bind fun next => follow plat next rest := by
  rw [follow, follow]
  split
  next => rfl
  next operation responds =>
    split
    next => rfl
    next => rfl

theorem steps_of_follow {event : Event} (followed : follow plat m [event] = some m') :
    Steps plat m event m' := by
  rw [follow] at followed
  split at followed
  next => cases followed
  next operation responds =>
    split at followed
    next => cases followed
    next mode kernel ended =>
      have same : (⟨kernel, mode⟩ : Machine) = m' := Option.some.inj followed
      subst same
      exact ⟨operation, responds, ended⟩

theorem run_of_follow (events : List Event) (followed : follow plat m events = some m') :
    ∃ trace, Run (Steps plat) m trace m' ∧ trace.map Prod.snd = events := by
  induction events generalizing m with
  | nil =>
      obtain rfl := Option.some.inj followed
      exact ⟨[], Run.nil, rfl⟩
  | cons event rest ih =>
      rw [follow_cons] at followed
      obtain ⟨next, first, remaining⟩ := Option.bind_eq_some_iff.mp followed
      obtain ⟨trace, run, labels⟩ := ih remaining
      refine ⟨_, (Run.single (steps_of_follow first)).append run, ?_⟩
      rw [List.map_append, labels]
      rfl

def followIf (plat : Platform) (safe : Machine → Event → Bool) (m : Machine) :
    List Event → Option Machine
  | [] => some m
  | event :: rest =>
      if safe m event then
        (follow plat m [event]).bind fun next => followIf plat safe next rest
      else none

theorem run_of_followIf {safe : Machine → Event → Bool} (events : List Event)
    (followed : followIf plat safe m events = some m') :
    ∃ trace, Run (Steps plat) m trace m' ∧ trace.map Prod.snd = events ∧
      ∀ step ∈ trace, safe step.1 step.2 = true := by
  induction events generalizing m with
  | nil =>
      obtain rfl := Option.some.inj followed
      exact ⟨[], Run.nil, rfl, fun _ member => by cases member⟩
  | cons event rest ih =>
      rw [followIf] at followed
      split at followed
      next holds =>
        obtain ⟨next, first, remaining⟩ := Option.bind_eq_some_iff.mp followed
        obtain ⟨trace, run, labels, safe_⟩ := ih remaining
        refine ⟨_, (Run.single (steps_of_follow first)).append run, ?_, ?_⟩
        · rw [List.map_append, labels]
          rfl
        · exact List.forall_mem_append.mpr ⟨List.forall_mem_singleton.mpr holds, safe_⟩
      next => cases followed

def requested (plat : Platform) (m : Machine) : Option SyscallInfo := do
  let p ← m.kernel.currentProcess
  let (_, s₁) ← (handleSyscall (m.kernel.object p).trapframe m.kernel).toOption
  let (info, _) ← (readRequest plat (m.kernel.object p).pageTable s₁).toOption
  pure info

theorem requested_iff {request : SyscallInfo} : m.requested plat = some request ↔
    ∃ p s₁ s₂, m.kernel.currentProcess = some p ∧
      handleSyscall (m.kernel.object p).trapframe m.kernel = .ok ((), s₁) ∧
      readRequest plat (m.kernel.object p).pageTable s₁ = .ok (request, s₂) := by
  have ok : ∀ {β : Type} {x : Rust β} {b : β}, x.toOption = some b → x = .ok b := by
    intro β x b found
    cases x with
    | ok b' => exact congrArg Except.ok (Option.some.inj found)
    | error e => cases found
  constructor
  · intro asks
    obtain ⟨p, current, afterwards⟩ := Option.bind_eq_some_iff.mp asks
    obtain ⟨⟨u, s₁⟩, advanced, reading⟩ := Option.bind_eq_some_iff.mp afterwards
    obtain ⟨⟨info, s₂⟩, read, isRequest⟩ := Option.bind_eq_some_iff.mp reading
    have same : info = request := Option.some.inj isRequest
    rw [same] at read
    exact ⟨p, s₁, s₂, current, ok advanced, ok read⟩
  · rintro ⟨p, s₁, s₂, current, advanced, read⟩
    simp [requested, current, advanced, read, Except.toOption]

def stateOf (m : Machine) (p : Nat) : ProcessState := (m.kernel.object p).processState

def Orderly (m : Machine) : Prop := View.Orderly m.mode (view m.kernel)

theorem orderly_of_fresh (fresh : m.Fresh) : m.Orderly := by
  unfold Orderly
  rw [fresh.mode]
  exact View.orderly_empty _ fresh.processes fresh.held fresh.numReaders

theorem moves_of_steps (orderly : m.Orderly) {event : Event} (taken : Steps plat m event m') :
    View.Moves (m.asked plat event) m.mode (view m.kernel) m'.mode (view m'.kernel) := by
  obtain ⟨operation, responds, ended⟩ := taken
  have spec : wp operation (fun mode t => View.Moves (m.asked plat event) m.mode (view m.kernel)
      mode (view t)) (fun _ => True) m.kernel :=
    wp_respond (fun _ _ => trivial) plat (Or.inr trivial) m.mode orderly event operation responds
  have moved := wp_of_returns spec ended
  exact moved

theorem Orderly.steps (orderly : m.Orderly) {event : Event} (taken : Steps plat m event m') :
    m'.Orderly :=
  View.Orderly.moves orderly (moves_of_steps orderly taken)

theorem orderly_of_run (fresh : m.Fresh) (run : Run (Steps plat) m trace m') :
    ∀ u ∈ Run.visited trace m', u.Orderly :=
  run.invariant Orderly (orderly_of_fresh fresh) fun _ _ _ orderly taken => orderly.steps taken

/-- A process that has terminated stays so along every run that goes on from there. -/
theorem terminated_of_run (orderly : m.Orderly) (p : Nat) (present : p ∈ m.kernel.processes)
    (r : Except Fault Nat) (terminated : m.stateOf p = .terminated r)
    (run : Run (Steps plat) m trace m') :
    ∀ u ∈ Run.visited trace m', u.Orderly ∧ p ∈ u.kernel.processes ∧
      u.stateOf p = .terminated r := by
  refine run.invariant (fun u => u.Orderly ∧ p ∈ u.kernel.processes ∧ u.stateOf p = .terminated r)
    ⟨orderly, present, terminated⟩ ?_
  rintro t event u ⟨orderlyT, presentT, terminatedT⟩ taken
  exact ⟨orderlyT.steps taken, View.Orderly.terminated_moves orderlyT
    (moves_of_steps orderlyT taken) p presentT r terminatedT⟩

theorem ready_of_findReadyProcess (orderly : m.Orderly) (p : Nat) (s : GlobalState)
    (found : GlobalState.findReadyProcess m.kernel = .ok (some p, s)) : m.stateOf p = .ready := by
  have spec := @wp_findReadyProcess (fun _ => True) (fun _ _ => trivial) m.kernel orderly.held
  exact ((wp_of_returns spec found).2 p rfl).2

end Machine

namespace Board

def field (bytes : List UInt8) (offset width : Nat) : Nat :=
  WordLayout.wordOf ((bytes.drop offset).take width)

def programHeader (image : List UInt8) (offset : Nat) : ProgramHeader where
  pType := field image offset 4
  pFlags := field image (offset + 4) 4
  pOffset := field image (offset + 8) 8
  pVaddr := field image (offset + 16) 8
  pFilesz := field image (offset + 32) 8
  pMemsz := field image (offset + 40) 8

/-- What `ElfBytes::minimal_parse` makes of a little-endian 64-bit file without sections. -/
def parse (image : List UInt8) : Option ElfFile :=
  if image.take 6 = [0x7f, 0x45, 0x4c, 0x46, 2, 1] ∧ 64 ≤ image.length then
    let start := field image 32 8
    let count := field image 56 2
    if start = 0 then some ⟨none, field image 24 8⟩
    else if start + 56 * count ≤ image.length then
      some ⟨some ((List.range count).map fun i => programHeader image (start + 56 * i)),
        field image 24 8⟩
    else none
  else none

def program : List UInt8 :=
  [0x7f, 0x45, 0x4c, 0x46, 2, 1, 1, 0, 0, 0, 0, 0, 0, 0, 0, 0,
   2, 0, 0xf3, 0, 1, 0, 0, 0, 0, 0x10, 0, 0, 0, 0, 0, 0,
   64, 0, 0, 0, 0, 0, 0, 0, 0, 0, 0, 0, 0, 0, 0, 0,
   0, 0, 0, 0, 64, 0, 56, 0, 1, 0, 0, 0, 0, 0, 0, 0,
   1, 0, 0, 0, 7, 0, 0, 0, 0, 0, 0, 0, 0, 0, 0, 0,
   0, 0x10, 0, 0, 0, 0, 0, 0, 0, 0x10, 0, 0, 0, 0, 0, 0,
   120, 0, 0, 0, 0, 0, 0, 0, 0, 0x10, 0, 0, 0, 0, 0, 0,
   0, 0x10, 0, 0, 0, 0, 0, 0]

def plat : Platform where
  minimalParse := parse
  layout := wordLayout
  firmware := some
  kernelStart := 4096
  endOfKernelText := 16384
  kernelEnd := 65536
  text := by decide
  rest := by decide
  kernelPageTable := 4096
  trampolineCodeAddress := 8192
  userTrapAddress := 12288
  kernelKucom := 16384
  textAddress := 20480
  parameterAddress := 24576

def boot : Machine where
  mode := .scheduler
  kernel :=
    { memory := fun _ => 0
      nodeId := 0
      allocator :=
        { bitmaps := Bitmap.new
          memoryStart := 65536
          memoryEnd := 4259840
          currentSize := 4194304
          currentStart := 65536
          list := fun _ => ⟨none⟩ }
      object := Process.default
      processes := []
      numReaders := 0
      pids := []
      currentProcess := none
      pid := 0
      held := []
      inputBuffer := []
      cursorPosition := 0
      console := [] }

theorem boot_fresh : boot.Fresh := ⟨rfl, rfl, rfl, rfl, rfl, rfl, rfl⟩

def trapped (trap : Trap) : Event := .trap ⟨trap, 0, 0, 0, []⟩

def timer : Event := trapped (.interrupt 5)

def call : Event := trapped (.exception 8)

def askSpawn : List Event :=
  [.store (kucomPage + 8) 4, .store (kucomPage + 17) 0x10, .store (kucomPage + 33) 0x10,
   .store (kucomPage + 40) 120, .store (kucomPage + 48) 1]

def started : List Event := [.assign [] program, .schedule, .resume]

theorem run_of_check (events : List Event) (check : Machine → Bool)
    (passed : (Machine.follow plat boot events).map check = some true) :
    ∃ u trace, Run (Machine.Steps plat) boot trace u ∧ trace.map Prod.snd = events ∧
      check u = true := by
  obtain ⟨u, followed, holds⟩ := Option.map_eq_some_iff.mp passed
  obtain ⟨trace, run, labels⟩ := Machine.run_of_follow events followed
  exact ⟨u, trace, run, labels, holds⟩

theorem run_of_checks (safe : Machine → Event → Bool) (events : List Event) (check : Machine → Bool)
    (passed : (Machine.followIf plat safe boot events).map check = some true) :
    ∃ u trace, Run (Machine.Steps plat) boot trace u ∧ trace.map Prod.snd = events ∧
      (∀ step ∈ trace, safe step.1 step.2 = true) ∧ check u = true := by
  obtain ⟨u, followed, holds⟩ := Option.map_eq_some_iff.mp passed
  obtain ⟨trace, run, labels, safe_⟩ := Machine.run_of_followIf events followed
  exact ⟨u, trace, run, labels, safe_, holds⟩

theorem plat_silent : Silent plat := by
  refine ⟨by decide, fun m m' answered => ?_⟩
  exact (Option.some.inj answered).symm

end Board

section Results

variable (plat : Platform) (m m' : Machine) (trace : List (Machine × Event))

/-- At most one process runs, and only the current one; none runs when the scheduler looks for the
next; and a terminated process keeps its state and is not found again. -/
theorem scheduler_safe (fresh : m.Fresh) (run : Run (Machine.Steps plat) m trace m') :
    ∀ u ∈ Run.visited trace m',
      (∀ p ∈ u.kernel.processes, u.stateOf p = .running → u.kernel.currentProcess = some p) ∧
      (∀ p ∈ u.kernel.processes, ∀ q ∈ u.kernel.processes,
        u.stateOf p = .running → u.stateOf q = .running → p = q) ∧
      (u.mode = .scheduler → ∀ p ∈ u.kernel.processes, u.stateOf p ≠ .running) ∧
      ∀ p ∈ u.kernel.processes, ∀ r, u.stateOf p = .terminated r →
        ∀ trace' u', Run (Machine.Steps plat) u trace' u' → ∀ w ∈ Run.visited trace' u',
          w.stateOf p = .terminated r ∧
          ∀ s, GlobalState.findReadyProcess w.kernel ≠ .ok (some p, s) := by
  intro u visited
  have orderly := Machine.orderly_of_run fresh run u visited
  have isCurrent : ∀ p ∈ u.kernel.processes, u.stateOf p = .running →
      u.kernel.currentProcess = some p :=
    fun p present runs => (View.Orderly.running orderly p present runs).2
  refine ⟨isCurrent, ?_, ?_, ?_⟩
  · intro p presentP q presentQ runsP runsQ
    exact Option.some.inj ((isCurrent p presentP runsP).symm.trans (isCurrent q presentQ runsQ))
  · intro atHead p present runs
    exact (View.Orderly.running orderly p present runs).1 atHead
  · intro p present r terminated trace' u' later w visitedW
    obtain ⟨orderlyW, -, kept⟩ :=
      Machine.terminated_of_run orderly p present r terminated later w visitedW
    refine ⟨kept, fun s found => ?_⟩
    have ready := Machine.ready_of_findReadyProcess orderlyW p s found
    rw [kept] at ready
    cases ready

end Results

theorem first_process_runs : ∃ u trace, Run (Machine.Steps Board.plat) Board.boot trace u ∧
    u.stateOf 1 = .running ∧ u.kernel.currentProcess = some 1 := by
  obtain ⟨u, trace, run, -, holds⟩ := Board.run_of_check Board.started
    (fun u => decide (1 ∈ u.kernel.processes ∧ u.stateOf 1 = .running)) (by decide +kernel)
  obtain ⟨present, runs⟩ := of_decide_eq_true holds
  have safe := scheduler_safe Board.plat _ u trace Board.boot_fresh run u
    (Run.last_mem_visited trace u)
  exact ⟨u, trace, run, runs, safe.1 1 present runs⟩

section Results

variable (plat : Platform) (m m' : Machine) (trace : List (Machine × Event))

/-- Between operations, at every context switch among them, no mutex is held, and no operation
locks one that it already holds. -/
theorem never_locks_twice (silent : Silent plat) (fresh : m.Fresh)
    (run : Run (Machine.Steps plat) m trace m') :
    ∀ u ∈ Run.visited trace m', u.kernel.held = [] ∧
      ∀ event operation, respond plat u.mode event = some operation →
        ∀ hart, operation u.kernel ≠ .error (.panic (.deadlock hart)) := by
  intro u visited
  have orderly := Machine.orderly_of_run fresh run u visited
  refine ⟨orderly.held, fun event operation responds hart stopped => ?_⟩
  have spec := @wp_respond (fun reason => ∀ hart, reason ≠ .panic (.deadlock hart))
    (fun _ other => other) plat u.kernel (Or.inl silent) u.mode orderly event operation responds
  rw [wp_def, stopped] at spec
  exact spec hart rfl

end Results

theorem illegal_instruction_locks_once : ∃ u trace,
    Run (Machine.Steps Board.plat) Board.boot trace u ∧ u.mode = .user ∧ u.kernel.held = [] ∧
      userTrap Board.plat ⟨.exception 2, 0, 0, 0, []⟩ u.kernel ≠ .error (.panic (.deadlock 0)) := by
  obtain ⟨u, trace, run, -, holds⟩ := Board.run_of_check Board.started
    (fun u => decide (u.mode = .user)) (by decide +kernel)
  have isUser : u.mode = .user := of_decide_eq_true holds
  have once := never_locks_twice Board.plat _ u trace Board.plat_silent Board.boot_fresh run u
    (Run.last_mem_visited trace u)
  have responds : respond Board.plat u.mode (.trap ⟨.exception 2, 0, 0, 0, []⟩) =
      some (userTrap Board.plat ⟨.exception 2, 0, 0, 0, []⟩) := by
    rw [isUser]
    rfl
  exact ⟨u, trace, run, isUser, once.1, once.2 _ _ responds 0⟩

end Jangri
