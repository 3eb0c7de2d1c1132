import Jangri.Kernel.Runs

/-! What `spawn` with `wait` does to its caller.

`Process::wait` marks the process and switches to the scheduler. `spawn` only marks it: `handle`
writes the answer and `user_trap` goes back to user mode, where the caller runs on until its time
slice ends. -/

namespace Jangri

open Lib

namespace View

variable {mode mode' : Mode} {v w : View} {asked : Asked}

def Unblocked (mode : Mode) (v : View) : Prop :=
  mode ≠ .scheduler → ∀ p c, v.currentProcess = some p → v.state p ≠ .waiting c

theorem Orderly.current_present (orderly : Orderly .user v) (p : Nat)
    (current : v.currentProcess = some p) : p ∈ v.processes := by
  obtain ⟨p', present, current', -⟩ := orderly.current (by decide)
  rw [current] at current'
  rw [Option.some.inj current']
  exact present

theorem unblocked_effect (orderly : Orderly .user v) (good : Unblocked .user v) (p : Nat)
    (current : v.currentProcess = some p) (effect : Effect v p asked true w) :
    Unblocked .user w ↔ ¬ asked.blocks := by
  have present := orderly.current_present p current
  have awake : ∀ c, v.state p ≠ .waiting c := fun c => good (by decide) p c current
  have created : ∀ c, v.created.state p ≠ .waiting c := by
    intro c
    rw [orderly.state_created p present]
    exact awake c
  have same : ∀ {q : Nat}, v.currentProcess = some q → q = p := by
    intro q current'
    rw [current] at current'
    exact (Option.some.inj current').symm
  cases effect with
  | quiet free stays => exact ⟨fun _ => free, fun _ => good⟩
  | failed free stays =>
      refine ⟨fun _ => free, fun _ _ q c current' => ?_⟩
      rw [same current']
      exact created c
  | spawned wait exactly stays =>
      cases wait with
      | true =>
          have waits : (v.created.adopted p (v.pid + 1) true).state p = .waiting (v.pid + 1) :=
            Function.update_self _ _ _
          have blocked : asked.blocks := exactly.mp rfl
          refine ⟨fun unblocked => ?_, fun free => absurd blocked free⟩
          exact absurd waits (unblocked (by decide) p (v.pid + 1) current)
      | false =>
          have free : ¬ asked.blocks := fun blocked => by cases exactly.mpr blocked
          refine ⟨fun _ => free, fun _ _ q c current' => ?_⟩
          rw [same current']
          exact created c

theorem unblocked_moves (orderly : Orderly mode v) (good : Unblocked mode v)
    (inUser : asked.blocks → mode = .user) (moves : Moves asked mode v mode' w) :
    Unblocked mode' w ↔ ¬ asked.blocks := by
  have atHead : ∀ w : View, Unblocked .scheduler w := fun _ leaves => absurd rfl leaves
  cases moves with
  | created => exact ⟨fun _ blocked => absurd (inUser blocked) (by decide), fun _ => atHead _⟩
  | quiet => exact ⟨fun _ blocked => absurd (inUser blocked) (by decide), fun _ => atHead _⟩
  | idle pids => exact ⟨fun _ blocked => absurd (inUser blocked) (by decide), fun _ => atHead _⟩
  | chosen pids p present ready =>
      refine ⟨fun _ blocked => absurd (inUser blocked) (by decide), fun _ _ q c current => ?_⟩
      obtain rfl := Option.some.inj current
      simp
  | continued =>
      refine ⟨fun _ blocked => absurd (inUser blocked) (by decide), fun _ _ => good (by decide)⟩
  | handled p current effect => exact unblocked_effect orderly good p current effect
  | left p current effect =>
      refine ⟨fun _ => ?_, fun _ => atHead _⟩
      cases effect with
      | exited status free exits => exact free
      | yielded free stays => exact free

/-- A successful spawn with `wait` ends in user mode, with the caller waiting for a process that
has not begun. -/
theorem moves_of_blocks (orderly : Orderly .user v) (moves : Moves asked .user v mode' w)
    (blocked : asked.blocks) :
    mode' = .user ∧ w.currentProcess = v.currentProcess ∧ ∃ p, v.currentProcess = some p ∧
      w.state p = .waiting (v.pid + 1) ∧ w.state (v.pid + 1) = .ready := by
  cases moves with
  | handled p current effect =>
      cases effect with
      | quiet free stays => exact absurd blocked free
      | failed free stays => exact absurd blocked free
      | spawned wait exactly stays =>
          obtain rfl : wait = true := exactly.mpr blocked
          have different : v.pid + 1 ≠ p :=
            (orderly.fresh p (orderly.current_present p current)).symm
          refine ⟨rfl, rfl, p, current, Function.update_self _ _ _, ?_⟩
          exact (Function.update_of_ne different _ _).trans (Function.update_self _ _ _)
  | left p current effect =>
      cases effect with
      | exited status free exits => exact absurd blocked free
      | yielded free stays => exact absurd blocked free

end View

namespace Machine

variable {plat : Platform} {m m' : Machine} {trace : List (Machine × Event)}

theorem Orderly.inUser (orderly : m.Orderly) (isUser : m.mode = .user) :
    View.Orderly .user (view m.kernel) := by
  unfold Orderly at orderly
  rw [isUser] at orderly
  exact orderly

theorem WaitsFor.child_eq (orderly : m.Orderly) {event : Event} {child : Nat}
    (waits : m.WaitsFor plat event child) : child = m.kernel.pid + 1 := by
  obtain ⟨isUser, info, -, -, p, nameStart, nameLen, start, len, s₁, s₂, s₃, current, advanced, read,
    spawned⟩ := waits
  have idle : m.kernel.held = [] := orderly.held
  have tolerant : Tolerant fun _ => True := fun _ _ => trivial
  have advances : Keeps (fun _ => True) [] (handleSyscall (m.kernel.object p).trapframe) :=
    keeps_handleSyscall tolerant _
  have reads : Keeps (fun _ => True) [.arch, .allocator]
      (readRequest plat (m.kernel.object p).pageTable) :=
    keeps_readRequest tolerant plat (by simp) (by simp) _
  have same₁ := advances.returned (free_of_idle idle) advanced
  have idle₁ : s₁.held = [] := (congrArg View.held same₁).trans idle
  have same₂ := reads.returned (free_of_idle idle₁) read
  have idle₂ : s₂.held = [] := (congrArg View.held same₂).trans idle₁
  have pid : s₂.pid = m.kernel.pid := congrArg View.pid (same₂.trans same₁)
  have present : p ∈ m.kernel.processes := (orderly.inUser isUser).current_present p current
  have old : p ≠ s₂.pid + 1 := by
    rw [pid]
    exact View.Orderly.fresh orderly p present
  have spec := wp_spawn tolerant plat p nameStart nameLen start len true
    (m.kernel.object p).pageTable idle₂ old
  unfold wpr at spec
  have ended := (wp_of_returns spec spawned).1
  rw [ended, pid]

theorem WaitsFor.steps (orderly : m.Orderly) {event : Event} {child : Nat}
    (waits : m.WaitsFor plat event child) (taken : Steps plat m event m') :
    m'.mode = .user ∧ m'.kernel.currentProcess = m.kernel.currentProcess ∧
      (∃ p, m.kernel.currentProcess = some p ∧ m'.stateOf p = .waiting child) ∧
      m'.stateOf child = .ready := by
  have moves := moves_of_steps orderly taken
  have isChild := waits.child_eq orderly
  have inUser := orderly.inUser waits.1
  rw [waits.1] at moves
  obtain ⟨mode, current, p, isCurrent, waiting, ready⟩ :=
    View.moves_of_blocks inUser moves ⟨child, waits⟩
  rw [isChild]
  exact ⟨mode, current, ⟨p, isCurrent, waiting⟩, ready⟩

def Unblocked (m : Machine) : Prop := View.Unblocked m.mode (view m.kernel)

theorem unblocked_iff_of_run (fresh : m.Fresh) (run : Run (Steps plat) m trace m') :
    (∀ u ∈ Run.visited trace m', u.Unblocked) ↔
      ∀ step ∈ trace, ¬ ∃ child, step.1.WaitsFor plat step.2 child := by
  refine run.good_iff Orderly Unblocked (fun u event => ¬ ∃ child, u.WaitsFor plat event child)
    (orderly_of_fresh fresh) ?_ (fun _ _ _ orderly taken => orderly.steps taken) ?_
  · intro leaves
    exact absurd fresh.mode leaves
  · intro u event u' orderly good taken
    refine View.unblocked_moves orderly good ?_ (moves_of_steps orderly taken)
    rintro ⟨child, waits⟩
    exact waits.1

end Machine

/-- A caller that waits for `child` executes nothing in user mode before `child` has terminated,
and no waiting process is ever in user mode. -/
def SpawnBlocks (plat : Platform) (trace : List (Machine × Event)) (m' : Machine) : Prop :=
  (∀ before u event after child, trace = before ++ (u, event) :: after →
    u.WaitsFor plat event child → ∀ w ∈ Run.visited after m', w.mode = .user →
      w.kernel.currentProcess = u.kernel.currentProcess → ∃ r, w.stateOf child = .terminated r) ∧
  ∀ u ∈ Run.visited trace m', u.mode = .user → ∀ p c, u.kernel.currentProcess = some p →
    u.stateOf p ≠ .waiting c

/-- The code meets this exactly in the runs in which no spawn with `wait` succeeds: each one that
does goes back to user mode at once, with its caller waiting for a process that is only ready. -/
theorem spawn_blocks_iff (plat : Platform) (m m' : Machine) (trace : List (Machine × Event))
    (fresh : m.Fresh) (run : Run (Machine.Steps plat) m trace m') :
    (SpawnBlocks plat trace m' ↔
      ∀ step ∈ trace, ¬ ∃ child, step.1.WaitsFor plat step.2 child) ∧
    ∀ u ∈ Run.visited trace m', ∀ event child u', u.WaitsFor plat event child →
      Machine.Steps plat u event u' → u'.mode = .user ∧
        u'.kernel.currentProcess = u.kernel.currentProcess ∧
        (∃ p, u.kernel.currentProcess = some p ∧ u'.stateOf p = .waiting child) ∧
        u'.stateOf child = .ready := by
  have exactly := Machine.unblocked_iff_of_run fresh run
  refine ⟨⟨fun blocks step member => ?_, fun none_ => ⟨?_, ?_⟩⟩, ?_⟩
  · rintro ⟨child, waits⟩
    obtain ⟨u, event⟩ := step
    obtain ⟨before, after, rfl⟩ := List.append_of_mem member
    obtain ⟨u', taken, lead, rest⟩ := run.split
    have orderly := Machine.orderly_of_run fresh lead u (Run.last_mem_visited before u)
    obtain ⟨isUser, current, -, ready⟩ := waits.steps orderly taken
    obtain ⟨r, terminated⟩ := blocks.1 before u event after child rfl waits u'
      rest.first_mem_visited isUser current
    rw [ready] at terminated
    cases terminated
  · intro before u event after child split waits
    have member : (u, event) ∈ trace := by
      rw [split]
      simp
    exact absurd ⟨child, waits⟩ (none_ _ member)
  · intro u visited isUser p c current
    refine exactly.mpr none_ u visited ?_ p c current
    rw [isUser]
    decide
  · intro u visited event child u' waits taken
    exact waits.steps (Machine.orderly_of_run fresh run u visited) taken

namespace Board

def askStart : List Event := askSpawn.dropLast

def proceeds (m : Machine) : Event → Bool
  | .trap _ =>
      match m.requested plat with
      | some (.syscall (.spawn _ _ _ _ wait)) => !wait
      | _ => true
  | _ => true

theorem not_waitsFor_of_proceeds {m : Machine} {event : Event} (free : proceeds m event = true) :
    ¬ ∃ child, m.WaitsFor plat event child := by
  rintro ⟨child, -, info, rfl, -, p, nameStart, nameLen, start, len, s₁, s₂, s₃, current, advanced, read, -⟩
  have asks := Machine.requested_iff.mpr ⟨p, s₁, s₂, current, advanced, read⟩
  simp [proceeds, asks] at free

end Board

theorem start_blocks : ∃ u trace, Run (Machine.Steps Board.plat) Board.boot trace u ∧
    trace.map Prod.snd = Board.started ++ Board.askStart ++
      [Board.call, Board.timer, .schedule, .resume, Board.timer, .schedule, .resume] ∧
    u.mode = .user ∧ u.kernel.currentProcess = some 2 ∧ u.stateOf 1 = .ready ∧
    SpawnBlocks Board.plat trace u := by
  obtain ⟨u, trace, run, labels, free, holds⟩ := Board.run_of_checks Board.proceeds
    (Board.started ++ Board.askStart ++
      [Board.call, Board.timer, .schedule, .resume, Board.timer, .schedule, .resume])
    (fun u => decide (u.mode = .user ∧ u.kernel.currentProcess = some 2 ∧ u.stateOf 1 = .ready))
    (by decide +kernel)
  obtain ⟨isUser, current, ready⟩ := of_decide_eq_true holds
  have blocks := (spawn_blocks_iff Board.plat _ u trace Board.boot_fresh run).1.mpr
    fun step member => Board.not_waitsFor_of_proceeds (free step member)
  exact ⟨u, trace, run, labels, isUser, current, ready, blocks⟩

/-- A program spawns a copy of itself with `wait` and is back in user mode, waiting. -/
theorem waiting_spawn_returns : ∃ u trace, Run (Machine.Steps Board.plat) Board.boot trace u ∧
    trace.map Prod.snd = Board.started ++ Board.askSpawn ++ [Board.call] ∧
    ¬ SpawnBlocks Board.plat trace u := by
  obtain ⟨u, trace, run, labels, holds⟩ := Board.run_of_check
    (Board.started ++ Board.askSpawn ++ [Board.call]) (fun u => decide (u.mode = .user ∧
      u.kernel.currentProcess = some 1 ∧ u.stateOf 1 = .waiting 2)) (by decide +kernel)
  obtain ⟨isUser, current, waits⟩ := of_decide_eq_true holds
  refine ⟨u, trace, run, labels, fun blocks => ?_⟩
  exact blocks.2 u (Run.last_mem_visited trace u) isUser 1 2 current waits

end Jangri
