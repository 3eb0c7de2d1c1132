import Jangri.Kernel.RoundRobin
import Jangri.Kernel.Outcomes

namespace Jangri

open Lib

section Operations

variable {plat : Platform} {halts : Halt → Prop} {s : GlobalState} {p : Nat}

/-- The scheduler picks a ready process, the first in the queue, and makes it the running one. -/
theorem wp_schedule_known (idle : s.Idle) (known : ∀ pid ∈ s.pids, pid ∈ s.processes) :
    wp schedule (fun mode t => ∃ found pids, Picks s.Ready s.pids found pids ∧
      match found with
      | none => mode = .scheduler ∧ t = { s with pids }
      | some p => mode = .resumed ∧ t = { s with
          pids, currentProcess := some p
          object := Function.update s.object p { s.object p with processState := .running } })
      halts s := by
  rw [schedule, wp_bind]
  apply wp_weaken (wp_findReadyProcess_known idle known)
  rintro found t ⟨rest, picks⟩
  generalize t.pids = pids at rest picks
  subst rest
  cases found with
  | none =>
      simp only [wp_pure]
      exact ⟨none, pids, picks, trivial, rfl⟩
  | some p =>
      rcases picks.first p rfl with ⟨ahead, behind, queue, -⟩
      have present : p ∈ s.processes := known p (by rw [queue]; simp)
      have idle' : ({ s with pids } : GlobalState).Idle := ⟨idle.held, idle.numReaders⟩
      simp only [wp_bind]
      apply wp_weaken (wp_getProcess_known idle' present)
      rintro found u ⟨rfl, rfl⟩
      rw [wp_liftRust, unwrap]
      simp only [pure_eq_ok]
      rw [wp_withLock _ _ _ (by simp [idle.held]), wp_modifyObject]
      simp only [List.erase_cons_head]
      rw [GlobalState.setCurrentProcess, wp_withLock _ _ _ (by simp [idle.held]), wp_def]
      simp only [List.erase_cons_head, wp_pure]
      exact ⟨some p, pids, picks, trivial, rfl⟩

theorem wp_returnToUserMode_some (idle : s.held = []) (current : s.currentProcess = some p) :
    wp returnToUserMode (fun mode t => mode = .user ∧ t = s) halts s := by
  rw [returnToUserMode, wp_bind, setUpSupervisorToUserModeTransition, wp_bind]
  apply wp_currentProcess_some idle current
  rw [wp_withLock _ _ _ (by simp [idle]), wp_pure, List.erase_cons_head, wp_pure]
  exact ⟨rfl, rfl⟩

theorem expect_current {text : String} (current : s.currentProcess = some p) :
    expect text s.currentProcess = .ok p := by
  rw [current]
  rfl

theorem wp_switchAway_exact (idle : s.held = []) (current : s.currentProcess = some p)
    (context : Context) :
    wp (switchToSchedulerContext context) (fun _ t => t = { s with
      object := Function.update s.object p { s.object p with context } }) halts s := by
  rw [switchToSchedulerContext]
  apply (wp_bind currentProcess _ _).mpr
  apply wp_currentProcess_some idle current
  rw [wp_bind, wp_withLock _ _ _ (by simp [idle]), wp_pure, List.erase_cons_head, wp_modifyObject]

theorem wp_yieldCpu_exact (idle : s.held = []) (current : s.currentProcess = some p)
    (context : Context) :
    wp (yieldCpu context) (fun _ t => t = { s with
      object := Function.update s.object p ((s.object p).switched context) }) halts s := by
  rw [yieldCpu, wp_bind, wp_bind, wp_getCurrentProcess (by simp [idle]), wp_liftRust,
    expect_current current]
  simp only
  rw [wp_bind, wp_withLock _ _ _ (by simp [idle]), wp_modifyObject, List.erase_cons_head]
  have away := @wp_switchAway_exact halts { s with
    object := Function.update s.object p (readyIfRunning (s.object p)) } p idle current context
  apply wp_weaken away
  rintro _ t rfl
  simp only [Function.update_self, Function.update_idem]
  rfl

theorem wp_userTrap_timer (idle : s.held = []) (current : s.currentProcess = some p) (info : TrapInfo)
    (timer : info.trap = .interrupt 5) :
    wp (userTrap plat info) (fun mode t => mode = .scheduler ∧ t = { s with
      object := Function.update s.object p
        ((s.object p).switched (.yieldInUserTrap (s.object p).trapframe)) }) halts s := by
  have isTimer : info.isTimerInterrupt = true := by
    rw [TrapInfo.isTimerInterrupt, timer]
    rfl
  rw [userTrap, wp_bind, wp_bind, wp_getCurrentProcess (by simp [idle]), wp_liftRust,
    expect_current current]
  simp only
  rw [wp_bind, wp_withLock _ _ _ (by simp [idle]), wp_getObject, List.erase_cons_head, dispatch,
    if_pos isTimer, wp_bind, wp_bind]
  apply wp_weaken (wp_yieldCpu_exact idle current _)
  rintro _ t rfl
  rw [wp_pure, leave, if_neg Bool.false_ne_true, wp_pure]
  exact ⟨rfl, rfl⟩

theorem wp_switchedTo_user (idle : s.held = []) (current : s.currentProcess = some p)
    (context : (s.object p).context = .prepareFirstTimeExecution ∨
      ∃ trapframe, (s.object p).context = .yieldInUserTrap trapframe) :
    wp (switchedTo plat) (fun mode t => mode = .user ∧ t = s) halts s := by
  rw [wp_def, switchedTo_of_current current, ← wp_def]
  rcases context with first | ⟨trapframe, yielded⟩
  · rw [first, goOn, prepareFirstTimeExecution, wp_bind, wp_bind, wp_getCurrentProcess (by simp [idle]),
      wp_liftRust, expect_current current]
    simp only [wp_bind]
    rw [wp_withLock _ _ _ (by simp [idle]), wp_pure, List.erase_cons_head]
    exact wp_returnToUserMode_some idle current
  · rw [yielded, goOn]
    exact wp_returnToUserMode_some idle current

end Operations

def View.Queued (v : View) : Prop := ∀ pid ∈ v.pids, pid ∈ v.processes

namespace View

variable {v w : View} {asked : Asked}

theorem queued_created (queued : v.Queued) : v.created.Queued := by
  intro pid member
  rcases List.mem_append.mp member with old | new
  · exact List.mem_cons_of_mem _ (queued pid old)
  · rw [List.mem_singleton.mp new]
    exact List.mem_cons_self

theorem Effect.queued {caller : Nat} {returned : Bool} (effect : Effect v caller asked returned w)
    (queued : v.Queued) : w.Queued := by
  cases effect with
  | quiet => exact queued
  | failed => exact queued_created queued
  | spawned wait exactly stays => exact queued_created queued
  | exited status free exits => exact queued
  | yielded => exact queued

theorem Moves.queued {mode mode' : Mode} (moves : Moves asked mode v mode' w) (busy : mode ≠ .scheduler)
    (queued : v.Queued) : w.Queued := by
  cases moves with
  | created => exact absurd rfl busy
  | quiet => exact absurd rfl busy
  | idle => exact absurd rfl busy
  | chosen => exact absurd rfl busy
  | continued => exact queued
  | handled p current effect => exact effect.queued queued
  | left p current effect => exact effect.queued queued

end View

namespace Machine

variable {plat : Platform} {m m' : Machine} {p : Nat}

theorem Orderly.idle (orderly : m.Orderly) : m.kernel.Idle := ⟨orderly.held, orderly.numReaders⟩

theorem queued_of_scheduler {s : GlobalState} {event : Event} {operation : Kernel Mode}
    (idle : s.Idle) (queued : (view s).Queued) (responds : respond plat .scheduler event = some operation) :
    wp operation (fun _ t => (view t).Queued) Any s := by
  have tolerant : Tolerant Any := fun _ _ => trivial
  cases event with
  | assign name image =>
      cases responds
      have assigned := wp_assignProcess tolerant plat name image idle.held
      unfold wpr at assigned
      rw [wp_bind]
      apply wp_weaken assigned
      intro r t done
      have created : view t = (view s).created := by
        cases r with
        | ok pid => exact done.2
        | error e => exact done
      rw [wp_pure, created]
      exact View.queued_created queued
  | schedule =>
      cases responds
      apply wp_weaken (wp_schedule_known idle queued)
      rintro mode t ⟨found, pids, picks, done⟩
      have rotated : ∀ pid ∈ pids, pid ∈ s.processes :=
        fun pid member => queued pid (picks.rotated.mem_iff.mp member)
      cases found with
      | none =>
          rw [done.2]
          exact rotated
      | some p =>
          rw [done.2]
          exact rotated
  | interrupt info =>
      cases responds
      unfold supervisorTrap
      split
      · rw [wp_pure]
        exact queued
      · split
        · rw [wp_bind]
          apply wp_keeps [.inputBuffer] (keeps_handleExternalInterrupt tolerant (by simp) info)
            (free_of_idle idle.held)
          intro _ t same
          rw [wp_pure, same]
          exact queued
        · split
          · rw [wp_def]
            trivial
          · rw [wp_pure]
            exact queued
  | resume => cases responds
  | save registers sepc => cases responds
  | trap info => cases responds
  | store va byte => cases responds

theorem queued_of_steps (orderly : m.Orderly) (queued : (view m.kernel).Queued) {event : Event}
    (taken : Steps plat m event m') : (view m'.kernel).Queued := by
  by_cases scheduling : m.mode = .scheduler
  · rcases taken with ⟨operation, responds, ended⟩
    rw [scheduling] at responds
    have spec := queued_of_scheduler orderly.idle queued responds
    have done := wp_of_returns spec ended
    exact done
  · exact (moves_of_steps orderly taken).queued scheduling queued

theorem steps_unique {m'' : Machine} {event : Event} (first : Steps plat m event m')
    (second : Steps plat m event m'') : m' = m'' := by
  rcases first with ⟨operation, responds, ended⟩
  rcases second with ⟨operation', responds', ended'⟩
  cases responds.symm.trans responds'
  have same := Except.ok.inj (ended.symm.trans ended')
  cases m'
  cases m''
  cases same
  rfl

variable (plat) in
/-- The scheduler goes over to a process whenever one in the queue is ready. -/
theorem schedule_possible (orderly : m.Orderly) (queued : (view m.kernel).Queued)
    (scheduling : m.mode = .scheduler) :
    ∃ m', Steps plat m .schedule m' ∧ ∃ found pids, Picks m.kernel.Ready m.kernel.pids found pids ∧
      match found with
      | none => m' = ⟨{ m.kernel with pids }, .scheduler⟩
      | some p => m' = ⟨{ m.kernel with
          pids, currentProcess := some p
          object := Function.update m.kernel.object p
            { m.kernel.object p with processState := .running } }, .resumed⟩ := by
  have spec := @wp_schedule_known (fun _ => False) m.kernel orderly.idle queued
  rcases returned_of_wp spec with ⟨mode, t, returned, found, pids, picks, done⟩
  refine ⟨⟨t, mode⟩, ⟨schedule, ?_, returned⟩, found, pids, picks, ?_⟩
  · rw [scheduling]
    rfl
  · cases found with
    | none =>
        rcases done with ⟨rfl, rfl⟩
        rfl
    | some p =>
        rcases done with ⟨rfl, rfl⟩
        rfl

variable (plat) in
theorem timer_possible (orderly : m.Orderly) (inUser : m.mode = .user)
    (current : m.kernel.currentProcess = some p) (info : TrapInfo) (timer : info.trap = .interrupt 5) :
    Steps plat m (.trap info) ⟨{ m.kernel with
      object := Function.update m.kernel.object p ((m.kernel.object p).switched
        (.yieldInUserTrap (m.kernel.object p).trapframe)) }, .scheduler⟩ := by
  have spec := @wp_userTrap_timer plat (fun _ => False) m.kernel p orderly.held current info timer
  rcases returned_of_wp spec with ⟨mode, t, returned, rfl, rfl⟩
  refine ⟨userTrap plat info, ?_, returned⟩
  rw [inUser]
  rfl

theorem resume_possible (orderly : m.Orderly) (resumed : m.mode = .resumed)
    (current : m.kernel.currentProcess = some p)
    (context : (m.kernel.object p).context = .prepareFirstTimeExecution ∨
      ∃ trapframe, (m.kernel.object p).context = .yieldInUserTrap trapframe) :
    Steps plat m .resume ⟨m.kernel, .user⟩ := by
  have spec := @wp_switchedTo_user plat (fun _ => False) m.kernel p orderly.held current context
  rcases returned_of_wp spec with ⟨mode, t, returned, rfl, rfl⟩
  refine ⟨switchedTo plat, ?_, returned⟩
  rw [resumed]
  rfl

end Machine

end Jangri
