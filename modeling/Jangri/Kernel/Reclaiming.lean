import Jangri.Kernel.Answering

namespace Jangri

open Lib

/-- The physical memory that was allocated for process `p`: the pages of its page table, its trap
frame, and all that is mapped for user mode. -/
def GlobalState.Acquired (s : GlobalState) (p : Nat) : Set Nat :=
  {x | (∃ t, TablePage s.memory (s.object p).pageTable t ∧ (⟨t, pageSize⟩ : Block).Contains x) ∨
    (⟨(s.object p).trapframe, pageSize⟩ : Block).Contains x ∨ s.UserReaches p x}

def GlobalState.Returned (s : GlobalState) (x : Nat) : Prop :=
  ∃ nodes : Fin numMultiples → List Nat,
    (∀ i, Follows s.memory (s.allocator.list i).head (nodes i)) ∧
    cover ((List.finRange numMultiples).flatMap fun i => listBlocks s.memory (nodes i)) x = 1

namespace Machine

variable {plat : Platform} {m m' : Machine} {trace : List (Machine × Event)}

/-- All memory of the process that was current in `m` is back in the free lists in `m'`. -/
def Reclaims (m m' : Machine) : Prop :=
  ∀ p, m.kernel.currentProcess = some p → ∀ x ∈ m.kernel.Acquired p, m'.kernel.Returned x

/-- Trap frames are never given back, not even those of processes that have terminated. -/
theorem frame_not_returned {s : GlobalState} (separated : Separated plat s) {p : Nat}
    (present : p ∈ s.processes) {x : Nat}
    (inside : (⟨(s.object p).trapframe, pageSize⟩ : Block).Contains x) : ¬ s.Returned x := by
  rcases separated.isolated with ⟨free, live, owner, isolated⟩
  have held := isolated.frames p present x inside.1 inside.2
  intro returned
  rcases returned with ⟨nodes, follows, once⟩
  have covered : 0 < cover ((List.finRange numMultiples).flatMap fun i =>
      listBlocks s.memory (nodes i)) x := by
    rw [once]
    exact Nat.one_pos
  rcases (cover_pos_iff _ _).mp covered with ⟨b, listed, contains⟩
  rcases List.mem_flatMap.mp listed with ⟨i, -, member⟩
  exact isolated.not_listed held i (nodes i) (follows i) b member contains

theorem page_pos : 0 < pageSize := by decide

theorem not_reclaims (placed : Placed plat) (orderly : m.Orderly)
    (separated : Separated plat m.kernel) {event : Event} (exits : m.Exits plat event)
    (taken : Steps plat m event m') : ¬ m.Reclaims m' := by
  have inUser := orderly.inUser exits.1
  rcases inUser.current (by decide) with ⟨p, present, current, -⟩
  have kept := kept_of_steps placed orderly separated
    (fun image loads => absurd loads (exits.not_loads image)) taken
  have there : p ∈ m'.kernel.processes := by
    have moves := moves_of_steps orderly taken
    rw [exits.1] at moves
    rcases View.exited_of_moves exits moves with ⟨q, status, -, left⟩
    have same : m'.kernel.processes = m.kernel.processes := congrArg View.processes left
    rw [same]
    exact present
  have inside : (⟨(m.kernel.object p).trapframe, pageSize⟩ : Block).Contains
      (m.kernel.object p).trapframe := ⟨le_refl _, Nat.lt_add_of_pos_right page_pos⟩
  intro reclaims
  apply frame_not_returned kept.separated there _
    (reclaims p current _ (Or.inr (Or.inl inside)))
  rw [kept.frames p present]
  exact inside

end Machine

section Results

variable (plat : Platform) (m m' : Machine) (trace : List (Machine × Event))

/-- Whenever a process asks to exit, it does, and its memory is not all back in the free lists
afterwards. -/
theorem exit_never_reclaims (booted : m.Booted plat) (run : Run (Machine.Steps plat) m trace m')
    (good : ∀ step ∈ trace, ∀ image, step.1.Loads plat step.2 image → GoodImage plat image) :
    ∀ u ∈ Run.visited trace m', ∀ event, u.Exits plat event →
      (∃ u', Machine.Steps plat u event u') ∧
      ∀ u', Machine.Steps plat u event u' → ¬ u.Reclaims u' := by
  intro u visited event exits
  have invariants := Machine.separated_of_run booted run good u visited
  refine ⟨exits.steps booted.placed invariants.1 invariants.2, ?_⟩
  intro u' taken
  exact Machine.not_reclaims booted.placed invariants.1 invariants.2 exits taken

end Results

/-- The first process asks to exit right after it has started. -/
theorem first_exit_leaks : ∃ u u' trace, Run (Machine.Steps Board.plat) Board.boot trace u ∧
    trace.map Prod.snd = Board.started ++ [Board.askExit] ∧
    Machine.Steps Board.plat u Board.call u' ∧ ¬ u.Reclaims u' := by
  rcases Board.good_run_of_check (Board.started ++ [Board.askExit])
    (fun u => decide (u.mode = .user ∧ u.requested Board.plat = some (.syscall (.exit (.ok 0)))))
    (by decide +kernel) with ⟨u, trace, run, labels, good, holds⟩
  rcases of_decide_eq_true holds with ⟨isUser, asks⟩
  have exits : u.Exits Board.plat Board.call :=
    Machine.exits_of_requested isUser _ (by decide) asks
  rcases exit_never_reclaims Board.plat _ u trace Board.boot_booted run good u
    (Run.last_mem_visited trace u) _ exits with ⟨⟨u', taken⟩, leaks⟩
  exact ⟨u, u', trace, run, labels, taken, leaks u' taken⟩

theorem exited_frame_stays_allocated : ∃ u u' trace,
    Run (Machine.Steps Board.plat) Board.boot trace u ∧ Machine.Steps Board.plat u Board.call u' ∧
    u.kernel.currentProcess = some 1 ∧ u.Exits Board.plat Board.call ∧ ¬ u.Reclaims u' := by
  rcases Board.good_run_of_check (Board.started ++ [Board.askExit])
    (fun u => decide (u.mode = .user ∧ u.kernel.currentProcess = some 1 ∧
      u.requested Board.plat = some (.syscall (.exit (.ok 0)))))
    (by decide +kernel) with ⟨u, trace, run, -, good, holds⟩
  rcases of_decide_eq_true holds with ⟨isUser, current, asks⟩
  rcases Board.run_of_asking run good isUser asks with ⟨u', exits, taken, -⟩
  have invariants := Machine.separated_of_run Board.boot_booted run good u
    (Run.last_mem_visited trace u)
  exact ⟨u, u', trace, run, taken, current, exits,
    Machine.not_reclaims Board.boot_booted.placed invariants.1 invariants.2 exits taken⟩

end Jangri
