import Jangri.Kernel.Runs
import Jangri.Lib.RoundRobin

namespace Jangri

open Lib

inductive TableCall
  | addProcess (id : Nat)
  | removeProcess (pid : Nat)
  | findReadyProcess

namespace GlobalState

def TableSteps (s : GlobalState) : TableCall → GlobalState → Prop
  | .addProcess id, t => id ∉ s.processes ∧ addProcess id s = .ok ((), t)
  | .removeProcess pid, t => pid ∈ s.processes ∧ removeProcess pid s = .ok ((), t)
  | .findReadyProcess, t => ∃ found, findReadyProcess s = .ok (found, t)

structure Idle (s : GlobalState) : Prop where
  held : s.held = []
  numReaders : s.numReaders = 0

/-- The queue enumerates the keys of the table, each of them once. -/
structure InStep (s : GlobalState) : Prop where
  nodup : s.pids.Nodup
  same : ∀ pid, pid ∈ s.pids ↔ pid ∈ s.processes

end GlobalState

section Calls

variable {halts : Halt → Prop} {s : GlobalState}

theorem wp_lockExclusive (idle : s.Idle) (post : Unit → GlobalState → Prop) :
    wp lockExclusive post halts s ↔ post () { s with held := [.numReaders] } := by
  rw [lockExclusive, wp_bind, wp_lock_of_free _ _ (by simp [idle.held]), wp_def]
  simp only [if_pos idle.numReaders, idle.held]

theorem wp_addProcess_idle (id : Nat) (idle : s.Idle) :
    wp (GlobalState.addProcess id)
      (fun _ t => t = { s with processes := id :: s.processes, pids := s.pids ++ [id] }) halts s := by
  rw [GlobalState.addProcess]
  simp only [wp_bind]
  rw [wp_lockExclusive idle, wp_insertProcess, wp_withLock _ _ _ (by simp), wp_pushPid, wp_unlock]
  simp only [List.erase_cons_head, idle.held]

theorem wp_removeProcess_idle (pid : Nat) (present : pid ∈ s.processes) (idle : s.Idle) :
    wp (GlobalState.removeProcess pid)
      (fun _ t => t = { s with processes := s.processes.erase pid }) halts s := by
  rw [GlobalState.removeProcess]
  simp only [wp_bind]
  rw [wp_lockExclusive idle, wp_def, takeProcess, if_pos present]
  simp only
  rw [wp_unlock]
  simp only [List.erase_cons_head, idle.held]

def GlobalState.Ready (s : GlobalState) (pid : Nat) : Prop := (s.object pid).processState = .ready

/-- The search picks from the queue and changes nothing else. It does not stop while the table has
every process of the queue. -/
theorem wp_searchReady_known (queue seen : List Nat) (turned : s.pids = queue ++ seen)
    (unlocked : ∀ p, .process p ∉ s.held) (known : ∀ pid ∈ s.pids, pid ∈ s.processes)
    (unready : ∀ pid ∈ seen, ¬ s.Ready pid) :
    wp (searchReady queue.length)
      (fun found t => t = { s with pids := t.pids } ∧
        Picks s.Ready (seen ++ queue) found t.pids) halts s := by
  induction queue generalizing s seen with
  | nil =>
      rw [List.length_nil, searchReady, wp_pure, List.append_nil]
      have same : s.pids = seen := turned
      exact ⟨rfl, same.symm ▸ Picks.missed unready⟩
  | cons pid rest ih =>
      have present : pid ∈ s.processes := known pid (by rw [turned]; exact List.mem_cons_self)
      have front : s.pids = pid :: (rest ++ seen) := turned
      rw [List.length_cons, searchReady, wp_bind, wp_def, rotatePids, front]
      simp only [wp_bind]
      rw [isReady, wp_bind, wp_def, lookUp, if_pos present]
      simp only
      rw [wp_withLock (s := { s with pids := rest ++ seen ++ [pid] }) _ _ _ (unlocked pid)]
      simp only [wp_bind, wp_getObject, wp_pure, List.erase_cons_head]
      by_cases ready : (s.object pid).processState = .ready
      · rw [if_pos (by simpa using ready), wp_pure]
        exact ⟨rfl, Picks.hit unready ready⟩
      · rw [if_neg (by simpa using ready)]
        have further := ih (s := { s with pids := rest ++ seen ++ [pid] }) (seen ++ [pid])
          (List.append_assoc rest seen [pid]) unlocked
          (fun q member => known q (by rw [front]; simpa [or_comm, or_left_comm] using member))
          (fun q member => by
            rcases List.mem_append.mp member with early | last
            · exact unready q early
            · rw [List.mem_singleton.mp last]
              exact ready)
        have rejoined : seen ++ [pid] ++ rest = seen ++ pid :: rest := by simp
        rw [rejoined] at further
        exact further

theorem wp_withReadLock_idle {α : Type} (x : Kernel α) (post : α → GlobalState → Prop) (idle : s.Idle)
    (body : wp x (fun a t => t.held = [] ∧ t.numReaders = 1 ∧ post a { t with numReaders := 0 }) halts
      { s with numReaders := 1 }) : wp (withReadLock x) post halts s := by
  have one : usizeAdd 0 1 = .ok 1 := (usizeAdd_eq_ok _ _ _).mpr ⟨by decide, rfl⟩
  have none_ : usizeSub 1 1 = .ok 0 := (usizeSub_eq_ok _ _ _).mpr ⟨by decide, rfl⟩
  rw [withReadLock, wp_bind, lockShared, wp_withLock _ _ _ (by simp [idle.held]), wp_def, changeReaders,
    idle.numReaders, one]
  simp only [Except.map, List.erase_cons_head, wp_bind]
  apply wp_weaken body
  rintro a t ⟨free, readers, done⟩
  rw [unlockShared, wp_withLock _ _ _ (by simp [free]), wp_def, changeReaders, readers, none_]
  simp only [Except.map, List.erase_cons_head, wp_pure]
  exact done

theorem wp_findReadyProcess_known (idle : s.Idle) (known : ∀ pid ∈ s.pids, pid ∈ s.processes) :
    wp GlobalState.findReadyProcess
      (fun found t => t = { s with pids := t.pids } ∧ Picks s.Ready s.pids found t.pids)
      halts s := by
  rw [GlobalState.findReadyProcess]
  apply wp_withReadLock_idle _ _ idle
  rw [wp_withLock _ _ _ (by simp [idle.held]), wp_bind, wp_read]
  have searched := @wp_searchReady_known halts
    { s with numReaders := 1, held := .pids :: s.held } s.pids []
    (List.append_nil _).symm (by simp [idle.held]) known (by simp)
  apply wp_weaken searched
  intro found t done
  rcases done with ⟨rest, picked⟩
  have free : t.held = [.pids] := by
    rw [rest]
    simp only [idle.held]
  have readers : t.numReaders = 1 := by rw [rest]
  refine ⟨?_, readers, ?_, picked⟩
  · simp only [free, List.erase_cons_head]
  · rw [rest]
    simp only [List.erase_cons_head, idle.numReaders]

theorem wp_getProcess_known {pid : Nat} (idle : s.Idle) (known : pid ∈ s.processes) :
    wp (GlobalState.getProcess pid) (fun found t => found = some pid ∧ t = s) halts s := by
  rw [GlobalState.getProcess]
  apply wp_withReadLock_idle _ _ idle
  have same : ({ s with numReaders := 0 } : GlobalState) = s := by rw [← idle.numReaders]
  rw [wp_def]
  simp only [if_pos known]
  exact ⟨idle.held, trivial, trivial, same⟩

end Calls

namespace GlobalState

variable {s t : GlobalState}

theorem processes_of_findReadyProcess (idle : s.Idle) {found : Option Nat}
    (returned : findReadyProcess s = .ok (found, t)) : t.Idle ∧ t.processes = s.processes := by
  have spec := wp_findReadyProcess (s := s) (fun _ _ => trivial : Tolerant fun _ => True) idle.held
  rcases (wp_of_returns spec returned).1 with ⟨pids, same⟩
  have held : t.held = s.held := congrArg View.held same
  have readers : t.numReaders = s.numReaders := congrArg View.numReaders same
  exact ⟨⟨held.trans idle.held, readers.trans idle.numReaders⟩, congrArg View.processes same⟩

theorem idle_of_steps (idle : s.Idle) (keys : s.processes.Nodup) {call : TableCall}
    (taken : s.TableSteps call t) : t.Idle ∧ t.processes.Nodup := by
  cases call with
  | addProcess id =>
      rcases taken with ⟨fresh, returned⟩
      have spec := @wp_addProcess_idle (fun _ => True) s id idle
      have effect := wp_of_returns spec returned
      subst effect
      exact ⟨⟨idle.held, idle.numReaders⟩, List.nodup_cons.mpr ⟨fresh, keys⟩⟩
  | removeProcess pid =>
      rcases taken with ⟨present, returned⟩
      have spec := @wp_removeProcess_idle (fun _ => True) s pid present idle
      have effect := wp_of_returns spec returned
      subst effect
      exact ⟨⟨idle.held, idle.numReaders⟩, keys.erase pid⟩
  | findReadyProcess =>
      rcases taken with ⟨found, returned⟩
      have kept := processes_of_findReadyProcess idle returned
      exact ⟨kept.1, kept.2 ▸ keys⟩

/-- A call keeps the queue in step unless it removes a process, and then it does not. -/
theorem inStep_iff (idle : s.Idle) (keys : s.processes.Nodup) (before : s.InStep)
    {call : TableCall} (taken : s.TableSteps call t) :
    t.InStep ↔ ∀ pid, call ≠ .removeProcess pid := by
  cases call with
  | addProcess id =>
      rcases taken with ⟨fresh, returned⟩
      have spec := @wp_addProcess_idle (fun _ => True) s id idle
      have effect := wp_of_returns spec returned
      subst effect
      apply iff_of_true _ (fun pid => by simp)
      constructor
      · rw [List.nodup_append_comm]
        exact List.nodup_cons.mpr ⟨fun old => fresh ((before.same id).mp old), before.nodup⟩
      · intro pid
        simp only [List.mem_append, List.mem_cons, List.not_mem_nil, or_false, before.same pid]
        exact or_comm
  | removeProcess pid =>
      rcases taken with ⟨present, returned⟩
      have spec := @wp_removeProcess_idle (fun _ => True) s pid present idle
      have effect := wp_of_returns spec returned
      subst effect
      apply iff_of_false _ (fun never => never pid rfl)
      intro after
      have remains : pid ∈ s.processes.erase pid :=
        (after.same pid).mp ((before.same pid).mpr present)
      exact keys.not_mem_erase remains
  | findReadyProcess =>
      rcases taken with ⟨found, returned⟩
      have spec := @wp_findReadyProcess_known (fun _ => True) s idle fun pid => (before.same pid).mp
      have effect := wp_of_returns spec returned
      have kept := processes_of_findReadyProcess idle returned
      apply iff_of_true _ (fun pid => by simp)
      constructor
      · exact effect.2.rotated.nodup_iff.mpr before.nodup
      · intro pid
        rw [effect.2.rotated.mem_iff, before.same pid, kept.2]

def Searchable (s : GlobalState) : Prop :=
  s.InStep ∧ ∃ found t, findReadyProcess s = .ok (found, t)

theorem searchable_of_inStep (idle : s.Idle) (inStep : s.InStep) : s.Searchable := by
  refine ⟨inStep, ?_⟩
  have spec := @wp_findReadyProcess_known (fun _ => False) s idle fun pid => (inStep.same pid).mp
  rw [wp_def] at spec
  cases ran : findReadyProcess s with
  | ok r => exact ⟨r.1, r.2, rfl⟩
  | error e =>
      rw [ran] at spec
      exact spec.elim

end GlobalState

section Results

variable (s t : GlobalState) (trace : List (GlobalState × TableCall))

/-- Run queue and process table agree, and looking for a ready process does not stop, in all of a
run exactly when the run removes no process. -/
theorem queue_in_step_iff (idle : s.Idle) (keys : s.processes.Nodup) (start : s.InStep)
    (run : Run GlobalState.TableSteps s trace t) :
    (∀ u ∈ Run.visited trace t, u.Searchable) ↔ ∀ p ∈ trace, ∀ pid, p.2 ≠ .removeProcess pid := by
  apply run.good_iff (fun u => u.Idle ∧ u.processes.Nodup) GlobalState.Searchable
    (fun _ call => ∀ pid, call ≠ .removeProcess pid) ⟨idle, keys⟩
    (GlobalState.searchable_of_inStep idle start)
  · intro u call v known taken
    exact GlobalState.idle_of_steps known.1 known.2 taken
  · intro u call v known before taken
    have after := GlobalState.idle_of_steps known.1 known.2 taken
    rw [← GlobalState.inStep_iff known.1 known.2 before.1 taken]
    exact ⟨And.left, GlobalState.searchable_of_inStep after.1⟩

end Results

def GlobalState.queued (s : GlobalState) (processes pids : List Nat) : GlobalState :=
  { s with processes, pids }

namespace Board

theorem boot_inStep : boot.kernel.InStep := ⟨List.nodup_nil, fun _ => Iff.rfl⟩

def poised : GlobalState :=
  { boot.kernel with object := fun id => { Process.default id with processState := .ready } }

def listed : GlobalState := { boot.kernel with processes := [1], pids := [1] }

theorem listed_of_boot : boot.kernel.TableSteps (.addProcess 1) listed :=
  ⟨List.not_mem_nil, rfl⟩

end Board

theorem ready_processes_found : ∃ u t trace, Run GlobalState.TableSteps Board.poised trace t ∧
    trace.map Prod.snd = [.addProcess 1, .addProcess 2, .findReadyProcess, .findReadyProcess] ∧
    t.processes = [2, 1] ∧ u ∈ Run.visited trace t ∧
    GlobalState.findReadyProcess u = .ok (some 2, t) ∧ ∀ w ∈ Run.visited trace t, w.Searchable := by
  have first : Board.poised.TableSteps (.addProcess 1) (Board.poised.queued [1] [1]) :=
    ⟨List.not_mem_nil, rfl⟩
  have second : (Board.poised.queued [1] [1]).TableSteps (.addProcess 2)
      (Board.poised.queued [2, 1] [1, 2]) :=
    ⟨by decide, rfl⟩
  have third : (Board.poised.queued [2, 1] [1, 2]).TableSteps .findReadyProcess
      (Board.poised.queued [2, 1] [2, 1]) := ⟨some 1, rfl⟩
  have found : GlobalState.findReadyProcess (Board.poised.queued [2, 1] [2, 1]) =
      .ok (some 2, Board.poised.queued [2, 1] [1, 2]) := rfl
  have fourth : (Board.poised.queued [2, 1] [2, 1]).TableSteps .findReadyProcess
      (Board.poised.queued [2, 1] [1, 2]) := ⟨some 2, found⟩
  have run := (((Run.single first).snoc _ second).snoc _ third).snoc _ fourth
  have searchable := (queue_in_step_iff Board.poised _ _ ⟨rfl, rfl⟩ List.nodup_nil
    ⟨List.nodup_nil, fun _ => Iff.rfl⟩ run).mpr (by simp)
  exact ⟨_, _, _, run, rfl, rfl, by simp [Run.visited], found, searchable⟩

/-- The queue keeps a process that has been removed, and the next search stops at it. -/
theorem removed_process_stays_queued : ∃ t trace,
    Run GlobalState.TableSteps Board.boot.kernel trace t ∧ Board.boot.kernel.InStep ∧
      t.processes = [] ∧ t.pids = [1] ∧
      GlobalState.findReadyProcess t = .error (.panic .unwrapNone) := by
  have removed : Board.listed.TableSteps (.removeProcess 1) { Board.listed with processes := [] } :=
    ⟨List.mem_cons_self, rfl⟩
  have run := (Run.single Board.listed_of_boot).append (Run.single removed)
  exact ⟨_, _, run, Board.boot_inStep, rfl, rfl, rfl⟩

end Jangri
