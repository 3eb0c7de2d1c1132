import Jangri.Allocator.Runs
import Jangri.Kernel.Runs

/-! What is left of a process whose creation fails.

`assign_process` enters the process into the table and the queue and marks it ready before it looks
at the image, and takes nothing back when it returns early. -/

namespace Jangri

open Lib

def allocatedFrames (s : GlobalState) : Set Nat :=
  {x | s.allocator.memoryStart ≤ x ∧ x < s.allocator.currentStart ∧
    ∀ i nodes, Follows s.memory (s.allocator.list i).head nodes →
      ∀ b ∈ listBlocks s.memory nodes, ¬ b.Contains x}

structure AsBefore (s t : GlobalState) : Prop where
  processes : t.processes = s.processes
  pids : t.pids = s.pids
  frames : allocatedFrames t = allocatedFrames s

/-- Whenever `assign_process` returns an error, the process whose creation failed is in the table
and at the end of the queue, and it is ready. -/
theorem failed_creation_stays (plat : Platform) (name image : List UInt8) (e : Error)
    (s t : GlobalState) (idle : s.held = [])
    (failed : (assignProcess plat name image).run s = .ok (.error e, t)) :
    ¬ AsBefore s t ∧ t.processes = (s.pid + 1) :: s.processes ∧ t.pids = s.pids ++ [s.pid + 1] ∧
      (t.object (s.pid + 1)).processState = .ready := by
  have tolerant : Tolerant fun _ => True := fun _ _ => trivial
  have spec := wp_assignProcess tolerant plat name image idle
  unfold wpr at spec
  have created := wp_of_returns spec failed
  change view t = (view s).created at created
  have queue : t.pids = s.pids ++ [s.pid + 1] := congrArg View.pids created
  refine ⟨fun same => ?_, congrArg View.processes created, queue, ?_⟩
  · have length := congrArg List.length (same.pids.symm.trans queue)
    simp at length
  · have state : (view t).state = (view s).created.state := congrArg View.state created
    exact (congrFun state (s.pid + 1)).trans (Function.update_self _ _ _)

namespace Board

def emptyImage : Rust (Except Error Nat × GlobalState) := (assignProcess plat [] []).run boot.kernel

def check (found : Error → GlobalState → Bool) : Rust (Except Error Nat × GlobalState) → Bool
  | .ok (.error e, t) => found e t
  | _ => false

theorem of_check {found : Error → GlobalState → Bool} {r : Rust (Except Error Nat × GlobalState)}
    (passed : check found r = true) : ∃ e t, r = .ok (.error e, t) ∧ found e t = true := by
  unfold check at passed
  split at passed
  next e t => exact ⟨e, t, rfl, passed⟩
  next => cases passed

end Board

theorem empty_image_stays : ∃ t, Board.emptyImage = .ok (.error .elfError, t) ∧ t.pids = [1] ∧
    (t.object 1).processState = .ready := by
  obtain ⟨e, t, failed, isElf⟩ := Board.of_check (r := Board.emptyImage)
    (show Board.check (fun e _ => decide (e = .elfError)) _ = true by decide +kernel)
  obtain rfl : e = .elfError := of_decide_eq_true isElf
  have stays := failed_creation_stays Board.plat [] [] _ Board.boot.kernel t rfl failed
  exact ⟨t, failed, stays.2.2.1, stays.2.2.2⟩

theorem failed_process_found : ∃ t, Board.emptyImage = .ok (.error .elfError, t) ∧
    ¬ AsBefore Board.boot.kernel t ∧
    ∃ u, GlobalState.findReadyProcess t = .ok (some 1, u) := by
  obtain ⟨e, t, failed, found⟩ := Board.of_check (r := Board.emptyImage)
    (show Board.check (fun e t => decide (e = .elfError ∧ t.pids = [1] ∧
      (GlobalState.findReadyProcess t).toOption.map Prod.fst = some (some 1))) _ = true by
        decide +kernel)
  obtain ⟨rfl, queue, picked⟩ := of_decide_eq_true found
  refine ⟨t, failed, fun same => ?_, ?_⟩
  · have unchanged : t.pids = [] := same.pids
    rw [queue] at unchanged
    cases unchanged
  · cases run : GlobalState.findReadyProcess t with
    | error e =>
        rw [run] at picked
        cases picked
    | ok r =>
        rw [run] at picked
        obtain ⟨pid, u⟩ := r
        cases picked
        exact ⟨u, rfl⟩

end Jangri
