import Jangri.Kernel.Queue

namespace Jangri

open Lib

inductive SelectionCall
  | addProcess (id : Nat)
  | findReadyProcess (found : Option Nat)
  | change
  deriving DecidableEq

def SelectionCall.picks : SelectionCall → Bool
  | .findReadyProcess _ => true
  | _ => false

namespace GlobalState

/-- A call on the run queue that returns, or a change that leaves the queue and the keys of the
table as they are. A change can give any process any state. -/
def Selects (s : GlobalState) : SelectionCall → GlobalState → Prop
  | .addProcess id, t => addProcess id s = .ok ((), t)
  | .findReadyProcess found, t => findReadyProcess s = .ok (found, t)
  | .change, t => t.pids = s.pids ∧ t.processes = s.processes ∧ t.Idle

/-- Nobody is at work on the table, and it has every process of the queue. -/
structure Selectable (s : GlobalState) : Prop where
  idle : s.Idle
  known : ∀ pid ∈ s.pids, pid ∈ s.processes

namespace Selectable

variable {s t : GlobalState}

theorem picked (ready : s.Selectable) : ∃ found t, findReadyProcess s = .ok (found, t) ∧
    t = { s with pids := t.pids } ∧ Picks s.Ready s.pids found t.pids := by
  have spec := @wp_findReadyProcess_known (fun _ => False) s ready.idle ready.known
  rw [wp_def] at spec
  cases ran : findReadyProcess s with
  | ok r =>
      rw [ran] at spec
      exact ⟨r.1, r.2, rfl, spec⟩
  | error e =>
      rw [ran] at spec
      exact spec.elim

theorem added (ready : s.Selectable) {id : Nat} (taken : s.Selects (.addProcess id) t) :
    t = { s with processes := id :: s.processes, pids := s.pids ++ [id] } := by
  have returned : addProcess id s = .ok ((), t) := taken
  have effect := wp_of_returns (@wp_addProcess_idle (fun _ => True) s id ready.idle) returned
  exact effect

theorem found (ready : s.Selectable) {found : Option Nat}
    (taken : s.Selects (.findReadyProcess found) t) :
    t = { s with pids := t.pids } ∧ Picks s.Ready s.pids found t.pids := by
  have returned : findReadyProcess s = .ok (found, t) := taken
  have spec := @wp_findReadyProcess_known (fun _ => True) s ready.idle ready.known
  have effect := wp_of_returns spec returned
  exact effect

theorem of_selects (ready : s.Selectable) {call : SelectionCall} (taken : s.Selects call t) :
    t.Selectable := by
  cases call with
  | addProcess id =>
      have effect := ready.added taken
      subst effect
      constructor
      · exact ⟨ready.idle.held, ready.idle.numReaders⟩
      · intro pid member
        rcases List.mem_append.mp member with old | new
        · exact List.mem_cons_of_mem _ (ready.known pid old)
        · exact List.mem_cons.mpr (Or.inl (List.mem_singleton.mp new))
  | findReadyProcess found =>
      rcases ready.found taken with ⟨same, picks⟩
      constructor
      · rw [same]
        exact ⟨ready.idle.held, ready.idle.numReaders⟩
      · intro pid member
        rw [same]
        exact ready.known pid (picks.rotated.mem_iff.mp member)
  | change =>
      rcases taken with ⟨queue, keys, idle⟩
      refine ⟨idle, ?_⟩
      rw [queue, keys]
      exact ready.known

variable {p : Nat}

/-- A queued process that is ready moves up in every search that finds another one, and nothing
moves it back. -/
theorem moves_up (ready : s.Selectable) (member : p ∈ s.pids) (wanted : s.Ready p)
    {call : SelectionCall} (taken : s.Selects call t) (other : call ≠ .findReadyProcess (some p)) :
    p ∈ t.pids ∧ t.pids.idxOf p + (if call.picks then 1 else 0) ≤ s.pids.idxOf p := by
  cases call with
  | addProcess id =>
      rw [ready.added taken]
      exact ⟨List.mem_append_left _ member, by
        simp [SelectionCall.picks, List.idxOf_append_of_mem member]⟩
  | findReadyProcess found =>
      rcases ready.found taken with ⟨-, picks⟩
      have closer := picks.idxOf_lt member wanted fun same => other (by rw [same])
      exact ⟨picks.rotated.mem_iff.mpr member, closer⟩
  | change =>
      rcases taken with ⟨queue, -, -⟩
      rw [queue]
      exact ⟨member, by simp [SelectionCall.picks]⟩

end Selectable

theorem searches_le {s t : GlobalState} {trace : List (GlobalState × SelectionCall)} {p : Nat}
    (ready : s.Selectable) (member : p ∈ s.pids) (run : Run Selects s trace t)
    (stays : ∀ q ∈ trace, q.1.Ready p) (other : ∀ q ∈ trace, q.2 ≠ .findReadyProcess (some p)) :
    trace.countP (fun q => q.2.picks) ≤ s.pids.idxOf p := by
  have restricted := run.restrict (fun u call => u.Ready p ∧ call ≠ .findReadyProcess (some p))
    fun q inside => ⟨stays q inside, other q inside⟩
  have bounded := restricted.countP_le (fun u => u.Selectable ∧ p ∈ u.pids) SelectionCall.picks
    (fun u => u.pids.idxOf p) ⟨ready, member⟩
    (fun u call v inv taken =>
      ⟨inv.1.of_selects taken.2, (inv.1.moves_up inv.2 taken.1.1 taken.2 taken.1.2).1⟩)
    (fun u call v inv taken => (inv.1.moves_up inv.2 taken.1.1 taken.2 taken.1.2).2)
  exact le_trans (Nat.le_add_left _ _) bounded

end GlobalState

section Results

variable (s t u : GlobalState) (past trace : List (GlobalState × SelectionCall))

/-- In every run of searches, additions and arbitrary changes of the processes, a search picks the
first ready process of the queue and sends it to the back; and from any point from which `p` stays
ready, the searches before `p` is found are no more than the processes ahead of it. -/
theorem selection_is_round_robin (idle : s.Idle) (known : ∀ pid ∈ s.pids, pid ∈ s.processes)
    (before : Run GlobalState.Selects s past t) (run : Run GlobalState.Selects t trace u) :
    (∀ v ∈ Run.visited (past ++ trace) u, ∃ found w, GlobalState.findReadyProcess v = .ok (found, w) ∧
      w = { v with pids := w.pids } ∧ Picks v.Ready v.pids found w.pids ∧ w.pids.Perm v.pids) ∧
    ∀ p ∈ t.pids, (∀ v ∈ Run.visited trace u, v.Ready p) →
      (trace.takeWhile fun q => q.2 ≠ .findReadyProcess (some p)).countP (fun q => q.2.picks) ≤
        t.pids.idxOf p := by
  have start : s.Selectable := ⟨idle, known⟩
  constructor
  · intro v member
    have ready := (before.append run).invariant GlobalState.Selectable start
      (fun _ _ _ holds taken => holds.of_selects taken) v member
    rcases ready.picked with ⟨found, w, returned, same, picks⟩
    exact ⟨found, w, returned, same, picks, picks.rotated.perm⟩
  · intro p member stays
    have ready := before.invariant_last GlobalState.Selectable start
      (fun _ _ _ holds taken => holds.of_selects taken)
    have whole : trace.takeWhile (fun q => decide (q.2 ≠ .findReadyProcess (some p))) ++
        trace.dropWhile (fun q => decide (q.2 ≠ .findReadyProcess (some p))) = trace :=
      List.takeWhile_append_dropWhile
    rcases (whole.symm ▸ run).front with ⟨v, front⟩
    apply GlobalState.searches_le ready member front
    · intro q inside
      apply stays
      rw [Run.visited]
      apply List.mem_append_left
      exact List.mem_map_of_mem ((List.takeWhile_sublist _).subset inside)
    · intro q inside
      simpa using List.all_eq_true.mp List.all_takeWhile q inside

end Results

namespace Board

def queued : GlobalState :=
  { boot.kernel with
    processes := [2, 1]
    pids := [1, 2]
    object := fun pid => { Process.default pid with processState := .ready } }

theorem queued_of_boot : ∃ past, Run GlobalState.Selects boot.kernel past queued := by
  have first : GlobalState.Selects boot.kernel (.addProcess 1) listed := rfl
  have second : listed.Selects (.addProcess 2)
      { listed with processes := [2, 1], pids := [1, 2] } := rfl
  have third : GlobalState.Selects { listed with processes := [2, 1], pids := [1, 2] } .change
      queued := ⟨rfl, rfl, ⟨rfl, rfl⟩⟩
  exact ⟨_, ((Run.single first).append (Run.single second)).append (Run.single third)⟩

theorem queued_finds_first : queued.Selects (.findReadyProcess (some 1))
    { queued with pids := [2, 1] } := rfl

end Board

theorem second_process_waits_once : List.countP (fun q : GlobalState × SelectionCall => q.2.picks)
    (List.takeWhile (fun q => decide (q.2 ≠ .findReadyProcess (some 2)))
      [(Board.queued, .findReadyProcess (some 1))]) ≤ List.idxOf 2 Board.queued.pids := by
  rcases Board.queued_of_boot with ⟨past, before⟩
  have run := Run.single Board.queued_finds_first
  apply (selection_is_round_robin Board.boot.kernel Board.queued _ past _ ⟨rfl, rfl⟩
    (fun _ none_ => absurd none_ List.not_mem_nil) before run).2 2 (by decide)
  intro v member
  rcases List.mem_pair.mp member with rfl | rfl
  · exact rfl
  · exact rfl

end Jangri
