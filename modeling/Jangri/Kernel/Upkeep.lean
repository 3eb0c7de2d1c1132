import Jangri.Kernel.LazyHeap
import Jangri.Kernel.Watching

namespace Jangri

open Lib

def GlobalState.entered (s : GlobalState) (p : Nat) (info : TrapInfo) : GlobalState :=
  if info.isSyscall = true then s.advanced p else s

section Own

variable {plat : Platform} {s t : GlobalState} {p : Nat} {info : TrapInfo} {returned : Bool}

theorem Separated.frame_apart (separated : Separated plat s) (present : p ∈ s.processes)
    (alive : Alive (s.object p)) {va : Nat} {entry : PageTableEntry}
    (leaf : leafAt s.memory (s.object p).pageTable va = some entry)
    (accessible : entry.userModeAccessible = true) {x : Nat} (low : (s.object p).trapframe ≤ x)
    (high : x < (s.object p).trapframe + pageSize) :
    ¬ (entry.getPhysicalAddress ≤ x ∧ x < entry.getPhysicalAddress + pageSize) := by
  rcases separated.isolated with ⟨free, live, owner, isolated⟩
  rintro ⟨first, last⟩
  have user := (isolated.spaces p present alive).users va entry leaf accessible x first last
  cases held_unique isolated.wf user (isolated.frames p present x low high)

theorem Answered.frame {m' : Memory} {result : SyscallResult} (separated : Separated plat s)
    (present : p ∈ s.processes) (alive : Alive (s.object p))
    (answered : Answered plat s.memory (s.object p).pageTable result m') (x : Nat)
    (low : (s.object p).trapframe ≤ x) (high : x < (s.object p).trapframe + pageSize) :
    m' x = s.memory x := by
  by_contra different
  rcases answered with ⟨entry, leaf, stored⟩
  have inside := Answered.within ⟨entry, leaf, stored⟩ leaf x different
  exact separated.frame_apart present alive leaf (separated.kucom_accessible present alive leaf) low
    high inside

theorem Performed.frame {request : Syscall} (separated : Separated plat s) (present : p ∈ s.processes)
    (alive : Alive (s.object p)) (performed : Performed plat s p request returned t)
    (stays : Alive (t.object p)) (x : Nat) (low : (s.object p).trapframe ≤ x)
    (high : x < (s.object p).trapframe + pageSize) : t.memory x = s.memory x := by
  cases performed with
  | granted size t whole room object answered => exact answered.frame separated present alive x low high
  | refused size t full object answered => exact answered.frame separated present alive x low high
  | written start len t object answered => exact answered.frame separated present alive x low high
  | read t object answered => exact answered.frame separated present alive x low high
  | exited status t gone => exact absurd stays gone
  | spawned nameStart nameLen start len wait result s₁ t ran separated₁ untouched object answered =>
      have same := untouched.frame x low high
      have alive₁ := untouched.same.alive.mpr alive
      rw [← untouched.same.trapframe] at low high
      rw [← untouched.same.pageTable] at answered
      rw [answered.frame separated₁ untouched.present alive₁ x low high, same]
  | yielded t memory object => rw [memory]

theorem Process.switched_space (process : Process) (context : Context) :
    (process.switched context).pageTable = process.pageTable ∧
      (process.switched context).trapframe = process.trapframe := by
  have kept : (readyIfRunning process).pageTable = process.pageTable ∧
      (readyIfRunning process).trapframe = process.trapframe := by
    unfold readyIfRunning
    split
    next => exact ⟨rfl, rfl⟩
    next => exact ⟨rfl, rfl⟩
  exact kept

theorem Performed.process {request : Syscall} (performed : Performed plat s p request returned t)
    (stays : Alive (t.object p)) (resumes : (s.object p).resumeFrame = (s.object p).trapframe) :
    (t.object p).pageTable = (s.object p).pageTable ∧ (t.object p).trapframe = (s.object p).trapframe ∧
      (t.object p).resumeFrame = (t.object p).trapframe := by
  have unchanged : t.object p = s.object p → (t.object p).pageTable = (s.object p).pageTable ∧
      (t.object p).trapframe = (s.object p).trapframe ∧
      (t.object p).resumeFrame = (t.object p).trapframe := by
    intro same
    rw [same]
    exact ⟨rfl, rfl, resumes⟩
  cases performed with
  | granted size t whole room object answered =>
      rw [object]
      exact ⟨rfl, rfl, resumes⟩
  | refused size t full object answered => exact unchanged object
  | written start len t object answered => exact unchanged object
  | read t object answered => exact unchanged object
  | exited status t gone => exact absurd stays gone
  | spawned nameStart nameLen start len wait result s₁ t ran separated₁ untouched object answered =>
      have same := untouched.same
      rw [object, same.pageTable, same.trapframe]
      refine ⟨rfl, rfl, ?_⟩
      unfold Process.resumeFrame at *
      rw [same.context, same.trapframe]
      exact resumes
  | yielded t memory object =>
      have space := (s.object p).switched_space
      rw [object]
      exact ⟨(space _).1, (space _).2, (space _).2.symm⟩

/-- A trap changes nothing in the trap frame but, for a system call, the address to go back to. -/
theorem Trapped.frame (separated : Separated plat s) (present : p ∈ s.processes)
    (alive : Alive (s.object p)) (trapped : Trapped plat s p info returned t)
    (stays : Alive (t.object p)) (x : Nat) (low : (s.object p).trapframe ≤ x)
    (high : x < (s.object p).trapframe + pageSize) : t.memory x = (s.entered p info).memory x := by
  cases trapped with
  | ticked t isTimer memory object =>
      rw [GlobalState.entered, TrapInfo.isSyscall, isTimer, memory]
      rfl
  | passed code t isInterrupt memory object =>
      rw [GlobalState.entered, TrapInfo.isSyscall, isInterrupt, memory]
      rfl
  | faulted t isFault object grown =>
      have noCall := not_call_of_fault isFault
      rw [GlobalState.entered, noCall]
      split at grown
      next => exact grown.frame x low high
      next => rw [grown]; rfl
  | called request returned t isCall requests performed =>
      rw [GlobalState.entered, if_pos isCall]
      exact performed.frame (separated.advance present alive) present alive stays x low high

theorem Trapped.leaves (separated : Separated plat s) (present : p ∈ s.processes)
    (alive : Alive (s.object p)) (trapped : Trapped plat s p info returned t)
    (stays : Alive (t.object p)) (va : Nat) (entry : PageTableEntry)
    (leaf : leafAt s.memory (s.object p).pageTable va = some entry) :
    leafAt t.memory (s.object p).pageTable va = some entry := by
  cases trapped with
  | ticked t isTimer memory object => rw [memory, leaf]
  | passed code t isInterrupt memory object => rw [memory, leaf]
  | faulted t isFault object grown =>
      split at grown
      next => exact grown.leaves va entry leaf
      next => rw [grown, leaf]
  | called request returned t isCall requests performed =>
      have moved := separated.leaf_write present alive own_advanced va
      have kept := performed.leaf (separated.advance present alive) present alive stays va
      exact kept.trans (moved.trans leaf)

theorem Trapped.process (trapped : Trapped plat s p info returned t) (stays : Alive (t.object p))
    (resumes : (s.object p).resumeFrame = (s.object p).trapframe) :
    (t.object p).pageTable = (s.object p).pageTable ∧ (t.object p).trapframe = (s.object p).trapframe ∧
      (t.object p).resumeFrame = (t.object p).trapframe := by
  cases trapped with
  | ticked t isTimer memory object =>
      have space := (s.object p).switched_space
      rw [object]
      exact ⟨(space _).1, (space _).2, (space _).2.symm⟩
  | passed code t isInterrupt memory object =>
      rw [object]
      exact ⟨rfl, rfl, resumes⟩
  | faulted t isFault object grown =>
      rw [object]
      exact ⟨rfl, rfl, resumes⟩
  | called request returned t isCall requests performed => exact performed.process stays resumes

theorem entered_behind (x : Nat) (behind : (s.object p).trapframe + savedBytes ≤ x) :
    (s.entered p info).memory x = s.memory x := by
  unfold GlobalState.entered
  split
  next =>
    apply if_neg
    simp only [TrapFrame.sepc, savedBytes] at *
    omega
  next => rfl

theorem Trapped.equipped (separated : Separated plat s) (present : p ∈ s.processes)
    (alive : Alive (s.object p)) (trapped : Trapped plat s p info returned t)
    (stays : Alive (t.object p)) (resumes : (s.object p).resumeFrame = (s.object p).trapframe)
    (equipped : Equipped plat s.memory p (s.object p)) : Equipped plat t.memory p (t.object p) := by
  have process := trapped.process stays resumes
  apply equipped.congr process.1 process.2.1 (trapped.leaves separated present alive stays)
  intro x low high
  rw [trapped.frame separated present alive stays x (by omega) high, entered_behind x low]

structure Sparing (s : GlobalState) (p : Nat) (t : GlobalState) : Prop where
  object : t.object p = s.object p
  leaves : ∀ va, leafAt t.memory (s.object p).pageTable va = leafAt s.memory (s.object p).pageTable va
  frame : ∀ x, (s.object p).trapframe ≤ x → x < (s.object p).trapframe + pageSize →
    t.memory x = s.memory x

theorem Resumed.sparing (separated : Separated plat s) (present : p ∈ s.processes)
    (alive : Alive (s.object p)) (resumed : Resumed plat s p t) : Sparing s p t := by
  cases resumed with
  | went t elsewhere memory object =>
      refine ⟨object, ?_, ?_⟩
      · intro va
        rw [memory]
      · intro x _ _
        rw [memory]
  | yielded trapframe pageTable t inHandle object answered =>
      exact ⟨object, separated.leaf_write present alive (answered.own separated present alive),
        answered.frame separated present alive⟩

theorem Stored.sparing {va : Nat} {byte : UInt8} (separated : Separated plat s)
    (present : p ∈ s.processes) (alive : Alive (s.object p)) (stored : Stored s p va byte t) :
    Sparing s p t := by
  cases stored with
  | hit entry t leaf accessible writeable memory object =>
      have inPage : ∀ x, t.memory x ≠ s.memory x →
          entry.getPhysicalAddress ≤ x ∧ x < entry.getPhysicalAddress + pageSize := by
        intro x different
        rw [memory] at different
        by_contra outside
        apply different
        apply if_neg
        have low : va % pageSize < pageSize := Nat.mod_lt _ (by decide)
        omega
      refine ⟨object, ?_, ?_⟩
      · apply separated.leaf_write present alive
        intro x different
        exact Or.inr ⟨va, entry, leaf, accessible, inPage x different⟩
      · intro x low high
        by_contra different
        exact separated.frame_apart present alive leaf accessible low high (inPage x different)
  | missed t denied memory object =>
      refine ⟨object, ?_, ?_⟩
      · intro va
        rw [memory]
      · intro x _ _
        rw [memory]

theorem Sparing.provided (sparing : Sparing s p t) (provided : Provided plat s.memory p (s.object p)) :
    Provided plat t.memory p (t.object p) := by
  rw [sparing.object]
  exact provided.congr rfl rfl provided.resumes sparing.leaves fun x low high =>
    sparing.frame x (by omega) high

theorem Sparing.equipped (sparing : Sparing s p t) (equipped : Equipped plat s.memory p (s.object p)) :
    Equipped plat t.memory p (t.object p) := by
  rw [sparing.object]
  exact equipped.congr rfl rfl (fun va entry leaf => (sparing.leaves va).trans leaf) fun x low high =>
    sparing.frame x (by omega) high

end Own

namespace Machine

variable {plat : Platform} {K : Set Nat} {m m' : Machine} {p : Nat}

theorem provided_of_steps (placed : Placed plat) (whole : WholePages K) (orderly : m.Orderly)
    (watched : Watched plat K ∅ m.kernel m.kernel)
    (equipped : m.mode = .user → ∀ p, m.kernel.currentProcess = some p →
      Equipped plat m.kernel.memory p (m.kernel.object p)) {event : Event}
    (good : ∀ image, m.Loads plat event image → GoodImage plat image)
    (taken : Steps plat m event m') : Watched plat K ∅ m.kernel m'.kernel := by
  have start : Watched plat K {p | m.WorksFor p} m.kernel m.kernel :=
    ⟨watched.toReserved, watched.kernel, fun q present _ => watched.provided q present (Set.notMem_empty q)⟩
  have others := watched_of_steps placed whole orderly start (fun p works => works) good taken
  refine ⟨others.toReserved, others.kernel, ?_⟩
  intro p present _ stays
  by_cases works : m.WorksFor p
  case neg => exact others.provided p present works stays
  rcases works.working orderly watched.separated with ⟨root, tf, working⟩
  have provided := watched.provided p working.present (Set.notMem_empty p) working.alive
  have serves := serves_of_steps placed orderly watched.separated good works taken
  cases serves with
  | resume mode mode' resumed =>
      exact (resumed.sparing watched.separated working.present working.alive).provided provided
  | trap info returned mode mode' trapped =>
      have process := trapped.process stays provided.resumes
      exact ⟨process.2.2, Or.inr (trapped.equipped watched.separated working.present working.alive stays
        provided.resumes (equipped mode p works.2))⟩
  | save registers sepc mode mode' saved =>
      rw [saved]
      apply provided.congr rfl rfl provided.resumes
        (leaf_saved watched.separated working.present working.alive registers sepc)
      intro x low _
      exact TrapFrame.save_elsewhere _ _ _ _ _ (Or.inr low)
  | store va byte mode mode' stored =>
      exact (stored.sparing watched.separated working.present working.alive).provided provided

end Machine

end Jangri
