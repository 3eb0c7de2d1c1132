import Jangri.Kernel.Traps
import Jangri.Lib.Run

/-! The kernel as a scheduling protocol.

`View` is what scheduling decisions depend on; memory, allocator, page tables and console are not
part of it. `Moves` says everything an operation of the kernel can do to a view. -/

namespace Jangri

open Lib

structure View where
  id : Nat → Nat
  state : Nat → ProcessState
  parent : Nat → Option Nat
  children : Nat → List Nat
  processes : List Nat
  pids : List Nat
  currentProcess : Option Nat
  pid : Nat
  held : List Lock
  numReaders : Nat

def view (s : GlobalState) : View where
  id := fun p => (s.object p).id
  state := fun p => (s.object p).processState
  parent := fun p => (s.object p).parent
  children := fun p => (s.object p).children
  processes := s.processes
  pids := s.pids
  currentProcess := s.currentProcess
  pid := s.pid
  held := s.held
  numReaders := s.numReaders

namespace View

def created (v : View) : View :=
  { v with
    pid := v.pid + 1
    processes := (v.pid + 1) :: v.processes
    pids := v.pids ++ [v.pid + 1]
    id := Function.update v.id (v.pid + 1) (v.pid + 1)
    state := Function.update v.state (v.pid + 1) .ready
    parent := Function.update v.parent (v.pid + 1) none
    children := Function.update v.children (v.pid + 1) [] }

def adopted (v : View) (caller child : Nat) (wait : Bool) : View :=
  { v with
    parent := Function.update v.parent child (some caller)
    children := Function.update v.children caller (v.children caller ++ [child])
    state := if wait then Function.update v.state caller (.waiting child) else v.state }

def woken (state : Nat → ProcessState) (current : Nat) : (parent : Option Nat) → Nat → ProcessState
  | some q => Function.update state q (if state q = .waiting current then .ready else state q)
  | none => state

/-- The parent takes the children over. They keep the parent they had. -/
def inherited (children : Nat → List Nat) (current : Nat) : (parent : Option Nat) → Nat → List Nat
  | some q => Function.update children q (children q ++ children current)
  | none => children

def exited (v : View) (current : Nat) (status : Except Fault Nat) : View :=
  { v with
    state := woken (Function.update v.state current (.terminated status)) current
      (v.parent current)
    children := Function.update (inherited v.children current (v.parent current)) current [] }

def yielded (v : View) (current : Nat) : View :=
  { v with
    state := Function.update v.state current
      (if v.state current = .running then .ready else v.state current) }

structure Asked where
  blocks : Prop
  exits : Prop

/-- What handling a trap of process `caller` does; the flag tells whether it goes back to user
mode. -/
inductive Effect (v : View) (caller : Nat) (asked : Asked) : Bool → View → Prop
  | quiet (free : ¬ asked.blocks) (stays : ¬ asked.exits) : Effect v caller asked true v
  | failed (free : ¬ asked.blocks) (stays : ¬ asked.exits) : Effect v caller asked true v.created
  | spawned (wait : Bool) (exactly : wait = true ↔ asked.blocks) (stays : ¬ asked.exits) :
      Effect v caller asked true (v.created.adopted caller (v.pid + 1) wait)
  | exited (status : Except Fault Nat) (free : ¬ asked.blocks) (exits : asked.exits) :
      Effect v caller asked false (v.exited caller status)
  | yielded (free : ¬ asked.blocks) (stays : ¬ asked.exits) :
      Effect v caller asked false (v.yielded caller)

theorem Effect.exited_of_asked {v w : View} {caller : Nat} {asked : Asked} {returned : Bool}
    (effect : Effect v caller asked returned w) (exits : asked.exits) :
    returned = false ∧ ∃ status, w = v.exited caller status := by
  cases effect with
  | quiet free stays => exact absurd exits stays
  | failed free stays => exact absurd exits stays
  | spawned wait exactly stays => exact absurd exits stays
  | exited status free exits => exact ⟨rfl, status, rfl⟩
  | yielded free stays => exact absurd exits stays

inductive Moves (asked : Asked) : Mode → View → Mode → View → Prop
  | created {v : View} : Moves asked .scheduler v .scheduler v.created
  | quiet {v : View} : Moves asked .scheduler v .scheduler v
  | idle {v : View} (pids : List Nat) : Moves asked .scheduler v .scheduler { v with pids }
  | chosen {v : View} (pids : List Nat) (p : Nat) (present : p ∈ v.processes)
      (ready : v.state p = .ready) :
      Moves asked .scheduler v .resumed
        { v with pids, state := Function.update v.state p .running, currentProcess := some p }
  | continued {v : View} : Moves asked .resumed v .user v
  | handled {v w : View} (p : Nat) (current : v.currentProcess = some p)
      (effect : Effect v p asked true w) : Moves asked .user v .user w
  | left {v w : View} (p : Nat) (current : v.currentProcess = some p)
      (effect : Effect v p asked false w) : Moves asked .user v .scheduler w

theorem exited_of_moves {v w : View} {mode' : Mode} {asked : Asked} (exits : asked.exits)
    (moves : Moves asked .user v mode' w) :
    ∃ p status, v.currentProcess = some p ∧ w = v.exited p status := by
  cases moves with
  | handled p current effect =>
      have gone := (effect.exited_of_asked exits).1
      cases gone
  | left p current effect =>
      rcases (effect.exited_of_asked exits).2 with ⟨status, rfl⟩
      exact ⟨p, status, current, rfl⟩

theorem Effect.current {v w : View} {asked : Asked} {caller : Nat} {returned : Bool}
    (effect : Effect v caller asked returned w) :
    w.currentProcess = v.currentProcess := by
  cases effect with
  | quiet => rfl
  | failed => rfl
  | spawned => rfl
  | exited => rfl
  | yielded => rfl

theorem Moves.current {v w : View} {mode mode' : Mode} {asked : Asked}
    (moves : Moves asked mode v mode' w) :
    (mode ≠ .scheduler → w.currentProcess = v.currentProcess) ∧ (mode = .scheduler → mode' ≠ .user) := by
  cases moves with
  | created => exact ⟨fun busy => absurd rfl busy, fun _ => by decide⟩
  | quiet => exact ⟨fun busy => absurd rfl busy, fun _ => by decide⟩
  | idle => exact ⟨fun busy => absurd rfl busy, fun _ => by decide⟩
  | chosen => exact ⟨fun busy => absurd rfl busy, fun _ => by decide⟩
  | continued => exact ⟨fun _ => rfl, fun idle => by cases idle⟩
  | handled p current effect => exact ⟨fun _ => effect.current, fun idle => by cases idle⟩
  | left p current effect => exact ⟨fun _ => effect.current, fun idle => by cases idle⟩

theorem Moves.present {v w : View} {mode mode' : Mode} {asked : Asked}
    (moves : Moves asked mode v mode' w) (p : Nat) (known : p ∈ v.processes) : p ∈ w.processes := by
  have effects : ∀ {caller : Nat} {returned : Bool} {u : View}, Effect v caller asked returned u →
      p ∈ u.processes := by
    intro caller returned u effect
    cases effect with
    | quiet => exact known
    | failed => exact List.mem_cons_of_mem _ known
    | spawned => exact List.mem_cons_of_mem _ known
    | exited => exact known
    | yielded => exact known
  cases moves with
  | created => exact List.mem_cons_of_mem _ known
  | quiet => exact known
  | idle => exact known
  | chosen => exact known
  | continued => exact known
  | handled q current effect => exact effects effect
  | left q current effect => exact effects effect

structure Orderly (mode : Mode) (v : View) : Prop where
  held : v.held = []
  numReaders : v.numReaders = 0
  known : ∀ p ∈ v.processes, v.id p = p ∧ p ≤ v.pid
  parents : ∀ p ∈ v.processes, ∀ q, v.parent p = some q → q ∈ v.processes ∧ q < p
  waiting : ∀ p ∈ v.processes, ∀ c, v.state p = .waiting c →
    c ∈ v.processes ∧ v.parent c = some p ∧ ∀ r, v.state c ≠ .terminated r
  running : ∀ p ∈ v.processes, v.state p = .running →
    mode ≠ .scheduler ∧ v.currentProcess = some p
  current : mode ≠ .scheduler → ∃ p ∈ v.processes, v.currentProcess = some p ∧
    (v.state p = .running ∨ ∃ c, v.state p = .waiting c)

theorem orderly_empty (v : View) (processes : v.processes = []) (held : v.held = [])
    (numReaders : v.numReaders = 0) : Orderly .scheduler v := by
  have none : ∀ p, p ∉ v.processes := by simp [processes]
  exact ⟨held, numReaders, fun p hp => absurd hp (none p), fun p hp => absurd hp (none p),
    fun p hp => absurd hp (none p), fun p hp => absurd hp (none p), fun user => absurd rfl user⟩

namespace Orderly

variable {mode mode' : Mode} {v w : View} {asked : Asked}

theorem fresh (orderly : Orderly mode v) (p : Nat) (present : p ∈ v.processes) : p ≠ v.pid + 1 := by
  have := (orderly.known p present).2
  omega

theorem state_created (orderly : Orderly mode v) (p : Nat) (present : p ∈ v.processes) :
    v.created.state p = v.state p :=
  Function.update_of_ne (orderly.fresh p present) _ _

theorem parent_created (orderly : Orderly mode v) (p : Nat) (present : p ∈ v.processes) :
    v.created.parent p = v.parent p :=
  Function.update_of_ne (orderly.fresh p present) _ _

theorem created (orderly : Orderly mode v) : Orderly mode v.created where
  held := orderly.held
  numReaders := orderly.numReaders
  known := by
    intro p present
    rcases List.mem_cons.mp present with rfl | old
    · exact ⟨Function.update_self _ _ _, le_refl _⟩
    · refine ⟨(Function.update_of_ne (orderly.fresh p old) _ _).trans (orderly.known p old).1, ?_⟩
      exact le_trans (orderly.known p old).2 (Nat.le_succ _)
  parents := by
    intro p present q isParent
    rcases List.mem_cons.mp present with rfl | old
    · have : v.created.parent (v.pid + 1) = none := Function.update_self _ _ _
      rw [this] at isParent
      cases isParent
    · rw [orderly.parent_created p old] at isParent
      obtain ⟨known, below⟩ := orderly.parents p old q isParent
      exact ⟨List.mem_cons_of_mem _ known, below⟩
  waiting := by
    intro p present c waits
    rcases List.mem_cons.mp present with rfl | old
    · have : v.created.state (v.pid + 1) = .ready := Function.update_self _ _ _
      rw [this] at waits
      cases waits
    · rw [orderly.state_created p old] at waits
      obtain ⟨known, isParent, alive⟩ := orderly.waiting p old c waits
      refine ⟨List.mem_cons_of_mem _ known, ?_, ?_⟩
      · rw [orderly.parent_created c known]
        exact isParent
      · rw [orderly.state_created c known]
        exact alive
  running := by
    intro p present runs
    rcases List.mem_cons.mp present with rfl | old
    · have : v.created.state (v.pid + 1) = .ready := Function.update_self _ _ _
      rw [this] at runs
      cases runs
    · rw [orderly.state_created p old] at runs
      exact orderly.running p old runs
  current := by
    intro user
    obtain ⟨p, present, current, state⟩ := orderly.current user
    refine ⟨p, List.mem_cons_of_mem _ present, current, ?_⟩
    rw [orderly.state_created p present]
    exact state

theorem spawned (orderly : Orderly .user v) (p : Nat) (current : v.currentProcess = some p)
    (wait : Bool) : Orderly .user (v.created.adopted p (v.pid + 1) wait) := by
  have base := orderly.created
  obtain ⟨p', present, current', state⟩ := orderly.current (by decide)
  obtain rfl : p' = p := by
    rw [current] at current'
    exact (Option.some.inj current').symm
  have old : p' ≠ v.pid + 1 := orderly.fresh p' present
  have childReady : v.created.state (v.pid + 1) = .ready := Function.update_self _ _ _
  have parentElse : ∀ q, q ≠ v.pid + 1 →
      (v.created.adopted p' (v.pid + 1) wait).parent q = v.created.parent q :=
    fun q different => Function.update_of_ne different _ _
  have stateElse : ∀ q, q ≠ p' →
      (v.created.adopted p' (v.pid + 1) wait).state q = v.created.state q := by
    intro q different
    cases wait
    · rfl
    · exact Function.update_of_ne different _ _
  have stateCaller : (v.created.adopted p' (v.pid + 1) wait).state p' =
      if wait then .waiting (v.pid + 1) else v.created.state p' := by
    cases wait
    · rfl
    · exact Function.update_self _ _ _
  have childAlive : ∀ r, (v.created.adopted p' (v.pid + 1) wait).state (v.pid + 1) ≠ .terminated r := by
    intro r
    rw [stateElse _ old.symm, childReady]
    simp
  have childParent : (v.created.adopted p' (v.pid + 1) wait).parent (v.pid + 1) = some p' :=
    Function.update_self _ _ _
  have callerAlive : ∀ r, (v.created.adopted p' (v.pid + 1) wait).state p' ≠ .terminated r := by
    intro r
    rw [stateCaller, orderly.state_created p' present]
    cases wait <;> rcases state with state | ⟨c, state⟩ <;> simp [state]
  have kept : ∀ q ∈ v.created.processes, ∀ c, v.created.state q = .waiting c →
      c ∈ v.created.processes ∧ (v.created.adopted p' (v.pid + 1) wait).parent c = some q ∧
        ∀ r, (v.created.adopted p' (v.pid + 1) wait).state c ≠ .terminated r := by
    intro q known c waits
    obtain ⟨knownC, isParent, alive⟩ := base.waiting q known c waits
    have notChild : c ≠ v.pid + 1 := by
      rintro rfl
      have : v.created.parent (v.pid + 1) = none := Function.update_self _ _ _
      rw [this] at isParent
      cases isParent
    refine ⟨knownC, by rw [parentElse c notChild]; exact isParent, fun r => ?_⟩
    by_cases same : c = p'
    · rw [same]
      exact callerAlive r
    · rw [stateElse c same]
      exact alive r
  refine ⟨base.held, base.numReaders, base.known, ?_, ?_, ?_, ?_⟩
  · intro q known r isParent
    by_cases child : q = v.pid + 1
    · rw [child, childParent] at isParent
      obtain rfl := Option.some.inj isParent
      rw [child]
      exact ⟨List.mem_cons_of_mem _ present, Nat.lt_succ_of_le (orderly.known _ present).2⟩
    · rw [parentElse q child] at isParent
      exact base.parents q known r isParent
  · intro q known c waits
    by_cases caller : q = p'
    · rw [caller, stateCaller] at waits
      cases wait with
      | true =>
          obtain rfl := ProcessState.waiting.inj waits
          rw [caller]
          exact ⟨List.mem_cons_self, childParent, childAlive⟩
      | false => exact kept q known c (by rw [caller]; exact waits)
    · rw [stateElse q caller] at waits
      exact kept q known c waits
  · intro q known runs
    by_cases caller : q = p'
    · exact ⟨by decide, by rw [caller]; exact current⟩
    · rw [stateElse q caller] at runs
      exact base.running q known runs
  · intro user
    refine ⟨p', List.mem_cons_of_mem _ present, current, ?_⟩
    rw [stateCaller, orderly.state_created p' present]
    cases wait with
    | true => exact Or.inr ⟨_, rfl⟩
    | false => exact state

theorem state_exited (v : View) (p : Nat) (status : Except Fault Nat) (q : Nat)
    (notSelf : v.parent p ≠ some p) :
    (v.exited p status).state q =
      if q = p then .terminated status
      else if v.parent p = some q ∧ v.state q = .waiting p then .ready else v.state q := by
  have terminated : ∀ q, Function.update v.state p (.terminated status) q =
      if q = p then .terminated status else v.state q := fun q => Function.update_apply _ _ _ _
  unfold View.exited
  cases isParent : v.parent p with
  | none =>
      simp only [woken, terminated]
      simp
  | some q' =>
      have different : q' ≠ p := by
        rintro rfl
        exact notSelf isParent
      simp only [woken, Function.update_apply, if_neg different]
      by_cases same : q = q'
      · subst same
        simp [different]
      · have other : ¬ q' = q := fun h => same h.symm
        simp [same, other]

theorem notSelf (orderly : Orderly mode v) (p : Nat) (present : p ∈ v.processes) :
    v.parent p ≠ some p := by
  intro isParent
  have := (orderly.parents p present p isParent).2
  omega

theorem exited (orderly : Orderly .user v) (p : Nat) (current : v.currentProcess = some p)
    (status : Except Fault Nat) : Orderly .scheduler (v.exited p status) := by
  obtain ⟨p', present, current', -⟩ := orderly.current (by decide)
  obtain rfl : p' = p := by
    rw [current] at current'
    exact (Option.some.inj current').symm
  have state := fun q => state_exited v p' status q (orderly.notSelf p' present)
  refine ⟨orderly.held, orderly.numReaders, orderly.known, orderly.parents, ?_, ?_, ?_⟩
  · intro q known c waits
    rw [state q] at waits
    split at waits
    · cases waits
    next notCurrent =>
      split at waits
      · cases waits
      next kept =>
        obtain ⟨knownC, isParent, alive⟩ := orderly.waiting q known c waits
        refine ⟨knownC, isParent, fun r => ?_⟩
        have notExiting : c ≠ p' := by
          rintro rfl
          exact kept ⟨isParent, waits⟩
        rw [state c, if_neg notExiting]
        split
        · simp
        · exact alive r
  · intro q known runs
    rw [state q] at runs
    split at runs
    · cases runs
    next notCurrent =>
      split at runs
      · cases runs
      next =>
        obtain ⟨-, same⟩ := orderly.running q known runs
        rw [current] at same
        exact absurd (Option.some.inj same).symm notCurrent
  · intro user
    exact absurd rfl user

theorem yielded (orderly : Orderly .user v) (p : Nat) (current : v.currentProcess = some p) :
    Orderly .scheduler (v.yielded p) := by
  obtain ⟨p', present, current', before⟩ := orderly.current (by decide)
  obtain rfl : p' = p := by
    rw [current] at current'
    exact (Option.some.inj current').symm
  have state : ∀ q, (v.yielded p').state q =
      if q = p' ∧ v.state q = .running then .ready else v.state q := by
    intro q
    unfold View.yielded
    simp only [Function.update_apply]
    by_cases same : q = p'
    · simp [same]
    · simp [same]
  refine ⟨orderly.held, orderly.numReaders, orderly.known, orderly.parents, ?_, ?_, ?_⟩
  · intro q known c waits
    rw [state q] at waits
    split at waits
    · cases waits
    next =>
      obtain ⟨knownC, isParent, alive⟩ := orderly.waiting q known c waits
      refine ⟨knownC, isParent, fun r => ?_⟩
      rw [state c]
      split
      · simp
      · exact alive r
  · intro q known runs
    rw [state q] at runs
    split at runs
    · cases runs
    next kept =>
      obtain ⟨-, same⟩ := orderly.running q known runs
      rw [current] at same
      exact absurd ⟨(Option.some.inj same).symm, runs⟩ kept
  · intro user
    exact absurd rfl user

theorem chosen (orderly : Orderly .scheduler v) (pids : List Nat) (p : Nat)
    (present : p ∈ v.processes) :
    Orderly .resumed
      { v with pids, state := Function.update v.state p .running, currentProcess := some p } := by
  have idle : ∀ q ∈ v.processes, v.state q ≠ .running := fun q known runs =>
    (orderly.running q known runs).1 rfl
  refine ⟨orderly.held, orderly.numReaders, orderly.known, orderly.parents, ?_, ?_, ?_⟩
  · intro q known c waits
    by_cases same : q = p
    · simp [same] at waits
    · simp only [Function.update_of_ne same] at waits
      obtain ⟨knownC, isParent, alive⟩ := orderly.waiting q known c waits
      refine ⟨knownC, isParent, fun r => ?_⟩
      by_cases sameC : c = p
      · simp [sameC]
      · simp only [Function.update_of_ne sameC]
        exact alive r
  · intro q known runs
    by_cases same : q = p
    · exact ⟨by decide, by rw [same]⟩
    · simp only [Function.update_of_ne same] at runs
      exact absurd runs (idle q known)
  · intro _
    exact ⟨p, present, rfl, Or.inl (Function.update_self _ _ _)⟩

theorem effect {returned : Bool} (orderly : Orderly .user v) (p : Nat)
    (current : v.currentProcess = some p) (effect : Effect v p asked returned w) :
    Orderly (if returned then .user else .scheduler) w := by
  cases effect with
  | quiet free stays => exact orderly
  | failed free stays => exact orderly.created
  | spawned wait exactly stays => exact orderly.spawned p current wait
  | exited status free exits => exact orderly.exited p current status
  | yielded free stays => exact orderly.yielded p current

theorem moves (orderly : Orderly mode v) (moves : Moves asked mode v mode' w) : Orderly mode' w := by
  cases moves with
  | created => exact orderly.created
  | quiet => exact orderly
  | idle pids =>
      exact ⟨orderly.held, orderly.numReaders, orderly.known, orderly.parents, orderly.waiting,
        orderly.running, orderly.current⟩
  | chosen pids p present ready => exact orderly.chosen pids p present
  | continued =>
      exact ⟨orderly.held, orderly.numReaders, orderly.known, orderly.parents, orderly.waiting,
        fun p known runs => ⟨by decide, (orderly.running p known runs).2⟩,
        fun _ => orderly.current (by decide)⟩
  | handled p current effect => exact orderly.effect p current effect
  | left p current effect => exact orderly.effect p current effect

theorem terminated_moves (orderly : Orderly mode v) (moves : Moves asked mode v mode' w) (p : Nat)
    (present : p ∈ v.processes) (r : Except Fault Nat) (terminated : v.state p = .terminated r) :
    p ∈ w.processes ∧ w.state p = .terminated r := by
  have created : p ∈ v.created.processes ∧ v.created.state p = .terminated r :=
    ⟨List.mem_cons_of_mem _ present, (orderly.state_created p present).trans terminated⟩
  have notCurrent : mode = .user → ∀ q, v.currentProcess = some q → p ≠ q := by
    rintro rfl q current rfl
    obtain ⟨p', -, current', state⟩ := orderly.current (by decide)
    obtain rfl : p' = p := by
      rw [current] at current'
      exact (Option.some.inj current').symm
    rcases state with state | ⟨c, state⟩ <;> rw [terminated] at state <;> cases state
  have effect : ∀ q returned, mode = .user → v.currentProcess = some q → Effect v q asked returned w →
      p ∈ w.processes ∧ w.state p = .terminated r := by
    intro q returned user current effect
    have different := notCurrent user q current
    cases effect with
    | quiet free stays => exact ⟨present, terminated⟩
    | failed free stays => exact created
    | spawned wait exactly stays =>
        refine ⟨created.1, ?_⟩
        cases wait with
        | true => exact (Function.update_of_ne different _ _).trans created.2
        | false => exact created.2
    | exited status free exits =>
        refine ⟨present, ?_⟩
        obtain ⟨q', knownQ, current', -⟩ := orderly.current (by rw [user]; decide)
        obtain rfl : q' = q := by
          rw [current] at current'
          exact (Option.some.inj current').symm
        rw [state_exited v q' status p (orderly.notSelf q' knownQ), if_neg different, if_neg]
        · exact terminated
        · rintro ⟨-, waits⟩
          rw [terminated] at waits
          cases waits
    | yielded free stays => exact ⟨present, (Function.update_of_ne different _ _).trans terminated⟩
  cases moves with
  | created => exact created
  | quiet => exact ⟨present, terminated⟩
  | idle pids => exact ⟨present, terminated⟩
  | chosen pids q known ready =>
      refine ⟨present, (Function.update_of_ne ?_ _ _).trans terminated⟩
      rintro rfl
      rw [terminated] at ready
      cases ready
  | continued => exact ⟨present, terminated⟩
  | handled q current caused => exact effect q true rfl current caused
  | left q current caused => exact effect q false rfl current caused

/-- The move that terminates a process makes the parent that waits for it ready. -/
theorem wakes (orderly : Orderly mode v) (moves : Moves asked mode v mode' w) (p c : Nat)
    (present : p ∈ v.processes) (waits : v.state p = .waiting c) (r : Except Fault Nat)
    (terminated : w.state c = .terminated r) : w.state p = .ready := by
  obtain ⟨knownC, isParent, alive⟩ := orderly.waiting p present c waits
  have created : v.created.state c ≠ .terminated r := by
    rw [orderly.state_created c knownC]
    exact alive r
  have effect : ∀ q returned, mode = .user → v.currentProcess = some q → Effect v q asked returned w →
      w.state p = .ready := by
    intro q returned user current effect
    cases effect with
    | quiet free stays => exact absurd terminated (alive r)
    | failed free stays => exact absurd terminated created
    | spawned wait exactly stays =>
        cases wait with
        | false => exact absurd terminated created
        | true =>
            by_cases same : c = q
            · rw [same] at terminated
              exact absurd ((Function.update_self _ _ _).symm.trans terminated) (by simp)
            · exact absurd ((Function.update_of_ne same _ _).symm.trans terminated) created
    | exited status free exits =>
        obtain ⟨q', knownQ, current', -⟩ := orderly.current (by rw [user]; decide)
        obtain rfl : q' = q := by
          rw [current] at current'
          exact (Option.some.inj current').symm
        have state := fun x => state_exited v q' status x (orderly.notSelf q' knownQ)
        have isCurrent : c = q' := by
          by_contra different
          rw [state c, if_neg different] at terminated
          split at terminated
          · cases terminated
          · exact alive r terminated
        have notCurrent : p ≠ q' := by
          rintro rfl
          rw [isCurrent] at isParent
          exact orderly.notSelf p present isParent
        rw [state p, if_neg notCurrent, if_pos]
        rw [← isCurrent]
        exact ⟨isParent, waits⟩
    | yielded free stays =>
        exfalso
        unfold View.yielded at terminated
        simp only [Function.update_apply] at terminated
        split at terminated
        · split at terminated
          · cases terminated
          next same _ =>
            rw [← same] at terminated
            exact alive r terminated
        · exact alive r terminated
  cases moves with
  | created => exact absurd terminated created
  | quiet => exact absurd terminated (alive r)
  | idle pids => exact absurd terminated (alive r)
  | chosen pids q known ready =>
      exfalso
      simp only [Function.update_apply] at terminated
      split at terminated
      · cases terminated
      · exact alive r terminated
  | continued => exact absurd terminated (alive r)
  | handled q current caused => exact effect q true rfl current caused
  | left q current caused => exact effect q false rfl current caused

end Orderly

end View

def Machine.asked (plat : Platform) (m : Machine) (event : Event) : View.Asked where
  blocks := ∃ child, m.WaitsFor plat event child
  exits := m.Exits plat event

end Jangri
