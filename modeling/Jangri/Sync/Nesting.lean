import Jangri.Lib.Run
import Jangri.Rust

/-! `push` and `pop`: one nesting counter and one saved flag for all mutexes of the hart.

The hart runs one activation at a time: a thread, or the handler that interrupted it. Each step is
one access to `sstatus`, to the counter, to the saved flag or to a lock word, and an interrupt is
taken between any two steps where interrupts are enabled. -/

namespace Jangri

open Lib

namespace Nesting

inductive Point
  | idle
  | pushRead (mutex : Nat) (were : Bool)
  | pushDisabled (mutex : Nat) (were : Bool)
  | pushOutermost (mutex : Nat) (were : Bool)
  | pushCounting (mutex : Nat)
  | pushed (mutex : Nat)
  | released (mutex : Nat)
  | popDecreased
  | popOutermost
  | popEnabling
  deriving DecidableEq

def Point.inProgress : Point → Bool
  | .idle | .pushed _ | .released _ => false
  | _ => true

def Point.popping : Point → Bool
  | .popDecreased | .popOutermost | .popEnabling => true
  | _ => false

/-- `before` is a history variable: the interrupt-enable flag when the outermost `lock` of the
activation was called. -/
structure Activation where
  point : Point
  owned : List Nat
  before : Bool
  deriving DecidableEq

structure Hart where
  /-- `sstatus.SIE`. -/
  enabled : Bool
  nestingLevel : Nat
  original : Bool
  /-- The mutexes whose lock word is set. -/
  locked : List Nat
  running : Activation
  interrupted : List Activation
  deriving DecidableEq

inductive Action
  | lock (mutex : Nat)
  | unlock (mutex : Nat)
  | advance
  | setInterrupts (status : Bool)
  | interrupt
  | sret
  deriving DecidableEq

/-- `fetch_sub(1)`. Fewer than 2^64 mutexes fit into memory, so counting up does not wrap. -/
def decrease (level : Nat) : Nat := if level = 0 then usizeBound - 1 else level - 1

namespace Hart

def goTo (h : Hart) (point : Point) : Hart := { h with running := { h.running with point } }

def advance (h : Hart) : Option Hart :=
  match h.running.point with
  | .idle => none
  | .pushRead mutex were => some { h.goTo (.pushDisabled mutex were) with enabled := false }
  | .pushDisabled mutex were =>
      if h.nestingLevel = 0 then some (h.goTo (.pushOutermost mutex were))
      else some (h.goTo (.pushCounting mutex))
  | .pushOutermost mutex were => some { h.goTo (.pushCounting mutex) with original := were }
  | .pushCounting mutex =>
      some { h.goTo (.pushed mutex) with nestingLevel := h.nestingLevel + 1 }
  | .pushed mutex =>
      -- the compare-exchange spins while the word is set
      if mutex ∈ h.locked then none
      else some { h with
        locked := mutex :: h.locked
        running := { h.running with point := .idle, owned := mutex :: h.running.owned } }
  | .released _ => some { h.goTo .popDecreased with nestingLevel := decrease h.nestingLevel }
  | .popDecreased => some (h.goTo (if h.nestingLevel = 0 then .popOutermost else .idle))
  | .popOutermost => some (h.goTo (if h.original then .popEnabling else .idle))
  | .popEnabling => some { h.goTo .idle with enabled := true }

/-- A mutex that is already held is not locked; a handler returns when it owns nothing, and the
only code that sets the flag itself is a thread that owns nothing. -/
def step (h : Hart) : Action → Option Hart
  | .lock mutex =>
      if h.running.point = .idle ∧ mutex ∉ h.locked then
        some { h with running :=
          { h.running with
            point := .pushRead mutex h.enabled
            before := if h.running.owned = [] then h.enabled else h.running.before } }
      else none
  | .unlock mutex =>
      if h.running.point = .idle ∧ mutex ∈ h.running.owned then
        some { h with
          locked := h.locked.erase mutex
          running :=
            { h.running with point := .released mutex, owned := h.running.owned.erase mutex } }
      else none
  | .advance => h.advance
  | .setInterrupts status =>
      if h.running.point = .idle ∧ h.running.owned = [] ∧ h.interrupted = [] then
        some { h with enabled := status }
      else none
  | .interrupt =>
      if h.enabled then
        some { h with
          enabled := false
          running := ⟨.idle, [], false⟩
          interrupted := h.running :: h.interrupted }
      else none
  | .sret =>
      if h.running.point = .idle ∧ h.running.owned = [] then
        match h.interrupted with
        | [] => none
        -- a trap is only taken with the flag set, so that `SPIE` is set as well
        | activation :: rest =>
            some { h with enabled := true, running := activation, interrupted := rest }
      else none

def Steps (h : Hart) (action : Action) (h' : Hart) : Prop := h.step action = some h'

/-- No lock is held and no handler runs. The flag and what was saved last may be anything. -/
structure Fresh (h : Hart) : Prop where
  level : h.nestingLevel = 0
  locked : h.locked = []
  running : h.running.point = .idle ∧ h.running.owned = []
  interrupted : h.interrupted = []

def held (h : Hart) : Nat :=
  match h.running.point with
  | .pushed _ | .released _ => h.locked.length + 1
  | _ => h.locked.length

def Settled (h : Hart) : Prop :=
  match h.running.point with
  | .idle => h.nestingLevel = h.running.owned.length ∧
      (h.running.owned ≠ [] → h.enabled = false ∧ h.original = h.running.before)
  | .pushRead _ were => h.nestingLevel = h.running.owned.length ∧ were = h.enabled ∧
      (h.running.owned = [] → were = h.running.before) ∧
      (h.running.owned ≠ [] → h.enabled = false ∧ h.original = h.running.before)
  | .pushDisabled _ were => h.nestingLevel = h.running.owned.length ∧ h.enabled = false ∧
      (h.running.owned = [] → were = h.running.before) ∧
      (h.running.owned ≠ [] → h.original = h.running.before)
  | .pushOutermost _ were => h.nestingLevel = 0 ∧ h.running.owned = [] ∧ h.enabled = false ∧
      were = h.running.before
  | .pushCounting _ => h.nestingLevel = h.running.owned.length ∧ h.enabled = false ∧
      h.original = h.running.before
  | .pushed _ | .released _ => h.nestingLevel = h.running.owned.length + 1 ∧ h.enabled = false ∧
      h.original = h.running.before
  | .popDecreased => h.nestingLevel = h.running.owned.length ∧ h.enabled = false ∧
      h.original = h.running.before
  | .popOutermost => h.nestingLevel = 0 ∧ h.running.owned = [] ∧ h.enabled = false ∧
      h.original = h.running.before
  | .popEnabling => h.nestingLevel = 0 ∧ h.running.owned = [] ∧ h.enabled = false ∧
      h.running.before = true

def Parked (a : Activation) : Prop :=
  a.owned = [] ∧ (a.point = .idle ∨ ∃ mutex, a.point = .pushRead mutex true ∧ a.before = true)

structure Inv (h : Hart) : Prop where
  locked : h.locked = h.running.owned
  settled : h.Settled
  parked : ∀ a ∈ h.interrupted, Parked a
  handler : h.interrupted ≠ [] → h.enabled = false ∧ h.running.before = false
  single : h.interrupted.length ≤ 1

variable {h h' : Hart}

theorem inv_fresh (fresh : h.Fresh) : h.Inv where
  locked := by rw [fresh.locked, fresh.running.2]
  settled := by
    unfold Settled
    rw [fresh.running.1]
    refine ⟨?_, ?_⟩
    · rw [fresh.level, fresh.running.2]
      rfl
    · intro owns
      exact absurd fresh.running.2 owns
  parked := by simp [fresh.interrupted]
  handler := fun busy => absurd fresh.interrupted busy
  single := by simp [fresh.interrupted]

theorem inv_lock (inv : h.Inv) (mutex : Nat) (taken : h.step (.lock mutex) = some h') :
    h'.Inv := by
  simp only [step] at taken
  split at taken
  next possible =>
    cases taken
    have settled := inv.settled
    unfold Settled at settled
    rw [possible.1] at settled
    refine ⟨inv.locked, ?_, inv.parked, ?_, inv.single⟩
    · refine ⟨settled.1, rfl, ?_, ?_⟩
      · intro none_
        simp only at none_ ⊢
        rw [if_pos none_]
      · intro owns
        simp only at owns ⊢
        rw [if_neg owns]
        exact settled.2 owns
    · intro busy
      have quiet := inv.handler busy
      refine ⟨quiet.1, ?_⟩
      simp only
      split
      · exact quiet.1
      · exact quiet.2
  next => cases taken

theorem inv_unlock (inv : h.Inv) (mutex : Nat) (taken : h.step (.unlock mutex) = some h') :
    h'.Inv := by
  simp only [step] at taken
  split at taken
  next possible =>
    cases taken
    have settled := inv.settled
    unfold Settled at settled
    rw [possible.1] at settled
    have owns : h.running.owned ≠ [] := List.ne_nil_of_mem possible.2
    have length := List.length_erase_of_mem possible.2
    have positive := List.length_pos_of_mem possible.2
    refine ⟨?_, ?_, inv.parked, inv.handler, inv.single⟩
    · simp only
      rw [inv.locked]
    · refine ⟨?_, settled.2 owns⟩
      simp only
      omega
  next => cases taken

theorem inv_advance (inv : h.Inv) (taken : h.advance = some h') : h'.Inv := by
  have settled := inv.settled
  unfold Settled at settled
  unfold advance at taken
  split at taken
  next => cases taken
  next mutex were point =>
    cases taken
    rw [point] at settled
    exact ⟨inv.locked, ⟨settled.1, rfl, settled.2.2.1, fun owns => (settled.2.2.2 owns).2⟩,
      inv.parked, fun busy => ⟨rfl, (inv.handler busy).2⟩, inv.single⟩
  next mutex were point =>
    rw [point] at settled
    split at taken
    next zero =>
      cases taken
      have none_ : h.running.owned = [] := List.eq_nil_of_length_eq_zero (settled.1.symm.trans zero)
      exact ⟨inv.locked, ⟨zero, none_, settled.2.1, settled.2.2.1 none_⟩, inv.parked, inv.handler, inv.single⟩
    next nonzero =>
      cases taken
      have owns : h.running.owned ≠ [] := by
        intro none_
        rw [none_] at settled
        exact nonzero settled.1
      exact ⟨inv.locked, ⟨settled.1, settled.2.1, settled.2.2.2 owns⟩, inv.parked, inv.handler, inv.single⟩
  next mutex were point =>
    cases taken
    rw [point] at settled
    have zero : h.nestingLevel = h.running.owned.length := by rw [settled.1, settled.2.1]; rfl
    exact ⟨inv.locked, ⟨zero, settled.2.2.1, settled.2.2.2⟩, inv.parked, inv.handler, inv.single⟩
  next mutex point =>
    cases taken
    rw [point] at settled
    exact ⟨inv.locked, ⟨by rw [settled.1]; rfl, settled.2⟩, inv.parked, inv.handler, inv.single⟩
  next mutex point =>
    rw [point] at settled
    split at taken
    next => cases taken
    next =>
      cases taken
      refine ⟨?_, ⟨?_, fun _ => settled.2⟩, inv.parked, inv.handler, inv.single⟩
      · simp only
        rw [inv.locked]
      · simp only [List.length_cons]
        exact settled.1
  next mutex point =>
    cases taken
    rw [point] at settled
    refine ⟨inv.locked, ⟨?_, settled.2⟩, inv.parked, inv.handler, inv.single⟩
    simp only [decrease]
    rw [settled.1, if_neg (Nat.succ_ne_zero _)]
    rfl
  next point =>
    cases taken
    rw [point] at settled
    refine ⟨inv.locked, ?_, inv.parked, inv.handler, inv.single⟩
    by_cases zero : h.nestingLevel = 0
    · rw [if_pos zero]
      exact ⟨zero, List.eq_nil_of_length_eq_zero (settled.1.symm.trans zero), settled.2⟩
    · rw [if_neg zero]
      exact ⟨settled.1, fun _ => settled.2⟩
  next point =>
    cases taken
    rw [point] at settled
    refine ⟨inv.locked, ?_, inv.parked, inv.handler, inv.single⟩
    by_cases status : h.original = true
    · rw [if_pos status]
      exact ⟨settled.1, settled.2.1, settled.2.2.1, settled.2.2.2.symm.trans status⟩
    · rw [if_neg status]
      refine ⟨?_, fun owns => absurd settled.2.1 owns⟩
      exact settled.1.trans (congrArg List.length settled.2.1).symm
  next point =>
    cases taken
    rw [point] at settled
    refine ⟨inv.locked, ⟨?_, fun owns => absurd settled.2.1 owns⟩, inv.parked, ?_, inv.single⟩
    · exact settled.1.trans (congrArg List.length settled.2.1).symm
    · intro busy
      rw [(inv.handler busy).2] at settled
      cases settled.2.2.2

theorem inv_setInterrupts (inv : h.Inv) (status : Bool)
    (taken : h.step (.setInterrupts status) = some h') : h'.Inv := by
  simp only [step] at taken
  split at taken
  next possible =>
    cases taken
    have settled := inv.settled
    unfold Settled at settled
    rw [possible.1] at settled
    refine ⟨inv.locked, ?_, inv.parked, fun busy => absurd possible.2.2 busy, inv.single⟩
    unfold Settled
    rw [possible.1]
    exact ⟨settled.1, fun owns => absurd possible.2.1 owns⟩
  next => cases taken

theorem Inv.parked_of_enabled (inv : h.Inv) (enabled : h.enabled = true) : Parked h.running := by
  have settled := inv.settled
  unfold Settled at settled
  have restful : (h.running.owned ≠ [] → h.enabled = false ∧ h.original = h.running.before) →
      h.running.owned = [] := by
    intro closed
    by_contra owns
    rw [(closed owns).1] at enabled
    cases enabled
  have impossible : h.enabled = false → Parked h.running := by
    intro disabled
    rw [disabled] at enabled
    cases enabled
  split at settled
  next point => exact ⟨restful settled.2, Or.inl point⟩
  next mutex were point =>
    have none_ := restful settled.2.2.2
    have read : were = true := settled.2.1.trans enabled
    refine ⟨none_, Or.inr ⟨mutex, ?_, ?_⟩⟩
    · rw [point, read]
    · rw [← settled.2.2.1 none_]
      exact read
  next => exact impossible settled.2.1
  next => exact impossible settled.2.2.1
  next => exact impossible settled.2.1
  next => exact impossible settled.2.1
  next => exact impossible settled.2.1
  next => exact impossible settled.2.1
  next => exact impossible settled.2.2.1
  next => exact impossible settled.2.2.1

theorem inv_interrupt (inv : h.Inv) (taken : h.step .interrupt = some h') : h'.Inv := by
  simp only [step] at taken
  split at taken
  next enabled =>
    cases taken
    have parked := inv.parked_of_enabled enabled
    have settled := inv.settled
    have zero : h.nestingLevel = 0 := by
      unfold Settled at settled
      rcases parked.2 with point | ⟨mutex, point, -⟩
      · rw [point, parked.1] at settled
        exact settled.1
      · rw [point, parked.1] at settled
        exact settled.1
    have alone : h.interrupted = [] := by
      by_contra busy
      rw [(inv.handler busy).1] at enabled
      cases enabled
    refine ⟨?_, ⟨zero, fun owns => absurd rfl owns⟩, ?_, fun _ => ⟨rfl, rfl⟩, ?_⟩
    · simp only
      rw [inv.locked, parked.1]
    · intro a member
      rcases List.mem_cons.mp member with rfl | older
      · exact parked
      · exact inv.parked a older
    · simp only [alone, List.length_singleton, le_refl]
  next => cases taken

theorem inv_sret (inv : h.Inv) (taken : h.step .sret = some h') : h'.Inv := by
  simp only [step] at taken
  split at taken
  next possible =>
    split at taken
    next => cases taken
    next activation rest stack =>
      cases taken
      have settled := inv.settled
      unfold Settled at settled
      rw [possible.1, possible.2] at settled
      have parked := inv.parked activation (by rw [stack]; exact List.mem_cons_self)
      have last : rest = [] := by
        have single := inv.single
        rw [stack, List.length_cons] at single
        exact List.eq_nil_of_length_eq_zero (by omega)
      refine ⟨?_, ?_, ?_, fun busy => absurd last busy, ?_⟩
      · simp only
        rw [inv.locked, possible.2, parked.1]
      · unfold Settled
        rcases parked.2 with point | ⟨mutex, point, read⟩
        · simp only [point, parked.1]
          exact ⟨settled.1, fun owns => absurd rfl owns⟩
        · simp only [point, parked.1, read]
          exact ⟨settled.1, trivial, fun _ => trivial, fun owns => absurd rfl owns⟩
      · intro a member
        apply inv.parked
        rw [stack]
        exact List.mem_cons_of_mem _ member
      · simp only [last, List.length_nil, Nat.zero_le]
  next => cases taken

theorem inv_step (inv : h.Inv) (action : Action) (taken : h.Steps action h') : h'.Inv := by
  cases action with
  | lock mutex => exact inv_lock inv mutex taken
  | unlock mutex => exact inv_unlock inv mutex taken
  | advance => exact inv_advance inv taken
  | setInterrupts status => exact inv_setInterrupts inv status taken
  | interrupt => exact inv_interrupt inv taken
  | sret => exact inv_sret inv taken

/-- Outside of `push` and `pop` the level counts the locks. -/
theorem Inv.level (inv : h.Inv) (between : h.running.point.inProgress = false) :
    h.nestingLevel = h.held := by
  have settled := inv.settled
  unfold Settled at settled
  unfold held
  rw [inv.locked]
  cases point : h.running.point with
  | idle =>
      rw [point] at settled
      exact settled.1
  | pushed mutex =>
      rw [point] at settled
      exact settled.1
  | released mutex =>
      rw [point] at settled
      exact settled.1
  | _ =>
      rw [point] at between
      cases between

/-- Inside a sequence of locks the flag can only be set if it was set before the sequence. -/
theorem Inv.disabled (inv : h.Inv) (inside : h.running.owned ≠ [] ∨ h.running.point ≠ .idle)
    (before : h.running.owned ≠ [] ∨ h.running.before = false) : h.enabled = false := by
  have settled := inv.settled
  unfold Settled at settled
  split at settled
  next point =>
    rcases inside with owns | busy
    · exact (settled.2 owns).1
    · exact absurd point busy
  next =>
    by_cases owns : h.running.owned = []
    · rcases before with some_ | unset
      · exact absurd owns some_
      · rw [← settled.2.1, settled.2.2.1 owns]
        exact unset
    · exact (settled.2.2.2 owns).1
  next => exact settled.2.1
  next => exact settled.2.2.1
  next => exact settled.2.1
  next => exact settled.2.1
  next => exact settled.2.1
  next => exact settled.2.1
  next => exact settled.2.2.1
  next => exact settled.2.2.1

/-- When `pop` returns with the level at zero, the flag is what it was before the outermost lock. -/
theorem Inv.restored (inv : h.Inv) (popping : h.running.point.popping = true)
    (taken : h.Steps .advance h') (done : h'.running.point = .idle) (zero : h'.nestingLevel = 0) :
    h'.enabled = h'.running.before := by
  have settled := inv.settled
  unfold Settled at settled
  change h.advance = some h' at taken
  unfold advance at taken
  cases point : h.running.point with
  | popDecreased =>
      rw [point] at settled
      simp only [point] at taken
      cases taken
      simp only [goTo] at done zero
      rw [if_pos zero] at done
      cases done
  | popOutermost =>
      rw [point] at settled
      simp only [point] at taken
      cases taken
      simp only [goTo] at done ⊢
      split at done
      next => cases done
      next unset =>
        rw [settled.2.2.1, ← settled.2.2.2]
        exact (Bool.eq_false_iff.mpr unset).symm
  | popEnabling =>
      rw [point] at settled
      simp only [point] at taken
      cases taken
      exact settled.2.2.2.symm
  | _ =>
      rw [point] at popping
      cases popping

end Hart

section Results

variable (h h' : Hart) (trace : List (Hart × Action))

/-- Between calls of `push` and `pop` the level counts the locks; interrupts are disabled while a
lock is held; when the level is back at zero the flag is what it was before the outermost lock; and
a sequence of locks never enables interrupts that were disabled before it. -/
theorem nesting_disciplined (fresh : h.Fresh) (run : Run Hart.Steps h trace h') :
    ∀ u ∈ Run.visited trace h',
      (u.running.point.inProgress = false → u.nestingLevel = u.held) ∧
      (u.running.point = .idle → u.nestingLevel = u.locked.length) ∧
      (u.locked ≠ [] → u.enabled = false) ∧
      (∀ u', u.running.point.popping = true → u.Steps .advance u' → u'.running.point = .idle →
        u'.nestingLevel = 0 → u'.enabled = u'.running.before) ∧
      (u.running.before = false → u.running.owned ≠ [] ∨ u.running.point ≠ .idle →
        u.enabled = false) := by
  intro u visited
  have inv := run.invariant Hart.Inv (Hart.inv_fresh fresh)
    (fun t action w kept taken => Hart.inv_step kept action taken) u visited
  refine ⟨inv.level, ?_, ?_, ?_, ?_⟩
  · intro point
    have level := inv.level (by rw [point]; rfl)
    rw [level, Hart.held, point]
  · intro some_
    rw [inv.locked] at some_
    exact inv.disabled (Or.inl some_) (Or.inl some_)
  · intro u' popping taken done zero
    exact inv.restored popping taken done zero
  · intro unset inside
    exact inv.disabled inside (Or.inr unset)

end Results

def thread : Hart := ⟨true, 0, false, [], ⟨.idle, [], false⟩, []⟩

def interruptedPush : List Action :=
  [.lock 0, .interrupt, .lock 1, .advance, .advance, .advance, .advance, .advance, .unlock 1,
   .advance, .advance, .advance, .sret, .advance, .advance, .advance, .advance, .advance,
   .unlock 0, .advance, .advance, .advance]

theorem interrupted_push_restores : ∃ u u' trace, Run Hart.Steps thread trace u ∧
    u.Steps .advance u' ∧ u'.nestingLevel = 0 ∧ u'.enabled = u'.running.before ∧
    u'.running.before = true := by
  have ends : (Run.follow Hart.step thread interruptedPush).map (fun u => (u.running.point,
      u.step .advance)) = some (.popEnabling, some ⟨true, 0, true, [], ⟨.idle, [], true⟩, []⟩) := by
    decide +kernel
  rcases Option.map_eq_some_iff.mp ends with ⟨u, followed, last⟩
  rcases Run.of_follow (fun _ _ _ taken => taken) _ followed with ⟨trace, run, -⟩
  have point : u.running.point = .popEnabling := congrArg Prod.fst last
  have taken : u.step .advance = _ := congrArg Prod.snd last
  have disciplined := nesting_disciplined thread u trace ⟨rfl, rfl, ⟨rfl, rfl⟩, rfl⟩ run u
    (Run.last_mem_visited trace u)
  exact ⟨u, _, trace, run, taken, rfl,
    disciplined.2.2.2.1 _ (by rw [point]; rfl) taken rfl rfl, rfl⟩

end Nesting

end Jangri
