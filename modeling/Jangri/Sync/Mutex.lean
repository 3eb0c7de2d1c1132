import Jangri.Lib.Run
import Mathlib.Logic.Function.Basic

/-! `Mutex`: a spinlock whose holder is recorded in a second word.

Any number of harts, named by their ids, take steps in any order. A step is one atomic load, store
or compare-exchange. -/

namespace Jangri

open Lib

namespace Spinlock

/-- Where a hart is: the next access it makes. `release` is set when `is_locked` called `try_lock`,
and unlocks again what it got. -/
inductive Point
  | idle
  | lockLoad
  | lockCompare
  | panicked
  | lockExchange
  | tryExchange (release : Bool)
  | record (release : Bool)
  | unlockForget
  | unlockClear
  deriving DecidableEq

def Point.owning : Point → Bool
  | .panicked | .record _ | .unlockForget | .unlockClear => true
  | _ => false

def Point.unrecorded : Point → Bool
  | .record _ | .unlockClear => true
  | _ => false

/-- `owns` is a history variable: the hart is between the exchange that acquired the mutex and the
store that releases it. -/
structure Local where
  point : Point
  owns : Bool
  deriving DecidableEq

structure Mutex where
  isLocked : Bool
  holdingHart : Nat
  hart : Nat → Local

inductive Action
  | lock
  | tryLock
  | isLocked
  | unlock
  | advance
  deriving DecidableEq

namespace Mutex

def goTo (m : Mutex) (id : Nat) (point : Point) : Mutex :=
  { m with hart := Function.update m.hart id { m.hart id with point } }

def acquire (m : Mutex) (id : Nat) (release : Bool) : Mutex :=
  { m with isLocked := true, hart := Function.update m.hart id ⟨.record release, true⟩ }

def advance (m : Mutex) (id : Nat) : Option Mutex :=
  match (m.hart id).point with
  | .idle | .panicked => none
  | .lockLoad => some (m.goTo id (if m.isLocked then .lockCompare else .lockExchange))
  | .lockCompare => some (m.goTo id (if m.holdingHart = id + 1 then .panicked else .lockExchange))
  | .lockExchange => some (if m.isLocked then m else m.acquire id false)
  | .tryExchange release => some (if m.isLocked then m.goTo id .idle else m.acquire id release)
  | .record release =>
      some { m.goTo id (if release then .unlockForget else .idle) with holdingHart := id + 1 }
  | .unlockForget => some { m.goTo id .unlockClear with holdingHart := 0 }
  | .unlockClear =>
      some { m with isLocked := false, hart := Function.update m.hart id ⟨.idle, false⟩ }

/-- A hart calls between its calls, and `unlock` only as the holder. -/
def step (m : Mutex) (id : Nat) : Action → Option Mutex
  | .lock => if (m.hart id).point = .idle then some (m.goTo id .lockLoad) else none
  | .tryLock => if (m.hart id).point = .idle then some (m.goTo id (.tryExchange false)) else none
  | .isLocked => if (m.hart id).point = .idle then some (m.goTo id (.tryExchange true)) else none
  | .unlock =>
      if (m.hart id).point = .idle ∧ (m.hart id).owns = true then some (m.goTo id .unlockForget)
      else none
  | .advance => m.advance id

def Steps (m : Mutex) (label : Nat × Action) (m' : Mutex) : Prop :=
  m.step label.1 label.2 = some m'

structure Fresh (m : Mutex) : Prop where
  isLocked : m.isLocked = false
  holdingHart : m.holdingHart = 0
  harts : ∀ id, m.hart id = ⟨.idle, false⟩

structure Inv (m : Mutex) : Prop where
  locked : ∀ id, (m.hart id).owns = true → m.isLocked = true
  unique : ∀ a b, (m.hart a).owns = true → (m.hart b).owns = true → a = b
  recorded : ∀ id, m.holdingHart = id + 1 →
    (m.hart id).owns = true ∧ Point.unrecorded (m.hart id).point = false
  owning : ∀ id, Point.owning (m.hart id).point = true → (m.hart id).owns = true

variable {m m' : Mutex}

theorem inv_fresh (fresh : m.Fresh) : m.Inv where
  locked := by
    intro id owns
    rw [fresh.harts id] at owns
    cases owns
  unique := by
    intro a b owns
    rw [fresh.harts a] at owns
    cases owns
  recorded := by
    intro id recorded
    rw [fresh.holdingHart] at recorded
    omega
  owning := by
    intro id busy
    rw [fresh.harts id] at busy
    cases busy

@[simp] theorem goTo_self (id : Nat) (point : Point) :
    ((m.goTo id point).hart id) = { m.hart id with point } := Function.update_self _ _ _

theorem goTo_other (id other : Nat) (point : Point) (different : other ≠ id) :
    (m.goTo id point).hart other = m.hart other := Function.update_of_ne different _ _

theorem owns_goTo (id : Nat) (point : Point) (other : Nat) :
    ((m.goTo id point).hart other).owns = (m.hart other).owns := by
  by_cases here : other = id
  · rw [here, goTo_self]
  · rw [goTo_other id other point here]

theorem inv_goTo (inv : m.Inv) (id : Nat) (point : Point)
    (owning : Point.owning point = true → (m.hart id).owns = true)
    (recorded : m.holdingHart = id + 1 → Point.unrecorded point = false) : (m.goTo id point).Inv where
  locked := by
    intro other owns
    rw [owns_goTo] at owns
    exact inv.locked other owns
  unique := by
    intro a b ownsA ownsB
    rw [owns_goTo] at ownsA ownsB
    exact inv.unique a b ownsA ownsB
  recorded := by
    intro other isRecorded
    rw [owns_goTo]
    have known := inv.recorded other isRecorded
    refine ⟨known.1, ?_⟩
    by_cases here : other = id
    · rw [here] at isRecorded
      rw [here, goTo_self]
      exact recorded isRecorded
    · rw [goTo_other id other point here]
      exact known.2
  owning := by
    intro other busy
    rw [owns_goTo]
    by_cases here : other = id
    · rw [here, goTo_self] at busy
      rw [here]
      exact owning busy
    · rw [goTo_other id other point here] at busy
      exact inv.owning other busy

/-- The exchange succeeds only when nobody owns the mutex. -/
theorem inv_acquire (inv : m.Inv) (id : Nat) (release : Bool) (unlocked : m.isLocked = false) :
    (m.acquire id release).Inv := by
  have nobody : ∀ other, (m.hart other).owns = false := by
    intro other
    cases owns : (m.hart other).owns with
    | false => rfl
    | true =>
        rw [inv.locked other owns] at unlocked
        cases unlocked
  have only : ∀ other, ((m.acquire id release).hart other).owns = true → other = id := by
    intro other owns
    by_contra different
    have same : (m.acquire id release).hart other = m.hart other :=
      Function.update_of_ne different _ _
    rw [same, nobody other] at owns
    cases owns
  refine ⟨fun _ _ => rfl, ?_, ?_, ?_⟩
  · intro a b ownsA ownsB
    rw [only a ownsA, only b ownsB]
  · intro other recorded
    have owns := (inv.recorded other recorded).1
    rw [nobody other] at owns
    cases owns
  · intro other busy
    by_cases here : other = id
    · have same : (m.acquire id release).hart id = ⟨.record release, true⟩ :=
        Function.update_self _ _ _
      rw [here, same]
    · have same : (m.acquire id release).hart other = m.hart other :=
        Function.update_of_ne here _ _
      rw [same] at busy ⊢
      exact inv.owning other busy

theorem inv_store (inv : m.Inv) (id : Nat) (point : Point) (value : Nat)
    (owns : (m.hart id).owns = true)
    (recorded : ∀ other, value = other + 1 → other = id ∧ Point.unrecorded point = false) :
    ({ m.goTo id point with holdingHart := value } : Mutex).Inv where
  locked := by
    intro other ownsOther
    exact inv.locked other ((owns_goTo (m := m) id point other).symm.trans ownsOther)
  unique := by
    intro a b ownsA ownsB
    have sameA := (owns_goTo (m := m) id point a).symm.trans ownsA
    have sameB := (owns_goTo (m := m) id point b).symm.trans ownsB
    exact inv.unique a b sameA sameB
  recorded := by
    intro other isRecorded
    rcases recorded other isRecorded with ⟨here, known⟩
    rw [here]
    change ((m.goTo id point).hart id).owns = true ∧ _
    rw [goTo_self]
    exact ⟨owns, known⟩
  owning := by
    intro other busy
    by_cases here : other = id
    · rw [here]
      exact (owns_goTo id point id).trans owns
    · change Point.owning ((m.goTo id point).hart other).point = true at busy
      rw [goTo_other id other point here] at busy
      exact (owns_goTo id point other).trans (inv.owning other busy)

theorem inv_clear (inv : m.Inv) (id : Nat) (point : (m.hart id).point = .unlockClear) :
    ({ m with isLocked := false, hart := Function.update m.hart id ⟨.idle, false⟩ } : Mutex).Inv := by
  have owns : (m.hart id).owns = true := inv.owning id (by rw [point]; rfl)
  have nobody : ∀ other, (Function.update m.hart id ⟨.idle, false⟩ other).owns = false := by
    intro other
    by_cases here : other = id
    · rw [here, Function.update_self]
    · rw [Function.update_of_ne here]
      cases ownsOther : (m.hart other).owns with
      | false => rfl
      | true => exact absurd (inv.unique other id ownsOther owns) here
  refine ⟨?_, ?_, ?_, ?_⟩
  · intro other ownsOther
    have := (nobody other).symm.trans ownsOther
    cases this
  · intro a b ownsA
    have := (nobody a).symm.trans ownsA
    cases this
  · intro other recorded
    have known := inv.recorded other recorded
    have here := inv.unique other id known.1 owns
    rw [here, point] at known
    cases known.2
  · intro other busy
    by_cases here : other = id
    · rw [here] at busy
      change Point.owning (Function.update m.hart id ⟨.idle, false⟩ id).point = true at busy
      rw [Function.update_self] at busy
      cases busy
    · change Point.owning (Function.update m.hart id ⟨.idle, false⟩ other).point = true at busy
      rw [Function.update_of_ne here] at busy
      exact absurd (inv.unique other id (inv.owning other busy) owns) here

theorem inv_advance (inv : m.Inv) (id : Nat) (taken : m.advance id = some m') : m'.Inv := by
  unfold advance at taken
  split at taken
  next => cases taken
  next => cases taken
  next =>
    cases taken
    apply inv_goTo inv
    · split
      all_goals
        intro busy
        cases busy
    · split
      all_goals exact fun _ => rfl
  next =>
    cases taken
    apply inv_goTo inv
    · split
      next recorded => exact fun _ => (inv.recorded id recorded).1
      next =>
        intro busy
        cases busy
    · split
      all_goals exact fun _ => rfl
  next =>
    cases taken
    split
    next => exact inv
    next free => exact inv_acquire inv id false (Bool.eq_false_iff.mpr free)
  next release _ =>
    cases taken
    split
    next =>
      apply inv_goTo inv
      · intro busy
        cases busy
      · exact fun _ => rfl
    next free => exact inv_acquire inv id release (Bool.eq_false_iff.mpr free)
  next release point =>
    cases taken
    apply inv_store inv id
    · exact inv.owning id (by rw [point]; rfl)
    · intro other isRecorded
      refine ⟨by omega, ?_⟩
      cases release <;> rfl
  next point =>
    cases taken
    apply inv_store inv id
    · exact inv.owning id (by rw [point]; rfl)
    · intro other isRecorded
      omega
  next point =>
    cases taken
    exact inv_clear inv id point

theorem inv_step (inv : m.Inv) (label : Nat × Action) (taken : m.Steps label m') : m'.Inv := by
  rcases label with ⟨id, action⟩
  have calls : ∀ point, Point.owning point = false → Point.unrecorded point = false →
      (m.goTo id point).Inv := by
    intro point outside recorded
    apply inv_goTo inv
    · intro busy
      rw [outside] at busy
      cases busy
    · exact fun _ => recorded
  cases action with
  | lock =>
      simp only [Steps, step, Option.ite_none_right_eq_some, Option.some.injEq] at taken
      rw [← taken.2]
      exact calls _ rfl rfl
  | tryLock =>
      simp only [Steps, step, Option.ite_none_right_eq_some, Option.some.injEq] at taken
      rw [← taken.2]
      exact calls _ rfl rfl
  | isLocked =>
      simp only [Steps, step, Option.ite_none_right_eq_some, Option.some.injEq] at taken
      rw [← taken.2]
      exact calls _ rfl rfl
  | unlock =>
      simp only [Steps, step, Option.ite_none_right_eq_some, Option.some.injEq] at taken
      rw [← taken.2]
      apply inv_goTo inv
      · exact fun _ => taken.1.2
      · exact fun _ => rfl
  | advance => exact inv_advance inv id taken

end Mutex

section Results

variable (m m' : Mutex) (trace : List (Mutex × (Nat × Action)))

/-- At most one hart is between acquisition and release, and a hart that is about to panic, or has
panicked, because it called `lock` twice is that hart. -/
theorem mutual_exclusion (fresh : m.Fresh) (run : Run Mutex.Steps m trace m') :
    ∀ u ∈ Run.visited trace m',
      (∀ a b, (u.hart a).owns = true → (u.hart b).owns = true → a = b) ∧
      (∀ a u', (u.hart a).point = .lockCompare → u.Steps (a, .advance) u' →
        (u'.hart a).point = .panicked → (u.hart a).owns = true) ∧
      (∀ a, (u.hart a).point = .panicked → (u.hart a).owns = true) := by
  intro u visited
  have inv := run.invariant Mutex.Inv (Mutex.inv_fresh fresh)
    (fun t label w kept taken => Mutex.inv_step kept label taken) u visited
  refine ⟨inv.unique, ?_, ?_⟩
  · intro a u' point taken panics
    change u.advance a = some u' at taken
    rw [Mutex.advance, point] at taken
    cases taken
    rw [Mutex.goTo_self] at panics
    by_cases recorded : u.holdingHart = a + 1
    · exact (inv.recorded a recorded).1
    · simp only [if_neg recorded] at panics
      cases panics
  · intro a panicked
    exact inv.owning a (by rw [panicked]; rfl)

end Results

def unlocked : Mutex := ⟨false, 0, fun _ => ⟨.idle, false⟩⟩

def lockTwice : List (Nat × Action) :=
  [(0, .lock), (0, .advance), (1, .lock), (0, .advance), (1, .advance), (0, .advance),
   (1, .advance), (1, .advance), (0, .lock), (0, .advance)]

theorem second_lock_panics : ∃ u u' trace, Run Mutex.Steps unlocked trace u ∧
    u.Steps (0, .advance) u' ∧ (u'.hart 0).point = .panicked ∧ (u.hart 0).owns = true ∧
    (u.hart 1).owns = false := by
  have ends : (Run.follow (fun m label => m.step label.1 label.2) unlocked lockTwice).map (fun u =>
      ((u.hart 0).point, (u.advance 0).map fun u' => (u'.hart 0).point)) =
        some (.lockCompare, some .panicked) := by
    decide +kernel
  rcases Option.map_eq_some_iff.mp ends with ⟨u, followed, last⟩
  rcases Run.of_follow (fun _ _ _ taken => taken) _ followed with ⟨trace, run, -⟩
  have point : (u.hart 0).point = .lockCompare := congrArg Prod.fst last
  rcases Option.map_eq_some_iff.mp (congrArg Prod.snd last) with ⟨u', taken, panics⟩
  have exclusive := mutual_exclusion unlocked u trace ⟨rfl, rfl, fun _ => rfl⟩ run u
    (Run.last_mem_visited trace u)
  have owns := exclusive.2.1 0 u' point taken panics
  refine ⟨u, u', trace, run, taken, panics, owns, ?_⟩
  cases other : (u.hart 1).owns with
  | false => rfl
  | true => exact absurd (exclusive.1 0 1 owns other) (by decide)

end Spinlock

end Jangri
