import Jangri.Lib.Run
import Jangri.Rust
import Mathlib.Logic.Function.Basic

/-! `RwLock`: a mutex around the number of readers. A writer keeps the mutex locked by leaking its
guard; a reader only counts.

Any number of threads take steps in any order. The inner mutex is exclusive: `lock` waits until it
is free. -/

namespace Jangri

open Lib

namespace ReadersWriter

inductive Call
  | lockShared
  | tryLockShared
  | unlockShared
  | lockExclusive
  | tryLockExclusive
  | unlockExclusive
  deriving DecidableEq

/-- Where a thread is: outside of all calls, before the access to the inner mutex, with its guard
in hand, or about to drop the guard. -/
inductive Point
  | idle
  | waiting (call : Call)
  | inside (call : Call)
  | leaving (call : Call)
  | panicked
  deriving DecidableEq

/-- `shared` and `exclusive` list the current holders, a thread as often as it holds the lock. -/
structure RwLock where
  guard : Option Nat
  numReaders : Nat
  point : Nat → Point
  shared : List Nat
  exclusive : List Nat

inductive Action
  | call (call : Call)
  | advance
  deriving DecidableEq

namespace RwLock

def goTo (l : RwLock) (id : Nat) (point : Point) : RwLock :=
  { l with point := Function.update l.point id point }

def drop (l : RwLock) (id : Nat) (point : Point) : RwLock := { l.goTo id point with guard := none }

def act (l : RwLock) (id : Nat) (call : Call) : Option RwLock :=
  match call with
  | .lockShared | .tryLockShared =>
      if l.numReaders + 1 < usizeBound then
        some { l.goTo id (.leaving call) with
          numReaders := l.numReaders + 1, shared := id :: l.shared }
      else some (l.goTo id .panicked)
  | .unlockShared =>
      if l.numReaders = 0 then some (l.goTo id .panicked)
      else some { l.goTo id (.leaving call) with
        numReaders := l.numReaders - 1, shared := l.shared.erase id }
  | .lockExclusive | .tryLockExclusive =>
      if l.numReaders = 0 then some { l.goTo id .idle with exclusive := id :: l.exclusive }
      else some (l.goTo id (.leaving call))
  | .unlockExclusive => none

def advance (l : RwLock) (id : Nat) : Option RwLock :=
  match l.point id with
  | .idle | .panicked => none
  | .waiting .unlockExclusive =>
      some { l.drop id .idle with exclusive := l.exclusive.erase id }
  | .waiting call =>
      if l.guard = none then some { l.goTo id (.inside call) with guard := some id }
      else if call = .tryLockShared then some (l.goTo id .idle)
      else some l
  | .inside call => l.act id call
  | .leaving call =>
      -- `lock_exclusive` tries again
      some (l.drop id (if call = .lockExclusive then .waiting .lockExclusive else .idle))

def Allowed (l : RwLock) (id : Nat) : Call → Prop
  | .unlockShared => id ∈ l.shared
  | .unlockExclusive => id ∈ l.exclusive
  | _ => True

instance (l : RwLock) (id : Nat) (call : Call) : Decidable (l.Allowed id call) := by
  unfold Allowed
  cases call <;> infer_instance

def step (l : RwLock) (id : Nat) : Action → Option RwLock
  | .call call =>
      if l.point id = .idle ∧ l.Allowed id call then some (l.goTo id (.waiting call)) else none
  | .advance => l.advance id

def Steps (l : RwLock) (label : Nat × Action) (l' : RwLock) : Prop :=
  l.step label.1 label.2 = some l'

structure Fresh (l : RwLock) : Prop where
  guard : l.guard = none
  numReaders : l.numReaders = 0
  points : ∀ id, l.point id = .idle
  shared : l.shared = []
  exclusive : l.exclusive = []

end RwLock

/-- The thread has a guard of its own, to be dropped before the call returns. -/
def Point.guarding : Point → Bool
  | .inside _ | .leaving _ | .panicked => true
  | _ => false

def Point.Justified (shared exclusive : List Nat) (id : Nat) : Point → Prop
  | .waiting .unlockShared | .inside .unlockShared => id ∈ shared
  | .waiting .unlockExclusive => id ∈ exclusive
  | .inside .unlockExclusive => False
  | _ => True

namespace RwLock

structure Inv (l : RwLock) : Prop where
  count : l.numReaders = l.shared.length
  guarding : ∀ id, (l.point id).guarding = true → l.guard = some id ∧ l.exclusive = []
  exclusive : ∀ id ∈ l.exclusive, l.guard = some id ∧ l.exclusive = [id] ∧ l.numReaders = 0
  justified : ∀ id, (l.point id).Justified l.shared l.exclusive id

variable {l l' : RwLock}

theorem inv_fresh (fresh : l.Fresh) : l.Inv where
  count := by rw [fresh.numReaders, fresh.shared]; rfl
  guarding := by
    intro id busy
    rw [fresh.points id] at busy
    cases busy
  exclusive := by
    intro id member
    rw [fresh.exclusive] at member
    cases member
  justified := by
    intro id
    rw [fresh.points id]
    trivial

theorem inv_goTo (inv : l.Inv) (id : Nat) (point : Point)
    (guarding : point.guarding = true → l.guard = some id ∧ l.exclusive = [])
    (justified : point.Justified l.shared l.exclusive id) : (l.goTo id point).Inv where
  count := inv.count
  guarding := by
    intro other busy
    by_cases here : other = id
    · rw [here] at busy ⊢
      change (Function.update l.point id point id).guarding = true at busy
      rw [Function.update_self] at busy
      exact guarding busy
    · change (Function.update l.point id point other).guarding = true at busy
      rw [Function.update_of_ne here] at busy
      exact inv.guarding other busy
  exclusive := inv.exclusive
  justified := by
    intro other
    change (Function.update l.point id point other).Justified l.shared l.exclusive other
    by_cases here : other = id
    · rw [here, Function.update_self]
      exact justified
    · rw [Function.update_of_ne here]
      exact inv.justified other

theorem justified_weaken {point : Point} {id : Nat} {shared exclusive shared' exclusive' : List Nat}
    (justified : point.Justified shared exclusive id) (readers : id ∈ shared → id ∈ shared')
    (writers : id ∈ exclusive → id ∈ exclusive') : point.Justified shared' exclusive' id := by
  unfold Point.Justified at justified ⊢
  split at justified
  next => exact readers justified
  next => exact readers justified
  next => exact writers justified
  next => exact justified.elim
  next => trivial

/-- A step of the one thread that may have the guard. To the others only the lists matter. -/
theorem inv_alone (inv : l.Inv) (id : Nat) {guard : Option Nat} {numReaders : Nat} {point : Point}
    {shared exclusive : List Nat} (alone : ∀ other ≠ id, (l.point other).guarding = false)
    (count : numReaders = shared.length)
    (guarding : point.guarding = true → guard = some id ∧ exclusive = [])
    (owner : ∀ writer ∈ exclusive, guard = some writer ∧ exclusive = [writer] ∧ numReaders = 0)
    (justified : point.Justified shared exclusive id)
    (readers : ∀ other ≠ id, other ∈ l.shared → other ∈ shared)
    (writers : ∀ other ≠ id, other ∈ l.exclusive → other ∈ exclusive) :
    Inv ⟨guard, numReaders, Function.update l.point id point, shared, exclusive⟩ where
  count := count
  guarding := by
    intro other busy
    by_cases here : other = id
    · rw [here] at busy ⊢
      change (Function.update l.point id point id).guarding = true at busy
      rw [Function.update_self] at busy
      exact guarding busy
    · change (Function.update l.point id point other).guarding = true at busy
      rw [Function.update_of_ne here, alone other here] at busy
      cases busy
  exclusive := owner
  justified := by
    intro other
    by_cases here : other = id
    · rw [here]
      change (Function.update l.point id point id).Justified shared exclusive id
      rw [Function.update_self]
      exact justified
    · change (Function.update l.point id point other).Justified shared exclusive other
      rw [Function.update_of_ne here]
      exact justified_weaken (inv.justified other) (readers other here) (writers other here)

theorem alone_of_guard (inv : l.Inv) (id : Nat) (guard : ∀ other, l.guard = some other → other = id) :
    ∀ other ≠ id, (l.point other).guarding = false := by
  intro other different
  cases busy : (l.point other).guarding with
  | false => rfl
  | true => exact absurd (guard other (inv.guarding other busy).1) different

theorem alone_of_guarding (inv : l.Inv) (id : Nat) (busy : (l.point id).guarding = true) :
    ∀ other ≠ id, (l.point other).guarding = false := by
  apply alone_of_guard inv id
  intro other guard
  have own := (inv.guarding id busy).1
  rw [own] at guard
  exact (Option.some.inj guard).symm

theorem no_writer (inv : l.Inv) (guard : l.guard = none) : l.exclusive = [] := by
  apply List.eq_nil_iff_forall_not_mem.mpr
  intro id member
  have := (inv.exclusive id member).1
  rw [guard] at this
  cases this

theorem inv_enter (inv : l.Inv) (id : Nat) (call : Call) (point : l.point id = .waiting call)
    (other : call ≠ .unlockExclusive) (guard : l.guard = none) :
    Inv { l.goTo id (.inside call) with guard := some id } := by
  have empty := no_writer inv guard
  have known := inv.justified id
  rw [point] at known
  apply inv_alone inv id
  case alone =>
    apply alone_of_guard inv id
    intro thread held
    rw [guard] at held
    cases held
  case count => exact inv.count
  case guarding => exact fun _ => ⟨rfl, empty⟩
  case owner =>
    intro writer member
    have impossible : writer ∈ ([] : List Nat) := empty ▸ member
    cases impossible
  case justified =>
    cases call with
    | unlockShared => exact known
    | unlockExclusive => exact absurd rfl other
    | lockShared => trivial
    | tryLockShared => trivial
    | lockExclusive => trivial
    | tryLockExclusive => trivial
  case readers => exact fun _ _ member => member
  case writers => exact fun _ _ member => member

theorem inv_drop (inv : l.Inv) (id : Nat) (point : Point) (exclusive : List Nat)
    (alone : ∀ other ≠ id, (l.point other).guarding = false)
    (outside : point.guarding = false) (justified : point.Justified l.shared exclusive id)
    (empty : exclusive = []) (writers : ∀ other ≠ id, other ∉ l.exclusive) :
    Inv { l.drop id point with exclusive := exclusive } := by
  apply inv_alone inv id alone inv.count
  case guarding =>
    intro busy
    rw [outside] at busy
    cases busy
  case owner =>
    intro writer member
    rw [empty] at member
    cases member
  case justified => exact justified
  case readers => exact fun _ _ member => member
  case writers => exact fun other different member => absurd member (writers other different)

theorem inv_act (inv : l.Inv) (id : Nat) (call : Call) (point : l.point id = .inside call)
    (taken : l.act id call = some l') : l'.Inv := by
  have busy : (l.point id).guarding = true := by
    rw [point]
    rfl
  have own := inv.guarding id busy
  have nobody : ∀ writer, writer ∉ l.exclusive := List.eq_nil_iff_forall_not_mem.mp own.2
  have alone := alone_of_guarding inv id busy
  have known := inv.justified id
  rw [point] at known
  have stays : ∀ point : Point, point.Justified l.shared l.exclusive id → (l.goTo id point).Inv :=
    fun point => inv_goTo inv id point fun _ => own
  have arrives : ∀ call, (Point.leaving call).Justified (id :: l.shared) l.exclusive id →
      Inv { l.goTo id (.leaving call) with
        numReaders := l.numReaders + 1, shared := id :: l.shared } := by
    intro call justified
    apply inv_alone inv id alone
    case count => rw [List.length_cons, inv.count]
    case guarding => exact fun _ => own
    case owner =>
      intro writer member
      exact absurd member (nobody writer)
    case justified => exact justified
    case readers => exact fun other _ member => List.mem_cons_of_mem id member
    case writers => exact fun _ _ member => member
  have seizes : l.numReaders = 0 → Inv { l.goTo id .idle with exclusive := id :: l.exclusive } := by
    intro unread
    apply inv_alone inv id alone inv.count
    case guarding =>
      intro busy
      cases busy
    case owner =>
      intro writer member
      have single : id :: l.exclusive = [id] := by rw [own.2]
      rw [single] at member ⊢
      rw [List.mem_singleton.mp member]
      exact ⟨own.1, rfl, unread⟩
    case justified => trivial
    case readers => exact fun _ _ member => member
    case writers => exact fun other _ member => List.mem_cons_of_mem id member
  cases call with
  | lockShared =>
      simp only [act] at taken
      split at taken
      next =>
        cases taken
        exact arrives _ trivial
      next =>
        cases taken
        exact stays _ trivial
  | tryLockShared =>
      simp only [act] at taken
      split at taken
      next =>
        cases taken
        exact arrives _ trivial
      next =>
        cases taken
        exact stays _ trivial
  | unlockShared =>
      simp only [act] at taken
      split at taken
      next =>
        cases taken
        exact stays _ trivial
      next =>
        cases taken
        apply inv_alone inv id alone
        case count => rw [List.length_erase_of_mem known, inv.count]
        case guarding => exact fun _ => own
        case owner =>
          intro writer member
          exact absurd member (nobody writer)
        case justified => trivial
        case readers => exact fun other different => (List.mem_erase_of_ne different).mpr
        case writers => exact fun _ _ member => member
  | lockExclusive =>
      simp only [act] at taken
      split at taken
      next unread =>
        cases taken
        exact seizes unread
      next =>
        cases taken
        exact stays _ trivial
  | tryLockExclusive =>
      simp only [act] at taken
      split at taken
      next unread =>
        cases taken
        exact seizes unread
      next =>
        cases taken
        exact stays _ trivial
  | unlockExclusive => cases taken

theorem inv_advance (inv : l.Inv) (id : Nat) (taken : l.advance id = some l') : l'.Inv := by
  have known := inv.justified id
  unfold advance at taken
  split at taken
  next => cases taken
  next => cases taken
  next point =>
    cases taken
    rw [point] at known
    have owner := inv.exclusive id known
    apply inv_drop inv id
    case alone =>
      apply alone_of_guard inv id
      intro other held
      rw [owner.1] at held
      exact (Option.some.inj held).symm
    case outside => rfl
    case justified => trivial
    case empty =>
      rw [owner.2.1]
      exact List.erase_cons_head id []
    case writers =>
      intro other different member
      rw [owner.2.1] at member
      exact different (List.mem_singleton.mp member)
  next call other point =>
    split at taken
    next guard =>
      cases taken
      exact inv_enter inv id call point other guard
    next =>
      split at taken
      next =>
        cases taken
        apply inv_goTo inv
        · intro busy
          cases busy
        · trivial
      next =>
        cases taken
        exact inv
  next call point => exact inv_act inv id call point taken
  next call point =>
    cases taken
    have busy : (l.point id).guarding = true := by
      rw [point]
      rfl
    have own := inv.guarding id busy
    have drops : ∀ point : Point, point.guarding = false →
        point.Justified l.shared l.exclusive id → (l.drop id point).Inv := by
      intro point outside justified
      apply inv_drop inv id point l.exclusive (alone_of_guarding inv id busy) outside justified own.2
      intro other _ member
      rw [own.2] at member
      cases member
    split
    next => exact drops _ rfl trivial
    next => exact drops _ rfl trivial

theorem inv_step (inv : l.Inv) (label : Nat × Action) (taken : l.Steps label l') : l'.Inv := by
  rcases label with ⟨id, action⟩
  cases action with
  | call call =>
      simp only [Steps, step, Option.ite_none_right_eq_some, Option.some.injEq] at taken
      rw [← taken.2]
      apply inv_goTo inv
      · intro busy
        cases busy
      · have allowed := taken.1.2
        cases call with
        | unlockShared => exact allowed
        | unlockExclusive => exact allowed
        | lockShared => trivial
        | tryLockShared => trivial
        | lockExclusive => trivial
        | tryLockExclusive => trivial
  | advance => exact inv_advance inv id taken

end RwLock

section Results

variable (l l' : RwLock) (trace : List (RwLock × (Nat × Action)))

/-- The number of readers is the number of shared holders, and is never lowered from zero; there is
at most one exclusive holder, and none beside a shared one. -/
theorem readers_or_writer (fresh : l.Fresh) (run : Run RwLock.Steps l trace l') :
    ∀ u ∈ Run.visited trace l',
      u.numReaders = u.shared.length ∧
      (∀ id, u.point id = .inside .unlockShared → u.numReaders ≠ 0) ∧
      u.exclusive.length ≤ 1 ∧
      (u.exclusive ≠ [] → u.shared = []) := by
  intro u visited
  have inv := run.invariant RwLock.Inv (RwLock.inv_fresh fresh)
    (fun t label w kept taken => RwLock.inv_step kept label taken) u visited
  refine ⟨inv.count, ?_, ?_, ?_⟩
  · intro id point
    have holds := inv.justified id
    rw [point] at holds
    rw [inv.count]
    exact Nat.ne_of_gt (List.length_pos_of_mem holds)
  · cases writers : u.exclusive with
    | nil => exact Nat.zero_le 1
    | cons writer rest =>
        have owner := (inv.exclusive writer (by rw [writers]; exact List.mem_cons_self)).2.1
        rw [← writers, owner]
        exact le_refl 1
  · intro some
    rcases List.exists_mem_of_ne_nil _ some with ⟨writer, member⟩
    have nobody := (inv.exclusive writer member).2.2
    rw [inv.count] at nobody
    exact List.length_eq_zero_iff.mp nobody

end Results

def unheld : RwLock := ⟨none, 0, fun _ => .idle, [], []⟩

def readThenWrite : List (Nat × Action) :=
  [(0, .call .lockShared), (0, .advance), (0, .advance), (1, .call .lockExclusive), (0, .advance),
   (1, .advance), (1, .advance), (1, .advance), (0, .call .unlockShared), (0, .advance),
   (0, .advance), (0, .advance), (1, .advance), (1, .advance), (2, .call .tryLockShared),
   (2, .advance)]

theorem writer_follows_reader : ∃ u trace, Run RwLock.Steps unheld trace u ∧
    u.exclusive = [1] ∧ u.shared = [] ∧ u.numReaders = 0 := by
  have ends : (Run.follow (fun l label => l.step label.1 label.2) unheld readThenWrite).map (fun u =>
      u.exclusive) = some [1] := by
    decide +kernel
  rcases Option.map_eq_some_iff.mp ends with ⟨u, followed, writes⟩
  rcases Run.of_follow (fun _ _ _ taken => taken) readThenWrite followed with ⟨trace, run, _⟩
  have fresh : unheld.Fresh := ⟨rfl, rfl, fun _ => rfl, rfl, rfl⟩
  have holds := readers_or_writer unheld u trace fresh run u (Run.last_mem_visited trace u)
  have nobody : u.shared = [] := by
    apply holds.2.2.2
    rw [writes]
    exact List.cons_ne_nil 1 []
  refine ⟨u, trace, run, writes, nobody, ?_⟩
  rw [holds.1, nobody]
  rfl

end ReadersWriter

end Jangri
