import Jangri.Rust

namespace Jangri

namespace TryLock

inductive Stop
  | spins
  | deadlock
  | overflow
  deriving DecidableEq

structure Words where
  isLocked : Bool
  holdingHart : Nat
  numReaders : Nat
  enabled : Bool
  nestingLevel : UInt64
  original : Bool
  deriving DecidableEq

abbrev Call := Words → Except Stop (Bool × Words)

def push (w : Words) : Words :=
  let wereInterruptsOriginallyEnabled := w.enabled
  let w := { w with enabled := false }
  let w := if w.nestingLevel = 0 then { w with original := wereInterruptsOriginallyEnabled } else w
  { w with nestingLevel := w.nestingLevel + 1 }

def pop (w : Words) : Words :=
  let w := { w with nestingLevel := w.nestingLevel - 1 }
  if w.nestingLevel = 0 ∧ w.original = true then { w with enabled := true } else w

namespace Mutex

def isCurrentHartHolding (id : Nat) (w : Words) : Bool :=
  w.isLocked && decide (w.holdingHart = id + 1)

def compareExchange (w : Words) : Option Words :=
  if w.isLocked then none else some { w with isLocked := true }

def lock (id : Nat) (w : Words) : Except Stop Words :=
  let w := push w
  if isCurrentHartHolding id w then .error .deadlock
  else
    match compareExchange w with
    | none => .error .spins
    | some w => .ok { w with holdingHart := id + 1 }

def tryLock (id : Nat) (w : Words) : Bool × Words :=
  let w := push w
  match compareExchange w with
  | none => (false, w)
  | some w => (true, { w with holdingHart := id + 1 })

def unlock (w : Words) : Words := pop { w with holdingHart := 0, isLocked := false }

def isLocked (id : Nat) (w : Words) : Bool × Words :=
  match tryLock id w with
  | (true, w) => (false, unlock w)
  | (false, w) => (true, w)

end Mutex

namespace RwLock

/-- The guard of the number of readers is dropped when the call returns. -/
def tryLockShared (id : Nat) : Call := fun w =>
  match Mutex.tryLock id w with
  | (true, w) =>
      if w.numReaders + 1 < usizeBound then
        .ok (true, Mutex.unlock { w with numReaders := w.numReaders + 1 })
      else .error .overflow
  | (false, w) => .ok (false, w)

/-- The guard is leaked where the lock is acquired. -/
def tryLockExclusive (id : Nat) : Call := fun w => do
  let w ← Mutex.lock id w
  if w.numReaders = 0 then pure (true, w) else pure (false, Mutex.unlock w)

end RwLock

structure Unchanged (w w' : Words) : Prop where
  isLocked : w'.isLocked = w.isLocked
  holdingHart : w'.holdingHart = w.holdingHart
  numReaders : w'.numReaders = w.numReaders
  nestingLevel : w'.nestingLevel = w.nestingLevel
  enabled : w'.enabled = w.enabled

def Harmless (call : Call) (w : Words) : Prop :=
  ∃ acquired w', call w = .ok (acquired, w') ∧ (acquired = false → Unchanged w w')

def Restorable (w : Words) : Prop :=
  w.holdingHart = 0 ∧ (w.nestingLevel = 0 ∨ w.enabled = false)

section Calls

variable (id : Nat) (w : Words)

@[simp] theorem push_isLocked : (push w).isLocked = w.isLocked := by
  unfold push
  by_cases outermost : w.nestingLevel = 0 <;> simp [outermost]

@[simp] theorem push_numReaders : (push w).numReaders = w.numReaders := by
  unfold push
  by_cases outermost : w.nestingLevel = 0 <;> simp [outermost]

theorem push_nestingLevel : (push w).nestingLevel = w.nestingLevel + 1 := by
  unfold push
  by_cases outermost : w.nestingLevel = 0 <;> simp [outermost]

/-- Without a `pop` the nesting level stays off by one. -/
theorem not_unchanged_push : ¬ Unchanged w (push w) := by
  intro unchanged
  have level := unchanged.nestingLevel
  rw [push_nestingLevel, UInt64.add_eq_left] at level
  revert level
  decide

theorem tryLock_taken (taken : w.isLocked = true) : Mutex.tryLock id w = (false, push w) := by
  simp [Mutex.tryLock, Mutex.compareExchange, taken]

def locked (id : Nat) (w : Words) : Words := { push w with isLocked := true, holdingHart := id + 1 }

theorem tryLock_free (free : w.isLocked = false) : Mutex.tryLock id w = (true, locked id w) := by
  simp [Mutex.tryLock, Mutex.compareExchange, free, locked]

theorem lock_free (free : w.isLocked = false) : Mutex.lock id w = .ok (locked id w) := by
  simp [Mutex.lock, Mutex.isCurrentHartHolding, Mutex.compareExchange, free, locked]

theorem lock_taken (taken : w.isLocked = true) : ∃ stop, Mutex.lock id w = .error stop := by
  by_cases own : Mutex.isCurrentHartHolding id (push w) = true
  · exact ⟨.deadlock, by simp [Mutex.lock, own]⟩
  · exact ⟨.spins, by simp [Mutex.lock, own, Mutex.compareExchange, taken]⟩

theorem unlock_locked : Mutex.unlock (locked id w) =
    { w with
      isLocked := false
      holdingHart := 0
      enabled := decide (w.nestingLevel = 0) && w.enabled
      original := if w.nestingLevel = 0 then w.enabled else w.original } := by
  by_cases outermost : w.nestingLevel = 0
  · cases were : w.enabled <;> simp [Mutex.unlock, locked, push, pop, outermost, were]
  · simp [Mutex.unlock, locked, push, pop, outermost]

theorem unchanged_unlock_iff (free : w.isLocked = false) :
    Unchanged w (Mutex.unlock (locked id w)) ↔ Restorable w := by
  rw [unlock_locked]
  constructor
  · intro unchanged
    refine ⟨unchanged.holdingHart.symm, ?_⟩
    have flag := unchanged.enabled
    by_cases outermost : w.nestingLevel = 0
    · exact Or.inl outermost
    · right
      simpa [outermost] using flag.symm
  · intro restorable
    refine ⟨free.symm, restorable.1.symm, rfl, rfl, ?_⟩
    rcases restorable.2 with outermost | disabled
    · simp [outermost]
    · simp [disabled]

/-- A failing `try_lock` leaves its `push` behind. -/
theorem tryLock_harmless_iff :
    Harmless (fun w => .ok (Mutex.tryLock id w)) w ↔ w.isLocked = false := by
  cases taken : w.isLocked with
  | true =>
      simp only [Harmless, tryLock_taken id w taken, Bool.true_eq_false, iff_false]
      intro harmless
      rcases harmless with ⟨acquired, w', returned, unchanged⟩
      cases returned
      exact not_unchanged_push w (unchanged rfl)
  | false =>
      rw [Harmless, tryLock_free id w taken]
      exact iff_of_true ⟨true, _, rfl, fun impossible => by cases impossible⟩ rfl

theorem tryLockShared_harmless_iff : Harmless (RwLock.tryLockShared id) w ↔
    w.isLocked = false ∧ w.numReaders + 1 < usizeBound := by
  cases taken : w.isLocked with
  | true =>
      simp only [Harmless, RwLock.tryLockShared, tryLock_taken id w taken, Bool.true_eq_false,
        false_and, iff_false]
      intro harmless
      rcases harmless with ⟨acquired, w', returned, unchanged⟩
      cases returned
      exact not_unchanged_push w (unchanged rfl)
  | false =>
      have readers : (locked id w).numReaders = w.numReaders := push_numReaders w
      simp only [Harmless, RwLock.tryLockShared, tryLock_free id w taken, readers, true_and]
      by_cases fits : w.numReaders + 1 < usizeBound
      · rw [if_pos fits]
        exact iff_of_true ⟨true, _, rfl, fun impossible => by cases impossible⟩ fits
      · rw [if_neg fits]
        apply iff_of_false _ fits
        intro harmless
        rcases harmless with ⟨acquired, w', impossible, -⟩
        cases impossible

theorem tryLockExclusive_harmless_iff : Harmless (RwLock.tryLockExclusive id) w ↔
    w.isLocked = false ∧ (w.numReaders = 0 ∨ Restorable w) := by
  cases taken : w.isLocked with
  | true =>
      rcases lock_taken id w taken with ⟨stop, stopped⟩
      simp only [Harmless, RwLock.tryLockExclusive, stopped, Bool.true_eq_false, false_and, iff_false]
      intro harmless
      rcases harmless with ⟨acquired, w', impossible, -⟩
      cases impossible
  | false =>
      have readers : (locked id w).numReaders = w.numReaders := push_numReaders w
      have ran : RwLock.tryLockExclusive id w = if w.numReaders = 0 then .ok (true, locked id w)
          else .ok (false, Mutex.unlock (locked id w)) := by
        rw [RwLock.tryLockExclusive, lock_free id w taken, ← readers]
        rfl
      rw [Harmless, ran, and_iff_right rfl]
      by_cases unread : w.numReaders = 0
      · rw [if_pos unread]
        exact iff_of_true ⟨true, _, rfl, fun impossible => by cases impossible⟩ (Or.inl unread)
      · rw [if_neg unread, or_iff_right unread, ← unchanged_unlock_iff id w taken]
        constructor
        · intro harmless
          rcases harmless with ⟨acquired, w', returned, unchanged⟩
          cases returned
          exact unchanged rfl
        · exact fun unchanged => ⟨false, _, rfl, fun _ => unchanged⟩

theorem isLocked_unchanged_iff : Unchanged w (Mutex.isLocked id w).2 ↔
    w.isLocked = false ∧ Restorable w := by
  cases taken : w.isLocked with
  | true =>
      rw [Mutex.isLocked, tryLock_taken id w taken]
      simpa using not_unchanged_push w
  | false =>
      rw [Mutex.isLocked, tryLock_free id w taken, and_iff_right rfl]
      exact unchanged_unlock_iff id w taken

theorem try_calls_harmless_iff (id : Nat) (w : Words) :
    (Harmless (fun w => .ok (Mutex.tryLock id w)) w ↔ w.isLocked = false) ∧
    (Harmless (RwLock.tryLockShared id) w ↔
      w.isLocked = false ∧ w.numReaders + 1 < usizeBound) ∧
    (Harmless (RwLock.tryLockExclusive id) w ↔
      w.isLocked = false ∧ (w.numReaders = 0 ∨ Restorable w)) ∧
    (Unchanged w (Mutex.isLocked id w).2 ↔ w.isLocked = false ∧ Restorable w) :=
  ⟨tryLock_harmless_iff id w, tryLockShared_harmless_iff id w, tryLockExclusive_harmless_iff id w,
    isLocked_unchanged_iff id w⟩

end Calls

def heldByOther : Words where
  isLocked := true
  holdingHart := 2
  numReaders := 0
  enabled := true
  nestingLevel := 0
  original := true

/-- `try_lock` answers `false` and leaves interrupts disabled; `try_lock_exclusive` spins. -/
theorem failed_tries_leak :
    (Mutex.tryLock 0 heldByOther).1 = false ∧
    (Mutex.tryLock 0 heldByOther).2.nestingLevel = 1 ∧
    (Mutex.tryLock 0 heldByOther).2.enabled = false ∧
    RwLock.tryLockExclusive 0 heldByOther = .error .spins ∧
    ¬ Harmless (fun w => .ok (Mutex.tryLock 0 w)) heldByOther := by
  refine ⟨by decide, by decide, by decide, rfl, ?_⟩
  intro harmless
  rcases harmless with ⟨acquired, w', returned, unchanged⟩
  cases returned
  have level := (unchanged (by decide)).nestingLevel
  revert level
  decide

end TryLock

end Jangri
