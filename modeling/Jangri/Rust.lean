import Mathlib.Logic.Basic
import Mathlib.Algebra.Group.Nat.Defs

/-! What a Rust call can do besides returning, in the debug profile the Makefile builds.

A panic never unwinds (`panic = "abort"`, and the panic handler loops), so a call that panics
leaves no state behind that any later call could see. -/

namespace Jangri

inductive Panic
  | message (text : String)
  | assertion (text : String)
  | unwrapNone
  | unwrapErr
  | overflow
  | indexOutOfBounds
  | deadlock (hart : Nat)
  deriving DecidableEq, Repr

inductive Halt
  | panic (reason : Panic)
  | diverge
  | shutdown
  deriving DecidableEq, Repr

abbrev Rust := Except Halt

def panic {α : Type} (reason : Panic) : Rust α := Except.error (.panic reason)

def assert (condition : Prop) [Decidable condition] (text : String) : Rust Unit :=
  if condition then pure () else panic (.assertion text)

def unwrap {α : Type} : Option α → Rust α
  | some value => pure value
  | none => panic .unwrapNone

def expect {α : Type} (text : String) : Option α → Rust α
  | some value => pure value
  | none => panic (.message text)

def usizeBound : Nat := 2 ^ 64

def usizeAdd (a b : Nat) : Rust Nat :=
  if a + b < usizeBound then pure (a + b) else panic .overflow

def usizeSub (a b : Nat) : Rust Nat :=
  if b ≤ a then pure (a - b) else panic .overflow

def usizeMul (a b : Nat) : Rust Nat :=
  if a * b < usizeBound then pure (a * b) else panic .overflow

@[simp] theorem pure_eq_ok {α : Type} (a : α) : (pure a : Rust α) = .ok a := rfl

@[simp] theorem ok_bind {α β : Type} (a : α) (f : α → Rust β) : (Except.ok a >>= f) = f a := rfl

@[simp] theorem error_bind {α β : Type} (e : Halt) (f : α → Rust β) :
    ((Except.error e : Rust α) >>= f) = .error e := rfl

theorem bind_eq_ok {α β : Type} (x : Rust α) (f : α → Rust β) (b : β) :
    x >>= f = .ok b ↔ ∃ a, x = .ok a ∧ f a = .ok b := by
  cases x with
  | error e => simp
  | ok a => simp

@[simp] theorem panic_ne_ok {α : Type} (reason : Panic) (a : α) : panic reason ≠ .ok a := by
  simp [panic]

@[simp] theorem assert_eq_ok (condition : Prop) [Decidable condition] (text : String) (u : Unit) :
    assert condition text = .ok u ↔ condition := by
  unfold assert
  split <;> simp_all

theorem assert_of_true (condition : Prop) [Decidable condition] (text : String)
    (holds : condition) : assert condition text = .ok () := by
  simp [holds]

@[simp] theorem unwrap_eq_ok {α : Type} (x : Option α) (a : α) :
    unwrap x = .ok a ↔ x = some a := by
  cases x <;> simp [unwrap]

theorem usizeAdd_eq_ok (a b c : Nat) : usizeAdd a b = .ok c ↔ a + b < usizeBound ∧ c = a + b := by
  unfold usizeAdd
  split
  next fits => simp [fits, eq_comm]
  next wraps => simp [wraps]

theorem usizeSub_eq_ok (a b c : Nat) : usizeSub a b = .ok c ↔ b ≤ a ∧ c = a - b := by
  unfold usizeSub
  split
  next fits => simp [fits, eq_comm]
  next wraps => simp [wraps]

theorem usizeMul_eq_ok (a b c : Nat) : usizeMul a b = .ok c ↔ a * b < usizeBound ∧ c = a * b := by
  unfold usizeMul
  split
  next fits => simp [fits, eq_comm]
  next wraps => simp [wraps]

end Jangri
