import Jangri.Lib.WP

/-! How code ends, said in advance.

An abstract model of some code tells for every call whether it is served, refused or gets stuck.
`Foretold` says that a program ends as the model tells: with `Ok`, with `Err`, or for good. -/

namespace Lib

inductive Answer (π : Type) where
  | served (next : π)
  | refused
  | stuck

namespace Answer

variable {π ρ : Type}

def bind (answer : Answer π) (next : π → Answer ρ) : Answer ρ :=
  match answer with
  | served p => next p
  | refused => refused
  | stuck => stuck

def Leads (answer : Answer π) (post : π → Prop) : Prop :=
  match answer with
  | served p => post p
  | refused => False
  | stuck => False

def Allows (answer : Answer π) (post : π → Prop) : Prop :=
  match answer with
  | served p => post p
  | refused => True
  | stuck => False

def times (take : π → Answer π) : Nat → π → Answer π
  | 0, p => served p
  | count + 1, p => (take p).bind (times take count)

theorem times_succ (take : π → Answer π) (count : Nat) (p : π) :
    times take (count + 1) p = (take p).bind (times take count) := rfl

theorem bind_assoc {ς : Type} (answer : Answer π) (f : π → Answer ρ) (g : ρ → Answer ς) :
    (answer.bind f).bind g = answer.bind fun p => (f p).bind g := by
  cases answer <;> rfl

end Answer

section Foretold

variable {σ ε θ α β π ρ : Type} {s : σ}

/-- `x` returns `Ok` where the answer is `served`, and then `ok` holds; it returns `Err` where it is
`refused`, and it stops where it is `stuck`. -/
def Foretold (answer : Answer π) (x : ExceptT θ (StateT σ (Except ε)) α) (ok : π → α → σ → Prop)
    (s : σ) : Prop :=
  wpr x (fun a t => ∃ p, answer = .served p ∧ ok p a t) (fun _ _ => answer = .refused)
    (fun _ => answer = .stuck) s

variable {answer : Answer π} {x : ExceptT θ (StateT σ (Except ε)) α} {ok : π → α → σ → Prop}

theorem Foretold.pure {p : π} {a : α} (holds : ok p a s) :
    Foretold (.served p) (Pure.pure a : ExceptT θ (StateT σ (Except ε)) α) ok s := by
  rw [Foretold, wpr_pure]
  exact ⟨p, rfl, holds⟩

theorem Foretold.mono {ok' : π → α → σ → Prop} (first : Foretold answer x ok' s)
    (weaker : ∀ p a t, ok' p a t → ok p a t) : Foretold answer x ok s := by
  apply wpr_mono first
  · rintro a t ⟨p, isServed, done⟩
    exact ⟨p, isServed, weaker p a t done⟩
  · exact fun _ _ isRefused => isRefused
  · exact fun _ isStuck => isStuck

theorem Foretold.map {ok' : ρ → α → σ → Prop} (f : π → ρ) (first : Foretold answer x ok s)
    (weaker : ∀ p a t, ok p a t → ok' (f p) a t) :
    Foretold (answer.bind fun p => .served (f p)) x ok' s := by
  apply wpr_mono first
  · rintro a t ⟨p, isServed, done⟩
    rw [isServed]
    exact ⟨f p, rfl, weaker p a t done⟩
  · intro e t isRefused
    rw [isRefused]
    rfl
  · intro e isStuck
    rw [isStuck]
    rfl

theorem Foretold.of_map {f : π → ρ} {ok : ρ → α → σ → Prop} {ok' : π → α → σ → Prop}
    (first : Foretold (answer.bind fun p => .served (f p)) x ok s)
    (weaker : ∀ p a t, answer = .served p → ok (f p) a t → ok' p a t) : Foretold answer x ok' s := by
  apply wpr_mono first
  · rintro a t ⟨q, isServed, done⟩
    cases answer with
    | served p =>
        cases isServed
        exact ⟨p, rfl, weaker p a t rfl done⟩
    | refused => cases isServed
    | stuck => cases isServed
  · intro e t isRefused
    cases answer with
    | served p => cases isRefused
    | refused => rfl
    | stuck => cases isRefused
  · intro e isStuck
    cases answer with
    | served p => cases isStuck
    | refused => cases isStuck
    | stuck => rfl

theorem Foretold.and {post : α → σ → Prop} {err : θ → σ → Prop} {halts : ε → Prop}
    (first : Foretold answer x ok s) (second : wpr x post err halts s) :
    Foretold answer x (fun p a t => ok p a t ∧ post a t) s := by
  apply wpr_mono (wpr_and first second)
  · rintro a t ⟨⟨p, isServed, done⟩, also⟩
    exact ⟨p, isServed, done, also⟩
  · exact fun _ _ isRefused => isRefused.1
  · exact fun _ isStuck => isStuck.1

theorem Foretold.bind {next : π → Answer ρ} {f : α → ExceptT θ (StateT σ (Except ε)) β}
    {ok' : ρ → β → σ → Prop} (first : Foretold answer x ok s)
    (rest : ∀ p a t, ok p a t → Foretold (next p) (f a) ok' t) :
    Foretold (answer.bind next) (x >>= f) ok' s := by
  rw [Foretold, wpr_bind]
  apply wpr_mono first
  · rintro a t ⟨p, isServed, done⟩
    rw [isServed]
    exact rest p a t done
  · intro e t isRefused
    rw [isRefused]
    rfl
  · intro e isStuck
    rw [isStuck]
    rfl

theorem Foretold.leads {f : α → ExceptT θ (StateT σ (Except ε)) β} {post : π → Prop}
    (first : Foretold answer x ok s)
    (rest : ∀ p a t, ok p a t →
      wpr (f a) (fun _ _ => post p) (fun _ _ => ¬ post p) (fun _ => ¬ post p) t) :
    wpr (x >>= f) (fun _ _ => answer.Leads post) (fun _ _ => ¬ answer.Leads post)
      (fun _ => ¬ answer.Leads post) s := by
  rw [wpr_bind]
  apply wpr_mono first
  · rintro a t ⟨p, isServed, done⟩
    rw [isServed]
    exact rest p a t done
  · intro e t isRefused
    rw [isRefused]
    exact not_false
  · intro e isStuck
    rw [isStuck]
    exact not_false

theorem Foretold.allows {f : α → ExceptT θ (StateT σ (Except ε)) β} {post : π → Prop}
    {later : β → σ → Prop} (first : Foretold answer x ok s)
    (rest : ∀ p a t, ok p a t → answer = .served p →
      wpr (f a) later (fun _ _ => post p) (fun _ => ¬ post p) t) :
    wpr (x >>= f) later (fun _ _ => answer.Allows post) (fun _ => ¬ answer.Allows post) s := by
  rw [wpr_bind]
  apply wpr_mono first
  · rintro a t ⟨p, isServed, done⟩
    have spec := rest p a t done isServed
    rw [isServed]
    exact spec
  · intro e t isRefused
    rw [isRefused]
    trivial
  · intro e isStuck
    rw [isStuck]
    exact not_false

end Foretold

end Lib
