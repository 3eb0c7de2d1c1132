import Mathlib.Data.List.Rotate
import Mathlib.Data.List.Basic

namespace Lib

variable {α : Type}

structure Picks (wanted : α → Prop) (queue : List α) (found : Option α) (after : List α) : Prop where
  rotated : after ~r queue
  none_iff : found = none ↔ ∀ a ∈ queue, ¬ wanted a
  first : ∀ a, found = some a → ∃ ahead behind, queue = ahead ++ a :: behind ∧ wanted a ∧
    (∀ b ∈ ahead, ¬ wanted b) ∧ after = behind ++ ahead ++ [a]

namespace Picks

variable {wanted : α → Prop} {queue after : List α} {found : Option α}

theorem missed (unwanted : ∀ a ∈ queue, ¬ wanted a) : Picks wanted queue none queue where
  rotated := List.IsRotated.refl queue
  none_iff := iff_of_true rfl unwanted
  first := by simp

theorem hit {ahead behind : List α} {a : α} (unwanted : ∀ b ∈ ahead, ¬ wanted b) (good : wanted a) :
    Picks wanted (ahead ++ a :: behind) (some a) (behind ++ ahead ++ [a]) where
  rotated := by
    rw [List.append_assoc]
    apply List.isRotated_append.trans
    rw [List.append_assoc, List.singleton_append]
  none_iff := by
    apply iff_of_false (by simp)
    intro never
    exact never a (by simp) good
  first := by
    intro b same
    cases same
    exact ⟨ahead, behind, rfl, good, unwanted, rfl⟩

variable [DecidableEq α] {p : α}

/-- Every pick of another element brings a wanted one closer to the front. -/
theorem idxOf_lt (picks : Picks wanted queue found after) (member : p ∈ queue) (good : wanted p)
    (other : found ≠ some p) : after.idxOf p < queue.idxOf p := by
  cases found with
  | none => exact absurd good (picks.none_iff.mp rfl p member)
  | some a =>
      rcases picks.first a rfl with ⟨ahead, behind, rfl, -, unwanted, rfl⟩
      have differs : p ≠ a := fun same => other (by rw [same])
      have passed : p ∉ ahead := fun early => unwanted p early good
      have waiting : p ∈ behind := by
        simpa [passed, differs] using member
      rw [List.append_assoc, List.idxOf_append_of_mem waiting, List.idxOf_append_of_notMem passed,
        List.idxOf_cons_ne _ differs.symm]
      omega

end Picks

end Lib
