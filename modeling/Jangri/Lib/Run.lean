import Mathlib.Data.List.Basic
import Mathlib.Tactic

/-! Runs of a labelled transition relation, with the states they pass through.

`Run step s trace t` leads from `s` to `t`; `trace` lists each state a step was taken from with
the label of that step. -/

namespace Lib

variable {σ α : Type}

inductive Run (step : σ → α → σ → Prop) (s : σ) : List (σ × α) → σ → Prop
  | nil : Run step s [] s
  | snoc {trace : List (σ × α)} {t u : σ} (label : α) :
      Run step s trace t → step t label u → Run step s (trace ++ [(t, label)]) u

namespace Run

variable {step : σ → α → σ → Prop} {s t : σ} {trace : List (σ × α)}

/-- The states a run visits: the source of every step and the last one. -/
def visited (trace : List (σ × α)) (t : σ) : List σ := trace.map Prod.fst ++ [t]

theorem last_mem_visited (trace : List (σ × α)) (t : σ) : t ∈ visited trace t := by
  simp [visited]

theorem visited_snoc (trace : List (σ × α)) (t u : σ) (label : α) :
    visited (trace ++ [(t, label)]) u = visited trace t ++ [u] := by
  simp [visited]

/-- An invariant that holds at the start and that steps of a certain kind keep holds in every
state visited by a run of such steps. -/
theorem invariant_when (inv : σ → Prop) (condition : σ → α → Prop) (start : inv s)
    (keeps : ∀ t label u, inv t → condition t label → step t label u → inv u)
    (run : Run step s trace t) (all : ∀ p ∈ trace, condition p.1 p.2) :
    ∀ u ∈ visited trace t, inv u := by
  induction run with
  | nil => simpa [visited] using start
  | @snoc trace t u label run taken ih =>
      have before := ih fun p member => all p (List.mem_append_left _ member)
      intro v visitedV
      rw [visited_snoc, List.mem_append, List.mem_singleton] at visitedV
      rcases visitedV with earlier | rfl
      · exact before v earlier
      · exact keeps t label v (before t (last_mem_visited _ _)) (all (t, label) (by simp)) taken

theorem invariant (inv : σ → Prop) (start : inv s)
    (keeps : ∀ t label u, inv t → step t label u → inv u) (run : Run step s trace t) :
    ∀ u ∈ visited trace t, inv u :=
  run.invariant_when inv (fun _ _ => True) start (fun t label u holds _ => keeps t label u holds)
    fun _ _ => trivial

theorem invariant_last (inv : σ → Prop) (start : inv s)
    (keeps : ∀ t label u, inv t → step t label u → inv u) (run : Run step s trace t) : inv t :=
  run.invariant inv start keeps t (last_mem_visited _ _)

theorem single {label : α} (taken : step s label t) : Run step s [(s, label)] t :=
  List.nil_append [(s, label)] ▸ snoc label nil taken

theorem append {u : σ} {trace' : List (σ × α)} (run : Run step s trace t)
    (run' : Run step t trace' u) : Run step s (trace ++ trace') u := by
  induction run' with
  | nil => simpa using run
  | snoc label _ taken ih =>
      rw [← List.append_assoc]
      exact snoc label ih taken

theorem first_mem_visited (run : Run step s trace t) : s ∈ visited trace t := by
  induction run with
  | nil => simp [visited]
  | snoc label _ _ ih =>
      rw [visited_snoc]
      exact List.mem_append_left _ ih

theorem split {before after : List (σ × α)} {u : σ} {label : α}
    (run : Run step s (before ++ (u, label) :: after) t) :
    ∃ u', step u label u' ∧ Run step s before u ∧ Run step u' after t := by
  generalize whole : before ++ (u, label) :: after = trace at run
  induction run generalizing after with
  | nil => simp at whole
  | @snoc trace t' t'' label' run taken ih =>
      rcases List.eq_nil_or_concat after with rfl | ⟨front, last, rfl⟩
      · obtain ⟨rfl, same⟩ := List.append_inj' whole rfl
        cases same
        exact ⟨t'', taken, run, nil⟩
      · rw [List.concat_eq_append, ← List.cons_append, ← List.append_assoc] at whole
        obtain ⟨rest, same⟩ := List.append_inj' whole rfl
        cases same
        obtain ⟨u', first, lead, tail⟩ := ih rest
        rw [List.concat_eq_append]
        exact ⟨u', first, lead, snoc label' tail taken⟩

theorem front {before after : List (σ × α)} (run : Run step s (before ++ after) t) :
    ∃ u, Run step s before u := by
  cases after with
  | nil => exact ⟨t, List.append_nil before ▸ run⟩
  | cons p rest =>
      rcases run.split with ⟨u', _, lead, _⟩
      exact ⟨p.1, lead⟩

/-- A measure that no step raises and every counted step lowers bounds the number of counted
steps. -/
theorem countP_le (inv : σ → Prop) (counted : α → Bool) (measure : σ → Nat) (start : inv s)
    (keeps : ∀ t label u, inv t → step t label u → inv u)
    (lowers : ∀ t label u, inv t → step t label u →
      measure u + (if counted label then 1 else 0) ≤ measure t)
    (run : Run step s trace t) :
    measure t + trace.countP (fun p => counted p.2) ≤ measure s := by
  induction run with
  | nil => simp
  | @snoc trace t u label run taken ih =>
      have before := run.invariant_last inv start keeps
      have lowered := lowers t label u before taken
      simp only [List.countP_append, List.countP_singleton]
      omega

/-- If, where `inv` holds, a step keeps `good` and is `fair` exactly when it meets `condition`, then
a run keeps `good` throughout in fair steps exactly when all of its steps meet `condition`. -/
theorem fair_iff (inv good : σ → Prop) (fair condition : σ → α → Prop) (start : inv s) (fine : good s)
    (keeps : ∀ t label u, inv t → step t label u → inv u)
    (exact_ : ∀ t label u, inv t → good t → step t label u →
      (good u ∧ fair t label ↔ condition t label)) (run : Run step s trace t) :
    ((∀ u ∈ visited trace t, good u) ∧ ∀ p ∈ trace, fair p.1 p.2) ↔
      ∀ p ∈ trace, condition p.1 p.2 := by
  induction run with
  | nil => simpa [visited] using fine
  | @snoc trace t u label run taken ih =>
      have holds := run.invariant_last inv start keeps
      constructor
      · rintro ⟨all, steps⟩
        have before : ∀ v ∈ visited trace t, good v := fun v hv =>
          all v (by rw [visited_snoc]; exact List.mem_append_left _ hv)
        have after : good u := all u (last_mem_visited _ _)
        have last := steps (t, label) (by simp)
        intro p hp
        rcases List.mem_append.mp hp with hp | hp
        · exact ih.mp ⟨before, fun q hq => steps q (List.mem_append_left _ hq)⟩ p hp
        · obtain rfl := List.mem_singleton.mp hp
          exact (exact_ t label u holds (before t (last_mem_visited _ _)) taken).mp ⟨after, last⟩
      · intro all
        have before := ih.mpr fun p hp => all p (List.mem_append_left _ hp)
        have after := (exact_ t label u holds (before.1 t (last_mem_visited _ _)) taken).mpr
          (all (t, label) (by simp))
        constructor
        · intro v hv
          rw [visited_snoc, List.mem_append, List.mem_singleton] at hv
          rcases hv with hv | rfl
          · exact before.1 v hv
          · exact after.1
        · intro p hp
          rcases List.mem_append.mp hp with hp | hp
          · exact before.2 p hp
          · obtain rfl := List.mem_singleton.mp hp
            exact after.2

/-- If, where `inv` holds, a step keeps `good` exactly when it meets `condition`, then a run keeps
`good` throughout exactly when all of its steps meet `condition`. -/
theorem good_iff (inv good : σ → Prop) (condition : σ → α → Prop) (start : inv s) (fine : good s)
    (keeps : ∀ t label u, inv t → step t label u → inv u)
    (exact_ : ∀ t label u, inv t → good t → step t label u → (good u ↔ condition t label))
    (run : Run step s trace t) :
    (∀ u ∈ visited trace t, good u) ↔ ∀ p ∈ trace, condition p.1 p.2 := by
  have all := run.fair_iff inv good (fun _ _ => True) condition start fine keeps
    fun t label u holds before taken => by simpa using exact_ t label u holds before taken
  simpa using all

theorem restrict (condition : σ → α → Prop) (run : Run step s trace t)
    (all : ∀ p ∈ trace, condition p.1 p.2) :
    Run (fun t label u => condition t label ∧ step t label u) s trace t := by
  induction run with
  | nil => exact nil
  | @snoc trace t u label run taken ih =>
      apply snoc label (ih fun p member => all p (List.mem_append_left _ member))
      exact ⟨all (t, label) (by simp), taken⟩

def follow (next : σ → α → Option σ) (s : σ) (labels : List α) : Option σ := labels.foldlM next s

theorem of_follow {next : σ → α → Option σ} (sound : ∀ s label t, next s label = some t → step s label t)
    (labels : List α) (followed : follow next s labels = some t) :
    ∃ trace, Run step s trace t ∧ trace.map Prod.snd = labels := by
  induction labels generalizing s with
  | nil =>
      cases followed
      exact ⟨[], nil, rfl⟩
  | cons label rest ih =>
      rw [follow, List.foldlM_cons] at followed
      rcases Option.bind_eq_some_iff.mp followed with ⟨u, taken, remaining⟩
      rcases ih remaining with ⟨trace, run, same⟩
      refine ⟨_, (single (sound s label u taken)).append run, ?_⟩
      rw [List.map_append, same]
      rfl

end Run

end Lib
