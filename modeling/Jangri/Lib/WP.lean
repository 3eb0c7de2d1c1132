import Mathlib.Tactic

/-! Weakest preconditions for stateful programs that can return an error or stop for good.

`wp` is for programs over a state `σ` that may stop with some `ε`; `wpr` adds a result `Err` of
type `θ`, which keeps the state. Conditions on stopping are part of every specification: `halts`
says for which reasons a program may stop. -/

namespace Lib

variable {σ ε θ α β : Type}

@[irreducible] def wp (x : StateT σ (Except ε) α) (post : α → σ → Prop) (halts : ε → Prop) (s : σ) : Prop :=
  match x s with
  | .ok (a, t) => post a t
  | .error e => halts e

@[irreducible] def wpr (x : ExceptT θ (StateT σ (Except ε)) α) (ok : α → σ → Prop) (err : θ → σ → Prop)
    (halts : ε → Prop) (s : σ) : Prop :=
  wp x.run (fun r t => match r with
    | .ok a => ok a t
    | .error e => err e t) halts s

section Plain

variable {post : α → σ → Prop} {halts : ε → Prop} {s : σ}

theorem wp_def (x : StateT σ (Except ε) α) :
    wp x post halts s ↔ match x s with
      | .ok (a, t) => post a t
      | .error e => halts e := by
  unfold wp
  rfl

@[simp] theorem wp_pure (a : α) : wp (pure a) post halts s ↔ post a s := by
  unfold wp
  exact Iff.rfl

@[simp] theorem wp_bind (x : StateT σ (Except ε) α) (f : α → StateT σ (Except ε) β)
    (post : β → σ → Prop) :
    wp (x >>= f) post halts s ↔ wp x (fun a t => wp (f a) post halts t) halts s := by
  unfold wp
  change (match (x s >>= fun p => f p.1 p.2) with
    | .ok (a, t) => post a t
    | .error e => halts e) ↔ _
  cases h : x s with
  | error e => rfl
  | ok p => rfl

theorem wp_mono {x : StateT σ (Except ε) α} {post' : α → σ → Prop} {halts' : ε → Prop}
    (spec : wp x post' halts' s) (weaker : ∀ a t, post' a t → post a t)
    (stops : ∀ e, halts' e → halts e) : wp x post halts s := by
  unfold wp at *
  cases h : x s with
  | error e => simpa [h] using stops e (by simpa [h] using spec)
  | ok p => simpa [h] using weaker _ _ (by simpa [h] using spec)

theorem wp_weaken {x : StateT σ (Except ε) α} {post' : α → σ → Prop} (spec : wp x post' halts s)
    (weaker : ∀ a t, post' a t → post a t) : wp x post halts s :=
  wp_mono spec weaker fun _ stopped => stopped

theorem wp_run (x : StateT σ (Except ε) α) :
    wp x (fun a t => x s = .ok (a, t)) (fun _ => ∀ a t, x s ≠ .ok (a, t)) s := by
  rw [wp_def]
  cases ran : x s with
  | error e =>
      intro a t returned
      cases returned
  | ok p => rfl

theorem wp_and {x : StateT σ (Except ε) α} {post' : α → σ → Prop} {halts' : ε → Prop}
    (first : wp x post halts s) (second : wp x post' halts' s) :
    wp x (fun a t => post a t ∧ post' a t) (fun e => halts e ∧ halts' e) s := by
  unfold wp at *
  cases h : x s with
  | error e => simp_all
  | ok p => simp_all

theorem wp_mono_run {x : StateT σ (Except ε) α} {post' : α → σ → Prop} {halts' : ε → Prop}
    (spec : wp x post' halts' s) (weaker : ∀ a t, x s = .ok (a, t) → post' a t → post a t)
    (stops : ∀ e, halts' e → halts e) : wp x post halts s := by
  apply wp_mono (wp_and (wp_run x) spec)
  · exact fun a t done => weaker a t done.1 done.2
  · exact fun e stopped => stops e stopped.2

theorem wp_of_returns {x : StateT σ (Except ε) α} {a : α} {t : σ} (spec : wp x post halts s)
    (returned : x s = .ok (a, t)) : post a t := by
  simpa [wp, returned] using spec

/-- A sequence returns when its first part and then its second part do. -/
theorem bind_returns_iff {x : StateT σ (Except ε) α} {f : α → StateT σ (Except ε) β} {b : β}
    {t : σ} : (x >>= f) s = .ok (b, t) ↔ ∃ a u, x s = .ok (a, u) ∧ f a u = .ok (b, t) := by
  have unfolded : (x >>= f) s = (x s >>= fun p => f p.1 p.2) := rfl
  rw [unfolded]
  cases x s with
  | error e => exact iff_of_false (by simp [bind, Except.bind]) (by simp)
  | ok p =>
      constructor
      · intro ran
        exact ⟨p.1, p.2, rfl, ran⟩
      · intro both
        rcases both with ⟨a, u, same, ran⟩
        cases same
        exact ran

/-- Code that returns only where `condition` holds, and stops only where it does not. -/
theorem returns_iff {condition : Prop} {x : StateT σ (Except ε) α}
    (spec : wp x (fun _ _ => condition) (fun _ => ¬ condition) s) :
    (∃ a t, x s = .ok (a, t)) ↔ condition := by
  unfold wp at spec
  cases ran : x s with
  | ok p =>
      rw [ran] at spec
      exact iff_of_true ⟨p.1, p.2, rfl⟩ spec
  | error e =>
      rw [ran] at spec
      apply iff_of_false _ spec
      intro returned
      rcases returned with ⟨a, t, impossible⟩
      cases impossible

theorem wp_ite (c : Prop) [Decidable c] (x y : StateT σ (Except ε) α) :
    wp (if c then x else y) post halts s ↔ if c then wp x post halts s else wp y post halts s := by
  split <;> rfl

end Plain

section Results

variable {ok : α → σ → Prop} {err : θ → σ → Prop} {halts : ε → Prop} {s : σ}

@[simp] theorem wpr_pure (a : α) : wpr (pure a) ok err halts s ↔ ok a s := by
  unfold wpr wp
  exact Iff.rfl

@[simp] theorem wpr_throw (e : θ) :
    wpr (throw e : ExceptT θ (StateT σ (Except ε)) α) ok err halts s ↔ err e s := by
  unfold wpr wp
  exact Iff.rfl

@[simp] theorem wpr_bind (x : ExceptT θ (StateT σ (Except ε)) α)
    (f : α → ExceptT θ (StateT σ (Except ε)) β) (ok : β → σ → Prop) :
    wpr (x >>= f) ok err halts s ↔ wpr x (fun a t => wpr (f a) ok err halts t) err halts s := by
  unfold wpr
  rw [ExceptT.run_bind, wp_bind]
  unfold wp
  cases h : x.run s with
  | error e => rfl
  | ok p =>
      obtain ⟨r, t⟩ := p
      cases r <;> rfl

@[simp] theorem wpr_lift (x : StateT σ (Except ε) α) :
    wpr (liftM x : ExceptT θ (StateT σ (Except ε)) α) ok err halts s ↔ wp x ok halts s := by
  have run : (liftM x : ExceptT θ (StateT σ (Except ε)) α).run s =
      (x s >>= fun p => Except.ok (Except.ok p.1, p.2)) := rfl
  unfold wpr wp
  rw [run]
  cases h : x s with
  | error e => rfl
  | ok p => rfl

theorem wpr_mono {x : ExceptT θ (StateT σ (Except ε)) α} {ok' : α → σ → Prop}
    {err' : θ → σ → Prop} {halts' : ε → Prop} (spec : wpr x ok' err' halts' s)
    (weaker : ∀ a t, ok' a t → ok a t) (fails : ∀ e t, err' e t → err e t)
    (stops : ∀ e, halts' e → halts e) : wpr x ok err halts s := by
  unfold wpr at *
  refine wp_mono spec (fun r t h => ?_) stops
  cases r with
  | ok a => exact weaker a t h
  | error e => exact fails e t h

theorem wpr_weaken {x : ExceptT θ (StateT σ (Except ε)) α} {ok' : α → σ → Prop}
    {err' : θ → σ → Prop} (spec : wpr x ok' err' halts s) (weaker : ∀ a t, ok' a t → ok a t)
    (fails : ∀ e t, err' e t → err e t) : wpr x ok err halts s :=
  wpr_mono spec weaker fails fun _ stopped => stopped

theorem wpr_and {x : ExceptT θ (StateT σ (Except ε)) α} {ok' : α → σ → Prop}
    {err' : θ → σ → Prop} {halts' : ε → Prop} (first : wpr x ok err halts s)
    (second : wpr x ok' err' halts' s) :
    wpr x (fun a t => ok a t ∧ ok' a t) (fun e t => err e t ∧ err' e t)
      (fun e => halts e ∧ halts' e) s := by
  unfold wpr at *
  refine wp_mono (wp_and first second) (fun r t h => ?_) fun e h => h
  cases r <;> exact h

theorem wpr_ite (c : Prop) [Decidable c] (x y : ExceptT θ (StateT σ (Except ε)) α) :
    wpr (if c then x else y) ok err halts s ↔
      if c then wpr x ok err halts s else wpr y ok err halts s := by
  split <;> rfl

end Results

section Running

theorem run_bind_ok {x : ExceptT θ (StateT σ (Except ε)) α}
    {f : α → ExceptT θ (StateT σ (Except ε)) β} {s t : σ} {a : α} (ran : x.run s = .ok (.ok a, t)) :
    (x >>= f).run s = (f a).run t := by
  have bind : (x >>= f).run s = (x.run s >>= fun p => match p.1 with
      | .ok a => (f a).run p.2
      | .error e => .ok (.error e, p.2)) := by
    rw [ExceptT.run_bind]
    change (x.run s >>= _) = _
    congr 1
    funext p
    rcases p with ⟨r, t⟩
    cases r <;> rfl
  rw [bind, ran]
  rfl

theorem run_lift_bind_ok {x : StateT σ (Except ε) α} {f : α → ExceptT θ (StateT σ (Except ε)) β}
    {s t : σ} {a : α} (ran : x s = .ok (a, t)) :
    ((liftM x : ExceptT θ (StateT σ (Except ε)) α) >>= f).run s = (f a).run t := by
  apply run_bind_ok
  have lifted : (liftM x : ExceptT θ (StateT σ (Except ε)) α).run s =
      (x s >>= fun p => Except.ok (Except.ok p.1, p.2)) := rfl
  rw [lifted, ran]
  rfl

theorem returned_of_wp {x : StateT σ (Except ε) α} {post : α → σ → Prop} {s : σ}
    (spec : wp x post (fun _ => False) s) : ∃ a t, x s = .ok (a, t) ∧ post a t := by
  rw [wp_def] at spec
  split at spec
  next a t ran => exact ⟨a, t, ran, spec⟩
  next => exact spec.elim

theorem returned_ok {x : ExceptT θ (StateT σ (Except ε)) α} {ok : α → σ → Prop} {s : σ} {e : θ} {h : ε}
    (spec : wpr x ok (fun e' _ => e' = e) (· = h) s) (noError : ∀ t, x.run s ≠ .ok (.error e, t))
    (noHalt : x.run s ≠ .error h) : ∃ a t, x.run s = .ok (.ok a, t) ∧ ok a t := by
  unfold wpr at spec
  rw [wp_def] at spec
  split at spec
  next r t ran =>
    cases r with
    | ok a => exact ⟨a, t, ran, spec⟩
    | error e' => exact absurd (spec ▸ ran) (noError t)
  next h' ran => exact absurd (spec ▸ ran) noHalt

theorem succeeded_of_wpr {x : ExceptT θ (StateT σ (Except ε)) α} {ok : α → σ → Prop} {s : σ}
    (spec : wpr x ok (fun _ _ => False) (fun _ => False) s) :
    ∃ a t, x.run s = .ok (.ok a, t) ∧ ok a t := by
  unfold wpr at spec
  rcases returned_of_wp spec with ⟨r, t, ran, post⟩
  cases r with
  | ok a => exact ⟨a, t, ran, post⟩
  | error e => exact post.elim

theorem failed_of_wpr {x : ExceptT θ (StateT σ (Except ε)) α} {err : θ → σ → Prop} {s : σ}
    (spec : wpr x (fun _ _ => False) err (fun _ => False) s) :
    ∃ e t, x.run s = .ok (.error e, t) ∧ err e t := by
  unfold wpr at spec
  rcases returned_of_wp spec with ⟨r, t, ran, post⟩
  cases r with
  | ok a => exact post.elim
  | error e => exact ⟨e, t, ran, post⟩

theorem returned_error {x : ExceptT θ (StateT σ (Except ε)) α} {s : σ} {e : θ}
    (spec : wpr x (fun _ _ => False) (fun e' _ => e' = e) (fun _ => False) s) :
    ∃ t, x.run s = .ok (.error e, t) := by
  rcases failed_of_wpr spec with ⟨e', t, ran, same⟩
  rw [same] at ran
  exact ⟨t, ran⟩

end Running

section Mirroring

/-- Wherever `x` returns, `y` returns the same. -/
def Mirrors (y x : StateT σ (Except ε) α) : Prop := ∀ s r, x s = .ok r → y s = .ok r

theorem Mirrors.refl (x : StateT σ (Except ε) α) : Mirrors x x := fun _ _ ran => ran

theorem Mirrors.bind {x y : StateT σ (Except ε) α} {f g : α → StateT σ (Except ε) β}
    (first : Mirrors y x) (rest : ∀ a, Mirrors (g a) (f a)) : Mirrors (y >>= g) (x >>= f) := by
  intro s r ran
  change (x s >>= fun p => f p.1 p.2) = .ok r at ran
  change (y s >>= fun p => g p.1 p.2) = .ok r
  cases called : x s with
  | error e =>
      rw [called] at ran
      cases ran
  | ok p =>
      rw [called] at ran
      rw [first s p called]
      exact rest p.1 p.2 r ran

theorem Mirrors.run_bind {x y : ExceptT θ (StateT σ (Except ε)) α}
    {f g : α → ExceptT θ (StateT σ (Except ε)) β} (first : Mirrors y.run x.run)
    (rest : ∀ a, Mirrors (g a).run (f a).run) : Mirrors (y >>= g).run (x >>= f).run := by
  rw [ExceptT.run_bind, ExceptT.run_bind]
  apply first.bind
  intro r
  cases r with
  | ok a => exact rest a
  | error e => exact Mirrors.refl _

theorem Mirrors.run_lift {x y : StateT σ (Except ε) α} (mirrors : Mirrors y x) :
    Mirrors (liftM y : ExceptT θ (StateT σ (Except ε)) α).run
      (liftM x : ExceptT θ (StateT σ (Except ε)) α).run := by
  have wrapped : Mirrors (y >>= fun a => (pure (Except.ok a) : StateT σ (Except ε) (Except θ α)))
      (x >>= fun a => pure (Except.ok a)) := mirrors.bind fun _ => Mirrors.refl _
  exact wrapped

theorem Mirrors.skip {x : StateT σ (Except ε) Unit} {y : StateT σ (Except ε) α}
    (test : ∀ s r, x s = .ok r → r = ((), s)) : Mirrors y (x >>= fun _ => y) := by
  intro s r ran
  change (x s >>= fun p => y p.2) = .ok r at ran
  cases called : x s with
  | error e =>
      rw [called] at ran
      cases ran
  | ok p =>
      rw [called, test s p called] at ran
      exact ran

end Mirroring

section Preserving

def Preserves (inv : σ → Prop) (x : StateT σ (Except ε) α) : Prop :=
  ∀ s, inv s → wp x (fun _ t => inv t) (fun _ => True) s

variable {inv : σ → Prop}

theorem Preserves.returned {x : StateT σ (Except ε) α} (keeps : Preserves inv x) {s t : σ} {a : α}
    (holds : inv s) (ran : x s = .ok (a, t)) : inv t := by
  have spec := wp_of_returns (keeps s holds) ran
  exact spec

theorem Preserves.pure (a : α) : Preserves inv (Pure.pure a : StateT σ (Except ε) α) := by
  intro s holds
  rw [wp_pure]
  exact holds

theorem Preserves.bind {x : StateT σ (Except ε) α} {f : α → StateT σ (Except ε) β}
    (first : Preserves inv x) (rest : ∀ a, Preserves inv (f a)) : Preserves inv (x >>= f) := by
  intro s holds
  rw [wp_bind]
  exact wp_weaken (first s holds) fun a t kept => rest a t kept

theorem Preserves.run_bind {x : ExceptT θ (StateT σ (Except ε)) α}
    {f : α → ExceptT θ (StateT σ (Except ε)) β} (first : Preserves inv x.run)
    (rest : ∀ a, Preserves inv (f a).run) : Preserves inv (x >>= f).run := by
  rw [ExceptT.run_bind]
  apply first.bind
  intro r
  cases r with
  | ok a => exact rest a
  | error e => exact Preserves.pure _

theorem Preserves.run_lift {x : StateT σ (Except ε) α} (keeps : Preserves inv x) :
    Preserves inv (liftM x : ExceptT θ (StateT σ (Except ε)) α).run :=
  keeps.bind fun _ => Preserves.pure _

theorem Preserves.run_pure (a : α) :
    Preserves inv (Pure.pure a : ExceptT θ (StateT σ (Except ε)) α).run :=
  Preserves.pure _

theorem Preserves.run_throw (e : θ) :
    Preserves inv (throw e : ExceptT θ (StateT σ (Except ε)) α).run :=
  Preserves.pure _

theorem Preserves.ite (c : Prop) [Decidable c] {x y : StateT σ (Except ε) α}
    (yes : Preserves inv x) (no : Preserves inv y) : Preserves inv (if c then x else y) := by
  split
  · exact yes
  · exact no

theorem Preserves.of_wpr {x : ExceptT θ (StateT σ (Except ε)) α}
    (spec : ∀ s, inv s → wpr x (fun _ t => inv t) (fun _ t => inv t) (fun _ => True) s) :
    Preserves inv x.run := by
  intro s holds
  have done := spec s holds
  unfold wpr at done
  apply wp_mono done
  · intro r t kept
    cases r with
    | ok a => exact kept
    | error e => exact kept
  · exact fun _ h => h

theorem Preserves.to_wpr {x : ExceptT θ (StateT σ (Except ε)) α} (keeps : Preserves inv x.run)
    {s : σ} (holds : inv s) :
    wpr x (fun _ t => inv t) (fun _ t => inv t) (fun _ => True) s := by
  unfold wpr
  apply wp_mono (keeps s holds)
  · intro r t kept
    cases r with
    | ok a => exact kept
    | error e => exact kept
  · exact fun _ h => h

end Preserving

section Giving

variable {good : α → Prop} {bad : θ → Prop}

def Gives (good : α → Prop) (bad : θ → Prop) (x : ExceptT θ (StateT σ (Except ε)) α) : Prop :=
  ∀ s, wpr x (fun a _ => good a) (fun e _ => bad e) (fun _ => True) s

theorem Gives.pure {a : α} (isGood : good a) :
    Gives good bad (Pure.pure a : ExceptT θ (StateT σ (Except ε)) α) := by
  intro s
  rw [wpr_pure]
  exact isGood

theorem Gives.throw {e : θ} (isBad : bad e) :
    Gives good bad (MonadExcept.throw e : ExceptT θ (StateT σ (Except ε)) α) := by
  intro s
  rw [wpr_throw]
  exact isBad

theorem Gives.bind {good' : β → Prop} {x : ExceptT θ (StateT σ (Except ε)) α}
    {f : α → ExceptT θ (StateT σ (Except ε)) β} (first : Gives good bad x)
    (rest : ∀ a, good a → Gives good' bad (f a)) : Gives good' bad (x >>= f) := by
  intro s
  rw [wpr_bind]
  exact wpr_weaken (first s) (fun a t isGood => rest a isGood t) fun _ _ isBad => isBad

theorem Gives.lift_bind {good' : β → Prop} {x : StateT σ (Except ε) α}
    {f : α → ExceptT θ (StateT σ (Except ε)) β} (rest : ∀ a, Gives good' bad (f a)) :
    Gives good' bad (liftM x >>= f) := by
  intro s
  rw [wpr_bind, wpr_lift, wp_def]
  cases x s with
  | error e => trivial
  | ok r => exact rest r.1 r.2

theorem Gives.lift_last (x : StateT σ (Except ε) α) :
    Gives (fun _ => True) bad (liftM x : ExceptT θ (StateT σ (Except ε)) α) := by
  intro s
  rw [wpr_lift, wp_def]
  cases x s with
  | error e => trivial
  | ok r => trivial

theorem Gives.ite (c : Prop) [Decidable c] {x y : ExceptT θ (StateT σ (Except ε)) α}
    (yes : Gives good bad x) (no : Gives good bad y) : Gives good bad (if c then x else y) := by
  split
  · exact yes
  · exact no

end Giving

end Lib
