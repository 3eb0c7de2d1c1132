import Jangri.Kernel.Answering

namespace Jangri

open Lib

namespace View

variable {mode mode' : Mode} {v w : View} {asked : Asked}

def Lives (v : View) (p : Nat) : Prop := p ∈ v.processes ∧ ∀ r, v.state p ≠ .terminated r

structure Family (v : View) : Prop where
  links : ∀ p q, v.Lives p → v.Lives q → (q ∈ v.children p ↔ v.parent q = some p)
  living : ∀ p q, v.Lives p → q ∈ v.children p → ∀ r, v.state q ≠ .terminated r

/-- After `p` has exited, each child it had is a child of its parent, if that is alive, and an
orphan otherwise. -/
def Readopted (v : View) (p : Nat) (w : View) : Prop :=
  ∀ c ∈ v.children p, (∀ q, v.parent p = some q → v.Lives q → w.parent c = some q) ∧
    ((∀ q, v.parent p = some q → ¬ v.Lives q) → w.parent c = none)

def Alone (v : View) (p : Nat) : Prop :=
  v.children p = [] ∧ ∀ q, v.parent p = some q → ¬ v.Lives q

def Known (v : View) : Prop := ∀ p ∈ v.processes, ∀ q ∈ v.children p, q ∈ v.processes

theorem family_of_same (family : v.Family) (lives : ∀ p, w.Lives p ↔ v.Lives p)
    (parent : w.parent = v.parent) (children : w.children = v.children)
    (states : ∀ p r, w.state p = .terminated r → v.state p = .terminated r) : w.Family where
  links := by
    intro p q livesP livesQ
    rw [parent, children]
    exact family.links p q ((lives p).mp livesP) ((lives q).mp livesQ)
  living := by
    intro p q livesP isChild r terminated
    rw [children] at isChild
    exact family.living p q ((lives p).mp livesP) isChild r (states q r terminated)

theorem lives_of_states (processes : w.processes = v.processes)
    (states : ∀ p r, w.state p = .terminated r ↔ v.state p = .terminated r) (p : Nat) :
    w.Lives p ↔ v.Lives p := by
  unfold Lives
  rw [processes]
  constructor
  · rintro ⟨present, alive⟩
    exact ⟨present, fun r terminated => alive r ((states p r).mpr terminated)⟩
  · rintro ⟨present, alive⟩
    exact ⟨present, fun r terminated => alive r ((states p r).mp terminated)⟩

theorem lives_created (orderly : Orderly mode v) (p : Nat) :
    v.created.Lives p ↔ v.Lives p ∨ p = v.pid + 1 := by
  constructor
  · rintro ⟨present, alive⟩
    rcases List.mem_cons.mp present with new | old
    · exact .inr new
    · rw [orderly.state_created p old] at alive
      exact .inl ⟨old, alive⟩
  · rintro (⟨old, alive⟩ | rfl)
    · refine ⟨List.mem_cons_of_mem _ old, ?_⟩
      rw [orderly.state_created p old]
      exact alive
    · refine ⟨List.mem_cons_self, ?_⟩
      intro r terminated
      have ready : v.created.state (v.pid + 1) = .ready := Function.update_self _ _ _
      rw [ready] at terminated
      cases terminated

theorem family_created (orderly : Orderly mode v) (known : v.Known) (family : v.Family) :
    v.created.Family := by
  have newParent : v.created.parent (v.pid + 1) = none := Function.update_self _ _ _
  have newChildren : v.created.children (v.pid + 1) = [] := Function.update_self _ _ _
  have oldChildren : ∀ p ∈ v.processes, v.created.children p = v.children p :=
    fun p present => Function.update_of_ne (orderly.fresh p present) _ _
  have stranger : v.pid + 1 ∉ v.processes := fun present => orderly.fresh _ present rfl
  constructor
  · intro p q livesP livesQ
    rcases (lives_created orderly p).mp livesP with oldP | rfl
    · rw [oldChildren p oldP.1]
      rcases (lives_created orderly q).mp livesQ with oldQ | rfl
      · rw [orderly.parent_created q oldQ.1]
        exact family.links p q oldP oldQ
      · rw [newParent]
        refine ⟨fun isChild => absurd (known p oldP.1 _ isChild) stranger, fun same => ?_⟩
        cases same
    · rw [newChildren]
      refine ⟨fun isChild => absurd isChild List.not_mem_nil, fun isParent => ?_⟩
      rcases (lives_created orderly q).mp livesQ with oldQ | rfl
      · rw [orderly.parent_created q oldQ.1] at isParent
        exact absurd (orderly.parents q oldQ.1 _ isParent).1 stranger
      · rw [newParent] at isParent
        cases isParent
  · intro p q livesP isChild r terminated
    rcases (lives_created orderly p).mp livesP with oldP | rfl
    · rw [oldChildren p oldP.1] at isChild
      rw [orderly.state_created q (known p oldP.1 q isChild)] at terminated
      exact family.living p q oldP isChild r terminated
    · rw [newChildren] at isChild
      cases isChild

/-- The child has no parent yet, and joins the children of its new one. -/
theorem family_adopted (family : v.Family) {caller child : Nat} (livesCaller : v.Lives caller)
    (livesChild : v.Lives child) (orphan : v.parent child = none) (wait : Bool) :
    (v.adopted caller child wait).Family := by
  have states : ∀ p r, (v.adopted caller child wait).state p = .terminated r ↔
      v.state p = .terminated r := by
    intro p r
    cases wait with
    | false => rfl
    | true =>
        change Function.update v.state caller (.waiting child) p = .terminated r ↔ _
        by_cases here : p = caller
        · rw [here, Function.update_self]
          constructor
          · intro impossible
            cases impossible
          · intro terminated
            exact absurd terminated (livesCaller.2 r)
        · rw [Function.update_of_ne here]
  have lives := lives_of_states (v := v) (w := v.adopted caller child wait) rfl states
  have children : ∀ p q, q ∈ (v.adopted caller child wait).children p ↔
      q ∈ v.children p ∨ (p = caller ∧ q = child) := by
    intro p q
    change q ∈ Function.update v.children caller (v.children caller ++ [child]) p ↔ _
    by_cases here : p = caller
    · rw [here, Function.update_self, List.mem_append, List.mem_singleton]
      simp
    · rw [Function.update_of_ne here]
      simp [here]
  have notYet : ∀ p, v.Lives p → child ∉ v.children p := by
    intro p livesP isChild
    have isParent := (family.links p child livesP livesChild).mp isChild
    rw [orphan] at isParent
    cases isParent
  constructor
  · intro p q livesP livesQ
    have livedP := (lives p).mp livesP
    have livedQ := (lives q).mp livesQ
    rw [children p q]
    change _ ↔ Function.update v.parent child (some caller) q = some p
    by_cases here : q = child
    · rw [here, Function.update_self]
      constructor
      · rintro (isChild | ⟨same, -⟩)
        · exact absurd isChild (notYet p livedP)
        · rw [same]
      · intro same
        exact .inr ⟨(Option.some.inj same).symm, rfl⟩
    · rw [Function.update_of_ne here]
      simp only [here, and_false, or_false]
      exact family.links p q livedP livedQ
  · intro p q livesP isChild r terminated
    rw [states] at terminated
    rcases (children p q).mp isChild with old | ⟨-, same⟩
    · exact family.living p q ((lives p).mp livesP) old r terminated
    · rw [same] at terminated
      exact livesChild.2 r terminated

theorem children_exited (v : View) (p : Nat) (status : Except Fault Nat) (x q : Nat) :
    q ∈ (v.exited p status).children x ↔
      x ≠ p ∧ (q ∈ v.children x ∨ (v.parent p = some x ∧ q ∈ v.children p)) := by
  change q ∈ Function.update (inherited v.children p (v.parent p)) p [] x ↔ _
  by_cases here : x = p
  · rw [here, Function.update_self]
    simp
  · rw [Function.update_of_ne here]
    cases isParent : v.parent p with
    | none => simp [inherited, here]
    | some heir =>
        simp only [inherited, Function.update_apply]
        by_cases same : x = heir
        · rw [← same]
          simp [here]
        · have other : heir ≠ x := fun h => same h.symm
          simp [same, other, here]

theorem lives_exited (orderly : Orderly mode v) (p : Nat) (present : p ∈ v.processes)
    (status : Except Fault Nat) (x : Nat) :
    (v.exited p status).Lives x ↔ v.Lives x ∧ x ≠ p := by
  have state := Orderly.state_exited v p status x (orderly.notSelf p present)
  unfold Lives
  rw [state]
  by_cases here : x = p
  · simp [here]
  · rw [if_neg here]
    constructor
    · rintro ⟨known, alive⟩
      refine ⟨⟨known, ?_⟩, here⟩
      split at alive
      next waiting =>
        intro r terminated
        rw [waiting.2] at terminated
        cases terminated
      next => exact alive
    · rintro ⟨⟨known, alive⟩, -⟩
      refine ⟨known, ?_⟩
      split
      · intro r terminated
        cases terminated
      · exact alive

/-- An exit keeps the tree, and provides for the children, exactly when it has nothing to do. -/
theorem family_exited (orderly : Orderly mode v) (family : v.Family) (known : v.Known) (p : Nat)
    (lives : v.Lives p) (status : Except Fault Nat) :
    (v.exited p status).Family ∧ v.Readopted p (v.exited p status) ↔ v.Alone p := by
  have lives' := lives_exited orderly p lives.1 status
  constructor
  · rintro ⟨family', readopted⟩
    have childless : v.children p = [] := by
      apply List.eq_nil_iff_forall_not_mem.mpr
      intro c isChild
      have livesC : v.Lives c := ⟨known p lives.1 c isChild, family.living p c lives isChild⟩
      have isParent : v.parent c = some p := (family.links p c lives livesC).mp isChild
      have provided := readopted c isChild
      change (∀ q, v.parent p = some q → v.Lives q → v.parent c = some q) ∧
        (_ → v.parent c = none) at provided
      rw [isParent] at provided
      by_cases heir : ∃ q, v.parent p = some q ∧ v.Lives q
      · rcases heir with ⟨q, isHeir, livesQ⟩
        have same := Option.some.inj (provided.1 q isHeir livesQ)
        rw [← same] at isHeir
        exact orderly.notSelf p lives.1 isHeir
      · have none := provided.2 fun q isHeir livesQ => heir ⟨q, isHeir, livesQ⟩
        cases none
    refine ⟨childless, ?_⟩
    intro q isParent livesQ
    have different : q ≠ p := by
      rintro rfl
      exact orderly.notSelf q lives.1 isParent
    have isChild : p ∈ v.children q := (family.links q p livesQ lives).mpr isParent
    have stays : p ∈ (v.exited p status).children q :=
      (children_exited v p status q p).mpr ⟨different, .inl isChild⟩
    have terminated : (v.exited p status).state p = .terminated status := by
      rw [Orderly.state_exited v p status p (orderly.notSelf p lives.1), if_pos rfl]
    exact family'.living q p ((lives' q).mpr ⟨livesQ, different⟩) stays status terminated
  · rintro ⟨childless, orphan⟩
    have children : ∀ x q, q ∈ (v.exited p status).children x ↔ x ≠ p ∧ q ∈ v.children x := by
      intro x q
      rw [children_exited, childless]
      simp
    refine ⟨⟨?_, ?_⟩, ?_⟩
    · intro x q livesX livesQ
      have livedX := (lives' x).mp livesX
      have livedQ := (lives' q).mp livesQ
      rw [children x q]
      change _ ↔ v.parent q = some x
      rw [← family.links x q livedX.1 livedQ.1]
      simp [livedX.2]
    · intro x q livesX isChild r terminated
      have livedX := (lives' x).mp livesX
      have wasChild := ((children x q).mp isChild).2
      have livesQ : v.Lives q := ⟨known x livedX.1.1 q wasChild, family.living x q livedX.1 wasChild⟩
      have other : q ≠ p := by
        rintro rfl
        exact orphan x ((family.links x q livedX.1 livesQ).mp wasChild) livedX.1
      exact ((lives' q).mpr ⟨livesQ, other⟩).2 r terminated
    · intro c isChild
      rw [childless] at isChild
      cases isChild

theorem known_created (known : v.Known) (orderly : Orderly mode v) : v.created.Known := by
  intro p present q isChild
  rcases List.mem_cons.mp present with rfl | old
  · have none : v.created.children (v.pid + 1) = [] := Function.update_self _ _ _
    rw [none] at isChild
    cases isChild
  · have same : v.created.children p = v.children p :=
      Function.update_of_ne (orderly.fresh p old) _ _
    rw [same] at isChild
    exact List.mem_cons_of_mem _ (known p old q isChild)

theorem known_effect {returned : Bool} (known : v.Known) (orderly : Orderly .user v) (p : Nat)
    (current : v.currentProcess = some p) (effect : Effect v p asked returned w) : w.Known := by
  cases effect with
  | quiet free stays => exact known
  | failed free stays => exact known_created known orderly
  | spawned wait exactly stays =>
      intro x present q isChild
      change q ∈ Function.update v.created.children p (v.created.children p ++ [v.pid + 1]) x at isChild
      have base := known_created known orderly x present q
      by_cases here : x = p
      · rw [here, Function.update_self, List.mem_append, List.mem_singleton, ← here] at isChild
        rcases isChild with old | new
        · exact base old
        · rw [new]
          exact List.mem_cons_self
      · rw [Function.update_of_ne here] at isChild
        exact base isChild
  | exited status free exits =>
      intro x present q isChild
      have listed := ((children_exited v p status x q).mp isChild).2
      rcases listed with own | ⟨-, inherited⟩
      · exact known x present q own
      · rcases orderly.current (by decide) with ⟨p', present', current', -⟩
        rw [current] at current'
        cases current'
        exact known p present' q inherited
  | yielded free stays => exact known

theorem known_moves (known : v.Known) (orderly : Orderly mode v) (moves : Moves asked mode v mode' w) :
    w.Known := by
  cases moves with
  | created => exact known_created known orderly
  | quiet => exact known
  | idle pids => exact known
  | chosen pids p present ready => exact known
  | continued => exact known
  | handled p current effect => exact known_effect known orderly p current effect
  | left p current effect => exact known_effect known orderly p current effect

theorem lives_current (orderly : Orderly .user v) (p : Nat) (current : v.currentProcess = some p) :
    v.Lives p := by
  rcases orderly.current (by decide) with ⟨p', present, current', state⟩
  rw [current] at current'
  cases current'
  refine ⟨present, ?_⟩
  intro r terminated
  rcases state with running | ⟨c, waiting⟩
  · rw [running] at terminated
    cases terminated
  · rw [waiting] at terminated
    cases terminated

theorem family_moves (orderly : Orderly mode v) (known : v.Known) (family : v.Family)
    (stays : ¬ asked.exits) (moves : Moves asked mode v mode' w) : w.Family := by
  have effect : ∀ p returned, mode = .user → v.currentProcess = some p →
      Effect v p asked returned w → w.Family := by
    intro p returned inUser current effect
    rw [inUser] at orderly
    have lives := lives_current orderly p current
    cases effect with
    | quiet free stays => exact family
    | failed free stays => exact family_created orderly known family
    | spawned wait exactly stays =>
        apply family_adopted (family_created orderly known family)
        · exact (lives_created orderly p).mpr (.inl lives)
        · exact (lives_created orderly _).mpr (.inr rfl)
        · exact Function.update_self _ _ _
    | exited status free exits => exact absurd exits stays
    | yielded free stays =>
        have states : ∀ x r, (v.yielded p).state x = .terminated r ↔ v.state x = .terminated r := by
          intro x r
          change Function.update v.state p _ x = .terminated r ↔ _
          by_cases here : x = p
          · rw [here, Function.update_self]
            split
            next running => simp [running]
            next => rfl
          · rw [Function.update_of_ne here]
        exact family_of_same family (lives_of_states rfl states) rfl rfl fun x r => (states x r).mp
  cases moves with
  | created => exact family_created orderly known family
  | quiet => exact family
  | idle pids => exact ⟨family.links, family.living⟩
  | chosen pids p present ready =>
      have states : ∀ x r, Function.update v.state p .running x = .terminated r ↔
          v.state x = .terminated r := by
        intro x r
        by_cases here : x = p
        · rw [here, Function.update_self, ready]
          simp
        · rw [Function.update_of_ne here]
      exact family_of_same family (lives_of_states rfl states) rfl rfl fun x r => (states x r).mp
  | continued => exact family
  | handled p current effect' => exact effect p true rfl current effect'
  | left p current effect' => exact effect p false rfl current effect'

end View

namespace Machine

variable {plat : Platform} {m m' : Machine} {trace : List (Machine × Event)}

/-- If the event is an exit, each child of the process that exits gets its new parent. -/
def Provides (plat : Platform) (m : Machine) (event : Event) : Prop :=
  m.Exits plat event → ∀ p m', m.kernel.currentProcess = some p → Steps plat m event m' →
    (view m.kernel).Readopted p (view m'.kernel)

def ExitsAlone (plat : Platform) (m : Machine) (event : Event) : Prop :=
  m.Exits plat event → ∀ p, m.kernel.currentProcess = some p → (view m.kernel).Alone p

theorem Steps.unique {event : Event} {m₁ m₂ : Machine} (first : Steps plat m event m₁)
    (second : Steps plat m event m₂) : m₁ = m₂ := by
  rcases first with ⟨operation, responds, ended⟩
  rcases second with ⟨operation', responds', ended'⟩
  rw [responds] at responds'
  cases responds'
  rw [ended] at ended'
  cases m₁
  cases m₂
  simp_all

theorem Exits.terminates {event : Event} (exits : m.Exits plat event) (orderly : m.Orderly) {p : Nat}
    (current : m.kernel.currentProcess = some p) (taken : Steps plat m event m') :
    ∃ r, m'.stateOf p = .terminated r := by
  have moves := moves_of_steps orderly taken
  have inUser := orderly.inUser exits.1
  rw [exits.1] at moves
  rcases View.exited_of_moves exits moves with ⟨q, status, isCurrent, left⟩
  obtain rfl : p = q := Option.some.inj (current.symm.trans isCurrent)
  have notSelf := inUser.notSelf p (inUser.current_present p current)
  have state : m'.stateOf p = ((view m.kernel).exited p status).state p :=
    congrArg (fun w => w.state p) left
  refine ⟨status, ?_⟩
  rw [state, View.Orderly.state_exited _ p status p notSelf, if_pos rfl]

theorem family_steps {event : Event} (orderly : m.Orderly) (known : (view m.kernel).Known)
    (family : (view m.kernel).Family) (taken : Steps plat m event m') :
    (view m'.kernel).Family ∧ m.Provides plat event ↔ m.ExitsAlone plat event := by
  have moves := moves_of_steps orderly taken
  by_cases exits : m.Exits plat event
  · have inUser : m.mode = .user := exits.1
    unfold Orderly at orderly
    rw [inUser] at orderly moves
    rcases View.exited_of_moves exits moves with ⟨p, status, current, left⟩
    have exact_ := View.family_exited orderly family known p (View.lives_current orderly p current)
      status
    rw [← left] at exact_
    constructor
    · rintro ⟨family', provides⟩ _ q current'
      obtain rfl : p = q := Option.some.inj (Eq.trans (Eq.symm current) current')
      exact exact_.mp ⟨family', provides exits p m' current taken⟩
    · intro alone
      have both := exact_.mpr (alone exits p current)
      refine ⟨both.1, ?_⟩
      intro _ q m'' current' taken'
      obtain rfl : p = q := Option.some.inj (Eq.trans (Eq.symm current) current')
      rw [← taken.unique taken']
      exact both.2
  · have kept := View.family_moves orderly known family exits moves
    exact ⟨fun _ asked => absurd asked exits, fun _ => ⟨kept, fun asked => absurd asked exits⟩⟩

end Machine

section Results

variable (plat : Platform) (m m' : Machine) (trace : List (Machine × Event))

/-- Along a run from the start, parents' lists and children's links agree and each exit provides for
the children, exactly when all exits are of processes without children and living parent. -/
theorem family_consistent_iff (fresh : m.Fresh) (run : Run (Machine.Steps plat) m trace m') :
    ((∀ u ∈ Run.visited trace m', (view u.kernel).Family) ∧
      ∀ step ∈ trace, step.1.Provides plat step.2) ↔
      ∀ step ∈ trace, step.1.ExitsAlone plat step.2 := by
  have nobody : ∀ p, ¬ (view m.kernel).Lives p := by
    intro p lives
    have present : p ∈ m.kernel.processes := lives.1
    rw [fresh.processes] at present
    cases present
  apply run.fair_iff (fun u => u.Orderly ∧ (view u.kernel).Known)
  · refine ⟨Machine.orderly_of_fresh fresh, ?_⟩
    intro p present
    change p ∈ m.kernel.processes at present
    rw [fresh.processes] at present
    cases present
  · exact ⟨fun p _ lives => absurd lives (nobody p), fun p _ lives => absurd lives (nobody p)⟩
  · intro t event u inv taken
    exact ⟨inv.1.steps taken, View.known_moves inv.2 inv.1 (Machine.moves_of_steps inv.1 taken)⟩
  · intro t event u inv family taken
    exact Machine.family_steps inv.1 inv.2 family taken

end Results

namespace Board

def stays (m : Machine) : Event → Bool
  | .trap _ =>
      match m.requested plat with
      | some (.syscall (.exit _)) => false
      | _ => true
  | _ => true

theorem not_exits_of_stays {m : Machine} {event : Event} (free : stays m event = true) :
    ¬ m.Exits plat event := by
  rintro ⟨-, info, rfl, -, p, status, s₁, s₂, current, advanced, read⟩
  have asks := Machine.requested_iff.mpr ⟨p, s₁, s₂, current, advanced, read⟩
  simp [stays, asks] at free

end Board

theorem stranger_exits : ∃ u u' trace, Run (Machine.Steps Board.plat) Board.boot trace u ∧
    (u.kernel.object 1).children = [3] ∧ (u.kernel.object 3).parent = some 1 ∧
    u.kernel.currentProcess = some 2 ∧ u.Exits Board.plat Board.call ∧
    Machine.Steps Board.plat u Board.call u' ∧
    ∀ w ∈ Run.visited (trace ++ [(u, Board.call)]) u', (view w.kernel).Family := by
  rcases Board.good_run_of_checks Board.stays (.assign [] Board.program :: Board.started ++
      Board.askStart ++ [Board.call, Board.timer, .schedule, .resume, Board.askExit])
    (fun u => decide (u.mode = .user ∧ u.kernel.currentProcess = some 2 ∧
      u.requested Board.plat = some (.syscall (.exit (.ok 0))) ∧ (u.kernel.object 2).children = [] ∧
      (u.kernel.object 2).parent = none ∧ (u.kernel.object 1).children = [3] ∧
      (u.kernel.object 3).parent = some 1)) (by decide +kernel) with
    ⟨u, trace, run, -, good, free, holds⟩
  rcases of_decide_eq_true holds with ⟨isUser, current, asks, childless, orphan, isChild, isParent⟩
  rcases Board.run_of_asking run good isUser asks with ⟨u', exits, taken, whole⟩
  have alone : ∀ step ∈ trace ++ [(u, Board.call)], step.1.ExitsAlone Board.plat step.2 := by
    intro step member exits' p current'
    rcases List.mem_append.mp member with earlier | last
    · exact absurd exits' (Board.not_exits_of_stays (free step earlier))
    · rw [List.mem_singleton.mp last] at current' ⊢
      cases current.symm.trans current'
      refine ⟨childless, ?_⟩
      intro q isParent'
      cases orphan.symm.trans isParent'
  have family := (family_consistent_iff Board.plat _ u' _ Board.boot_fresh whole).mpr alone
  exact ⟨u, u', trace, run, isChild, isParent, current, exits, taken, family.1⟩

namespace Board

theorem child_exits : ∃ u u' trace, Run (Machine.Steps plat) boot trace u ∧
    trace.map Prod.snd = started ++ askSpawn ++ [call, timer, .schedule, .resume, askExit] ∧
    Run (Machine.Steps plat) boot (trace ++ [(u, call)]) u' ∧ u.Exits plat call ∧
    Machine.Steps plat u call u' ∧ u.kernel.currentProcess = some 2 ∧ 1 ∈ u.kernel.processes ∧
    (u.kernel.object 1).children = [2] ∧ u.stateOf 1 = .waiting 2 ∧
    (u.kernel.object 2).parent = some 1 := by
  rcases good_run_of_check (started ++ askSpawn ++ [call, timer, .schedule, .resume, askExit])
    (fun u => decide (u.mode = .user ∧ u.kernel.currentProcess = some 2 ∧
      u.requested plat = some (.syscall (.exit (.ok 0))) ∧ 1 ∈ u.kernel.processes ∧
      (u.kernel.object 1).children = [2] ∧ u.stateOf 1 = .waiting 2 ∧
      (u.kernel.object 2).parent = some 1))
    (by decide +kernel) with ⟨u, trace, run, labels, good, holds⟩
  rcases of_decide_eq_true holds with ⟨isUser, current, asks, present, isChild, waits, isParent⟩
  rcases run_of_asking run good isUser asks with ⟨u', exits, taken, whole⟩
  exact ⟨u, u', trace, run, labels, whole, exits, taken, current, present, isChild, waits, isParent⟩

end Board

theorem exited_child_stays : ∃ u trace, Run (Machine.Steps Board.plat) Board.boot trace u ∧
    trace.map Prod.snd = Board.started ++ Board.askSpawn ++
      [Board.call, Board.timer, .schedule, .resume, Board.askExit] ++ [Board.call] ∧
    ¬ (view u.kernel).Family := by
  rcases Board.child_exits with
    ⟨u, u', trace, run, labels, whole, exits, taken, current, present, isChild, waits, isParent⟩
  refine ⟨u', _, whole, ?_, ?_⟩
  · rw [List.map_append, labels]
    rfl
  have orderly := Machine.orderly_of_run Board.boot_fresh run u (Run.last_mem_visited _ _)
  have moves := Machine.moves_of_steps orderly taken
  rw [exits.1] at moves
  rcases View.exited_of_moves exits moves with ⟨p, status, current', left⟩
  have isSecond : 2 = p := Option.some.inj (current.symm.trans current')
  subst isSecond
  have linked : (view u.kernel).parent 2 = some 1 := isParent
  have listed : (view u.kernel).children 1 = [2] := isChild
  rw [left]
  intro family
  have lives : ((view u.kernel).exited 2 status).Lives 1 := by
    refine ⟨present, ?_⟩
    have waiting : (view u.kernel).state 1 = .waiting 2 := waits
    simp [View.exited, View.woken, linked, waiting]
  apply family.living 1 2 lives _ status
  · simp [View.exited, View.woken, linked]
  · simp [View.exited, View.inherited, linked, listed]

section Results

variable (plat : Platform) (m m' : Machine) (trace : List (Machine × Event))

/-- A process that waits for another is the parent of a live process. When that process exits, it is
terminated and its parent is ready. -/
theorem no_lost_wakeup (fresh : m.Fresh) (run : Run (Machine.Steps plat) m trace m') :
    ∀ u ∈ Run.visited trace m', ∀ p ∈ u.kernel.processes, ∀ c, u.stateOf p = .waiting c →
      c ∈ u.kernel.processes ∧ (u.kernel.object c).parent = some p ∧
      (∀ r, u.stateOf c ≠ .terminated r) ∧
      ∀ event u', Machine.Steps plat u event u' →
        (∀ r, u'.stateOf c = .terminated r → u'.stateOf p = .ready) ∧
        (u.Exits plat event → u.kernel.currentProcess = some c →
          (∃ r, u'.stateOf c = .terminated r) ∧ u'.stateOf p = .ready) := by
  intro u visited p present c waits
  have orderly := Machine.orderly_of_run fresh run u visited
  obtain ⟨known, isParent, alive⟩ := View.Orderly.waiting orderly p present c waits
  refine ⟨known, isParent, alive, fun event u' taken => ?_⟩
  have wakes : ∀ r, u'.stateOf c = .terminated r → u'.stateOf p = .ready :=
    View.Orderly.wakes orderly (Machine.moves_of_steps orderly taken) p c present waits
  refine ⟨wakes, fun exits current => ?_⟩
  obtain ⟨status, terminated⟩ := exits.terminates orderly current taken
  exact ⟨⟨status, terminated⟩, wakes status terminated⟩

end Results

theorem exiting_child_wakes_parent : ∃ u u' trace,
    Run (Machine.Steps Board.plat) Board.boot trace u ∧ u.stateOf 1 = .waiting 2 ∧
      u.Exits Board.plat Board.call ∧ Machine.Steps Board.plat u Board.call u' ∧
      (∃ r, u'.stateOf 2 = .terminated r) ∧ u'.stateOf 1 = .ready := by
  obtain ⟨u, u', trace, run, -, -, exits, taken, current, present, -, waits, -⟩ := Board.child_exits
  have linked := no_lost_wakeup Board.plat _ u trace Board.boot_fresh run u
    (Run.last_mem_visited trace u) 1 present 2 waits
  obtain ⟨-, -, -, wakes⟩ := linked
  exact ⟨u, u', trace, run, waits, exits, taken, (wakes Board.call u' taken).2 exits current⟩

end Jangri
