import Jangri.Kernel.Quiet

namespace Jangri

open Lib

/-- An `ecall` to the firmware that returns leaves the supervisor's memory as it was. -/
def Silent (plat : Platform) : Prop :=
  plat.textAddress < usizeBound ∧ ∀ m m', plat.firmware m = some m' → m' = m

section Primitives

variable {α : Type} {halts : Halt → Prop} {s : GlobalState}

theorem wp_keeps (free : List Lock) {x : Kernel α} (quiet : Keeps halts free x)
    (unlocked : (view s).Free free) (post : α → GlobalState → Prop)
    (rest : ∀ a t, view t = view s → post a t) : wp x post halts s :=
  wp_weaken (quiet s unlocked) rest

theorem free_of_idle {free : List Lock} (idle : s.held = []) : (view s).Free free := by
  intro mutex _ taken
  have : mutex ∈ s.held := taken
  rw [idle] at this
  cases this

theorem wp_lock_of_held (mutex : Lock) (taken : mutex ∈ s.held)
    (post : Unit → GlobalState → Prop) (stops : halts (.panic (.deadlock 0))) :
    wp (lock mutex) post halts s := by
  rw [wp_def, lock, if_pos taken]
  exact stops

theorem wp_read (f : GlobalState → α) (post : α → GlobalState → Prop) :
    wp (fun s => .ok (f s, s) : Kernel α) post halts s ↔ post (f s) s := by
  rw [wp_def]

theorem wp_getCurrentProcess (available : .currentProcess ∉ s.held)
    (post : Option Nat → GlobalState → Prop) :
    wp GlobalState.getCurrentProcess post halts s ↔ post s.currentProcess s := by
  rw [GlobalState.getCurrentProcess, wp_withLock _ _ _ available, wp_read, List.erase_cons_head]

theorem wp_getObject (pid : Nat) (post : Process → GlobalState → Prop) :
    wp (getObject pid) post halts s ↔ post (s.object pid) s := by
  rw [wp_def]
  exact Iff.rfl

theorem wp_modifyObject (pid : Nat) (f : Process → Process) (post : Unit → GlobalState → Prop) :
    wp (modifyObject pid f) post halts s ↔
      post () { s with object := Function.update s.object pid (f (s.object pid)) } := by
  rw [wp_def]
  exact Iff.rfl

theorem wp_insertProcess (id : Nat) (post : Unit → GlobalState → Prop) :
    wp (insertProcess id) post halts s ↔ post () { s with processes := id :: s.processes } := by
  rw [wp_def]
  exact Iff.rfl

theorem wp_pushPid (id : Nat) (post : Unit → GlobalState → Prop) :
    wp (pushPid id) post halts s ↔ post () { s with pids := s.pids ++ [id] } := by
  rw [wp_def]
  exact Iff.rfl

theorem wp_unwrap (tolerant : Tolerant halts) (x : Option α) (post : α → GlobalState → Prop)
    (found : ∀ a, x = some a → post a s) : wp (liftRust (unwrap x)) post halts s := by
  rw [wp_liftRust]
  cases x with
  | none => exact tolerant _ (by simp)
  | some a => exact found a rfl

theorem wp_expect (tolerant : Tolerant halts) (text : String) (x : Option α)
    (post : α → GlobalState → Prop) (found : ∀ a, x = some a → post a s) :
    wp (liftRust (expect text x)) post halts s := by
  rw [wp_liftRust]
  cases x with
  | none => exact tolerant _ (by simp)
  | some a => exact found a rfl

theorem wp_nextPid (tolerant : Tolerant halts) (post : Nat → GlobalState → Prop)
    (next : post (s.pid + 1) { s with pid := s.pid + 1 }) : wp nextPid post halts s := by
  have unfolded : nextPid s = (usizeAdd s.pid 1).map fun pid => (pid, { s with pid }) := rfl
  rw [wp_def, unfolded, usizeAdd]
  by_cases fits : s.pid + 1 < usizeBound
  · rw [if_pos fits]
    exact next
  · rw [if_neg fits]
    exact tolerant (.panic .overflow) (by simp)

theorem wpr_guarded (mutex : Lock) (x : KernelResult α) (ok : α → GlobalState → Prop)
    (err : Error → GlobalState → Prop) (available : mutex ∉ s.held) :
    wpr (guarded mutex x) ok err halts s ↔
      wpr x (fun a t => ok a { t with held := t.held.erase mutex })
        (fun e t => err e { t with held := t.held.erase mutex }) halts
        { s with held := mutex :: s.held } := by
  unfold wpr
  rw [guarded, ExceptT.run_mk, wp_withLock _ _ _ available]

theorem wpr_keeps (free : List Lock) {x : KernelResult α} (quiet : Keeps halts free x.run)
    (unlocked : (view s).Free free) (ok : α → GlobalState → Prop)
    (err : Error → GlobalState → Prop) (returns : ∀ a t, view t = view s → ok a t)
    (fails : ∀ e t, view t = view s → err e t) : wpr x ok err halts s := by
  unfold wpr
  refine wp_keeps _ quiet unlocked _ fun r t same => ?_
  cases r with
  | ok a => exact returns a t same
  | error e => exact fails e t same

theorem wp_currentProcess (tolerant : Tolerant halts) (available : .currentProcess ∉ s.held)
    (post : Nat → GlobalState → Prop) (found : ∀ p, s.currentProcess = some p → post p s) :
    wp currentProcess post halts s := by
  rw [currentProcess, wp_bind, wp_getCurrentProcess available]
  exact wp_unwrap tolerant _ _ found

theorem view_modify (pid : Nat) (process : Process) :
    view { s with object := Function.update s.object pid process } =
      { view s with
        id := Function.update (view s).id pid process.id
        state := Function.update (view s).state pid process.processState
        parent := Function.update (view s).parent pid process.parent
        children := Function.update (view s).children pid process.children } := by
  have field : ∀ {β : Type} (g : Process → β),
      (fun p => g (Function.update s.object pid process p)) =
        Function.update (fun p => g (s.object p)) pid (g process) := by
    intro β g
    funext p
    rw [Function.update_apply, Function.update_apply]
    split <;> rfl
  unfold view
  rw [field Process.id, field Process.processState, field Process.parent, field Process.children]

theorem view_modify_bonds (pid : Nat) (process : Process)
    (id : process.id = (s.object pid).id) (parent : process.parent = (s.object pid).parent) :
    view { s with object := Function.update s.object pid process } =
      { view s with
        state := Function.update (view s).state pid process.processState
        children := Function.update (view s).children pid process.children } := by
  have ids : Function.update (view s).id pid (s.object pid).id = (view s).id :=
    Function.update_eq_self pid (view s).id
  have parents : Function.update (view s).parent pid (s.object pid).parent = (view s).parent :=
    Function.update_eq_self pid (view s).parent
  rw [view_modify, id, parent, ids, parents]

theorem view_modify_state (pid : Nat) (process : Process)
    (id : process.id = (s.object pid).id) (parent : process.parent = (s.object pid).parent)
    (children : process.children = (s.object pid).children) :
    view { s with object := Function.update s.object pid process } =
      { view s with state := Function.update (view s).state pid process.processState } := by
  have lists : Function.update (view s).children pid (s.object pid).children = (view s).children :=
    Function.update_eq_self pid (view s).children
  rw [view_modify_bonds pid process id parent, children, lists]

theorem view_modify_parent (pid : Nat) (process : Process)
    (id : process.id = (s.object pid).id)
    (state : process.processState = (s.object pid).processState)
    (children : process.children = (s.object pid).children) :
    view { s with object := Function.update s.object pid process } =
      { view s with parent := Function.update (view s).parent pid process.parent } := by
  have ids : Function.update (view s).id pid (s.object pid).id = (view s).id :=
    Function.update_eq_self pid (view s).id
  have states : Function.update (view s).state pid (s.object pid).processState = (view s).state :=
    Function.update_eq_self pid (view s).state
  have lists : Function.update (view s).children pid (s.object pid).children = (view s).children :=
    Function.update_eq_self pid (view s).children
  rw [view_modify, id, state, children, ids, states, lists]

end Primitives

section Switching

variable {halts : Halt → Prop} (tolerant : Tolerant halts) {s : GlobalState}
include tolerant

theorem wp_switchToSchedulerContext (context : Context) (idle : s.held = []) :
    wp (switchToSchedulerContext context) (fun _ t => view t = view s) halts s := by
  rw [switchToSchedulerContext]
  simp only [wp_bind]
  rw [wp_getCurrentProcess (by simp [idle])]
  refine wp_unwrap tolerant _ _ fun p _ => ?_
  rw [wp_withLock _ _ _ (by simp [idle]), wp_pure, List.erase_cons_head]
  exact @keeps_modifyObject halts [] p (fun process => { process with context })
    (fun _ => ⟨rfl, rfl, rfl, rfl⟩) s (fun _ needed => by cases needed)

theorem wp_yieldCpu (context : Context) (idle : s.held = []) (p : Nat)
    (current : s.currentProcess = some p) :
    wp (yieldCpu context) (fun _ t => view t = (view s).yielded p) halts s := by
  rw [yieldCpu]
  simp only [wp_bind]
  rw [wp_getCurrentProcess (by simp [idle])]
  refine wp_expect tolerant _ _ _ fun p' current' => ?_
  obtain rfl : p' = p := by
    rw [current] at current'
    exact (Option.some.inj current').symm
  rw [wp_withLock _ _ _ (by simp [idle]), wp_modifyObject]
  apply wp_weaken (wp_switchToSchedulerContext tolerant context (by simp [idle]))
  intro _ t same
  rw [same]
  have fields : (readyIfRunning (s.object p')).id = (s.object p').id ∧
      (readyIfRunning (s.object p')).parent = (s.object p').parent ∧
      (readyIfRunning (s.object p')).children = (s.object p').children ∧
      (readyIfRunning (s.object p')).processState =
        if (s.object p').processState = .running then .ready else (s.object p').processState := by
    unfold readyIfRunning
    split <;> simp
  have viewed := view_modify_state (s := s) p' (readyIfRunning (s.object p')) fields.1 fields.2.1
    fields.2.2.1
  rw [List.erase_cons_head, viewed, fields.2.2.2]
  rfl

end Switching

section Creation

variable {halts : Halt → Prop} (tolerant : Tolerant halts) (plat : Platform) {s : GlobalState}
include tolerant

theorem wp_addProcess (id : Nat) (idle : s.held = []) :
    wp (GlobalState.addProcess id)
      (fun _ t => view t = { view s with
        processes := id :: s.processes, pids := s.pids ++ [id] }) halts s := by
  rw [GlobalState.addProcess, lockExclusive]
  simp only [wp_bind]
  rw [wp_lock_of_free _ _ (by simp [idle]), wp_def]
  by_cases readers : s.numReaders = 0
  · rw [if_pos readers]
    change wp (insertProcess id) _ _ _
    rw [wp_insertProcess, wp_withLock _ _ _ (by simp [idle]), wp_pushPid, wp_unlock,
      List.erase_cons_head, List.erase_cons_head]
    rfl
  · rw [if_neg readers]
    exact tolerant _ (by simp)

/-- The new process is ready before its image is looked at, and stays so whatever follows. -/
theorem wp_buildProcess (pid pageTable trapframe : Nat) (name image : List UInt8)
    (unlocked : (view s).Free [.arch, .allocator]) :
    wpr (buildProcess plat pid pageTable trapframe name image)
      (fun _ t => view t = { view s with
        state := Function.update (view s).state pid .ready })
      (fun _ t => view t = { view s with
        state := Function.update (view s).state pid .ready }) halts s := by
  have quiet : Keeps halts [.arch, .allocator] (loadImage plat pid pageTable trapframe image).run :=
    keeps_loadImage tolerant plat (by simp) (by simp) _ _ _ _
  have viewed := view_modify_state (s := s) pid (prepared name pageTable trapframe (s.object pid))
    rfl rfl rfl
  rw [buildProcess, wpr_bind, wpr_lift, wp_modifyObject]
  refine wpr_keeps _ quiet ?_ _ _ (fun _ t same => same.trans viewed) fun _ t same => same.trans viewed
  rw [viewed]
  exact unlocked

theorem wp_assignProcess (name image : List UInt8) (idle : s.held = []) :
    wpr (assignProcess plat name image)
      (fun pid t => pid = s.pid + 1 ∧ view t = (view s).created)
      (fun _ t => view t = (view s).created) halts s := by
  have page := keeps_unwrapResult tolerant
    (@keeps_allocate halts [.allocator] tolerant (by simp) pageSize)
  rw [assignProcess]
  simp only [wpr_bind, wpr_lift]
  refine wp_keeps _ page (free_of_idle idle) _ fun pageTable s₁ same₁ => ?_
  have idle₁ : s₁.held = [] := (congrArg View.held same₁).trans idle
  refine wp_keeps _ page (free_of_idle idle₁) _ fun trapframe s₂ same₂ => ?_
  have same : view s₂ = view s := same₂.trans same₁
  have idle₂ : s₂.held = [] := (congrArg View.held same).trans idle
  have pid₂ : s₂.pid = s.pid := congrArg View.pid same
  refine wp_nextPid tolerant _ ?_
  rw [wp_modifyObject, pid₂]
  refine wp_weaken (wp_addProcess tolerant (s.pid + 1) idle₂) ?_
  intro _ s₃ added
  have viewed : view { s₂ with pid := s.pid + 1 } = { view s with pid := s.pid + 1 } :=
    congrArg (fun v : View => { v with pid := s.pid + 1 }) same
  have processes : s₂.processes = s.processes := congrArg View.processes same
  have pids : s₂.pids = s.pids := congrArg View.pids same
  rw [view_modify (s := { s₂ with pid := s.pid + 1 }), viewed, processes, pids] at added
  have idle₃ : s₃.held = [] := (congrArg View.held added).trans idle
  have unlocked : (view { s₃ with held := .process (s.pid + 1) :: s₃.held }).Free
      [.arch, .allocator] := by
    intro mutex needed taken
    have : mutex ∈ Lock.process (s.pid + 1) :: s₃.held := taken
    rw [idle₃] at this
    simp only [List.mem_cons, List.not_mem_nil, or_false] at needed this
    rcases needed with rfl | rfl <;> cases this
  have done : ∀ t : GlobalState, view t =
      { view { s₃ with held := .process (s.pid + 1) :: s₃.held } with
        state := Function.update (view s₃).state (s.pid + 1) .ready } →
      view { t with held := t.held.erase (.process (s.pid + 1)) } = (view s).created := by
    intro t built
    have held : t.held = .process (s.pid + 1) :: s₃.held := congrArg View.held built
    rw [held, List.erase_cons_head]
    have := congrArg (fun v : View => { v with held := s₃.held }) built
    refine this.trans ?_
    change { view s₃ with state := Function.update (view s₃).state (s.pid + 1) .ready } = _
    rw [added]
    simp only [Function.update_idem]
    rfl
  rw [wpr_guarded _ _ _ _ (by simp [idle₃])]
  refine wpr_mono (wp_buildProcess tolerant plat _ pageTable trapframe name image unlocked) ?_ ?_
    fun _ h => h
  · intro _ t built
    rw [wpr_pure]
    exact ⟨rfl, done t built⟩
  · intro _ t built
    exact done t built

omit tolerant in
theorem wp_setParent (child parent : Nat) (idle : s.held = []) :
    wp (setParent child parent) (fun _ t => view t = { view s with
      parent := Function.update (view s).parent child (some parent) }) halts s := by
  rw [setParent, wp_withLock _ _ _ (by simp [idle]), wp_modifyObject, List.erase_cons_head]
  exact view_modify_parent (s := s) child _ rfl rfl rfl

theorem wp_spawn (caller nameStart nameLen start len : Nat) (wait : Bool) (pageTable : Nat)
    (idle : s.held = []) (old : caller ≠ s.pid + 1) :
    wpr (spawn plat caller nameStart nameLen start len wait pageTable)
      (fun child t => child = s.pid + 1 ∧
        view t = (view s).created.adopted caller (s.pid + 1) wait)
      (fun _ t => view t = (view s).created) halts s := by
  have reads : ∀ slice : UserMemorySlice, Keeps halts [.arch, .allocator]
      (slice.read plat (translate plat)) := keeps_read tolerant plat (by simp) (by simp)
  rw [spawn]
  simp only [wpr_bind, wpr_lift]
  refine wp_keeps _ (reads _) (free_of_idle idle) _ fun name s₁ same₁ => ?_
  have idle₁ : s₁.held = [] := (congrArg View.held same₁).trans idle
  refine wp_expect tolerant _ _ _ fun name' _ => ?_
  refine wp_keeps _ (reads _) (free_of_idle idle₁) _ fun image s₂ same₂ => ?_
  have same : view s₂ = view s := same₂.trans same₁
  have idle₂ : s₂.held = [] := (congrArg View.held same).trans idle
  have pid₂ : s₂.pid = s.pid := congrArg View.pid same
  apply wpr_weaken (wp_assignProcess tolerant plat name' image idle₂)
  · rintro child s₃ ⟨isChild, created⟩
    rw [pid₂] at isChild
    rw [same] at created
    subst isChild
    have idle₃ : s₃.held = [] := (congrArg View.held created).trans idle
    apply wp_weaken (wp_setParent _ _ idle₃)
    intro _ s₄ linked
    have idle₄ : s₄.held = [] := (congrArg View.held linked).trans idle₃
    have childId : (s₄.object (s.pid + 1)).id = s.pid + 1 := by
      have : (view s₄).id = (view s).created.id := by
        rw [linked, ← created]
      exact (congrFun this (s.pid + 1)).trans (Function.update_self _ _ _)
    have different : Lock.process (s.pid + 1) ∉ Lock.process caller :: s₄.held := by
      rw [idle₄]
      simp only [List.mem_cons, Lock.process.injEq, List.not_mem_nil, or_false]
      exact fun h => old h.symm
    rw [wpr_guarded _ _ _ _ (by simp [idle₄])]
    simp only [wpr_bind, wpr_lift]
    rw [wp_withLock _ _ _ different]
    simp only [wp_bind, wp_getObject, wp_pure, wp_modifyObject, wpr_pure, List.erase_cons_head,
      childId]
    refine ⟨trivial, ?_⟩
    have bonds : (view s₄).state = (view s).created.state ∧
        (view s₄).children = (view s).created.children := by
      rw [linked, ← created]
      exact ⟨rfl, rfl⟩
    have children : (s₄.object caller).children = (view s).created.children caller :=
      congrFun bonds.2 caller
    have state : (s₄.object caller).processState = (view s).created.state caller :=
      congrFun bonds.1 caller
    rw [view_modify_bonds (s := s₄) caller (adoptChild _ _ _ _) rfl rfl, linked, created]
    unfold View.adopted adoptChild
    simp only [children, state]
    cases wait with
    | true => rfl
    | false =>
        simp only [Bool.false_eq_true, if_false]
        congr 1
        exact Function.update_eq_self caller _
  · intro e s₃ created
    rw [created, same]

end Creation

section Calls

variable {halts : Halt → Prop} (tolerant : Tolerant halts) (plat : Platform) {s : GlobalState}
include tolerant

theorem wp_wantMemory (size : Nat) (idle : s.held = []) :
    wp (wantMemory size).run (fun _ t => view t = view s) halts s := by
  have run : wpr (wantMemory size) (fun _ t => view t = view s) (fun _ t => view t = view s)
      halts s := by
    rw [wantMemory, wpr_bind, wpr_lift]
    refine wp_currentProcess tolerant (by simp [idle]) _ fun p _ => ?_
    have quiet : Keeps halts [.process p] (guarded (.process p) (extendHeap p size)).run := by
      refine keeps_withLock _ (by simp) ?_
      refine keeps_run_bind (keeps_run_lift (keeps_getObject _)) fun process => ?_
      refine keeps_run_bind (keeps_run_lift (keeps_liftRust tolerant (calm_assert _ _))) fun _ => ?_
      refine keeps_run_bind (keeps_run_lift (keeps_liftRust tolerant (calm_usizeMul _ _)))
        fun bytes => ?_
      refine keeps_run_bind (keeps_run_lift (keeps_liftRust tolerant (calm_usizeAdd _ _)))
        fun heapEnd => ?_
      refine keeps_run_ite _ (keeps_pure _) ?_
      refine keeps_run_bind (keeps_run_lift (keeps_modifyObject _ _ fun _ => ⟨rfl, rfl, rfl, rfl⟩))
        fun _ => ?_
      exact keeps_run_bind (keeps_run_lift (keeps_liftRust tolerant (calm_usizeSub _ _)))
        fun _ => keeps_pure _
    exact wpr_keeps _ quiet (free_of_idle idle) _ _ (fun _ _ same => same) fun _ _ same => same
  unfold wpr at run
  exact wp_weaken run (fun r t h => by cases r <;> exact h)

theorem wp_releaseTables (p : Nat) (idle : s.held = []) :
    wp (releaseTables plat p) (fun _ t => view t = { view s with
      children := Function.update (view s).children p [] }) halts s := by
  have quiet : ∀ root, Keeps halts [.arch, .allocator]
      (unwrapResult (GlobalState.cleanupPageTable plat root)) :=
    fun root => keeps_unwrapResult tolerant (keeps_cleanupPageTable tolerant plat (by simp) (by simp) root)
  have emptied := view_modify_bonds (s := { s with held := [.process p] }) p
    { s.object p with children := [] } rfl rfl
  rw [releaseTables, wp_withLock _ _ _ (by simp [idle]), idle]
  simp only [wp_bind, wp_modifyObject, wp_getObject]
  refine wp_keeps _ (quiet _) ?_ _ fun _ t same => ?_
  · intro mutex needed taken
    simp only [List.mem_cons, List.not_mem_nil, or_false] at needed
    have isProcess : mutex = .process p := by simpa [view] using taken
    rcases needed with rfl | rfl <;> cases isProcess
  · have held : t.held = [.process p] := congrArg View.held (same.trans emptied)
    have whole := congrArg (fun v : View => { v with held := [] }) (same.trans emptied)
    have states : Function.update (view s).state p (s.object p).processState = (view s).state :=
      Function.update_eq_self p (view s).state
    rw [held, List.erase_cons_head]
    refine whole.trans ?_
    change { view s with
      held := []
      state := Function.update (view s).state p (s.object p).processState
      children := Function.update (view s).children p [] } = _
    rw [states, show (view s).held = [] from idle]

omit tolerant in
theorem wp_terminate (p : Nat) (status : Except Fault Nat) (idle : s.held = []) :
    wp (terminate p status) (fun r t => r = ((s.object p).parent, (s.object p).id) ∧
      view t = { view s with state := Function.update (view s).state p (.terminated status) })
      halts s := by
  rw [terminate, wp_withLock _ _ _ (by simp [idle])]
  simp only [wp_bind, wp_modifyObject, wp_getObject, wp_pure, Function.update_self,
    List.erase_cons_head]
  exact ⟨trivial, view_modify_state (s := s) p { s.object p with processState := .terminated status }
    rfl rfl rfl⟩

omit tolerant in
theorem wp_notifyParent (p : Nat) (parent : Option Nat) (idle : s.held = [])
    (notSelf : parent ≠ some p) :
    wp (notifyParent p p parent) (fun _ t => view t = { view s with
      state := View.woken (view s).state p parent
      children := View.inherited (view s).children p parent }) halts s := by
  cases parent with
  | none =>
      rw [notifyParent, wp_withLock _ _ _ (by simp [idle]), wp_pure, List.erase_cons_head]
      rfl
  | some q =>
      have different : Lock.process p ∉ Lock.process q :: s.held := by
        rw [idle]
        simp only [List.mem_cons, Lock.process.injEq, List.not_mem_nil, or_false]
        rintro rfl
        exact notSelf rfl
      rw [notifyParent, wp_withLock _ _ _ (by simp [idle]), wp_bind, wp_withLock _ _ _ different]
      simp only [wp_bind, wp_getObject, wp_pure, wp_modifyObject, List.erase_cons_head]
      exact view_modify_bonds (s := s) q (inheritChildren _ p (s.object q)) rfl rfl

theorem wp_exit (status : Except Fault Nat) (idle : s.held = []) (p : Nat)
    (current : s.currentProcess = some p) (isPid : (s.object p).id = p)
    (notSelf : (s.object p).parent ≠ some p) :
    wp (exit plat status) (fun _ t => view t = (view s).exited p status) halts s := by
  rw [exit]
  simp only [wp_bind]
  refine wp_currentProcess tolerant (by simp [idle]) _ fun p' current' => ?_
  obtain rfl : p' = p := by
    rw [current] at current'
    exact (Option.some.inj current').symm
  apply wp_weaken (wp_terminate p' status idle)
  rintro r s₁ ⟨rfl, terminated⟩
  have idle₁ : s₁.held = [] := (congrArg View.held terminated).trans idle
  simp only [isPid]
  apply wp_weaken (wp_notifyParent p' _ idle₁ notSelf)
  intro _ s₂ notified
  have idle₂ : s₂.held = [] := (congrArg View.held notified).trans idle₁
  apply wp_weaken (wp_releaseTables tolerant plat p' idle₂)
  intro _ s₃ released
  have idle₃ : s₃.held = [] := (congrArg View.held released).trans idle₂
  apply wp_weaken (wp_switchToSchedulerContext tolerant .exit idle₃)
  intro _ t switched
  rw [switched, released, notified, terminated]
  rfl

open View in
theorem wp_perform (caller trapframe pageTable : Nat) (request : Syscall) (idle : s.held = [])
    (current : s.currentProcess = some caller) (isPid : (s.object caller).id = caller)
    (notSelf : (s.object caller).parent ≠ some caller) (old : caller ≠ s.pid + 1) (asked : Asked)
    (exits : asked.exits ↔ ∃ status, request = .exit status)
    (exactly : asked.blocks ↔ ∃ nameStart nameLen start len child t,
      request = .spawn nameStart nameLen start len true ∧
      (spawn plat caller nameStart nameLen start len true pageTable).run s = .ok (.ok child, t)) :
    wp (perform plat caller trapframe pageTable request)
      (fun returned t => Effect (view s) caller asked returned (view t)) halts s := by
  have answers : ∀ result, Keeps halts [.arch, .allocator] (writeResult plat pageTable result) :=
    keeps_writeResult tolerant plat (by simp) (by simp) pageTable
  have other : (∀ nameStart nameLen start len,
      request ≠ .spawn nameStart nameLen start len true) → ¬ asked.blocks := by
    intro different holds
    obtain ⟨nameStart, nameLen, start, len, _, _, same, _⟩ := exactly.mp holds
    exact different _ _ _ _ same
  have answered : ∀ t : GlobalState, t.held = [] → ∀ result,
      Effect (view s) caller asked true (view t) →
      wp (writeResult plat pageTable result >>= fun _ => pure true)
        (fun returned u => Effect (view s) caller asked returned (view u)) halts t := by
    intro t idleT result effect
    rw [wp_bind]
    refine wp_keeps _ (answers result) (free_of_idle idleT) _ fun _ u same => ?_
    rw [wp_pure, same]
    exact effect
  have stays : (∀ status, request ≠ .exit status) → ¬ asked.exits := by
    intro different holds
    obtain ⟨status, same⟩ := exits.mp holds
    exact different status same
  have quiet : ¬ asked.blocks → ¬ asked.exits → ∀ t : GlobalState, view t = view s → ∀ result,
      wp (writeResult plat pageTable result >>= fun _ => pure true)
        (fun returned u => Effect (view s) caller asked returned (view u)) halts t := by
    intro free stays t same result
    refine answered t ((congrArg View.held same).trans idle) result ?_
    rw [same]
    exact Effect.quiet free stays
  cases request with
  | wantMemory size =>
      rw [perform, wp_bind]
      exact wp_mono (wp_wantMemory tolerant size idle)
        (fun r t same => quiet (other (by simp)) (stays (by simp)) t same _) fun _ h => h
  | write start len =>
      rw [perform, wp_bind]
      refine wp_keeps [.arch, .allocator] (keeps_read tolerant plat (by simp) (by simp) _)
        (free_of_idle idle) _ fun bytes s₁ same₁ => ?_
      rw [wp_bind]
      refine wp_unwrap tolerant _ _ fun text _ => ?_
      rw [wp_bind]
      refine wp_keeps [] (keeps_consoleWrite text)
        (free_of_idle ((congrArg View.held same₁).trans idle)) _ fun _ s₂ same₂ => ?_
      exact quiet (other (by simp)) (stays (by simp)) s₂ (same₂.trans same₁) _
  | readChar =>
      rw [perform, wp_bind]
      refine wp_keeps [.inputBuffer] (keeps_dequeueInput (by simp)) (free_of_idle idle) _
        fun char t same => quiet (other (by simp)) (stays (by simp)) t same _
  | exit status =>
      rw [perform, wp_bind]
      apply wp_weaken (wp_exit tolerant plat _ idle caller current isPid notSelf)
      intro _ t exited
      rw [wp_pure, exited]
      exact Effect.exited _ (other (by simp)) (exits.mpr ⟨status, rfl⟩)
  | spawn nameStart nameLen start len wait =>
      rw [perform, wp_bind]
      have spawned := wp_spawn tolerant plat caller nameStart nameLen start len wait pageTable idle old
      unfold wpr at spawned
      refine wp_mono_run spawned ?_ fun _ h => h
      intro r t ran done
      cases r with
      | ok child =>
          refine answered t ((congrArg View.held done.2).trans idle) _ ?_
          rw [done.2]
          refine Effect.spawned wait ⟨?_, fun holds => ?_⟩ (stays (by simp))
          · rintro rfl
            exact exactly.mpr ⟨nameStart, nameLen, start, len, child, t, rfl, ran⟩
          · obtain ⟨_, _, _, _, _, _, same, _⟩ := exactly.mp holds
            exact (Syscall.spawn.inj same).2.2.2.2
      | error e =>
          refine answered t ((congrArg View.held done).trans idle) _ ?_
          rw [done]
          refine Effect.failed (fun holds => ?_) (stays (by simp))
          obtain ⟨_, _, _, _, _, _, same, succeeded⟩ := exactly.mp holds
          obtain ⟨rfl, rfl, rfl, rfl, rfl⟩ := Syscall.spawn.inj same
          rw [ran] at succeeded
          cases succeeded
  | yield =>
      rw [perform, wp_bind]
      apply wp_weaken (wp_yieldCpu tolerant _ idle caller current)
      intro _ t yielded
      rw [wp_pure, yielded]
      exact Effect.yielded (other (by simp)) (stays (by simp))
  | shutdown =>
      rw [perform, wp_def]
      exact tolerant _ (by simp)

open View in
theorem wp_handle (orderly : Orderly .user (view s)) (p : Nat) (current : s.currentProcess = some p) :
    wp (handle plat) (fun returned t => Effect (view s) p
      ⟨∃ child, SpawnsAndWaits plat s child, AsksToExit plat s⟩ returned (view t)) halts s := by
  have idle : s.held = [] := orderly.held
  obtain ⟨p', present, current', -⟩ := orderly.current (by decide)
  obtain rfl : p' = p := by
    have known : some p' = some p := current'.symm.trans current
    exact Option.some.inj known
  have isPid : (view s).id p' = p' := (orderly.known p' present).1
  rw [handle]
  simp only [wp_bind]
  rw [wp_getCurrentProcess (by simp [idle])]
  refine wp_expect tolerant _ _ _ fun caller found => ?_
  obtain rfl : p' = caller := by
    rw [current] at found
    exact Option.some.inj found
  rw [wp_withLock _ _ _ (by simp [idle]), wp_getObject, List.erase_cons_head]
  refine wp_mono_run (@keeps_handleSyscall halts [] tolerant _ s (free_of_idle idle))
    (fun _ s₁ advanced same₁ => ?_) fun _ h => h
  have idle₁ : s₁.held = [] := (congrArg View.held same₁).trans idle
  refine wp_mono_run (@keeps_readRequest halts [.arch, .allocator] tolerant plat (by simp)
    (by simp) _ s₁ (free_of_idle idle₁)) (fun request s₂ read same₂ => ?_) fun _ h => h
  have same : view s₂ = view s := same₂.trans same₁
  cases request with
  | syscall request =>
      rw [← same]
      refine wp_perform tolerant plat p' _ _ request ((congrArg View.held same).trans idle)
        ((congrArg View.currentProcess same).trans current) ?_ ?_ ?_ _ ?_ ?_
      · exact (congrFun (congrArg View.id same) p').trans isPid
      · have parent := congrFun (congrArg View.parent same) p'
        intro isParent
        exact orderly.notSelf p' present (parent.symm.trans isParent)
      · rw [show s₂.pid = (view s).pid from congrArg View.pid same]
        exact orderly.fresh p' present
      · constructor
        · rintro ⟨q, status, t₁, t₂, current', advanced', read'⟩
          obtain rfl : q = p' := Option.some.inj (current'.symm.trans current)
          rw [advanced] at advanced'
          cases advanced'
          rw [read] at read'
          cases read'
          exact ⟨status, rfl⟩
        · rintro ⟨status, rfl⟩
          exact ⟨p', status, s₁, s₂, current, advanced, read⟩
      · constructor
        · rintro ⟨child, q, nameStart, nameLen, start, len, t₁, t₂, t₃, current', advanced',
            read', spawned⟩
          obtain rfl : q = p' := Option.some.inj (current'.symm.trans current)
          rw [advanced] at advanced'
          cases advanced'
          rw [read] at read'
          cases read'
          exact ⟨nameStart, nameLen, start, len, child, t₃, rfl, spawned⟩
        · rintro ⟨nameStart, nameLen, start, len, child, t, rfl, spawned⟩
          exact ⟨child, p', nameStart, nameLen, start, len, s₁, s₂, t, current, advanced, read,
            spawned⟩
  | syscallResult result =>
      rw [wp_def]
      exact tolerant _ (by simp)
  | empty =>
      rw [wp_def]
      exact tolerant _ (by simp)

end Calls

section Traps

variable {halts : Halt → Prop} (tolerant : Tolerant halts) (plat : Platform) {s : GlobalState}

include tolerant

theorem keeps_io_write (text : String) {free : List Lock} :
    Keeps halts free (Io.write plat text) := by
  refine keeps_ite _ (keeps_pure _) ?_
  refine keeps_bind (keeps_storeBytes _ _) fun _ => ?_
  refine keeps_bind ?_ fun _ => ?_
  · intro t _
    rw [wp_def, makeSyscall]
    cases plat.firmware t.memory with
    | none => exact tolerant _ (by simp)
    | some m => rfl
  · refine keeps_bind (keeps_unwrapResult tolerant ?_) fun written =>
      keeps_liftRust tolerant (calm_assert _ _)
    refine keeps_bind (keeps_bind (keeps_loadBytes _ _) fun bytes => ?_) fun result => ?_
    · cases plat.layout.decode bytes with
      | syscallResult result => exact keeps_bind (keeps_storeBytes _ _) fun _ => keeps_pure _
      | syscall request => exact keeps_halt _ (tolerant _ (by simp))
      | empty => exact keeps_halt _ (tolerant _ (by simp))
    · cases result with
      | write result => exact keeps_pure _
      | wantMemory _ => exact keeps_halt _ (tolerant _ (by simp))
      | readChar _ => exact keeps_halt _ (tolerant _ (by simp))
      | exit => exact keeps_halt _ (tolerant _ (by simp))
      | spawn _ => exact keeps_halt _ (tolerant _ (by simp))
      | yield => exact keeps_halt _ (tolerant _ (by simp))
      | wait _ => exact keeps_halt _ (tolerant _ (by simp))

theorem wp_checkWrite_of_request (request : Syscall)
    (holds : plat.layout.decode (s.memory.load plat.kernelKucom plat.layout.size) =
      .syscall request) : wp (checkWrite plat).run (fun _ _ => False) halts s := by
  have stuck : wp (getResult plat) (fun _ _ => False) halts s := by
    rw [getResult, wp_bind, wp_def, loadBytes]
    simp only
    rw [holds, wp_def]
    exact tolerant _ (by simp)
  rw [checkWrite, ExceptT.run_mk, wp_bind]
  exact wp_weaken stuck (fun _ _ h => h.elim)

/-- In the kernel, `janglib::io::write` finds its own request where it looks for an answer, and
panics. -/
theorem wp_io_write_silent (silent : Silent plat) (text : String) (nonempty : text.isEmpty = false) :
    wp (Io.write plat text) (fun _ _ => False) halts s := by
  have bounded : textLength text < usizeBound := Nat.mod_lt _ (Nat.two_pow_pos 64)
  have decoded := plat.layout.decode_encode (.syscall (.write plat.textAddress (textLength text)))
    ⟨silent.1, bounded⟩
  have back := Memory.load_store s.memory plat.kernelKucom
    (plat.layout.encode (.syscall (.write plat.textAddress (textLength text))))
  rw [plat.layout.length_encode] at back
  rw [Io.write, if_neg (by simp [nonempty])]
  simp only [wp_bind]
  rw [writeSyscall, wp_def, storeBytes]
  simp only
  rw [wp_def, makeSyscall]
  cases answer : plat.firmware (s.memory.store plat.kernelKucom
      (plat.layout.encode (.syscall (.write plat.textAddress (textLength text))))) with
  | none => exact tolerant _ (by simp)
  | some m =>
      obtain rfl := silent.2 _ _ answer
      simp only
      rw [unwrapResult, wp_bind]
      refine wp_mono (wp_checkWrite_of_request tolerant plat
        (.write plat.textAddress (textLength text)) ?_) (fun _ _ h => h.elim) fun _ h => h
      simp only
      rw [back, decoded]

theorem wp_terminateLocked (answers : Silent plat ∨ halts (.panic (.deadlock 0))) (p : Nat)
    (locked : .process p ∈ s.held) (unlocked : .currentProcess ∉ s.held)
    (current : s.currentProcess = some p) (text : String) (nonempty : text.isEmpty = false)
    (fault : Fault) : wp (terminateLocked plat text fault) (fun _ _ => False) halts s := by
  rw [terminateLocked, println]
  simp only [wp_bind]
  rcases answers with silent | allowed
  · exact wp_mono (wp_io_write_silent tolerant plat silent text nonempty) (fun _ _ h => h.elim)
      fun _ h => h
  · refine wp_keeps [] (keeps_io_write tolerant plat text) (fun _ h => by cases h) _
      fun _ s₁ same₁ => ?_
    refine wp_keeps [] (keeps_io_write tolerant plat _) (fun _ h => by cases h) _
      fun _ s₂ same₂ => ?_
    have same : view s₂ = view s := same₂.trans same₁
    have held : s₂.held = s.held := congrArg View.held same
    rw [exit]
    simp only [wp_bind]
    refine wp_currentProcess tolerant (by rw [held]; exact unlocked) _ fun p' found => ?_
    obtain rfl : p' = p := by
      have := (congrArg View.currentProcess same).trans current
      exact Option.some.inj (found.symm.trans this)
    rw [terminate, withLock]
    simp only [wp_bind]
    exact wp_lock_of_held _ (by rw [held]; exact locked) _ allowed

omit tolerant in
theorem append_nonempty (a b : String) (nonempty : a.isEmpty = false) :
    (a ++ b).isEmpty = false := by
  simp_all [String.isEmpty]

/-- An exception handler returns only from a page fault whose heap could be mapped. -/
theorem wp_handleException_mapped (answers : Silent plat ∨ halts (.panic (.deadlock 0))) (p : Nat)
    (idle : s.held = []) (current : s.currentProcess = some p) (info : TrapInfo)
    (post : Bool → GlobalState → Prop)
    (mapped : ∀ t, info.isPageFault = .ok true →
      (growHeap plat p info.stval).run { s with held := .process p :: s.held } = .ok (.ok (), t) →
      view t = view { s with held := .process p :: s.held } →
      post true { t with
        object := Function.update t.object p
          { t.object p with currentlyUnmappedStart := (t.object p).heapEnd }
        held := s.held }) :
    wp (handleException plat p info) post halts s := by
  have unlocked : (view { s with held := .process p :: s.held }).Free [.arch, .allocator] := by
    intro mutex needed taken
    have known : mutex ∈ Lock.process p :: s.held := taken
    rw [idle] at known
    simp only [List.mem_cons, List.not_mem_nil, or_false] at needed known
    rcases needed with rfl | rfl <;> cases known
  have terminates : ∀ t : GlobalState, view t = view { s with held := .process p :: s.held } →
      ∀ text : String, text.isEmpty = false → ∀ fault,
      wp (terminateLocked plat text fault) post halts t := by
    intro t same text nonempty fault
    have held : t.held = .process p :: s.held := congrArg View.held same
    refine wp_mono (wp_terminateLocked tolerant plat answers p ?_ ?_ ?_ text nonempty fault)
      (fun _ _ h => h.elim) fun _ h => h
    · simp [held]
    · simp [held, idle]
    · exact (congrArg View.currentProcess same).trans current
  rw [handleException]
  simp only [wp_bind]
  rw [wp_lock_of_free _ _ (by simp [idle]), wp_liftRust]
  cases cause : info.isPageFault with
  | error e =>
      have calm : Calm info.isPageFault := by
        unfold TrapInfo.isPageFault
        cases info.trap with
        | interrupt code => exact calm_pure _
        | exception code => exact calm_ite _ _ _ (calm_pure _) (calm_panic _ (by simp))
      exact tolerant e fun hart same => calm hart (by rw [cause, same])
  | ok fault =>
      cases fault with
      | false =>
          simp only [Bool.false_eq_true, if_false, wp_bind]
          rw [wp_getObject]
          refine terminates _ rfl _ ?_ _
          unfold exceptionText
          simp only [String.append_assoc]
          exact append_nonempty _ _ (by decide)
      | true =>
          simp only [if_true]
          rw [handlePageFault, wp_bind]
          have grows : Keeps halts [.arch, .allocator] (growHeap plat p info.stval).run :=
            keeps_growHeap tolerant plat (by simp) (by simp) _ _
          refine wp_mono_run (grows _ unlocked) (fun r t ran same => ?_) fun _ h => h
          cases r with
          | error e =>
              simp only [wp_bind]
              rw [wp_getObject]
              refine terminates t same _ ?_ _
              unfold terminationText
              simp only [String.append_assoc]
              exact append_nonempty _ _ (by decide)
          | ok u =>
              have held : t.held = .process p :: s.held := congrArg View.held same
              simp only [wp_bind]
              rw [wp_modifyObject, wp_unlock, wp_pure]
              simp only [held, List.erase_cons_head]
              exact mapped t cause ran same

open View in
theorem wp_handleException (answers : Silent plat ∨ halts (.panic (.deadlock 0))) (p : Nat)
    (idle : s.held = []) (current : s.currentProcess = some p) (info : TrapInfo) {asked : Asked}
    (free : ¬ asked.blocks) (stays : ¬ asked.exits) :
    wp (handleException plat p info) (fun returned t => Effect (view s) p asked returned (view t))
      halts s := by
  apply wp_handleException_mapped tolerant plat answers p idle current info
  intro t _ _ same
  have quiet : Keeps halts [] (modifyObject p fun q => { q with currentlyUnmappedStart := q.heapEnd }) :=
    keeps_modifyObject p _ fun _ => ⟨rfl, rfl, rfl, rfl⟩
  have raised := quiet.returned (s := t) (fun _ needed => by cases needed) rfl
  have back := congrArg (fun v : View => { v with held := s.held }) (raised.trans same)
  have unchanged : ∀ v, v = view s → Effect (view s) p asked true v := by
    intro v viewed
    rw [viewed]
    exact Effect.quiet free stays
  exact unchanged _ back

open View in
theorem wp_dispatch (answers : Silent plat ∨ halts (.panic (.deadlock 0))) (p trapframe : Nat)
    (orderly : Orderly .user (view s)) (current : s.currentProcess = some p) (info : TrapInfo) :
    wp (dispatch plat p trapframe info) (fun returned t => Effect (view s) p
      ⟨info.isSyscall = true ∧ ∃ child, SpawnsAndWaits plat s child,
        info.isSyscall = true ∧ AsksToExit plat s⟩ returned (view t))
      halts s := by
  have idle : s.held = [] := orderly.held
  unfold dispatch
  split
  next isTimer =>
    have notCall : info.isSyscall = false := by
      simp only [TrapInfo.isTimerInterrupt, decide_eq_true_eq] at isTimer
      simp [TrapInfo.isSyscall, isTimer]
    rw [wp_bind]
    apply wp_weaken (wp_yieldCpu tolerant _ idle p current)
    intro _ t yielded
    rw [wp_pure, yielded]
    exact Effect.yielded (by simp [notCall]) (by simp [notCall])
  · split
    next isExternal =>
      have notCall : info.isSyscall = false := by
        simp only [TrapInfo.isExternalInterrupt, decide_eq_true_eq] at isExternal
        simp [TrapInfo.isSyscall, isExternal]
      rw [wp_bind]
      refine wp_keeps [.inputBuffer] (keeps_handleExternalInterrupt tolerant (by simp) info)
        (free_of_idle idle) _ fun _ t same => ?_
      rw [wp_pure, same]
      exact Effect.quiet (by simp [notCall]) (by simp [notCall])
    · split
      next isException =>
        have notCall : ¬ info.isSyscall = true := by
          unfold TrapInfo.isException at isException
          split at isException
          · exact of_decide_eq_true isException
          · cases isException
        exact wp_handleException tolerant plat answers p idle current info (by simp [notCall])
          (by simp [notCall])
      · split
        next isCall =>
          simp only [isCall, true_and]
          exact wp_handle tolerant plat orderly p current
        next notCall =>
          rw [wp_pure]
          exact Effect.quiet (fun h => notCall h.1) fun h => notCall h.1

theorem wp_returnToUserMode (idle : s.held = []) :
    wp returnToUserMode (fun mode t => mode = .user ∧ t = s) halts s := by
  rw [returnToUserMode, setUpSupervisorToUserModeTransition]
  simp only [wp_bind]
  refine wp_currentProcess tolerant (by simp [idle]) _ fun p _ => ?_
  rw [wp_withLock _ _ _ (by simp [idle]), wp_pure, wp_pure, List.erase_cons_head]
  exact ⟨rfl, rfl⟩

open View in
theorem wp_userTrap (answers : Silent plat ∨ halts (.panic (.deadlock 0)))
    (orderly : Orderly .user (view s)) (info : TrapInfo) :
    wp (userTrap plat info) (fun mode t => Moves
      ⟨info.isSyscall = true ∧ ∃ child, SpawnsAndWaits plat s child,
        info.isSyscall = true ∧ AsksToExit plat s⟩ .user (view s) mode (view t))
      halts s := by
  have idle : s.held = [] := orderly.held
  rw [userTrap]
  simp only [wp_bind]
  rw [wp_getCurrentProcess (by simp [idle])]
  refine wp_expect tolerant _ _ _ fun p current => ?_
  rw [wp_withLock _ _ _ (by simp [idle]), wp_getObject, List.erase_cons_head]
  apply wp_weaken (wp_dispatch tolerant plat answers p _ orderly current info)
  intro returned t effect
  cases returned with
  | true =>
      have kept : (view t).held = [] := (orderly.effect p current effect).held
      rw [leave, if_pos rfl]
      apply wp_weaken (wp_returnToUserMode tolerant kept)
      rintro mode u ⟨rfl, rfl⟩
      exact Moves.handled p current effect
  | false =>
      rw [leave, if_neg (by simp), wp_pure]
      exact Moves.left p current effect

end Traps

section Scheduler

variable {halts : Halt → Prop} (tolerant : Tolerant halts) {s : GlobalState}
include tolerant

theorem wp_searchReady (iterations : Nat) (unlocked : ∀ p, .process p ∉ s.held) :
    wp (searchReady iterations) (fun r t => (∃ pids, view t = { view s with pids }) ∧
      ∀ p, r = some p → p ∈ s.processes ∧ (s.object p).processState = .ready) halts s := by
  induction iterations generalizing s with
  | zero =>
      rw [searchReady, wp_pure]
      exact ⟨⟨s.pids, rfl⟩, fun p none_ => by cases none_⟩
  | succ iterations ih =>
      rw [searchReady, wp_bind, wp_def, rotatePids]
      cases queue : s.pids with
      | nil => exact ih unlocked
      | cons pid rest =>
          simp only [wp_bind]
          rw [isReady, wp_bind, wp_def, lookUp]
          by_cases present : pid ∈ s.processes
          · rw [if_pos present]
            simp only
            rw [wp_withLock (s := { s with pids := rest ++ [pid] }) _ _ _ (unlocked pid)]
            simp only [wp_bind, wp_getObject, wp_pure, List.erase_cons_head]
            by_cases ready : (s.object pid).processState = .ready
            · rw [if_pos (by simpa using ready), wp_pure]
              refine ⟨⟨_, rfl⟩, fun p same => ?_⟩
              obtain rfl := Option.some.inj same
              exact ⟨present, ready⟩
            · rw [if_neg (by simpa using ready)]
              apply wp_weaken (ih (s := { s with pids := rest ++ [pid] }) unlocked)
              rintro r t ⟨⟨pids, rotated⟩, found⟩
              exact ⟨⟨pids, rotated⟩, found⟩
          · rw [if_neg present]
            exact tolerant _ (by simp)

theorem wp_changeReaders_add (post : Unit → GlobalState → Prop)
    (next : post () { s with numReaders := s.numReaders + 1 }) :
    wp (changeReaders (usizeAdd · 1)) post halts s := by
  have unfolded : changeReaders (usizeAdd · 1) s =
      (usizeAdd s.numReaders 1).map fun n => ((), { s with numReaders := n }) := rfl
  rw [wp_def, unfolded, usizeAdd]
  by_cases fits : s.numReaders + 1 < usizeBound
  · rw [if_pos fits]
    exact next
  · rw [if_neg fits]
    exact tolerant (.panic .overflow) (by simp)

omit tolerant in
theorem wp_changeReaders_sub (readers : Nat) (many : s.numReaders = readers + 1)
    (post : Unit → GlobalState → Prop) (next : post () { s with numReaders := readers }) :
    wp (changeReaders (usizeSub · 1)) post halts s := by
  have unfolded : changeReaders (usizeSub · 1) s =
      (usizeSub s.numReaders 1).map fun n => ((), { s with numReaders := n }) := rfl
  rw [wp_def, unfolded, usizeSub, if_pos (by omega), many]
  exact next

theorem wp_withReadLock {α : Type} (x : Kernel α) (post : α → GlobalState → Prop)
    (idle : s.held = [])
    (body : wp x (fun a t => t.held = [] ∧ t.numReaders = s.numReaders + 1 ∧
      post a { t with numReaders := s.numReaders }) halts
      { s with numReaders := s.numReaders + 1 }) : wp (withReadLock x) post halts s := by
  rw [withReadLock, lockShared, unlockShared]
  simp only [wp_bind]
  rw [wp_withLock _ _ _ (by simp [idle])]
  refine wp_changeReaders_add tolerant _ ?_
  simp only [List.erase_cons_head]
  apply wp_weaken body
  rintro a t ⟨idleT, readers, done⟩
  rw [wp_withLock _ _ _ (by simp [idleT])]
  refine wp_changeReaders_sub (s := { t with held := .numReaders :: t.held }) _ readers _ ?_
  simp only [List.erase_cons_head]
  rw [wp_pure]
  exact done

theorem wp_findReadyProcess (idle : s.held = []) :
    wp GlobalState.findReadyProcess (fun r t => (∃ pids, view t = { view s with pids }) ∧
      ∀ p, r = some p → p ∈ s.processes ∧ (s.object p).processState = .ready) halts s := by
  rw [GlobalState.findReadyProcess]
  refine wp_withReadLock tolerant _ _ idle ?_
  rw [wp_withLock _ _ _ (by simp [idle]), wp_bind, wp_read]
  refine wp_weaken (wp_searchReady tolerant _ ?_) ?_
  · intro p
    simp [idle]
  · rintro r t ⟨⟨pids, rotated⟩, found⟩
    have held : t.held = .pids :: s.held := congrArg View.held rotated
    have readers : t.numReaders = s.numReaders + 1 := congrArg View.numReaders rotated
    refine ⟨?_, readers, ⟨pids, ?_⟩, found⟩
    · rw [held, List.erase_cons_head]
      exact idle
    · rw [held, List.erase_cons_head]
      exact congrArg (fun v : View => { v with held := s.held, numReaders := s.numReaders }) rotated

theorem wp_getProcess (pid : Nat) (idle : s.held = []) :
    wp (GlobalState.getProcess pid)
      (fun r t => t = s ∧ ∀ p, r = some p → p = pid) halts s := by
  rw [GlobalState.getProcess]
  refine wp_withReadLock tolerant _ _ idle ?_
  rw [wp_read]
  refine ⟨idle, rfl, rfl, fun p found => ?_⟩
  simp only [Option.ite_none_right_eq_some, Option.some.injEq] at found
  exact found.2.symm

open View in
theorem wp_schedule {asked : Asked} (orderly : Orderly .scheduler (view s)) :
    wp schedule (fun mode t => Moves asked .scheduler (view s) mode (view t)) halts s := by
  have idle : s.held = [] := orderly.held
  rw [schedule, wp_bind]
  apply wp_weaken (wp_findReadyProcess tolerant idle)
  rintro r s₁ ⟨⟨pids, rotated⟩, found⟩
  cases r with
  | none =>
      simp only
      rw [wp_pure, rotated]
      exact Moves.idle pids
  | some pid =>
      obtain ⟨present, ready⟩ := found pid rfl
      have idle₁ : s₁.held = [] := (congrArg View.held rotated).trans idle
      simp only [wp_bind]
      apply wp_weaken (wp_getProcess tolerant pid idle₁)
      rintro r s₂ ⟨rfl, isPid⟩
      refine wp_unwrap tolerant _ _ fun p same => ?_
      obtain rfl := isPid p same
      rw [wp_withLock _ _ _ (by simp [idle₁]), wp_modifyObject, List.erase_cons_head,
        GlobalState.setCurrentProcess, wp_withLock _ _ _ (by simp [idle₁]), wp_def]
      simp only [List.erase_cons_head]
      rw [wp_pure]
      have running := view_modify_state (s := s₂) p
        { s₂.object p with processState := .running } rfl rfl rfl
      have chosen := congrArg (fun v : View => { v with currentProcess := some p }) running
      rw [rotated] at chosen
      have moved : Moves asked .scheduler (view s) .resumed _ :=
        Moves.chosen pids p present ready
      rw [← chosen] at moved
      exact moved

end Scheduler

section Operations

variable {halts : Halt → Prop} (tolerant : Tolerant halts) (plat : Platform) {s : GlobalState}
include tolerant

theorem wp_prepareFirstTimeExecution (idle : s.held = []) :
    wp prepareFirstTimeExecution (fun mode t => mode = .user ∧ t = s) halts s := by
  rw [prepareFirstTimeExecution]
  simp only [wp_bind]
  rw [wp_getCurrentProcess (by simp [idle])]
  refine wp_expect tolerant _ _ _ fun p _ => ?_
  rw [wp_withLock _ _ _ (by simp [idle]), wp_pure, List.erase_cons_head]
  exact wp_returnToUserMode tolerant idle

theorem wp_goOn (context : Context) (idle : s.held = []) :
    wp (goOn plat context) (fun mode t => mode = .user ∧ view t = view s) halts s := by
  have same : ∀ mode (t : GlobalState), mode = Mode.user ∧ t = s → mode = .user ∧ view t = view s := by
    rintro mode t ⟨rfl, rfl⟩
    exact ⟨rfl, rfl⟩
  cases context with
  | unset =>
      rw [goOn, wp_def]
      exact tolerant _ (by simp)
  | prepareFirstTimeExecution =>
      exact wp_weaken (wp_prepareFirstTimeExecution tolerant idle) same
  | yieldInUserTrap trapframe =>
      exact wp_weaken (wp_returnToUserMode tolerant idle) same
  | yieldInHandle trapframe pageTable =>
      rw [goOn, wp_bind]
      refine wp_keeps [.arch, .allocator] (keeps_writeResult tolerant plat (by simp)
        (by simp) _ _) (free_of_idle idle) _ fun _ t written => ?_
      have idleT : t.held = [] := (congrArg View.held written).trans idle
      apply wp_weaken (wp_returnToUserMode tolerant idleT)
      rintro mode u ⟨rfl, rfl⟩
      exact ⟨rfl, written⟩
  | exit =>
      rw [goOn, wp_def]
      exact tolerant _ (by simp)

open View in
theorem wp_switchedTo {asked : Asked} (idle : s.held = []) :
    wp (switchedTo plat) (fun mode t => Moves asked .resumed (view s) mode (view t)) halts s := by
  rw [wp_def]
  cases current : s.currentProcess with
  | none =>
      have halted : switchedTo plat s = .error (.panic .unwrapNone) := by
        simp only [switchedTo, current]
      rw [halted]
      exact tolerant _ (by simp)
  | some p =>
      have opened : switchedTo plat s = goOn plat (s.object p).context s := by
        simp only [switchedTo, current]
      have went := wp_goOn tolerant plat (s.object p).context idle
      rw [wp_def] at went
      rw [opened]
      split
      next mode t returned =>
        rw [returned] at went
        obtain ⟨rfl, same⟩ := went
        rw [same]
        exact Moves.continued
      next e stopped =>
        rw [stopped] at went
        exact went

open View in
theorem wp_supervisorTrap {asked : Asked} (idle : s.held = []) (info : TrapInfo) :
    wp (supervisorTrap info) (fun mode t => Moves asked .scheduler (view s) mode (view t)) halts s := by
  unfold supervisorTrap
  split
  · rw [wp_pure]
    exact Moves.quiet
  · split
    · rw [wp_bind]
      refine wp_keeps [.inputBuffer] (keeps_handleExternalInterrupt tolerant (by simp) info)
        (free_of_idle idle) _ fun _ t same => ?_
      rw [wp_pure, same]
      exact Moves.quiet
    · split
      · rw [wp_def]
        exact tolerant _ (by simp)
      · rw [wp_pure]
        exact Moves.quiet

omit tolerant in
open View in
theorem wp_userStore {asked : Asked} (free : ¬ asked.blocks) (stays : ¬ asked.exits)
    (orderly : Orderly .user (view s)) (va : Nat) (byte : UInt8) :
    wp (userStore va byte) (fun mode t => Moves asked .user (view s) mode (view t)) halts s := by
  obtain ⟨p, -, current, -⟩ := orderly.current (by decide)
  have unchanged : Moves asked .user (view s) .user (view s) :=
    Moves.handled p current (Effect.quiet free stays)
  rw [wp_def, userStore]
  split
  next mode t returned =>
    split at returned
    · split at returned
      all_goals
        cases returned
        exact unchanged
    · cases returned
      exact unchanged
  next e stopped =>
    split at stopped
    · split at stopped
      all_goals cases stopped
    · cases stopped

omit tolerant in
open View in
theorem wp_saveRegisters {asked : Asked} (free : ¬ asked.blocks) (stays : ¬ asked.exits)
    (orderly : Orderly .user (view s)) (registers : List UInt8) (sepc : Nat) :
    wp (saveRegisters registers sepc) (fun mode t => Moves asked .user (view s) mode (view t))
      halts s := by
  obtain ⟨p, -, current, -⟩ := orderly.current (by decide)
  have isCurrent : s.currentProcess = some p := current
  rw [wp_def, saveRegisters]
  simp only [isCurrent]
  exact Moves.handled p current (Effect.quiet free stays)

/-- Every operation of the machine moves the scheduling view along the protocol, and stops, if at
all, for a reason that `halts` admits. -/
theorem wp_respond (answers : Silent plat ∨ halts (.panic (.deadlock 0))) (mode : Mode)
    (orderly : View.Orderly mode (view s)) (event : Event) (operation : Kernel Mode)
    (responds : respond plat mode event = some operation) :
    wp operation (fun mode' t => View.Moves (Machine.asked plat ⟨s, mode⟩ event)
      mode (view s) mode' (view t)) halts s := by
  have idle : s.held = [] := orderly.held
  unfold respond at responds
  split at responds
  next name image =>
    obtain rfl := Option.some.inj responds
    have assigned := wp_assignProcess tolerant plat name image idle
    unfold wpr at assigned
    rw [wp_bind]
    apply wp_weaken assigned
    intro r t done
    have created : view t = (view s).created := by
      cases r with
      | ok pid => exact done.2
      | error e => exact done
    rw [wp_pure, created]
    exact View.Moves.created
  next =>
    obtain rfl := Option.some.inj responds
    exact wp_schedule tolerant orderly
  next info =>
    obtain rfl := Option.some.inj responds
    exact wp_supervisorTrap tolerant idle info
  next =>
    obtain rfl := Option.some.inj responds
    exact wp_switchedTo tolerant plat idle
  next registers sepc =>
    obtain rfl := Option.some.inj responds
    refine wp_saveRegisters ?_ ?_ orderly registers sepc
    · rintro ⟨child, -, _, same, -⟩
      cases same
    · rintro ⟨-, _, same, -⟩
      cases same
  next info =>
    obtain rfl := Option.some.inj responds
    have exactly : (∃ child, Machine.WaitsFor plat ⟨s, .user⟩ (.trap info) child) ↔
        info.isSyscall = true ∧ ∃ child, SpawnsAndWaits plat s child := by
      constructor
      · rintro ⟨child, -, _, same, isCall, spawns⟩
        cases same
        exact ⟨isCall, child, spawns⟩
      · rintro ⟨isCall, child, spawns⟩
        exact ⟨child, rfl, info, rfl, isCall, spawns⟩
    have exits : Machine.Exits plat ⟨s, .user⟩ (.trap info) ↔
        info.isSyscall = true ∧ AsksToExit plat s := by
      constructor
      · rintro ⟨-, _, same, isCall, asks⟩
        cases same
        exact ⟨isCall, asks⟩
      · rintro ⟨isCall, asks⟩
        exact ⟨rfl, info, rfl, isCall, asks⟩
    rw [Machine.asked, exactly, exits]
    exact wp_userTrap tolerant plat answers orderly info
  next va byte =>
    obtain rfl := Option.some.inj responds
    refine wp_userStore ?_ ?_ orderly va byte
    · rintro ⟨child, -, _, same, -⟩
      cases same
    · rintro ⟨-, _, same, -⟩
      cases same
  next => cases responds

end Operations

end Jangri
