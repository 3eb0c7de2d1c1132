import Jangri.Arch.MapRuns
import Jangri.Kernel.Loading

namespace Jangri

open Lib

/-- Every process has its trap frame, and every process that has not terminated its own address
space, in memory that is live. -/
structure Isolated (plat : Platform) (processes : List Nat) (object : Nat → Process)
    (alloc : PageAllocator) (m : Memory) (free : Nat → List Nat) (live : List Block)
    (owner : Nat → Owner) : Prop where
  wf : alloc.WellFormed m free live
  start : alloc.memoryStart = plat.kernelEnd
  frames : ∀ q ∈ processes, Holds live owner (.trapframe q) (object q).trapframe pageSize
  spaces : ∀ q ∈ processes, Alive (object q) → Space m live owner q (object q).pageTable

structure Separated (plat : Platform) (s : GlobalState) : Prop where
  isolated : ∃ free live owner,
    Isolated plat s.processes s.object s.allocator s.memory free live owner
  contexts : ∀ q ∈ s.processes, ContextFits (s.object q).context (s.object q).pageTable

def GlobalState.scene (s : GlobalState) (p : Nat) (foreign : Set Nat) : Scene where
  pid := p
  root := (s.object p).pageTable
  trapframe := (s.object p).trapframe
  survives := True
  processes := s.processes
  object := s.object
  current := s.currentProcess
  foreign := foreign
  before := s.memory

structure Untouched (s t : GlobalState) (q : Nat) : Prop where
  present : q ∈ t.processes
  same : SameProcess (t.object q) (s.object q)
  frame : ∀ x, (s.object q).trapframe ≤ x → x < (s.object q).trapframe + pageSize →
    t.memory x = s.memory x
  leaves : Alive (s.object q) → ∀ va,
    leafAt t.memory (s.object q).pageTable va = leafAt s.memory (s.object q).pageTable va
  users : Alive (s.object q) → ∀ va entry, leafAt s.memory (s.object q).pageTable va = some entry →
    entry.userModeAccessible = true → ∀ x, entry.getPhysicalAddress ≤ x →
      x < entry.getPhysicalAddress + pageSize → t.memory x = s.memory x

def Undisturbed (p : Nat) (s t : GlobalState) : Prop :=
  ∀ q ∈ s.processes, q ≠ p → Untouched s t q

structure GlobalState.Covers (s : GlobalState) (p : Nat) (foreign : Set Nat) : Prop where
  frames : ∀ q ∈ s.processes, q ≠ p →
    Set.Ico (s.object q).trapframe ((s.object q).trapframe + pageSize) ⊆ foreign
  tables : ∀ q ∈ s.processes, q ≠ p → Alive (s.object q) →
    ∀ t, TablePage s.memory (s.object q).pageTable t → Set.Ico t (t + pageSize) ⊆ foreign
  users : ∀ q ∈ s.processes, q ≠ p → Alive (s.object q) →
    ∀ va entry, leafAt s.memory (s.object q).pageTable va = some entry →
      entry.userModeAccessible = true →
      Set.Ico entry.getPhysicalAddress (entry.getPhysicalAddress + pageSize) ⊆ foreign

section Touching

variable {plat : Platform} {s t u : GlobalState} {p q : Nat} {foreign : Set Nat}

theorem Untouched.refl (present : q ∈ s.processes) : Untouched s s q :=
  ⟨present, SameProcess.refl _, fun _ _ _ => rfl, fun _ _ => rfl, fun _ _ _ _ _ _ _ _ => rfl⟩

theorem Untouched.trans (first : Untouched s t q) (second : Untouched t u q) : Untouched s u q where
  present := second.present
  same := second.same.trans first.same
  frame := by
    intro x low high
    rw [second.frame x (by rw [first.same.trapframe]; exact low)
      (by rw [first.same.trapframe]; exact high)]
    exact first.frame x low high
  leaves := by
    intro alive va
    have later := second.leaves (first.same.alive.mpr alive) va
    rw [first.same.pageTable] at later
    rw [later]
    exact first.leaves alive va
  users := by
    intro alive va entry leaf accessible x low high
    have kept := first.leaves alive va
    rw [leaf] at kept
    have later := second.users (first.same.alive.mpr alive) va entry
    rw [first.same.pageTable] at later
    rw [later kept accessible x low high]
    exact first.users alive va entry leaf accessible x low high

theorem Undisturbed.refl (p : Nat) (s : GlobalState) : Undisturbed p s s :=
  fun _ present _ => Untouched.refl present

theorem Undisturbed.trans (first : Undisturbed p s t) (second : Undisturbed p t u) :
    Undisturbed p s u := by
  intro q present other
  have early := first q present other
  exact early.trans (second q early.present other)

theorem GlobalState.Covers.undisturbed (covers : s.Covers p foreign)
    (processes : ∀ q ∈ s.processes, q ∈ t.processes)
    (others : ∀ q, q ≠ p → SameProcess (t.object q) (s.object q))
    (same : ∀ x ∈ foreign, t.memory x = s.memory x) : Undisturbed p s t := by
  intro q present other
  refine ⟨processes q present, others q other, ?_, ?_, ?_⟩
  · exact fun x low high => same x (covers.frames q present other ⟨low, high⟩)
  · intro alive va
    exact leafAt_congr s.memory t.memory _ (fun page isPage x low high =>
      same x (covers.tables q present other alive page isPage ⟨low, high⟩)) va
  · intro alive va entry leaf accessible x low high
    exact same x (covers.users q present other alive va entry leaf accessible ⟨low, high⟩)

end Touching

section Attaching

variable {plat : Platform} {scene : Scene} {U F T G : Set Nat} {s : GlobalState}

theorem separated_stable : Stable (Separated plat) := by
  intro s t same separated
  refine ⟨?_, ?_⟩
  · rw [same.processes, same.object, same.allocator, same.memory]
    exact separated.isolated
  · rw [same.processes, same.object]
    exact separated.contexts

def Isolated.foreign (live : List Block) (owner : Nat → Owner) (p : Nat) : Set Nat :=
  {x | ∃ o, o.process ≠ some p ∧ Held live owner o x}

theorem Isolated.covers {free : Nat → List Nat} {live : List Block} {owner : Nat → Owner}
    (isolated : Isolated plat s.processes s.object s.allocator s.memory free live owner) (p : Nat) :
    s.Covers p (Isolated.foreign live owner p) where
  frames := by
    intro q present other x inside
    refine ⟨.trapframe q, ?_, isolated.frames q present x inside.1 inside.2⟩
    exact fun same => other (Option.some.inj same)
  tables := by
    intro q present other alive t page x inside
    have known := (isolated.spaces q present alive).pages t page
    refine ⟨.table q, ?_, _, known.1, known.2, inside⟩
    exact fun same => other (Option.some.inj same)
  users := by
    intro q present other alive va entry leaf accessible x inside
    refine ⟨.user q, ?_, (isolated.spaces q present alive).users va entry leaf accessible x inside.1
      inside.2⟩
    exact fun same => other (Option.some.inj same)

theorem Isolated.attach {free : Nat → List Nat} {live : List Block} {owner : Nat → Owner}
    (isolated : Isolated plat s.processes s.object s.allocator s.memory free live owner)
    (contexts : ∀ q ∈ s.processes, ContextFits (s.object q).context (s.object q).pageTable) {p : Nat}
    (present : p ∈ s.processes) (alive : Alive (s.object p)) :
    Attached plat (s.scene p (Isolated.foreign live owner p)) ∅ s := by
  have space := isolated.spaces p present alive
  have onstage : Onstage (s.scene p (Isolated.foreign live owner p)) s.processes s.object
      s.currentProcess :=
    { processes := rfl
      present := present
      root := rfl
      trapframe := rfl
      context := contexts p present
      alive := iff_of_true alive trivial
      others := fun _ _ => SameProcess.refl _
      contexts := fun q known _ => contexts q known
      current := rfl }
  refine ⟨{x | Held live owner (.user p) x}, Set.empty_subset _, ⟨space.tables, ?_, onstage⟩, ?_⟩
  · refine ⟨free, live, owner, ?_⟩
    exact {
      wf := isolated.wf
      start := isolated.start
      pages := space.pages
      granted := fun _ held => held
      framed := fun x inside => isolated.frames p present x inside.1 inside.2
      frames := fun q known _ => isolated.frames q known
      spaces := fun q known _ => isolated.spaces q known
      foreign := fun _ far => far
      untouched := fun _ _ => rfl }
  · exact ⟨space.rights, fun va entry leaf accessible => space.users va entry leaf accessible,
      space.others⟩

theorem Separated.attach (separated : Separated plat s) {p : Nat} (present : p ∈ s.processes)
    (alive : Alive (s.object p)) :
    ∃ foreign, s.Covers p foreign ∧ Attached plat (s.scene p foreign) ∅ s := by
  rcases separated.isolated with ⟨free, live, owner, isolated⟩
  exact ⟨_, isolated.covers p, isolated.attach separated.contexts present alive⟩

/-- What the kernel accounts for while it works for one process makes up all address spaces, as soon
as that process has its own. -/
theorem isolated_of_ledger {free : Nat → List Nat} {live : List Block} {owner : Nat → Owner}
    (onstage : Onstage scene s.processes s.object s.currentProcess)
    (ledger : Ledger plat scene U scene.frame T s.allocator s.memory free live owner)
    (own : Alive (s.object scene.pid) → Space s.memory live owner scene.pid scene.root) :
    Isolated plat s.processes s.object s.allocator s.memory free live owner := by
  refine ⟨ledger.wf, ledger.start, ?_, ?_⟩
  · intro q known
    by_cases here : q = scene.pid
    · rw [here, onstage.trapframe]
      intro x low high
      exact ledger.framed x ⟨low, high⟩
    · rw [(onstage.others q here).trapframe]
      rw [onstage.processes] at known
      exact ledger.frames q known here
  · intro q known alive
    by_cases here : q = scene.pid
    · rw [here] at alive ⊢
      rw [onstage.root]
      exact own alive
    · rw [(onstage.others q here).pageTable]
      rw [onstage.processes] at known
      exact ledger.spaces q known here ((onstage.others q here).alive.mp alive)

theorem separated_of_world (world : World plat scene U T s)
    (own : ∀ free live owner, Ledger plat scene U scene.frame T s.allocator s.memory free live owner →
      Alive (s.object scene.pid) → Space s.memory live owner scene.pid scene.root) :
    Separated plat s := by
  rcases world with ⟨⟨free, live, owner, ledger⟩, onstage⟩
  refine ⟨⟨free, live, owner, isolated_of_ledger onstage ledger (own free live owner ledger)⟩, ?_⟩
  intro q known
  by_cases here : q = scene.pid
  · rw [here, onstage.root]
    exact onstage.context
  · rw [(onstage.others q here).pageTable, (onstage.others q here).context]
    rw [onstage.processes] at known
    exact onstage.contexts q known here

theorem Fitted.space {alloc : PageAllocator} {free : Nat → List Nat} {live : List Block}
    {owner : Nat → Owner} (fitted : Fitted scene.root U s.memory) (tables : Tables s.memory scene.root)
    (ledger : Ledger plat scene U F {x | TablePage s.memory scene.root x} alloc s.memory free live owner) :
    Space s.memory live owner scene.pid scene.root where
  tables := tables
  pages := ledger.pages
  rights := fitted.rights
  users := fun va entry leaf accessible x low high =>
    ledger.granted x (fitted.users va entry leaf accessible x low high)
  others := fitted.others

theorem Attached.detach (attached : Attached plat scene G s) : Separated plat s := by
  rcases attached with ⟨U, -, rooted, fitted⟩
  apply separated_of_world rooted.2
  intro free live owner ledger _
  exact fitted.space rooted.1 ledger

theorem World.untouched (world : World plat scene U T s) :
    ∀ x ∈ scene.foreign, s.memory x = scene.before x := by
  rcases world.1 with ⟨free, live, owner, ledger⟩
  exact ledger.untouched

theorem World.undisturbed {origin : GlobalState} (world : World plat scene U T s)
    (covers : origin.Covers scene.pid scene.foreign) (before : scene.before = origin.memory)
    (object : scene.object = origin.object)
    (processes : ∀ q ∈ origin.processes, q ∈ scene.processes) :
    Undisturbed scene.pid origin s := by
  apply covers.undisturbed
  · intro q present
    rw [world.2.processes]
    exact processes q present
  · intro q other
    rw [← object]
    exact world.2.others q other
  · intro x far
    rw [← before]
    exact world.untouched x far

theorem Attached.undisturbed {origin : GlobalState} (attached : Attached plat scene G s)
    (covers : origin.Covers scene.pid scene.foreign) (before : scene.before = origin.memory)
    (object : scene.object = origin.object)
    (processes : ∀ q ∈ origin.processes, q ∈ scene.processes) :
    Undisturbed scene.pid origin s := by
  rcases attached with ⟨U, -, rooted, -⟩
  exact rooted.2.undisturbed covers before object processes

end Attaching

/-- `assign_process` has added a process, and let all others be. -/
structure Made (plat : Platform) (s t : GlobalState) : Prop where
  separated : Separated plat t
  processes : t.processes = (s.pid + 1) :: s.processes
  currentProcess : t.currentProcess = s.currentProcess
  others : ∀ q, q ≠ s.pid + 1 → SameProcess (t.object q) (s.object q)
  undisturbed : Undisturbed (s.pid + 1) s t

section Creation

variable {plat : Platform} {s : GlobalState}

theorem wp_addProcess_any (id : Nat) (post : Unit → GlobalState → Prop)
    (done : ∀ pids held, post () { s with processes := id :: s.processes, pids, held }) :
    wp (GlobalState.addProcess id) post Any s := by
  by_cases taken : .numReaders ∈ s.held
  · rw [GlobalState.addProcess, lockExclusive]
    simp only [wp_bind]
    exact wp_lock_of_held _ taken _ trivial
  · rw [GlobalState.addProcess, lockExclusive]
    simp only [wp_bind]
    rw [wp_lock_of_free _ _ taken, wp_def]
    by_cases readers : s.numReaders = 0
    · rw [if_pos readers]
      change wp (insertProcess id) _ _ _
      rw [wp_insertProcess]
      apply wp_withLock_any
      rw [wp_pushPid, wp_unlock]
      exact done _ _
    · rw [if_neg readers]
      trivial

def GlobalState.nursery (s : GlobalState) (root trapframe : Nat) (foreign : Set Nat) : Scene where
  pid := s.pid + 1
  root := root
  trapframe := trapframe
  survives := True
  processes := (s.pid + 1) :: s.processes
  object := s.object
  current := s.currentProcess
  foreign := foreign
  before := s.memory

theorem attached_nursery (placed : Placed plat) (separated : Separated plat s)
    {free free₁ free₂ : Nat → List Nat} {live : List Block}
    {owner : Nat → Owner} {alloc₁ alloc₂ : PageAllocator} {m₁ m₂ : Memory} {root trapframe : Nat}
    {t : GlobalState}
    (isolated : Isolated plat s.processes s.object s.allocator s.memory free live owner)
    (first : PageAllocator.Allocated s.allocator alloc₁ s.memory m₁ free free₁ live pageSize root)
    (second : PageAllocator.Allocated alloc₁ alloc₂ m₁ m₂ free₁ free₂
      (⟨root, pageSize⟩ :: live) pageSize trapframe) (name : List UInt8)
    (allocator : t.allocator = alloc₂) (memory : t.memory = m₂)
    (processes : t.processes = (s.pid + 1) :: s.processes)
    (current : t.currentProcess = s.currentProcess)
    (object : t.object = Function.update s.object (s.pid + 1)
      (prepared name root trapframe (Process.default (s.pid + 1)))) :
    Attached plat (s.nursery root trapframe (Isolated.foreign live owner (s.pid + 1))) ∅ t := by
  subst allocator memory
  have old : ∀ q ∈ (s.pid + 1) :: s.processes, q ≠ s.pid + 1 → q ∈ s.processes := by
    intro q known other
    rcases List.mem_cons.mp known with same | member
    · exact absurd same other
    · exact member
  have ledger : Ledger plat (s.nursery root trapframe (Isolated.foreign live owner (s.pid + 1)))
      ∅ ∅ ∅ s.allocator s.memory free live owner :=
    { wf := isolated.wf
      start := isolated.start
      pages := fun _ member => member.elim
      granted := fun _ member => member.elim
      framed := fun _ member => member.elim
      frames := fun q known other => isolated.frames q (old q known other)
      spaces := fun q known other => isolated.spaces q (old q known other)
      foreign := fun _ far => far
      untouched := fun _ _ => rfl }
  have ledger₁ := ledger.allocatePage first
  have ledger₂ := ledger₁.allocateFrame second
  rw [Set.empty_union, insert_empty_eq] at ledger₂
  have page := ledger₁.pages root (Set.mem_insert _ _)
  have zero : ∀ x, root ≤ x → x < root + pageSize → t.memory x = 0 := by
    intro x low high
    rw [second.frame x (not_unused_of_held ledger₁.wf ⟨_, page.1, page.2, low, high⟩)]
    exact first.zeroed x low high
  have aligned : root % pageSize = 0 := by
    have block := first.wellFormed.aligned ⟨root, pageSize⟩ (by simp)
    rw [first.memoryStart.trans isolated.start, placed.aligned] at block
    exact block
  have bounded : root < usizeBound := by
    have block := first.wellFormed.live_inside ⟨root, pageSize⟩ List.mem_cons_self
    have high := first.wellFormed.bounded
    simp only [pageSize] at block
    omega
  have onstage : Onstage (s.nursery root trapframe (Isolated.foreign live owner (s.pid + 1)))
      t.processes t.object t.currentProcess := by
    have own : t.object (s.pid + 1) =
        prepared name root trapframe (Process.default (s.pid + 1)) := by
      rw [object, Function.update_self]
    have others : ∀ q, q ≠ s.pid + 1 → t.object q = s.object q := by
      intro q other
      rw [object, Function.update_of_ne other]
    exact {
      processes := processes
      present := List.mem_cons_self
      root := congrArg Process.pageTable own
      trapframe := congrArg Process.trapframe own
      context := by
        change ContextFits (t.object (s.pid + 1)).context root
        rw [own]
        intro tf pt impossible
        cases impossible
      alive := by
        apply iff_of_true _ trivial
        intro r
        change (t.object (s.pid + 1)).processState ≠ _
        rw [own]
        intro impossible
        cases impossible
      others := by
        intro q other
        rw [others q other]
        exact SameProcess.refl _
      contexts := fun q known other => separated.contexts q (old q known other)
      current := current }
  refine ⟨∅, subset_refl _, ?_, ?_⟩
  · exact rooted_of_zero aligned bounded t zero ⟨⟨free₂, _, _, ledger₂⟩, onstage⟩
  · have empty : ∀ va entry, leafAt t.memory root va ≠ some entry := by
      intro va entry leaf
      rw [leafAt_of_zero t.memory root zero va] at leaf
      cases leaf
    exact ⟨fun va entry leaf => absurd leaf (empty va entry),
      fun va entry leaf => absurd leaf (empty va entry),
      fun va entry leaf => absurd leaf (empty va entry)⟩

theorem made_of_attached {root trapframe : Nat} {foreign : Set Nat} {t : GlobalState}
    (covers : s.Covers (s.pid + 1) foreign)
    (attached : Attached plat (s.nursery root trapframe foreign) ∅ t) : Made plat s t where
  separated := attached.detach
  processes := attached.onstage.processes
  currentProcess := attached.onstage.current
  others := attached.onstage.others
  undisturbed := attached.undisturbed covers rfl rfl fun _ present => List.mem_cons_of_mem _ present

/-- Whether `assign_process` succeeds or not, it has worked for the new process only, whoever is taken
to hold the rest of memory. -/
theorem wpr_assignProcess_attached (placed : Placed plat) (separated : Separated plat s)
    {free : Nat → List Nat} {live : List Block} {owner : Nat → Owner}
    (isolated : Isolated plat s.processes s.object s.allocator s.memory free live owner)
    (name image : List UInt8) (good : GoodImage plat image) :
    wpr (assignProcess plat name image)
      (fun child t => child = s.pid + 1 ∧ ∃ root trapframe, Attached plat
        (s.nursery root trapframe (Isolated.foreign live owner (s.pid + 1))) ∅ t)
      (fun _ t => ∃ root trapframe, Attached plat
        (s.nursery root trapframe (Isolated.foreign live owner (s.pid + 1))) ∅ t) Any s := by
  rw [assignProcess]
  simp only [wpr_bind, wpr_lift]
  apply wp_unwrapResult_any
  apply wpr_weaken (wpr_allocateBlock isolated.wf pageSize)
  case fails => exact fun _ _ _ => trivial
  intro root s₁ done₁
  rcases done₁ with ⟨⟨free₁, first⟩, rest₁⟩
  apply wp_unwrapResult_any
  apply wpr_weaken (wpr_allocateBlock first.wellFormed pageSize)
  case fails => exact fun _ _ _ => trivial
  intro trapframe s₂ done₂
  rcases done₂ with ⟨⟨free₂, second⟩, rest₂⟩
  rw [rest₁] at rest₂
  have pid : s₂.pid = s.pid := by rw [rest₂]
  have object : s₂.object = s.object := by rw [rest₂]
  have processes : s₂.processes = s.processes := by rw [rest₂]
  have current : s₂.currentProcess = s.currentProcess := by rw [rest₂]
  apply wp_nextPid fun _ _ => trivial
  rw [wp_modifyObject, pid]
  apply wp_addProcess_any
  intro pids held
  apply wpr_guarded_any
  rw [buildProcess, wpr_bind, wpr_lift, wp_modifyObject]
  have loads : Preserves (Attached plat
      (s.nursery root trapframe (Isolated.foreign live owner (s.pid + 1))) ∅)
      (loadImage plat (s.pid + 1) root trapframe image).run := preserves_loadImage placed image good
  apply wpr_mono (loads.to_wpr ?attached)
  case attached =>
    apply attached_nursery placed separated isolated first second name
    · rfl
    · rfl
    · rw [processes]
    · exact current
    · rw [object]
      simp only [Function.update_self, Function.update_idem]
  · intro _ t attached
    rw [wpr_pure]
    exact ⟨rfl, root, trapframe, attached_stable t _ ⟨rfl, rfl, rfl, rfl, rfl⟩ attached⟩
  · intro _ t attached
    exact ⟨root, trapframe, attached_stable t _ ⟨rfl, rfl, rfl, rfl, rfl⟩ attached⟩
  · exact fun _ h => h

theorem wpr_assignProcess (placed : Placed plat) (separated : Separated plat s)
    (name image : List UInt8) (good : GoodImage plat image) :
    wpr (assignProcess plat name image) (fun child t => child = s.pid + 1 ∧ Made plat s t)
      (fun _ t => Made plat s t) Any s := by
  rcases separated.isolated with ⟨free, live, owner, isolated⟩
  have covers := isolated.covers (s.pid + 1)
  apply wpr_weaken (wpr_assignProcess_attached placed separated isolated name image good)
  · rintro _ t ⟨rfl, root, trapframe, attached⟩
    exact ⟨rfl, made_of_attached covers attached⟩
  · rintro _ t ⟨root, trapframe, attached⟩
    exact made_of_attached covers attached

end Creation

end Jangri
