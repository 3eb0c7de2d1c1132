import Jangri.Arch.Unmapping
import Jangri.Kernel.Ownership
import Jangri.Kernel.Refinement

/-! The kernel at work on one address space.

`Attached plat scene G s` holds while the kernel works for the process of `scene`: the tree at its
root is an address space of that process, `G` is user memory that has been set aside for it, and
everybody else's memory is accounted for. Stopping is always allowed here; what matters is the state
a call returns with. -/

namespace Jangri

open Lib

abbrev Any : Halt → Prop := fun _ => True

structure SameSpace (p q : Process) : Prop where
  pageTable : p.pageTable = q.pageTable
  trapframe : p.trapframe = q.trapframe
  context : p.context = q.context
  alive : Alive p ↔ Alive q

theorem SameSpace.refl (p : Process) : SameSpace p p := ⟨rfl, rfl, rfl, Iff.rfl⟩

theorem SameSpace.trans {p q r : Process} (first : SameSpace p q) (second : SameSpace q r) :
    SameSpace p r :=
  ⟨first.pageTable.trans second.pageTable, first.trapframe.trans second.trapframe,
    first.context.trans second.context, first.alive.trans second.alive⟩

structure SameProcess (p q : Process) : Prop extends SameSpace p q where
  heapStart : p.heapStart = q.heapStart
  heapEnd : p.heapEnd = q.heapEnd
  currentlyUnmappedStart : p.currentlyUnmappedStart = q.currentlyUnmappedStart

theorem SameProcess.refl (p : Process) : SameProcess p p := ⟨SameSpace.refl p, rfl, rfl, rfl⟩

theorem SameProcess.trans {p q r : Process} (first : SameProcess p q) (second : SameProcess q r) :
    SameProcess p r :=
  ⟨first.toSameSpace.trans second.toSameSpace, first.heapStart.trans second.heapStart,
    first.heapEnd.trans second.heapEnd,
    first.currentlyUnmappedStart.trans second.currentlyUnmappedStart⟩

def ContextFits (context : Context) (root : Nat) : Prop :=
  ∀ tf pt, context = .yieldInHandle tf pt → pt = root

structure Onstage (scene : Scene) (processes : List Nat) (object : Nat → Process)
    (current : Option Nat) : Prop where
  processes : processes = scene.processes
  present : scene.pid ∈ scene.processes
  root : (object scene.pid).pageTable = scene.root
  trapframe : (object scene.pid).trapframe = scene.trapframe
  context : ContextFits (object scene.pid).context scene.root
  alive : Alive (object scene.pid) ↔ scene.survives
  others : ∀ q, q ≠ scene.pid → SameProcess (object q) (scene.object q)
  contexts : ∀ q ∈ scene.processes, q ≠ scene.pid →
    ContextFits (scene.object q).context (scene.object q).pageTable
  current : current = scene.current

def Scene.frame (scene : Scene) : Set Nat := Set.Ico scene.trapframe (scene.trapframe + pageSize)

def World (plat : Platform) (scene : Scene) (U T : Set Nat) (s : GlobalState) : Prop :=
  (∃ free live owner, Ledger plat scene U scene.frame T s.allocator s.memory free live owner) ∧
    Onstage scene s.processes s.object s.currentProcess

structure Steady (K : Set Nat) (s t : GlobalState) : Prop where
  object : t.object = s.object
  memory : ∀ x ∈ K, t.memory x = s.memory x

theorem Steady.refl (K : Set Nat) (s : GlobalState) : Steady K s s := ⟨rfl, fun _ _ => rfl⟩

theorem Steady.trans {K : Set Nat} {s t u : GlobalState} (first : Steady K s t)
    (second : Steady K t u) : Steady K s u where
  object := second.object.trans first.object
  memory := fun x member => (second.memory x member).trans (first.memory x member)

theorem Steady.weaken {K K' : Set Nat} {s t : GlobalState} (steady : Steady K s t) (less : K' ⊆ K) :
    Steady K' s t :=
  ⟨steady.object, fun x member => steady.memory x (less member)⟩

/-- Where the kernel image lies: below the memory that the allocator manages. -/
structure Placed (plat : Platform) : Prop where
  aligned : plat.kernelEnd % pageSize = 0
  trampoline : plat.trampolineCodeAddress + pageSize ≤ plat.kernelEnd

section Locks

variable {α : Type} {s : GlobalState}

theorem wp_withLock_any (mutex : Lock) (x : Kernel α) (post : α → GlobalState → Prop)
    (body : wp x (fun a t => post a { t with held := t.held.erase mutex }) Any
      { s with held := mutex :: s.held }) : wp (withLock mutex x) post Any s := by
  by_cases taken : mutex ∈ s.held
  · rw [withLock, wp_bind]
    exact wp_lock_of_held mutex taken _ trivial
  · rw [wp_withLock mutex x post taken]
    exact body

theorem wpr_guarded_any (mutex : Lock) (x : KernelResult α) (ok : α → GlobalState → Prop)
    (err : Error → GlobalState → Prop)
    (body : wpr x (fun a t => ok a { t with held := t.held.erase mutex })
      (fun e t => err e { t with held := t.held.erase mutex }) Any
      { s with held := mutex :: s.held }) : wpr (guarded mutex x) ok err Any s := by
  unfold wpr at *
  rw [guarded, ExceptT.run_mk]
  apply wp_withLock_any
  apply wp_weaken body
  intro r t done
  cases r with
  | ok a => exact done
  | error e => exact done

theorem wp_liftRust_any (x : Rust α) (post : α → GlobalState → Prop)
    (returns : ∀ a, x = .ok a → post a s) : wp (liftRust x) post Any s := by
  rw [wp_liftRust]
  cases x with
  | ok a => exact returns a rfl
  | error e => trivial

theorem wp_unwrapResult {halts : Halt → Prop} (x : KernelResult α) (post : α → GlobalState → Prop)
    (body : wpr x post (fun _ _ => halts (.panic .unwrapErr)) halts s) :
    wp (unwrapResult x) post halts s := by
  unfold wpr at body
  rw [unwrapResult, wp_bind]
  apply wp_weaken body
  intro r t done
  cases r with
  | ok a =>
      simp only [wp_pure]
      exact done
  | error e =>
      rw [wp_def]
      exact done

theorem wp_expectResult {halts : Halt → Prop} (text : String) (x : KernelResult α)
    (post : α → GlobalState → Prop)
    (body : wpr x post (fun _ _ => halts (.panic (.message text))) halts s) :
    wp (expectResult text x) post halts s := by
  unfold wpr at body
  rw [expectResult, wp_bind]
  apply wp_weaken body
  intro r t done
  cases r with
  | ok a =>
      simp only [wp_pure]
      exact done
  | error e =>
      rw [wp_def]
      exact done

theorem wp_unwrapResult_any (x : KernelResult α) (post : α → GlobalState → Prop)
    (body : wpr x post (fun _ _ => True) Any s) : wp (unwrapResult x) post Any s :=
  wp_unwrapResult x post body

end Locks

section Allocation

variable {plat : Platform} {scene : Scene} {U T : Set Nat} {s : GlobalState}

theorem wpr_allocatorAllocate {free : Nat → List Nat} {live : List Block}
    (wf : s.allocator.WellFormed s.memory free live) (size : Nat) :
    wpr (allocatorAllocate size) (fun a t => (∃ free', PageAllocator.Allocated s.allocator
        t.allocator s.memory t.memory free free' live size a) ∧
        t = { s with allocator := t.allocator, memory := t.memory, nodeId := t.nodeId })
      (fun _ t => t = s) Any s := by
  unfold wpr
  rw [wp_def, allocatorAllocate, ExceptT.run_mk]
  cases called : s.allocator.allocate ⟨s.memory, s.nodeId⟩ size with
  | error e => trivial
  | ok r =>
      rcases r with ⟨result, alloc', store'⟩
      rcases PageAllocator.allocate_spec wf s.nodeId size result alloc' store' called with
        ⟨rfl, rfl, rfl⟩ | ⟨p, free', rfl, allocated, -⟩
      · rfl
      · exact ⟨⟨free', allocated⟩, rfl⟩

theorem wp_allocatorDeallocate {halts : Halt → Prop} {free : Nat → List Nat} {live : List Block}
    (wf : s.allocator.WellFormed s.memory free live) (b : Block) (present : b ∈ live)
    (small : b.size ≤ maxAlloc) :
    wp (allocatorDeallocate b.addr b.size) (fun _ t => (∃ free', PageAllocator.Deallocated
        s.allocator t.allocator s.memory t.memory free free' live b) ∧
        t = { s with allocator := t.allocator, memory := t.memory, nodeId := t.nodeId }) halts s := by
  rcases PageAllocator.deallocate_spec wf s.nodeId b present small with
    ⟨alloc', store', called, deallocated, -⟩
  rw [wp_def, allocatorDeallocate, called]
  exact ⟨⟨_, deallocated⟩, rfl⟩

/-- All memory that the kernel deals with is accounted for. -/
def Accounted (plat : Platform) (scene : Scene) (U F T : Set Nat) (s : GlobalState) : Prop :=
  ∃ free live owner, Ledger plat scene U F T s.allocator s.memory free live owner

/-- A page table page from the kernel's allocator is zeroed, aligned and nobody else's. -/
theorem accounted_allocated {F : Set Nat} (placed : Placed plat)
    (accounted : Accounted plat scene U F T s) :
    wpr ((arch plat).allocate pageSize)
      (fun v s' => v % pageSize = 0 ∧ v < usizeBound ∧ v ∉ T ∧
        (∀ x, v ≤ x → x < v + pageSize → memory s' x = 0) ∧ SameOn T s s' ∧
        Accounted plat scene U F (insert v T) s' ∧ (∀ x ∈ U ∪ F, s'.memory x = s.memory x) ∧
        s' = { s with allocator := s'.allocator, memory := s'.memory, nodeId := s'.nodeId })
      (fun _ s' => s' = s) Any s := by
  rcases accounted with ⟨free, live, owner, ledger⟩
  apply wpr_guarded_any
  rw [wpr_bind, wpr_lift]
  apply wp_liftRust_any
  intro _ _
  refine wpr_mono (wpr_allocatorAllocate (s := { s with held := .allocator :: s.held }) ledger.wf
    pageSize) ?_ ?_ fun _ h => h
  · intro v t done
    rcases done with ⟨⟨free', allocated⟩, rest⟩
    have block : (⟨v, pageSize⟩ : Block) ∈ ⟨v, pageSize⟩ :: live := List.mem_cons_self
    have inside := allocated.wellFormed.live_inside _ block
    have bounded := allocated.wellFormed.bounded
    have aligned := allocated.wellFormed.aligned ⟨v, pageSize⟩ (by simp)
    have start := allocated.memoryStart.trans ledger.start
    have fresh : v ∉ T := by
      intro member
      exact Ledger.fresh_address allocated _ (ledger.pages v member).1 rfl
    refine ⟨?_, ?_, fresh, allocated.zeroed, ?_, ⟨free', _, _, ledger.allocatePage allocated⟩, ?_, ?_⟩
    · rw [start, placed.aligned] at aligned
      exact aligned
    · simp only [pageSize] at inside
      omega
    · intro x member y low high
      have page := ledger.pages x member
      exact allocated.frame y (not_unused_of_held ledger.wf ⟨_, page.1, page.2, low, high⟩)
    · intro x member
      exact allocated.frame x (ledger.occupied x member)
    · rw [rest, List.erase_cons_head]
  · intro e t same
    rw [same, List.erase_cons_head]

theorem world_allocated (placed : Placed plat) (world : World plat scene U T s) :
    wpr ((arch plat).allocate pageSize)
      (fun v s' => v % pageSize = 0 ∧ v < usizeBound ∧ v ∉ T ∧
        (∀ x, v ≤ x → x < v + pageSize → memory s' x = 0) ∧ SameOn T s s' ∧
        World plat scene U (insert v T) s' ∧ Steady (U ∪ scene.frame) s s')
      (fun _ s' => SameOn T s s' ∧ World plat scene U T s' ∧ Steady (U ∪ scene.frame) s s')
      Any s := by
  apply wpr_weaken (accounted_allocated placed world.1)
  · rintro v s' ⟨aligned, bounded, fresh, zero, same, accounted, frame, rest⟩
    have onstage : Onstage scene s'.processes s'.object s'.currentProcess := by
      rw [rest]
      exact world.2
    have object : s'.object = s.object := by rw [rest]
    exact ⟨aligned, bounded, fresh, zero, same, ⟨accounted, onstage⟩, object, frame⟩
  · intro e s' same
    rw [same]
    exact ⟨fun _ _ _ _ _ => rfl, world, Steady.refl _ _⟩

theorem storeEntry_inside {m : Memory} {t i x : Nat} {entry : PageTableEntry} (low : i < 512)
    (different : storeEntry m (entryAddress t i) entry x ≠ m x) : (⟨t, pageSize⟩ : Block).Contains x := by
  by_contra outside
  apply different
  apply if_neg
  intro inside
  apply outside
  simp only [entryAddress] at inside
  simp only [Block.Contains, pageSize]
  omega

theorem accounted_written {F : Set Nat} (accounted : Accounted plat scene U F T s) {t : Nat}
    (member : t ∈ T) (i : Nat) (low : i < 512) (entry : PageTableEntry) :
    Accounted plat scene U F T
        (setMemory s (storeEntry (memory s) (entryAddress t i) entry)) ∧
      ∀ x ∈ U ∪ F, storeEntry (memory s) (entryAddress t i) entry x = memory s x := by
  rcases accounted with ⟨free, live, owner, ledger⟩
  have page := ledger.pages t member
  have inPage : ∀ x, storeEntry (memory s) (entryAddress t i) entry x ≠ memory s x →
      Held live owner (.table scene.pid) x := by
    intro x different
    exact ⟨_, page.1, page.2, storeEntry_inside low different⟩
  refine ⟨⟨free, live, owner, ledger.write ?_⟩, ?_⟩
  · intro x different
    exact ⟨_, inPage x different, rfl⟩
  · intro x owned
    by_contra different
    rcases owned with user | frame
    · have same := held_unique ledger.wf (inPage x different) (ledger.granted x user)
      cases same
    · have same := held_unique ledger.wf (inPage x different) (ledger.framed x frame)
      cases same

theorem world_written (world : World plat scene U T s) {t : Nat} (member : t ∈ T) (i : Nat)
    (low : i < 512) (entry : PageTableEntry) :
    World plat scene U T (setMemory s (storeEntry (memory s) (entryAddress t i) entry)) ∧
      Steady (U ∪ scene.frame) s (setMemory s (storeEntry (memory s) (entryAddress t i) entry)) := by
  rcases accounted_written world.1 member i low entry with ⟨accounted, frame⟩
  exact ⟨⟨accounted, world.2⟩, rfl, frame⟩

theorem world_freed {halts : Halt → Prop} (world : World plat scene U T s) {t : Nat} (member : t ∈ T) :
    wp (allocatorDeallocate t pageSize) (fun _ s' => World plat scene U (T \ {t}) s' ∧
      SameOn (T \ {t}) s s' ∧ s'.held = s.held) halts s := by
  rcases world with ⟨⟨free, live, owner, ledger⟩, onstage⟩
  have page := ledger.pages t member
  apply wp_weaken (wp_allocatorDeallocate ledger.wf ⟨t, pageSize⟩ page.1
    (show pageSize ≤ maxAlloc by decide))
  intro _ t' done
  rcases done with ⟨⟨free', deallocated⟩, rest⟩
  refine ⟨⟨⟨free', _, owner, ledger.deallocate member deallocated⟩, ?_⟩, ?_, ?_⟩
  · rw [rest]
    exact onstage
  · intro x remains y low high
    have other := ledger.pages x remains.1
    apply deallocated.frame y (not_unused_of_held ledger.wf ⟨_, other.1, other.2, low, high⟩)
    intro inside
    have same := ledger.wf.live_eq_of_contains _ _ other.1 page.1 y ⟨low, high⟩ inside
    exact remains.2 (congrArg Block.addr same)
  · rw [rest]

/-- Adding pages to the tree does not touch the user memory and the trap frame of the process. -/
theorem pageSource (placed : Placed plat) (scene : Scene) (U : Set Nat) (origin : GlobalState) :
    PageSource (arch plat).allocate
      (fun T s => World plat scene U T s ∧ Steady (U ∪ scene.frame) origin s) Any where
  allocated := by
    intro T s known
    apply wpr_weaken (world_allocated placed known.1)
    · intro v s' done
      rcases done with ⟨aligned, bounded, fresh, zero, same, world, steady⟩
      exact ⟨aligned, bounded, fresh, zero, same, world, known.2.trans steady⟩
    · intro e s' done
      exact ⟨done.1, done.2.1, known.2.trans done.2.2⟩
  written := by
    intro T s t i entry known member low
    have done := world_written known.1 member i low entry
    exact ⟨done.1, known.2.trans done.2⟩
  overflow := trivial

theorem accountedSource (placed : Placed plat) (scene : Scene) (U F : Set Nat)
    (origin : GlobalState) :
    PageSource (arch plat).allocate
      (fun T s => Accounted plat scene U F T s ∧ Steady (U ∪ F) origin s) Any where
  allocated := by
    intro T s known
    apply wpr_weaken (accounted_allocated placed known.1)
    · rintro v s' ⟨aligned, bounded, fresh, zero, same, accounted, frame, rest⟩
      have object : s'.object = s.object := by rw [rest]
      exact ⟨aligned, bounded, fresh, zero, same, accounted, known.2.trans ⟨object, frame⟩⟩
    · intro e s' same
      rw [same]
      exact ⟨fun _ _ _ _ _ => rfl, known⟩
  written := by
    intro T s t i entry known member low
    have done := accounted_written known.1 member i low entry
    exact ⟨done.1, known.2.trans ⟨rfl, done.2⟩⟩
  overflow := trivial

theorem pageSink (plat : Platform) (scene : Scene) (U : Set Nat) :
    PageSink (arch plat).deallocate (World plat scene U) Any where
  freed := by
    intro T s t world member
    apply wp_withLock_any
    have locked : World plat scene U T { s with held := .allocator :: s.held } := world
    apply wp_weaken (world_freed locked member)
    exact fun _ t' done => ⟨done.1, done.2.1⟩
  written := fun _ _ _ i entry world member low => (world_written world member i low entry).1

theorem nullSink (plat : Platform) (inv : Set Nat → GlobalState → Prop) :
    NullSink (arch plat).deallocate inv where
  freed := by
    intro T s _
    apply wp_withLock_any
    rw [wp_def, allocatorDeallocate]
    split
    next returned =>
      split at returned
      next => cases returned
      next ran => exact absurd ran (PageAllocator.deallocate_null _ _ _ _)
    next => trivial

/-- While the allocator is not locked, giving back a page never stops. -/
theorem pageSink_unlocked (plat : Platform) (scene : Scene) (U : Set Nat) {halts : Halt → Prop}
    {held : List Lock} (unlocked : .allocator ∉ held) :
    PageSink (arch plat).deallocate (fun T s => World plat scene U T s ∧ s.held = held) halts where
  freed := by
    intro T s t known member
    rcases known with ⟨world, rfl⟩
    change wp (withLock _ _) _ _ _
    rw [wp_withLock _ _ _ unlocked]
    have locked : World plat scene U T { s with held := .allocator :: s.held } := world
    apply wp_weaken (world_freed locked member)
    intro _ t' done
    refine ⟨⟨done.1, ?_⟩, done.2.1⟩
    simp only [done.2.2, List.erase_cons_head]
  written := fun _ _ _ i entry known member low =>
    ⟨(world_written known.1 member i low entry).1, known.2⟩

end Allocation

/-- The mappings below a root: each has permissions, user mode reaches only addresses in `U`, and
what it does not reach is the trampoline or the trap frame. -/
structure Fitted (root : Nat) (U : Set Nat) (m : Memory) : Prop where
  rights : ∀ va entry, leafAt m root va = some entry → entry.HasRights
  users : ∀ va entry, leafAt m root va = some entry → entry.userModeAccessible = true →
    ∀ x, entry.getPhysicalAddress ≤ x → x < entry.getPhysicalAddress + pageSize → x ∈ U
  others : ∀ va entry, leafAt m root va = some entry → entry.userModeAccessible = false →
    vpn va = vpn trampoline ∨ vpn va = vpn trapframeVa

def Attached (plat : Platform) (scene : Scene) (G : Set Nat) (s : GlobalState) : Prop :=
  ∃ U, G ⊆ U ∧ Rooted (World plat scene U) scene.root s ∧ Fitted scene.root U s.memory

namespace Attached

variable {plat : Platform} {scene : Scene} {G G' : Set Nat} {s : GlobalState}

theorem weaken (attached : Attached plat scene G s) (less : G' ⊆ G) :
    Attached plat scene G' s := by
  rcases attached with ⟨U, inside, rooted, fitted⟩
  exact ⟨U, less.trans inside, rooted, fitted⟩

theorem onstage (attached : Attached plat scene G s) :
    Onstage scene s.processes s.object s.currentProcess := by
  rcases attached with ⟨U, -, rooted, -⟩
  exact rooted.2.2

theorem include_frame (attached : Attached plat scene G s) {va : Nat} {entry : PageTableEntry}
    (leaf : leafAt s.memory scene.root va = some entry) (accessible : entry.userModeAccessible = true) :
    Attached plat scene
      (G ∪ Set.Ico entry.getPhysicalAddress (entry.getPhysicalAddress + pageSize)) s := by
  rcases attached with ⟨U, inside, rooted, fitted⟩
  refine ⟨U, ?_, rooted, fitted⟩
  intro x member
  rcases member with old | new
  · exact inside old
  · exact fitted.users va entry leaf accessible x new.1 new.2

theorem of_same {U U' : Set Nat} {s' : GlobalState} (more : G ⊆ U') (grows : U ⊆ U')
    (rooted : Rooted (World plat scene U) scene.root s) (fitted : Fitted scene.root U s.memory)
    (same : SameOn {x | TablePage s.memory scene.root x} s s')
    (world : World plat scene U' {x | TablePage s.memory scene.root x} s') :
    Attached plat scene G s' := by
  have page : {x | TablePage s'.memory scene.root x} = {x | TablePage s.memory scene.root x} :=
    Set.ext (tablePage_congr _ _ scene.root same)
  have leaf := leafAt_congr s.memory s'.memory scene.root same
  refine ⟨U', more, ⟨rooted.1.congr _ same, ?_⟩, ?_, ?_, ?_⟩
  · rw [← page] at world
    exact world
  · intro va entry found
    rw [leaf va] at found
    exact fitted.rights va entry found
  · intro va entry found accessible x low high
    rw [leaf va] at found
    exact grows (fitted.users va entry found accessible x low high)
  · intro va entry found restricted
    rw [leaf va] at found
    exact fitted.others va entry found restricted

theorem write (attached : Attached plat scene G s) (m : Memory)
    (changed : ∀ x, m x ≠ s.memory x →
      x ∈ G ∨ x ∈ scene.frame) :
    Attached plat scene G { s with memory := m } := by
  rcases attached with ⟨U, inside, rooted, fitted⟩
  rcases rooted.2 with ⟨⟨free, live, owner, ledger⟩, onstage⟩
  have holder : ∀ x, m x ≠ s.memory x → ∃ o, Held live owner o x ∧ o.process = some scene.pid ∧
      ∀ q, o ≠ .table q := by
    intro x different
    rcases changed x different with user | frame
    · exact ⟨_, ledger.granted x (inside user), rfl, by simp⟩
    · exact ⟨_, ledger.framed x frame, rfl, by simp⟩
  refine of_same inside (subset_refl U) rooted fitted ?_ ⟨⟨free, live, owner, ledger.write ?_⟩, onstage⟩
  · intro t page x low high
    by_contra different
    have known := ledger.pages t page
    rcases holder x different with ⟨o, held, -, notTable⟩
    exact notTable _ (held_unique ledger.wf held ⟨_, known.1, known.2, low, high⟩)
  · intro x different
    rcases holder x different with ⟨o, held, own, -⟩
    exact ⟨o, held, own⟩

end Attached

section Working

variable {plat : Platform} {scene : Scene} {G : Set Nat} {s : GlobalState}

structure Extended (scene : Scene) (K : Set Nat) (s t : GlobalState) : Prop
    extends Steady K s t where
  leaves : ∀ va entry, leafAt s.memory scene.root va = some entry →
    leafAt t.memory scene.root va = some entry

theorem Extended.trans {K : Set Nat} {t u : GlobalState} (first : Extended scene K s t)
    (second : Extended scene K t u) : Extended scene K s u where
  toSteady := first.toSteady.trans second.toSteady
  leaves := fun va entry leaf => second.leaves va entry (first.leaves va entry leaf)

theorem wpr_allocateBlock {free : Nat → List Nat} {live : List Block}
    (wf : s.allocator.WellFormed s.memory free live) (size : Nat) :
    wpr (GlobalState.allocate size) (fun a t => (∃ free', PageAllocator.Allocated s.allocator
        t.allocator s.memory t.memory free free' live size a) ∧
        t = { s with allocator := t.allocator, memory := t.memory, nodeId := t.nodeId })
      (fun _ t => t = s) Any s := by
  apply wpr_guarded_any
  apply wpr_weaken (wpr_allocatorAllocate (s := { s with held := .allocator :: s.held }) wf size)
  · intro a t done
    refine ⟨done.1, ?_⟩
    rw [done.2, List.erase_cons_head]
  · intro e t same
    rw [same, List.erase_cons_head]

theorem wpr_allocate_extended (placed : Placed plat) (attached : Attached plat scene G s)
    (size : Nat) :
    wpr (GlobalState.allocate size)
      (fun a t => Attached plat scene (G ∪ Set.Ico a (a + size)) t ∧ a % pageSize = 0 ∧
        a + size < usizeBound ∧ Extended scene (G ∪ scene.frame) s t ∧
        (∀ va, leafAt t.memory scene.root va = leafAt s.memory scene.root va) ∧
        ∀ x, a ≤ x → x < a + size → t.memory x = 0)
      (fun _ t => t = s) Any s := by
  rcases attached with ⟨U, inside, rooted, fitted⟩
  rcases rooted.2 with ⟨⟨free, live, owner, ledger⟩, onstage⟩
  apply wpr_weaken (wpr_allocateBlock ledger.wf size)
  case fails => exact fun _ _ same => same
  intro a t done
  rcases done with ⟨⟨free', allocated⟩, rest⟩
  have block := allocated.wellFormed.live_inside ⟨a, size⟩ List.mem_cons_self
  have bounded := allocated.wellFormed.bounded
  have aligned := allocated.wellFormed.aligned ⟨a, size⟩ (by simp)
  have start := allocated.memoryStart.trans ledger.start
  have same : SameOn {x | TablePage s.memory scene.root x} s t := by
    intro x page y low high
    have known := ledger.pages x page
    exact allocated.frame y (not_unused_of_held ledger.wf ⟨_, known.1, known.2, low, high⟩)
  have leaves := leafAt_congr _ _ scene.root same
  refine ⟨?_, ?_, ?_, ⟨⟨?_, ?_⟩, ?_⟩, leaves, allocated.zeroed⟩
  · refine Attached.of_same (Set.union_subset_union_left _ inside) Set.subset_union_left rooted
      fitted same ⟨⟨free', _, _, ledger.allocateUser allocated⟩, ?_⟩
    rw [rest]
    exact onstage
  · rw [start, placed.aligned] at aligned
    exact aligned
  · simp only at block
    omega
  · rw [rest]
  · intro x member
    apply allocated.frame x
    apply ledger.occupied x
    exact Set.union_subset_union_left _ inside member
  · exact fun va entry leaf => (leaves va).trans leaf

theorem wpr_allocate (placed : Placed plat) (attached : Attached plat scene G s) (size : Nat) :
    wpr (GlobalState.allocate size)
      (fun a t => Attached plat scene (G ∪ Set.Ico a (a + size)) t ∧ a % pageSize = 0 ∧
        a + size < usizeBound)
      (fun _ t => Attached plat scene G t) Any s := by
  apply wpr_weaken (wpr_allocate_extended placed attached size)
  · exact fun a t done => ⟨done.1, done.2.1, done.2.2.1⟩
  · intro e t same
    rw [same]
    exact attached

theorem Leaves.permitted {U : Set Nat} {va pa size : Nat} {r w x u : Bool} (page : Nat)
    (entry : PageTableEntry) (bounded : pa + size < usizeBound)
    (rights : r = true ∨ w = true ∨ x = true)
    (users : u = true → pa % pageSize = 0 ∧ Set.Ico pa (pa + size) ⊆ U)
    (others : u = false → size = pageSize ∧ (vpn va = vpn trampoline ∨ vpn va = vpn trapframeVa))
    (leaf : Leaves va pa (size / pageSize) (PageTableEntry.flags r w x u) page entry) :
    entry.HasRights ∧ (entry.userModeAccessible = true → ∀ y, entry.getPhysicalAddress ≤ y →
      y < entry.getPhysicalAddress + pageSize → y ∈ U) ∧
    (entry.userModeAccessible = false → page = vpn trampoline ∨ page = vpn trapframeVa) := by
  rcases leaf with ⟨j, low, rfl, rfl⟩
  have permissions := PageTableEntry.permissions_pack (pa + j * pageSize) r w x u
  have whole : j * pageSize + pageSize ≤ size := by
    have := Nat.div_mul_le_self size pageSize
    have := Nat.mul_le_mul_right pageSize (Nat.succ_le_of_lt low)
    rw [Nat.succ_mul] at this
    omega
  have address := PageTableEntry.getPhysicalAddress_pack (pa + j * pageSize)
    (PageTableEntry.flags r w x u) (PageTableEntry.flags_small r w x u) (by omega)
  refine ⟨?_, ?_, ?_⟩
  · unfold PageTableEntry.HasRights
    rw [permissions.1, permissions.2.1, permissions.2.2.1]
    exact rights
  · intro accessible y first last
    rw [permissions.2.2.2] at accessible
    have user := users accessible
    apply user.2
    rw [address] at first last
    have aligned := user.1
    simp only [pageSize] at *
    refine ⟨?_, ?_⟩ <;> omega
  · intro restricted
    rw [permissions.2.2.2] at restricted
    have other := others restricted
    have only : j = 0 := by
      rw [other.1] at whole
      simp only [pageSize] at whole
      omega
    rw [only, Nat.zero_mul, Nat.add_zero]
    exact other.2

theorem wpr_map_extended (placed : Placed plat) (attached : Attached plat scene G s)
    (va pa size : Nat) (r w x u : Bool) (bounded : pa + size < usizeBound)
    (rights : r = true ∨ w = true ∨ x = true)
    (users : u = true → pa % pageSize = 0 ∧ Set.Ico pa (pa + size) ⊆ G)
    (others : u = false → size = pageSize ∧ (vpn va = vpn trampoline ∨ vpn va = vpn trapframeVa)) :
    wpr (GlobalState.map plat scene.root va pa size r w x u)
      (fun _ t => Attached plat scene G t ∧ Extended scene (G ∪ scene.frame) s t ∧
        va % pageSize = 0 ∧ size % pageSize = 0 ∧
        ∀ j < size / pageSize, leafAt t.memory scene.root (va + j * pageSize) =
          some (.pack (pa + j * pageSize) (PageTableEntry.flags r w x u)))
      (fun _ t => Attached plat scene G t) Any s := by
  rcases attached with ⟨U, inside, rooted, fitted⟩
  have allowed : ∀ t : GlobalState, Grown (fun T s' => World plat scene U T s' ∧
      Steady (U ∪ scene.frame) s s') scene.root
      (Leaves va pa (size / pageSize) (PageTableEntry.flags r w x u))
      { s with held := .arch :: s.held } t →
      Attached plat scene G t ∧ Extended scene (G ∪ scene.frame) s t := by
    intro t grown
    have added := fun page entry => Leaves.permitted page entry bounded rights
      (fun user => ⟨(users user).1, (users user).2.trans inside⟩) others
    have steady := grown.rooted.2.2.weaken (Set.union_subset_union_left scene.frame inside)
    refine ⟨⟨U, inside, ⟨grown.rooted.1, grown.rooted.2.1⟩, ?_, ?_, ?_⟩, steady, grown.keeps⟩
    · intro va' entry leaf
      rcases grown.only va' entry leaf with old | new
      · exact fitted.rights va' entry old
      · exact (added _ entry new).1
    · intro va' entry leaf
      rcases grown.only va' entry leaf with old | new
      · exact fitted.users va' entry old
      · exact (added _ entry new).2.1
    · intro va' entry leaf
      rcases grown.only va' entry leaf with old | new
      · exact fitted.others va' entry old
      · exact (added _ entry new).2.2
  have locked : Rooted (fun T s' => World plat scene U T s' ∧ Steady (U ∪ scene.frame) s s')
      scene.root { s with held := .arch :: s.held } := by
    refine ⟨rooted.1, rooted.2, ?_⟩
    exact ⟨rfl, fun _ _ => rfl⟩
  have small : pa < usizeBound := by omega
  have spec := map_spec (arch plat) (pageSource placed scene U s) va pa size r w x u small locked
  apply wpr_guarded_any
  apply wpr_weaken spec
  · intro _ t done
    have known := allowed t done.2.2.1
    exact ⟨known.1, ⟨⟨known.2.object, known.2.memory⟩, known.2.leaves⟩, done.1, done.2.1, done.2.2.2⟩
  · intro _ t grown
    exact (allowed t grown).1

theorem wpr_map (placed : Placed plat) (attached : Attached plat scene G s) (va pa size : Nat)
    (r w x u : Bool) (bounded : pa + size < usizeBound)
    (rights : r = true ∨ w = true ∨ x = true)
    (users : u = true → pa % pageSize = 0 ∧ Set.Ico pa (pa + size) ⊆ G)
    (others : u = false → size = pageSize ∧ (vpn va = vpn trampoline ∨ vpn va = vpn trapframeVa)) :
    wpr (GlobalState.map plat scene.root va pa size r w x u)
      (fun _ t => Attached plat scene G t) (fun _ t => Attached plat scene G t) Any s := by
  apply wpr_weaken (wpr_map_extended placed attached va pa size r w x u bounded rights users others)
  · exact fun _ t done => done.1
  · exact fun _ t kept => kept

end Working

end Jangri
