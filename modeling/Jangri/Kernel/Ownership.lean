import Jangri.Allocator.Operations
import Jangri.Arch.Teardown
import Jangri.Kernel.GlobalState

/-! Who holds which memory.

Every live block has an owner: the kernel, or a process that has it as a page table page, as its
trap frame or as user memory. Live blocks are disjoint, so an address has at most one owner, and
what is written into a block of one owner is no other owner's business. -/

namespace Jangri

open Lib

inductive Owner
  | kernel
  | table (pid : Nat)
  | trapframe (pid : Nat)
  | user (pid : Nat)
  deriving DecidableEq

def Owner.process : Owner → Option Nat
  | kernel => none
  | table pid | trapframe pid | user pid => some pid

section Holding

variable (live : List Block) (owner : Nat → Owner)

def Held (o : Owner) (x : Nat) : Prop := ∃ b ∈ live, owner b.addr = o ∧ b.Contains x

def Holds (o : Owner) (addr size : Nat) : Prop :=
  ∀ x, addr ≤ x → x < addr + size → Held live owner o x

end Holding

section Blocks

variable {alloc : PageAllocator} {m : Memory} {free : Nat → List Nat} {live : List Block}
  {owner : Nat → Owner}

theorem holds_of_mem (b : Block) (present : b ∈ live) :
    Holds live owner (owner b.addr) b.addr b.size := by
  intro x low high
  exact ⟨b, present, rfl, low, high⟩

theorem held_unique (wf : alloc.WellFormed m free live) {o o' : Owner} {x : Nat}
    (first : Held live owner o x) (second : Held live owner o' x) : o = o' := by
  rcases first with ⟨a, ha, rfl, inA⟩
  rcases second with ⟨b, hb, rfl, inB⟩
  rw [wf.live_eq_of_contains a b ha hb x inA inB]

theorem not_unused_of_held (wf : alloc.WellFormed m free live) {o : Owner} {x : Nat}
    (held : Held live owner o x) : ¬ alloc.Unused free x := by
  rcases held with ⟨b, present, -, inside⟩
  apply wf.not_unused_of_live x
  rw [cover_pos_iff]
  exact ⟨b, present, inside⟩

end Blocks

/-- The address space of a process: its tree consists of live pages of its own, every mapping has
permissions, what user mode can reach is user memory of the process, and the other mappings are
those of the trampoline and the trap frame. -/
structure Space (m : Memory) (live : List Block) (owner : Nat → Owner) (p root : Nat) : Prop where
  tables : Tables m root
  pages : ∀ t, TablePage m root t → (⟨t, pageSize⟩ : Block) ∈ live ∧ owner t = .table p
  rights : ∀ va entry, leafAt m root va = some entry → entry.HasRights
  users : ∀ va entry, leafAt m root va = some entry → entry.userModeAccessible = true →
    Holds live owner (.user p) entry.getPhysicalAddress pageSize
  others : ∀ va entry, leafAt m root va = some entry → entry.userModeAccessible = false →
    vpn va = vpn trampoline ∨ vpn va = vpn trapframeVa

structure Retains (live live' : List Block) (owner owner' : Nat → Owner) (o : Owner) : Prop where
  blocks : ∀ b ∈ live, owner b.addr = o → b ∈ live' ∧ owner' b.addr = o

section Retaining

variable {live live' : List Block} {owner owner' : Nat → Owner} {o : Owner}

theorem Retains.held (retains : Retains live live' owner owner' o) {x : Nat}
    (held : Held live owner o x) : Held live' owner' o x := by
  rcases held with ⟨b, present, isOwner, inside⟩
  have kept := retains.blocks b present isOwner
  exact ⟨b, kept.1, kept.2, inside⟩

theorem Retains.holds (retains : Retains live live' owner owner' o) {addr size : Nat}
    (holds : Holds live owner o addr size) : Holds live' owner' o addr size := by
  intro x low high
  exact retains.held (holds x low high)

theorem Space.retain {m m' : Memory} {p root : Nat} (space : Space m live owner p root)
    (same : ∀ x, Held live owner (.table p) x → m' x = m x)
    (tables : Retains live live' owner owner' (.table p))
    (users : Retains live live' owner owner' (.user p)) : Space m' live' owner' p root := by
  have unchanged : ∀ t, TablePage m root t → ∀ x, t ≤ x → x < t + pageSize → m' x = m x := by
    intro t page x low high
    have known := space.pages t page
    apply same
    exact ⟨_, known.1, known.2, low, high⟩
  have leaf := leafAt_congr m m' root unchanged
  refine ⟨space.tables.congr m' unchanged, ?_, ?_, ?_, ?_⟩
  · intro t page
    have known := space.pages t ((tablePage_congr m m' root unchanged t).mp page)
    exact tables.blocks _ known.1 known.2
  · intro va entry found
    rw [leaf va] at found
    exact space.rights va entry found
  · intro va entry found accessible
    rw [leaf va] at found
    exact users.holds (space.users va entry found accessible)
  · intro va entry found restricted
    rw [leaf va] at found
    exact space.others va entry found restricted

end Retaining

def Alive (process : Process) : Prop := ∀ r, process.processState ≠ .terminated r

/-- The process the kernel works for, with its page table and trap frame, whether it is to stay
alive, and the process table around it. Of the memory `before`, the addresses in `foreign` are none
of the kernel's business. -/
structure Scene where
  pid : Nat
  root : Nat
  trapframe : Nat
  survives : Prop
  processes : List Nat
  object : Nat → Process
  current : Option Nat
  foreign : Set Nat
  before : Memory

/-- The owners of memory while the kernel works for one process. Of that process only the user
memory in `U`, the trap frame memory in `F` and the table pages in `T` are accounted for; all other
processes have their address spaces. -/
structure Ledger (plat : Platform) (scene : Scene) (U F T : Set Nat) (alloc : PageAllocator)
    (m : Memory) (free : Nat → List Nat) (live : List Block) (owner : Nat → Owner) : Prop where
  wf : alloc.WellFormed m free live
  start : alloc.memoryStart = plat.kernelEnd
  pages : ∀ t ∈ T, (⟨t, pageSize⟩ : Block) ∈ live ∧ owner t = .table scene.pid
  granted : ∀ x ∈ U, Held live owner (.user scene.pid) x
  framed : ∀ x ∈ F, Held live owner (.trapframe scene.pid) x
  frames : ∀ q ∈ scene.processes, q ≠ scene.pid →
    Holds live owner (.trapframe q) (scene.object q).trapframe pageSize
  spaces : ∀ q ∈ scene.processes, q ≠ scene.pid → Alive (scene.object q) →
    Space m live owner q (scene.object q).pageTable
  foreign : ∀ x ∈ scene.foreign, ∃ o, o.process ≠ some scene.pid ∧ Held live owner o x
  untouched : ∀ x ∈ scene.foreign, m x = scene.before x

namespace Ledger

variable {plat : Platform} {scene : Scene} {U F T : Set Nat} {alloc alloc' : PageAllocator}
  {m m' : Memory} {free free' : Nat → List Nat} {live : List Block} {owner : Nat → Owner}

/-- Memory of the process may change. -/
theorem write (ledger : Ledger plat scene U F T alloc m free live owner)
    (changed : ∀ x, m' x ≠ m x → ∃ o, Held live owner o x ∧ o.process = some scene.pid) :
    Ledger plat scene U F T alloc m' free live owner where
  wf := by
    apply ledger.wf.memory_congr
    intro x unused
    by_contra different
    rcases changed x different with ⟨o, held, -⟩
    exact not_unused_of_held ledger.wf held (Or.inl unused)
  start := ledger.start
  pages := ledger.pages
  granted := ledger.granted
  framed := ledger.framed
  frames := ledger.frames
  spaces := by
    intro q present other alive
    apply (ledger.spaces q present other alive).retain
    · intro x held
      by_contra different
      rcases changed x different with ⟨o, heldO, own⟩
      rw [held_unique ledger.wf heldO held] at own
      exact other (Option.some.inj own)
    · exact ⟨fun b mem isOwner => ⟨mem, isOwner⟩⟩
    · exact ⟨fun b mem isOwner => ⟨mem, isOwner⟩⟩
  foreign := ledger.foreign
  untouched := by
    intro x far
    by_contra different
    rcases ledger.foreign x far with ⟨o, notOwn, held⟩
    rcases changed x (fun same => different (same.trans (ledger.untouched x far))) with
      ⟨o', held', own⟩
    rw [held_unique ledger.wf held' held] at own
    exact notOwn own

theorem occupied (ledger : Ledger plat scene U F T alloc m free live owner) :
    ∀ x ∈ U ∪ F, ¬ alloc.Unused free x := by
  intro x member
  rcases member with user | frame
  · exact not_unused_of_held ledger.wf (ledger.granted x user)
  · exact not_unused_of_held ledger.wf (ledger.framed x frame)

/-- A block that has just been handed out overlaps no block that was live before. -/
theorem fresh_block {size p : Nat}
    (allocated : PageAllocator.Allocated alloc alloc' m m' free free' live size p) (b : Block)
    (present : b ∈ live) (x : Nat) (inB : b.Contains x) : ¬ (⟨p, size⟩ : Block).Contains x := by
  intro inNew
  have once := allocated.wellFormed.cover_le_one x
  have old := (cover_pos_iff live x).mpr ⟨b, present, inB⟩
  have new := (Block.hits_pos_iff ⟨p, size⟩ x).mpr inNew
  rw [cover_cons] at once
  omega

theorem fresh_address {size p : Nat}
    (allocated : PageAllocator.Allocated alloc alloc' m m' free free' live size p) (b : Block)
    (present : b ∈ live) : b.addr ≠ p := by
  intro same
  have wide := (allocated.wellFormed.pages b (List.mem_cons_of_mem _ present)).1
  have wideNew := (allocated.wellFormed.pages ⟨p, size⟩ List.mem_cons_self).1
  simp only [pageSize] at wide wideNew
  apply fresh_block allocated b present b.addr
  · exact ⟨le_refl _, by omega⟩
  · rw [same]
    exact ⟨le_refl _, by simp only; omega⟩

theorem retains_allocated {size p : Nat}
    (allocated : PageAllocator.Allocated alloc alloc' m m' free free' live size p) (o o' : Owner) :
    Retains live (⟨p, size⟩ :: live) owner (Function.update owner p o) o' where
  blocks := by
    intro b present isOwner
    refine ⟨List.mem_cons_of_mem _ present, ?_⟩
    rw [Function.update_of_ne (fresh_address allocated b present)]
    exact isOwner

theorem holds_allocated (live : List Block) (owner : Nat → Owner) (size p : Nat) (o : Owner) :
    Holds (⟨p, size⟩ :: live) (Function.update owner p o) o p size := by
  have block : Holds (⟨p, size⟩ :: live) (Function.update owner p o) (Function.update owner p o p)
      p size := holds_of_mem ⟨p, size⟩ List.mem_cons_self
  simpa only [Function.update_self] using block

theorem allocate (ledger : Ledger plat scene U F T alloc m free live owner) {size p : Nat}
    (allocated : PageAllocator.Allocated alloc alloc' m m' free free' live size p) (o : Owner) :
    Ledger plat scene U F T alloc' m' free' (⟨p, size⟩ :: live) (Function.update owner p o) := by
  have retains : ∀ o', Retains live (⟨p, size⟩ :: live) owner (Function.update owner p o) o' :=
    retains_allocated allocated o
  exact {
    wf := allocated.wellFormed
    start := allocated.memoryStart.trans ledger.start
    pages := by
      intro t member
      have known := ledger.pages t member
      exact (retains (.table scene.pid)).blocks ⟨t, pageSize⟩ known.1 known.2
    granted := fun x member => (retains _).held (ledger.granted x member)
    framed := fun x member => (retains _).held (ledger.framed x member)
    frames := fun q present other => (retains _).holds (ledger.frames q present other)
    spaces := by
      intro q present other alive
      apply (ledger.spaces q present other alive).retain
      · intro x held
        exact allocated.frame x (not_unused_of_held ledger.wf held)
      · exact retains _
      · exact retains _
    foreign := by
      intro x far
      rcases ledger.foreign x far with ⟨o', notOwn, held⟩
      exact ⟨o', notOwn, (retains o').held held⟩
    untouched := by
      intro x far
      rcases ledger.foreign x far with ⟨o', -, held⟩
      rw [allocated.frame x (not_unused_of_held ledger.wf held)]
      exact ledger.untouched x far }

theorem allocatePage (ledger : Ledger plat scene U F T alloc m free live owner) {p : Nat}
    (allocated : PageAllocator.Allocated alloc alloc' m m' free free' live pageSize p) :
    Ledger plat scene U F (insert p T) alloc' m' free' (⟨p, pageSize⟩ :: live)
      (Function.update owner p (.table scene.pid)) := by
  have ledger' := ledger.allocate allocated (.table scene.pid)
  refine { ledger' with pages := ?_ }
  intro x member
  rcases Set.mem_insert_iff.mp member with rfl | old
  · exact ⟨List.mem_cons_self, Function.update_self _ _ _⟩
  · exact ledger'.pages x old

theorem allocateUser (ledger : Ledger plat scene U F T alloc m free live owner) {size p : Nat}
    (allocated : PageAllocator.Allocated alloc alloc' m m' free free' live size p) :
    Ledger plat scene (U ∪ Set.Ico p (p + size)) F T alloc' m' free' (⟨p, size⟩ :: live)
      (Function.update owner p (.user scene.pid)) := by
  have ledger' := ledger.allocate allocated (.user scene.pid)
  refine { ledger' with granted := ?_ }
  intro x member
  rcases member with old | new
  · exact ledger'.granted x old
  · exact holds_allocated live owner size p _ x new.1 new.2

theorem allocateFrame (ledger : Ledger plat scene U F T alloc m free live owner) {size p : Nat}
    (allocated : PageAllocator.Allocated alloc alloc' m m' free free' live size p) :
    Ledger plat scene U (F ∪ Set.Ico p (p + size)) T alloc' m' free' (⟨p, size⟩ :: live)
      (Function.update owner p (.trapframe scene.pid)) := by
  have ledger' := ledger.allocate allocated (.trapframe scene.pid)
  refine { ledger' with framed := ?_ }
  intro x member
  rcases member with old | new
  · exact ledger'.framed x old
  · exact holds_allocated live owner size p _ x new.1 new.2

theorem deallocate (ledger : Ledger plat scene U F T alloc m free live owner) {t : Nat}
    (member : t ∈ T)
    (deallocated : PageAllocator.Deallocated alloc alloc' m m' free free' live ⟨t, pageSize⟩) :
    Ledger plat scene U F (T \ {t}) alloc' m' free' (live.erase ⟨t, pageSize⟩) owner := by
  have page := ledger.pages t member
  have retains : ∀ o, o ≠ .table scene.pid →
      Retains live (live.erase ⟨t, pageSize⟩) owner owner o := by
    intro o different
    refine ⟨fun b present isOwner => ⟨?_, isOwner⟩⟩
    refine (List.mem_erase_of_ne ?_).mpr present
    intro same
    rw [same, page.2] at isOwner
    exact different isOwner.symm
  exact {
    wf := deallocated.wellFormed
    start := deallocated.memoryStart.trans ledger.start
    pages := by
      intro t' remains
      have known := ledger.pages t' remains.1
      refine ⟨(List.mem_erase_of_ne ?_).mpr known.1, known.2⟩
      intro same
      exact remains.2 (congrArg Block.addr same)
    granted := fun x inside => (retains _ (by simp)).held (ledger.granted x inside)
    framed := fun x inside => (retains _ (by simp)).held (ledger.framed x inside)
    frames := fun q present other => (retains _ (by simp)).holds (ledger.frames q present other)
    spaces := by
      intro q present other alive
      have isOther : Owner.table q ≠ .table scene.pid := by
        intro same
        exact other (Owner.table.inj same)
      apply (ledger.spaces q present other alive).retain
      · intro x held
        apply deallocated.frame x (not_unused_of_held ledger.wf held)
        intro inside
        apply isOther
        exact held_unique ledger.wf held ⟨_, page.1, page.2, inside⟩
      · exact retains _ isOther
      · exact retains _ (by simp)
    foreign := by
      intro x far
      rcases ledger.foreign x far with ⟨o, notOwn, held⟩
      refine ⟨o, notOwn, (retains o ?_).held held⟩
      rintro rfl
      exact notOwn rfl
    untouched := by
      intro x far
      rcases ledger.foreign x far with ⟨o, notOwn, held⟩
      rw [deallocated.frame x (not_unused_of_held ledger.wf held)]
      · exact ledger.untouched x far
      · intro inside
        have own := held_unique ledger.wf held ⟨_, page.1, page.2, inside⟩
        rw [own] at notOwn
        exact notOwn rfl }

end Ledger

end Jangri
