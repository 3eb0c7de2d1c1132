import Jangri.Allocator.Runs

namespace Jangri

open Lib

/-- A finite chain from `head` to `None`, linked both ways, of intact nodes of class `i`. No node comes
twice, so that the chain has no cycle. -/
structure FreeList (m : Memory) (i : Nat) (head : Option Nat) (nodes : List Nat) : Prop where
  follows : Follows m head nodes
  nodup : nodes.Nodup
  first : ∀ a, head = some a → (readNode m a).prev = none
  back : ∀ a ∈ nodes, ∀ b, (readNode m a).next = some b → (readNode m b).prev = some a
  intact : ∀ a ∈ nodes, (readNode m a).magic1 = magic1 ∧ (readNode m a).magic2 = magic2
  size : ∀ a ∈ nodes, (readNode m a).size = (i + 1) * pageSize

namespace Chain

variable {m : Memory} {size : Nat} {prev node : Option Nat} {nodes : List Nat}

theorem head_prev (chain : Chain m size prev node nodes) (a : Nat) (first : node = some a) :
    (readNode m a).prev = prev := by
  cases nodes with
  | nil =>
      have empty : node = none := chain
      rw [first] at empty
      cases empty
  | cons b rest =>
      rcases chain with ⟨head, _, _, back, _⟩
      rw [first] at head
      cases head
      exact back

theorem back (chain : Chain m size prev node nodes) :
    ∀ a ∈ nodes, ∀ b, (readNode m a).next = some b → (readNode m b).prev = some a := by
  induction nodes generalizing prev node with
  | nil => simp
  | cons c rest ih =>
      rcases chain with ⟨_, _, _, _, _, tail⟩
      intro a present b next
      rcases List.mem_cons.mp present with here | later
      · rw [here] at next ⊢
        exact tail.head_prev b next
      · exact ih tail a later b next

theorem freeList {i : Nat} (chain : Chain m (classSize i) none node nodes) (distinct : nodes.Nodup) :
    FreeList m i node nodes where
  follows := chain.follows
  nodup := distinct
  first := chain.head_prev
  back := chain.back
  intact := fun a present => (chain.node_of_mem a present).1
  size := fun a present => (chain.node_of_mem a present).2

end Chain

def enqueue (queues : Nat → List Nat) (i a : Nat) : Nat → List Nat :=
  Function.update queues i (queues i ++ [a])

def Dequeues (queues : Nat → List Nat) (i a : Nat) (queues' : Nat → List Nat) : Prop :=
  ∃ rest, queues i = a :: rest ∧ queues' = Function.update queues i rest

/-- `multiple` pages are served from the first block of class `v`, and what is left of the block goes
back behind the blocks of its own class. -/
def Served (queues : Nat → List Nat) (multiple a : Nat) (queues' : Nat → List Nat) : Prop :=
  ∃ v popped, multiple ≤ v ∧ v ≤ numMultiples ∧ Dequeues queues (v - 1) a popped ∧
    queues' = if v = multiple then popped
      else enqueue popped (v - multiple - 1) (a + multiple * pageSize)

namespace System

structure FreeBlock (sys : System) (b : Block) : Prop where
  inside : sys.alloc.memoryStart ≤ b.addr ∧ b.addr + b.size ≤ sys.alloc.currentStart
  aligned : b.addr % pageSize = sys.alloc.memoryStart % pageSize
  apart : ∀ c ∈ sys.live, c.Disjoint b

structure ListsIntact (sys : System) (nodes : Nat → List Nat) : Prop where
  lists : ∀ i : Fin numMultiples,
    FreeList sys.store.memory i (sys.alloc.list i).head (nodes i)
  blocks : ∀ i < numMultiples, ∀ a ∈ nodes i,
    sys.FreeBlock ⟨a, (readNode sys.store.memory a).size⟩
  unshared : ∀ i < numMultiples, ∀ j < numMultiples, ∀ a, a ∈ nodes i → a ∈ nodes j → i = j
  apart : ∀ i < numMultiples, ∀ j < numMultiples, ∀ a ∈ nodes i, ∀ b ∈ nodes j, a ≠ b →
    Block.Disjoint ⟨a, (readNode sys.store.memory a).size⟩ ⟨b, (readNode sys.store.memory b).size⟩

def Moves (sys : System) (queues : Nat → List Nat) : Call → System → (Nat → List Nat) → Prop
  | .allocate size, sys', queues' =>
      (queues' = queues ∧
        (sys'.live = sys.live ∨ sys'.live = ⟨sys.alloc.currentStart, size⟩ :: sys.live)) ∨
      ∃ a, sys'.live = ⟨a, size⟩ :: sys.live ∧ Served queues (size / pageSize) a queues'
  | .deallocate start size, _, queues' => queues' = enqueue queues (size / pageSize - 1) start
  | .write _ _, _, queues' => queues' = queues

structure ListsQueue (sys : System) (nodes : Nat → List Nat) : Prop where
  pops : ∀ i : Fin numMultiples, ∃ list m,
    (sys.alloc.list i).popFront sys.store.memory = .ok ((nodes i).head?, list, m) ∧
      FreeList m i list.head (nodes i).tail
  pushes : ∀ i : Fin numMultiples, ∀ other id, Pointer other →
    (∀ a ∈ nodes i, Apart a other) →
    readNode sys.store.memory other = ⟨magic1, none, none, (i + 1) * pageSize, id, magic2⟩ →
    ∃ list m, (sys.alloc.list i).pushFront sys.store.memory other = .ok (list, m) ∧
      FreeList m i list.head (nodes i ++ [other])

/-- A valid call never finds a corrupted node and never runs around in a list. -/
def NeverCorrupt (sys : System) : Prop :=
  ∀ call, sys.Valid call → ∀ e, sys.step call = .error e →
    e ≠ .diverge ∧ e ≠ .panic (.assertion "MEMORY CORRUPT")

variable {start stop : Nat} {sys sys' : System} {free : Nat → List Nat}

theorem freeBlock_of_mem (wf : sys.alloc.WellFormed sys.store.memory free sys.live) (i a : Nat)
    (inside : i < numMultiples) (present : a ∈ free i) : sys.FreeBlock ⟨a, classSize i⟩ := by
  have member : (⟨a, classSize i⟩ : Block) ∈ sys.live ++ freeBlocks free ++ [sys.alloc.bumpRegion] :=
    PageAllocator.WellFormed.free_mem i a inside present
  have bounds := wf.free_inside i a inside present
  have positive := classSize_pos i
  refine ⟨⟨bounds.1, ?_⟩, wf.aligned _ member, ?_⟩
  · -- The last byte of the block is none of the bump region.
    by_contra beyond
    simp only at beyond
    have last : sys.alloc.bumpRegion.Contains (a + classSize i - 1) := by
      simp only [Block.Contains, PageAllocator.bumpRegion]
      omega
    have listed := (cover_pos_iff (freeBlocks free) (a + classSize i - 1)).mpr
      ⟨⟨a, classSize i⟩, (mem_freeBlocks free _).mpr ⟨i, inside, a, present, rfl⟩,
        ⟨by simp only; omega, by simp only; omega⟩⟩
    have hit := (Block.hits_pos_iff _ _).mpr last
    have once := wf.cover_le_one (a + classSize i - 1)
    omega
  · intro c held x inC inBlock
    have far := wf.live_apart_free c held i a inside present x inC
    simp only [Block.Contains] at inBlock
    omega

theorem listsIntact_of_wellFormed (wf : sys.alloc.WellFormed sys.store.memory free sys.live) :
    sys.ListsIntact free := by
  have size : ∀ i < numMultiples, ∀ a ∈ free i, (readNode sys.store.memory a).size = classSize i :=
    fun i inside a present => ((wf.chains ⟨i, inside⟩).node_of_mem a present).2
  constructor
  · exact fun i => (wf.chains i).freeList (wf.free_nodup i i.isLt)
  · intro i inside a present
    rw [size i inside a present]
    exact freeBlock_of_mem wf i a inside present
  · exact fun i hi j hj a inI inJ => wf.free_class_eq i j a hi hj inI inJ
  · intro i hi j hj a inI b inJ different x inA inB
    rw [size i hi a inI] at inA
    rw [size j hj b inJ] at inB
    have same := wf.tiles.eq_of_contains _ _
      (PageAllocator.WellFormed.free_mem i a hi inI)
      (PageAllocator.WellFormed.free_mem j b hj inJ) x inA inB
    exact different (congrArg Block.addr same)

theorem listsQueue_of_wellFormed (wf : sys.alloc.WellFormed sys.store.memory free sys.live) :
    sys.ListsQueue free := by
  constructor
  · intro i
    have chain := wf.chains i
    have distinct := wf.free_nodup i i.isLt
    have apart := fun a b => wf.free_apart i i a b i.isLt i.isLt
    cases nodes : free i with
    | nil =>
        rw [nodes] at chain
        refine ⟨_, _, LinkedList.popFront_nil _ _ (chain.head_eq_none_iff.mpr rfl), ?_⟩
        exact chain.freeList List.nodup_nil
    | cons a rest =>
        rw [nodes] at chain distinct apart
        rw [List.nodup_cons] at distinct
        rcases LinkedList.popFront_spec _ _ _ a rest chain distinct.2 fun b inB c inC =>
          apart b c (List.mem_cons_of_mem a inB) (List.mem_cons_of_mem a inC) with
          ⟨list, m, popped, after, -⟩
        exact ⟨list, m, popped, after.freeList distinct.2⟩
  · intro i other id pointer far node
    rcases wf.push_spec i other id pointer far node with ⟨list, m, pushed, after, distinct, -⟩
    exact ⟨list, m, pushed, after.freeList distinct⟩

theorem served_freeAfterReuse (multiple v a : Nat) (rest : List Nat) (enough : multiple ≤ v)
    (high : v ≤ numMultiples) (first : free (v - 1) = a :: rest) :
    Served free multiple a (PageAllocator.freeAfterReuse free multiple v a rest) :=
  ⟨v, Function.update free (v - 1) rest, enough, high, ⟨rest, first, rfl⟩, rfl⟩

/-- Every step moves blocks through the queues as the abstract operations do. -/
theorem moves_of_steps (wf : sys.alloc.WellFormed sys.store.memory free sys.live) {call : Call}
    (steps : Steps sys call sys') :
    ∃ free', sys'.alloc.WellFormed sys'.store.memory free' sys'.live ∧
      sys.Moves free call sys' free' := by
  rcases steps with ⟨valid, taken⟩
  cases call with
  | allocate size =>
      rcases step_allocate _ _ _ taken with ⟨result, alloc', store', called, rfl⟩
      rcases PageAllocator.allocate_cases wf _ size result alloc' store' called with
        ⟨rfl, rfl, rfl⟩ | ⟨v, a, rest, rfl, enough, high, first, done, -⟩ | ⟨rfl, done, -⟩
      · exact ⟨free, wf, Or.inl ⟨rfl, Or.inl rfl⟩⟩
      · exact ⟨_, done.wellFormed,
          Or.inr ⟨a, rfl, served_freeAfterReuse _ v a rest enough high first⟩⟩
      · exact ⟨free, done.wellFormed, Or.inl ⟨rfl, Or.inr rfl⟩⟩
  | deallocate addr size =>
      rcases step_deallocate _ _ _ _ taken with ⟨small, alloc', store', called, rfl⟩
      rcases PageAllocator.deallocate_spec wf sys.store.nodeId ⟨addr, size⟩ valid small with
        ⟨alloc'', store'', called', done, -⟩
      rw [called] at called'
      cases called'
      exact ⟨_, done.wellFormed, rfl⟩
  | write addr byte =>
      cases taken
      exact ⟨free, wf.write_live addr byte valid, rfl⟩

theorem allocate_stopped (wf : sys.alloc.WellFormed sys.store.memory free sys.live) (size : Nat)
    (e : Halt) (stopped : sys.alloc.allocate sys.store size = .error e) :
    e ≠ .diverge ∧ e ≠ .panic (.assertion "MEMORY CORRUPT") := by
  by_cases small : size < pageSize
  · rw [PageAllocator.allocate, if_pos small] at stopped
    cases stopped
    simp
  · by_cases whole : size % pageSize = 0
    · rw [PageAllocator.allocate_stops wf _ size (by omega) whole e stopped]
      simp
    · have refused : sys.alloc.allocate sys.store size =
          panic (.assertion "size is not a multiple of PAGE_SIZE which is 4KiB") := by
        simp [PageAllocator.allocate, small, assert, whole, panic]
      rw [refused] at stopped
      cases stopped
      simp

theorem neverCorrupt_of_wellFormed (wf : sys.alloc.WellFormed sys.store.memory free sys.live) :
    sys.NeverCorrupt := by
  intro call valid e stopped
  cases call with
  | allocate size =>
      rw [step] at stopped
      cases called : sys.alloc.allocate sys.store size with
      | ok r =>
          rw [called] at stopped
          cases stopped
      | error e' =>
          rw [called] at stopped
          cases stopped
          exact allocate_stopped wf size e called
  | deallocate addr size =>
      rw [step] at stopped
      by_cases small : size ≤ maxAlloc
      · rcases PageAllocator.deallocate_spec wf sys.store.nodeId ⟨addr, size⟩ valid small with
          ⟨alloc', store', called, -⟩
        have returned : sys.alloc.deallocate sys.store addr size = .ok (alloc', store') := called
        rw [returned] at stopped
        cases stopped
      · have refused : sys.alloc.deallocate sys.store addr size =
            panic (.assertion "assertion failed: size >= PAGE_SIZE && size <= MAX_ALLOC") := by
          have whole := (wf.pages _ valid).2
          simp only at whole
          simp [PageAllocator.deallocate, assert, whole, small, panic]
        rw [refused] at stopped
        cases stopped
        simp
  | write addr byte => cases stopped

structure Queued (sys : System) (nodes : Nat → List Nat) : Prop where
  intact : sys.ListsIntact nodes
  queues : sys.ListsQueue nodes
  neverCorrupt : sys.NeverCorrupt
  moves : ∀ call sys', Steps sys call sys' →
    ∃ nodes', sys'.ListsIntact nodes' ∧ sys.Moves nodes call sys' nodes'

theorem queued_of_wellFormed (wf : sys.alloc.WellFormed sys.store.memory free sys.live) :
    sys.Queued free where
  intact := listsIntact_of_wellFormed wf
  queues := listsQueue_of_wellFormed wf
  neverCorrupt := neverCorrupt_of_wellFormed wf
  moves := by
    intro call sys' steps
    rcases moves_of_steps wf steps with ⟨free', wf', moves⟩
    exact ⟨free', listsIntact_of_wellFormed wf', moves⟩

/-- In every state of a run the free lists are well formed, and every call treats them as queues. -/
theorem free_lists_queued (start stop : Nat) (notNull : start ≠ 0) (ordered : start ≤ stop)
    (bounded : stop < usizeBound) (sys sys' : System) (trace : List (System × Call))
    (initial : Initial start stop sys) (run : Run Steps sys trace sys') :
    ∀ u ∈ Run.visited trace sys', ∃ nodes, u.Queued nodes := by
  intro u visited
  rcases run.invariant (Inv start stop) (inv_initial start stop notNull ordered bounded sys initial)
    (inv_step start stop) u visited with ⟨free, wf, -⟩
  exact ⟨free, queued_of_wellFormed wf⟩

theorem fifteenPages_queued : ∃ sys', fifteenPages.runCalls splitCalls = some sys' ∧
    sys'.headOf 1 = some 8192 ∧ ∃ nodes, sys'.Queued nodes := by
  have ends : (fifteenPages.runCalls splitCalls).map (fun s => s.headOf 1) = some (some 8192) := by
    decide +kernel
  rcases Option.map_eq_some_iff.mp ends with ⟨sys', ran, head⟩
  rcases run_of_runCalls splitCalls _ _ ran with ⟨trace, run⟩
  exact ⟨sys', ran, head, free_lists_queued 4096 65536 (by decide) (by decide) (by decide)
    fifteenPages sys' trace ⟨rfl, rfl⟩ run sys' (Run.last_mem_visited trace sys')⟩

end System

end Jangri
