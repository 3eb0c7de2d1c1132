import Jangri.Allocator.Operations
import Jangri.Lib.Run

namespace Jangri

open Lib

structure System where
  alloc : PageAllocator
  store : Store
  live : List Block

inductive Call
  | allocate (size : Nat)
  | deallocate (start size : Nat)
  | write (addr : Nat) (byte : UInt8)
  deriving DecidableEq

namespace System

def liveAfter (live : List Block) (size : Nat) : (result : Option Nat) → List Block
  | some p => ⟨p, size⟩ :: live
  | none => live

def step (sys : System) : Call → Rust System
  | .allocate size => do
      let (result, alloc, store) ← sys.alloc.allocate sys.store size
      pure { alloc, store, live := liveAfter sys.live size result }
  | .deallocate start size => do
      let (alloc, store) ← sys.alloc.deallocate sys.store start size
      pure { alloc, store, live := sys.live.erase ⟨start, size⟩ }
  | .write addr byte =>
      pure { sys with store := { sys.store with memory := sys.store.memory.write addr 1 byte.toNat } }

/-- What clients promise: to give back only live blocks and to write only inside them. -/
def Valid (sys : System) : Call → Prop
  | .allocate _ => True
  | .deallocate start size => (⟨start, size⟩ : Block) ∈ sys.live
  | .write addr _ => ∃ b ∈ sys.live, b.Contains addr

instance (sys : System) : (call : Call) → Decidable (sys.Valid call)
  | .allocate _ => inferInstanceAs (Decidable True)
  | .deallocate start size => inferInstanceAs (Decidable ((⟨start, size⟩ : Block) ∈ sys.live))
  | .write addr _ => inferInstanceAs (Decidable (∃ b ∈ sys.live, b.Contains addr))

def Steps (sys : System) (call : Call) (sys' : System) : Prop :=
  sys.Valid call ∧ sys.step call = .ok sys'

def headOf (sys : System) (multiple : Nat) : Option Nat :=
  (sys.alloc.getList (multiple - 1)).bind LinkedList.head

def Initial (start stop : Nat) (sys : System) : Prop :=
  PageAllocator.new start stop = .ok sys.alloc ∧ sys.live = []

def Inv (start stop : Nat) (sys : System) : Prop :=
  ∃ free, sys.alloc.WellFormed sys.store.memory free sys.live ∧ sys.alloc.Marked free ∧
    sys.alloc.memoryStart = start ∧ sys.alloc.memoryEnd = stop

theorem step_allocate (sys sys' : System) (size : Nat) (taken : sys.step (.allocate size) = .ok sys') :
    ∃ result alloc store, sys.alloc.allocate sys.store size = .ok (result, alloc, store) ∧
      sys' = { alloc, store, live := liveAfter sys.live size result } := by
  obtain ⟨⟨result, alloc, store⟩, called, rest⟩ := (bind_eq_ok _ _ _).mp taken
  refine ⟨result, alloc, store, called, ?_⟩
  cases rest
  rfl

theorem step_deallocate (sys sys' : System) (start size : Nat)
    (taken : sys.step (.deallocate start size) = .ok sys') :
    size ≤ maxAlloc ∧ ∃ alloc store,
      sys.alloc.deallocate sys.store start size = .ok (alloc, store) ∧
      sys' = { alloc, store, live := sys.live.erase ⟨start, size⟩ } := by
  obtain ⟨⟨alloc, store⟩, called, rest⟩ := (bind_eq_ok _ _ _).mp taken
  refine ⟨PageAllocator.deallocate_small _ _ _ _ _ called, alloc, store, called, ?_⟩
  cases rest
  rfl

theorem inv_initial (start stop : Nat) (notNull : start ≠ 0) (ordered : start ≤ stop)
    (bounded : stop < usizeBound) (sys : System) (initial : Initial start stop sys) :
    Inv start stop sys := by
  obtain ⟨alloc, store, live⟩ := sys
  obtain ⟨created, rfl⟩ := initial
  obtain ⟨alloc', created', wf, s, e, -⟩ :=
    PageAllocator.new_spec start stop notNull ordered bounded store.memory
  obtain rfl : alloc' = alloc := by simpa [created] using created'.symm
  exact ⟨_, wf, fun i _ nonempty => absurd rfl nonempty, s, e⟩

theorem inv_step (start stop : Nat) (sys : System) (call : Call) (sys' : System)
    (inv : Inv start stop sys) (steps : Steps sys call sys') : Inv start stop sys' := by
  obtain ⟨free, wf, marked, s, e⟩ := inv
  obtain ⟨valid, taken⟩ := steps
  cases call with
  | allocate size =>
      obtain ⟨result, alloc', store', called, rfl⟩ := step_allocate _ _ _ taken
      rcases PageAllocator.allocate_spec wf _ size result alloc' store' called with
        ⟨rfl, rfl, rfl⟩ | ⟨p, free', rfl, done, -⟩
      · exact ⟨free, wf, marked, s, e⟩
      · exact ⟨free', done.wellFormed, done.marked marked, done.memoryStart.trans s,
          done.memoryEnd.trans e⟩
  | deallocate addr size =>
      obtain ⟨small, alloc', store', called, rfl⟩ := step_deallocate _ _ _ _ taken
      obtain ⟨alloc'', store'', called', done, -⟩ :=
        PageAllocator.deallocate_spec wf sys.store.nodeId ⟨addr, size⟩ valid small
      obtain ⟨rfl, rfl⟩ : alloc'' = alloc' ∧ store'' = store' := by
        simpa [called] using called'.symm
      exact ⟨_, done.wellFormed, done.marked marked, done.memoryStart.trans s,
        done.memoryEnd.trans e⟩
  | write addr byte =>
      cases taken
      exact ⟨free, wf.write_live addr byte valid, marked, s, e⟩

end System

def Follows (m : Memory) : (node : Option Nat) → (nodes : List Nat) → Prop
  | node, [] => node = none
  | node, a :: rest => node = some a ∧ Follows m (readNode m a).next rest

def listBlocks (m : Memory) (nodes : List Nat) : List Block :=
  nodes.map fun a => ⟨a, (readNode m a).size⟩

theorem Chain.follows {m : Memory} {size : Nat} {prev node : Option Nat} {nodes : List Nat}
    (chain : Chain m size prev node nodes) : Follows m node nodes := by
  induction nodes generalizing prev node with
  | nil => exact chain
  | cons a rest ih => exact ⟨chain.1, ih chain.2.2.2.2.2⟩

theorem Chain.listBlocks_eq {m : Memory} {size : Nat} {prev node : Option Nat} {nodes : List Nat}
    (chain : Chain m size prev node nodes) : listBlocks m nodes = nodes.map fun a => ⟨a, size⟩ := by
  apply List.map_congr_left
  intro a ha
  rw [(chain.node_of_mem a ha).2]

namespace System

def pieces (sys : System) (nodes : Nat → List Nat) : List Block :=
  sys.live ++ (List.range numMultiples).flatMap (fun i => listBlocks sys.store.memory (nodes i)) ++
    [sys.alloc.bumpRegion]

theorem pieces_eq (sys : System) (free : Nat → List Nat)
    (wf : sys.alloc.WellFormed sys.store.memory free sys.live) :
    sys.pieces free = sys.live ++ freeBlocks free ++ [sys.alloc.bumpRegion] := by
  have lists : (List.range numMultiples).flatMap (fun i => listBlocks sys.store.memory (free i)) =
      freeBlocks free := by
    apply List.flatMap_congr
    intro i hi
    exact (wf.chains ⟨i, List.mem_range.mp hi⟩).listBlocks_eq
  rw [pieces, lists]

/-- Live blocks, listed blocks and the bump region divide `[start, stop)` among themselves, every
list holds blocks of its own size only, and `current_size` measures the bump region. -/
def Partitioned (start stop : Nat) (sys : System) : Prop :=
  ∃ nodes : Nat → List Nat,
    (∀ i : Fin numMultiples,
      Follows sys.store.memory (sys.alloc.list i).head (nodes i) ∧
      ∀ b ∈ listBlocks sys.store.memory (nodes i), b.size = (i + 1) * pageSize) ∧
    (sys.pieces nodes).Pairwise Block.Disjoint ∧
    (∀ x, (start ≤ x ∧ x < stop) ↔ ∃ b ∈ sys.pieces nodes, b.Contains x) ∧
    sys.alloc.memoryStart = start ∧ sys.alloc.memoryEnd = stop ∧
    sys.alloc.currentSize = sys.alloc.memoryEnd - sys.alloc.currentStart

/-- No call of the allocator loses memory or hands any of it out twice. -/
theorem memory_partitioned (start stop : Nat) (notNull : start ≠ 0) (ordered : start ≤ stop)
    (bounded : stop < usizeBound) (sys sys' : System) (trace : List (System × Call))
    (initial : Initial start stop sys) (run : Run Steps sys trace sys') :
    sys'.Partitioned start stop := by
  have inv := run.invariant_last (Inv start stop)
    (inv_initial start stop notNull ordered bounded sys initial) (inv_step start stop)
  obtain ⟨free, wf, -, s, e⟩ := inv
  have tiles := wf.tiles
  rw [s, e, ← pieces_eq sys' free wf] at tiles
  refine ⟨free, fun i => ⟨(wf.chains i).follows, ?_⟩, tiles.pairwise, tiles.mem_iff, s, e, wf.size⟩
  rw [(wf.chains i).listBlocks_eq]
  intro b hb
  obtain ⟨a, -, rfl⟩ := List.mem_map.mp hb
  rfl

def runCalls (sys : System) : List Call → Option System
  | [] => some sys
  | call :: rest =>
      if sys.Valid call then
        match sys.step call with
        | .ok sys' => sys'.runCalls rest
        | .error _ => none
      else none

theorem first_of_runCalls {call : Call} {rest : List Call} {sys sys' : System}
    (ran : sys.runCalls (call :: rest) = some sys') :
    ∃ next, Steps sys call next ∧ next.runCalls rest = some sys' := by
  unfold runCalls at ran
  split at ran
  next valid =>
    split at ran
    next next_ taken => exact ⟨next_, ⟨valid, taken⟩, ran⟩
    next => cases ran
  next => cases ran

theorem run_of_runCalls (calls : List Call) (sys sys' : System)
    (ran : sys.runCalls calls = some sys') : ∃ trace, Run Steps sys trace sys' := by
  induction calls generalizing sys with
  | nil =>
      cases ran
      exact ⟨[], Run.nil⟩
  | cons call rest ih =>
      obtain ⟨next, first, remaining⟩ := first_of_runCalls ran
      obtain ⟨trace, run⟩ := ih next remaining
      exact ⟨_, (Run.single first).append run⟩

def fifteenPages : System where
  alloc := {
    bitmaps := Bitmap.new
    memoryStart := 4096
    memoryEnd := 65536
    currentSize := 61440
    currentStart := 4096
    list := fun _ => { head := none } }
  store := ⟨fun _ => 0, 0⟩
  live := []

def splitCalls : List Call := [.allocate 8192, .deallocate 4096 8192, .allocate 4096]

theorem fifteenPages_partitioned :
    ∃ sys', fifteenPages.runCalls splitCalls = some sys' ∧ sys'.live = [⟨4096, 4096⟩] ∧
      sys'.headOf 1 = some 8192 ∧ sys'.Partitioned 4096 65536 := by
  have ends : (fifteenPages.runCalls splitCalls).map (fun s => (s.live, s.headOf 1)) =
      some ([⟨4096, 4096⟩], some 8192) := by
    decide +kernel
  obtain ⟨sys', ran, values⟩ := Option.map_eq_some_iff.mp ends
  obtain ⟨live, head⟩ := Prod.mk.inj values
  obtain ⟨trace, run⟩ := run_of_runCalls splitCalls _ _ ran
  exact ⟨sys', ran, live, head, memory_partitioned 4096 65536 (by decide) (by decide) (by decide)
    fifteenPages sys' trace ⟨rfl, rfl⟩ run⟩

end System

end Jangri
