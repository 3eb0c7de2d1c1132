import Jangri.Allocator.Bitmap
import Jangri.Allocator.LinkedList
import Jangri.Hal.Constants

namespace Jangri

open Lib

def maxAlloc : Nat := 10485760

def numMultiples : Nat := 2560

structure PageAllocator where
  bitmaps : Bitmap
  memoryStart : Nat
  memoryEnd : Nat
  currentSize : Nat
  currentStart : Nat
  list : Fin numMultiples → LinkedList

structure Store where
  memory : Memory
  nodeId : Nat

/-- `generate_node_id`: an atomic `fetch_add` on a `u64`, which wraps. -/
def generateNodeId (store : Store) : Nat × Store :=
  (store.nodeId % usizeBound, { store with nodeId := (store.nodeId + 1) % usizeBound })

def nonNull (addr : Nat) : Rust Nat := unwrap (if addr = 0 then none else some addr)

namespace PageAllocator

def new (start stop : Nat) : Rust PageAllocator := do
  if start = 0 then panic (.message "start is NULL")
  let size ← expect "end must be greater than start" (if start ≤ stop then some (stop - start) else none)
  pure {
    bitmaps := Bitmap.new
    memoryStart := start
    memoryEnd := stop
    list := fun _ => { head := none }
    currentSize := size
    currentStart := start }

def getList (self : PageAllocator) (index : Nat) : Option LinkedList :=
  if h : index < numMultiples then some (self.list ⟨index, h⟩) else none

def setList (self : PageAllocator) (index : Nat) (list : LinkedList) : PageAllocator :=
  { self with list := fun i => if i.val = index then list else self.list i }

/-- The statements `allocate` (for a remainder) and `deallocate` share: write a node at the start
of the block, queue it under its size and mark that size available. -/
def release (self : PageAllocator) (store : Store) (start size : Nat) :
    Rust (PageAllocator × Store) := do
  let (id, store) := generateNodeId store
  let node ← Node.new none none size id
  let memory := writeNode store.memory start node
  let list ← unwrap (self.getList (size / pageSize - 1))
  let pointer ← nonNull start
  let (list, memory) ← list.pushFront memory pointer
  let bitmaps ← self.bitmaps.markAvailable (size / pageSize)
  pure ({ self.setList (size / pageSize - 1) list with bitmaps }, { store with memory })

/-- `if list.head.is_none() { self.bitmaps.mark_unavailable(multiple) }`: the argument is the
requested multiple, whichever class the block came from. -/
def bitmapsAfterPop (self : PageAllocator) (list : LinkedList) (multiple : Nat) : Rust Bitmap :=
  if list.head = none then self.bitmaps.markUnavailable multiple else pure self.bitmaps

def allocateFromList (self : PageAllocator) (store : Store) (multiple v : Nat) :
    Rust (Nat × PageAllocator × Store) := do
  let list ← unwrap (self.getList (v - 1))
  let (popped, list, memory) ← list.popFront store.memory
  let block ← unwrap popped
  let bitmaps ← self.bitmapsAfterPop list multiple
  let self := { self.setList (v - 1) list with bitmaps }
  if v = multiple then
    pure (block, self, { store with memory := memory.fill block (v * pageSize) 0 })
  else
    let needed := multiple * pageSize
    let notNeeded := v * pageSize - needed
    let notNeededAddr ← usizeAdd block needed
    let (self, store) ← self.release { store with memory } notNeededAddr notNeeded
    pure (block, self, { store with memory := store.memory.fill block needed 0 })

def allocate (self : PageAllocator) (store : Store) (size : Nat) :
    Rust (Option Nat × PageAllocator × Store) := do
  if size < pageSize then
    panic (.message
      s!"Allocation Error: Size ({size}) is less than minimum allocable size (4096)")
  assert (size % pageSize = 0) "size is not a multiple of PAGE_SIZE which is 4KiB"
  let multiple := size / pageSize
  match ← self.bitmaps.firstAvailable multiple with
  | some v =>
      let (block, self, store) ← self.allocateFromList store multiple v
      pure (some block, self, store)
  | none =>
      if self.currentStart < self.memoryEnd ∧ size < self.currentSize then
        let oldStart := self.currentStart
        let currentStart ← usizeAdd self.currentStart size
        let currentSize ← usizeSub self.currentSize size
        pure (some oldStart, { self with currentStart, currentSize },
          { store with memory := store.memory.fill oldStart size 0 })
      else pure (none, self, store)

def deallocate (self : PageAllocator) (store : Store) (start size : Nat) :
    Rust (PageAllocator × Store) := do
  assert (size % pageSize = 0) "assertion failed: size % PAGE_SIZE == 0"
  assert (size ≥ pageSize ∧ size ≤ maxAlloc)
    "assertion failed: size >= PAGE_SIZE && size <= MAX_ALLOC"
  self.release store start size

end PageAllocator

end Jangri
