import Jangri.Arch.Pte
import Jangri.Lib.Memory

/-! Page tables in memory and the four-level walk of the `hal` crate.

The code is generic in the state it runs on: any state that has a physical memory will do. A
function returning `Result` runs in `Fallible`, where `?` is the bind and an `Err` keeps the
state; a panic keeps nothing. -/

namespace Jangri

open Lib

class HasMemory (σ : Type) where
  memory : σ → Memory
  setMemory : σ → Memory → σ
  memory_setMemory : ∀ s m, memory (setMemory s m) = m

export HasMemory (memory setMemory memory_setMemory)

attribute [simp] memory_setMemory

abbrev Stateful (σ : Type) := StateT σ Rust

abbrev Fallible (σ : Type) := ExceptT Error (Stateful σ)

def halt {σ α : Type} (reason : Halt) : Stateful σ α := fun _ => .error reason

def liftRust {σ α : Type} (x : Rust α) : Stateful σ α := fun s => x.map fun a => (a, s)

section Entries

variable {σ : Type} [HasMemory σ]

def entryAddress (table index : Nat) : Nat := table + 8 * index

def loadEntry (m : Memory) (addr : Nat) : PageTableEntry := ⟨m.read addr 8⟩

def storeEntry (m : Memory) (addr : Nat) (entry : PageTableEntry) : Memory :=
  m.write addr 8 entry.bits

def readEntry (addr : Nat) : Stateful σ PageTableEntry := fun s =>
  .ok (loadEntry (memory s) addr, s)

def writeEntry (addr : Nat) (entry : PageTableEntry) : Stateful σ Unit := fun s =>
  .ok ((), setMemory s (storeEntry (memory s) addr entry))

def levelToIndex (level va : Nat) : Nat := (va >>> (12 + level * 9)) &&& 0b111111111

def walk (allocate : Nat → Fallible σ Nat) (va : Nat) (shouldAllocate : Bool) :
    (level pageTable : Nat) → Fallible σ Nat
  | 0, pageTable => pure (entryAddress pageTable (levelToIndex 0 va))
  | level + 1, pageTable => do
      let address := entryAddress pageTable (levelToIndex (level + 1) va)
      let entry ← (readEntry address : Stateful σ PageTableEntry)
      if entry.isValid then
        walk allocate va shouldAllocate level entry.getPhysicalAddress
      else if shouldAllocate then
        let page ← allocate pageSize
        let entry ← (readEntry address : Stateful σ PageTableEntry)
        (writeEntry address (entry.pointerTo page) : Stateful σ Unit)
        walk allocate va shouldAllocate level page
      else
        throw (Error.noSuchVirtualAddress va pageTable)

def getPageTableEntryAddress (allocate : Nat → Fallible σ Nat) (pageTable va : Nat)
    (shouldAllocate : Bool) : Fallible σ Nat :=
  if va > maxVa then throw (Error.virtualAddressOverflow va)
  else walk allocate va shouldAllocate (numberOfLevels - 1) pageTable

end Entries

end Jangri
