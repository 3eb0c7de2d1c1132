import Jangri.Hal.PageTable

namespace Jangri

open Lib

/-- The two callbacks, and the stack address that `PageAlreadyMapped` reports as `pt` (the code
takes the address of its own parameter). -/
structure Riscv (σ : Type) where
  allocate : Nat → Fallible σ Nat
  deallocate : Nat → Nat → Stateful σ Unit
  parameterAddress : Nat

namespace Riscv

variable {σ : Type} [HasMemory σ]

def mapPages (self : Riscv σ) (pageTable : Nat) (read write execute user : Bool) :
    (pages va pa : Nat) → Fallible σ Unit
  | 0, _, _ => pure ()
  | pages + 1, va, pa => do
      let address ← getPageTableEntryAddress self.allocate pageTable va true
      let entry ← (readEntry address : Stateful σ PageTableEntry)
      if entry.isValid then throw (Error.pageAlreadyMapped va self.parameterAddress)
      else
        (writeEntry address (entry.leafFor pa read write execute user) : Stateful σ Unit)
        let pa ← (liftRust (usizeAdd pa pageSize) : Stateful σ Nat)
        mapPages self pageTable read write execute user pages ((va + pageSize) % usizeBound) pa

def map (self : Riscv σ) (pageTable va pa size : Nat) (read write execute user : Bool) :
    Fallible σ Unit :=
  if va % pageSize ≠ 0 then throw (Error.virtualAddressMisaligned va)
  else if size % pageSize ≠ 0 then throw (Error.sizeMisaligned size)
  else if size = 0 then throw Error.zeroSize
  else self.mapPages pageTable read write execute user (size / pageSize) va pa

/-- The loop of `unmap`. Entries that are valid are skipped, the others are cleared. -/
def unmapPages (self : Riscv σ) (pageTable : Nat) (deallocate : Bool) :
    (pages va : Nat) → Stateful σ Unit
  | 0, _ => pure ()
  | pages + 1, va => do
      match ← (getPageTableEntryAddress self.allocate pageTable va false).run with
      | .ok address =>
          let entry ← (readEntry address : Stateful σ PageTableEntry)
          if entry.isValid then pure ()
          else
            if deallocate then self.deallocate entry.getPhysicalAddress pageSize
            writeEntry address entry.clearBits
      | .error _ => pure ()
      unmapPages self pageTable deallocate pages (va + pageSize)

def unmap (self : Riscv σ) (pageTable va numPages : Nat) (deallocate : Bool) :
    Fallible σ Unit := do
  let bytes ← (liftRust (usizeMul numPages pageSize) : Stateful σ Nat)
  let _ ← (liftRust (usizeAdd va bytes) : Stateful σ Nat)
  self.unmapPages pageTable deallocate numPages va

def va2pa (self : Riscv σ) (pageTable va : Nat) : Fallible σ Nat := do
  let alignedVa := va / pageSize * pageSize
  let offset := va % pageSize
  let address ← getPageTableEntryAddress self.allocate pageTable alignedVa false
  let entry ← (readEntry address : Stateful σ PageTableEntry)
  if ¬ entry.isValid then throw (Error.noSuchVirtualAddress va pageTable)
  else (liftRust (usizeAdd entry.getPhysicalAddress offset) : Stateful σ Nat)

def cleanEntries (recurse : Nat → Stateful σ Unit) (pageTable : Nat) :
    (entries index : Nat) → Stateful σ Unit
  | 0, _ => pure ()
  | entries + 1, index => do
      let address := entryAddress pageTable index
      let entry ← (readEntry address : Stateful σ PageTableEntry)
      if entry.isValid then
        if ¬ entry.readable ∧ ¬ entry.writeable ∧ ¬ entry.executable then
          recurse entry.getPhysicalAddress
        let entry ← (readEntry address : Stateful σ PageTableEntry)
        writeEntry address entry.clearBits
      cleanEntries recurse pageTable entries (index + 1)

/-- `recursive_clean` has no level counter; `depth` bounds the nesting of its calls. -/
def recursiveClean (self : Riscv σ) : (depth pageTable : Nat) → Stateful σ Unit
  | 0, _ => halt .diverge
  | depth + 1, pageTable => do
      cleanEntries (recursiveClean self depth) pageTable numberOfPageTableEntriesPerPage 0
      self.deallocate pageTable pageSize

/-- Each nested call takes stack space, so `usizeBound` of them never fit. -/
def cleanUpPageTable (self : Riscv σ) (pageTable : Nat) : Fallible σ Unit :=
  liftM (self.recursiveClean usizeBound pageTable)

end Riscv

end Jangri
