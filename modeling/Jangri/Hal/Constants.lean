import Jangri.Rust

namespace Jangri

def pageSize : Nat := 0x1000

def numberOfPageTableEntriesPerPage : Nat := 512

def maxVa : Nat := 0xffffffffffffffff

def numberOfLevels : Nat := 4

def trampoline : Nat := 0xfffffffffffff000

def trapframeVa : Nat := trampoline - 2 * pageSize

def kucomPage : Nat := trapframeVa - 2 * pageSize

def stackStart : Nat := kucomPage - pageSize - 8 * pageSize

def stackGuard : Nat := stackStart - pageSize

def stackPages : Nat := 8

inductive Error
  | pageAlreadyMapped (va pt : Nat)
  | noSuchVirtualAddress (va pt : Nat)
  | virtualAddressOverflow (va : Nat)
  | virtualAddressMisaligned (va : Nat)
  | sizeMisaligned (size : Nat)
  | zeroSize
  | memoryNotAvailable
  | notASyscall
  | elfError
  | explicitPanic
  | beyondAllocationLimit
  | architectureError
  deriving DecidableEq, Repr

def Error.debug : Error → String
  | pageAlreadyMapped va pt =>
      "PageAlreadyMapped \x7b va: " ++ toString va ++ ", pt: " ++ toString pt ++ " \x7d"
  | noSuchVirtualAddress va pt =>
      "NoSuchVirtualAddress \x7b va: " ++ toString va ++ ", pt: " ++ toString pt ++ " \x7d"
  | virtualAddressOverflow va => "VirtualAddressOverflow(" ++ toString va ++ ")"
  | virtualAddressMisaligned va => "VirtualAddressMisaligned(" ++ toString va ++ ")"
  | sizeMisaligned size => "SizeMisaligned(" ++ toString size ++ ")"
  | zeroSize => "ZeroSize"
  | memoryNotAvailable => "MemoryNotAvailable"
  | notASyscall => "NotASyscall"
  | elfError => "ELFError"
  | explicitPanic => "ExplicitPanic"
  | beyondAllocationLimit => "BeyondAllocationLimit"
  | architectureError => "ArchitectureError"

def alignToPageSize (size : Nat) : Rust Nat :=
  let offset := size % pageSize
  let base := size / pageSize
  if offset = 0 then usizeMul base pageSize else usizeMul (base + 1) pageSize

theorem alignToPageSize_spec (size aligned : Nat) (returned : alignToPageSize size = .ok aligned) :
    size ≤ aligned ∧ aligned < size + pageSize ∧ aligned % pageSize = 0 ∧
      aligned < usizeBound := by
  simp only [alignToPageSize] at returned
  split at returned
  · obtain ⟨bound, rfl⟩ := (usizeMul_eq_ok _ _ _).mp returned
    refine ⟨?_, ?_, ?_, bound⟩ <;> simp only [pageSize] at * <;> omega
  · obtain ⟨bound, rfl⟩ := (usizeMul_eq_ok _ _ _).mp returned
    refine ⟨?_, ?_, ?_, bound⟩ <;> simp only [pageSize] at * <;> omega

end Jangri
