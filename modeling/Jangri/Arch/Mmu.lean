import Jangri.Arch.Hardware
import Jangri.Arch.Trampoline

/-! The memory management unit of a hart that runs the kernel and its processes.

It finds the leaf of a page in the tree that `map` builds, and checks what the leaf allows. Physical
addresses have 64 bits, as they have in the kernel, so `satp` has room for the root and none for an
address space identifier. The accessed and dirty bits, which hardware may set on its own, are left
out. -/

namespace Jangri

open Lib Lib.Rv64

namespace Sv48

def allows (entry : PageTableEntry) : Access → Bool
  | .fetch => entry.executable
  | .load => entry.readable
  | .store => entry.writeable

/-- User mode is kept to user pages and the supervisor, which never sets `SUM`, to all others. -/
def permits (entry : PageTableEntry) (privilege : Privilege) (access : Access) : Bool :=
  entry.userModeAccessible == decide (privilege = .user) && allows entry access

def rootOf (satp : Word) : Nat := satp.toNat % 2 ^ 60 * 4096

def mmu : Mmu := fun m satp privilege access va =>
  if satp.toNat / 2 ^ 60 = 9 then
    (leafAt m (rootOf satp) va.toNat).bind fun entry =>
      if Canonical va.toNat ∧ permits entry privilege access = true then
        some (entry.getPhysicalAddress + va.toNat % pageSize)
      else none
  else if satp.toNat / 2 ^ 60 = 0 then some va.toNat
  else none

def satpFor (root : Nat) : Word := BitVec.ofNat 64 (9 <<< 60 ||| root >>> 12)

section Satp

variable {root : Nat}

theorem satpFor_toNat (bounded : root < usizeBound) :
    (satpFor root).toNat = 9 * 2 ^ 60 + root / 4096 := by
  have page : root >>> 12 < 2 ^ 60 := by
    rw [Nat.shiftRight_eq_div_pow]
    simp only [usizeBound] at bounded
    omega
  rw [satpFor, ← Nat.shiftLeft_add_eq_or_of_lt page, BitVec.toNat_ofNat, Nat.shiftLeft_eq,
    Nat.shiftRight_eq_div_pow, Nat.mod_eq_of_lt]
  rw [Nat.shiftRight_eq_div_pow] at page
  omega

theorem satpFor_mode (bounded : root < usizeBound) : (satpFor root).toNat / 2 ^ 60 = 9 := by
  have page : root / 4096 < 2 ^ 60 := by
    simp only [usizeBound] at bounded
    omega
  rw [satpFor_toNat bounded]
  omega

theorem rootOf_satpFor (bounded : root < usizeBound) (aligned : root % pageSize = 0) :
    rootOf (satpFor root) = root := by
  have page : root / 4096 < 2 ^ 60 := by
    simp only [usizeBound] at bounded
    omega
  rw [pageSize] at aligned
  rw [rootOf, satpFor_toNat bounded]
  omega

end Satp

section Translation

variable {m : Memory} {root : Nat} {privilege : Privilege} {access : Access} {va : Word}

theorem mmu_satpFor (bounded : root < usizeBound) (aligned : root % pageSize = 0) :
    mmu m (satpFor root) privilege access va =
      (leafAt m root va.toNat).bind fun entry =>
        if Canonical va.toNat ∧ permits entry privilege access = true then
          some (entry.getPhysicalAddress + va.toNat % pageSize)
        else none := by
  rw [mmu, if_pos (satpFor_mode bounded), rootOf_satpFor bounded aligned]

theorem window_of_leaf {fine : Memory → Prop} {entry : PageTableEntry} {size : Nat}
    (bounded : root < usizeBound) (aligned : root % pageSize = 0)
    (leaf : ∀ m, fine m → leafAt m root va.toNat = some entry)
    (permitted : permits entry .supervisor access = true) (canonical : Canonical va.toNat)
    (start : va.toNat % pageSize = 0) (inside : size ≤ pageSize) :
    Window mmu fine (satpFor root) access va entry.getPhysicalAddress size := by
  intro m sound i low
  have small := va.isLt
  rw [pageSize] at start inside
  have address : (va + BitVec.ofNat 64 i).toNat = va.toNat + i := by
    rw [BitVec.toNat_add, BitVec.toNat_ofNat]
    omega
  have samePage : vpn (va.toNat + i) = vpn va.toNat := by
    simp only [vpn]
    omega
  have stillCanonical : Canonical (va.toNat + i) := by
    simp only [Canonical] at canonical ⊢
    omega
  have offset : (va.toNat + i) % pageSize = i := by
    simp only [pageSize]
    omega
  rw [mmu_satpFor bounded aligned, address, leafAt_eq_of_vpn _ _ _ _ samePage, leaf m sound,
    Option.bind_some, if_pos ⟨stillCanonical, permitted⟩, offset]

theorem fetch_of_user (bounded : root < usizeBound) (aligned : root % pageSize = 0)
    (user : ∀ entry, leafAt m root va.toNat = some entry → entry.userModeAccessible = true) :
    mmu m (satpFor root) .supervisor .fetch va = none := by
  rw [mmu_satpFor bounded aligned]
  cases leaf : leafAt m root va.toNat with
  | none => rfl
  | some entry =>
      have refused : permits entry .supervisor .fetch = false := by
        rw [permits, user entry leaf]
        rfl
      rw [Option.bind_some, if_neg]
      rw [refused]
      exact fun both => Bool.false_ne_true both.2

end Translation

end Sv48

end Jangri
