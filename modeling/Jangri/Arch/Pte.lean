import Jangri.Hal.Constants
import Mathlib.Data.Nat.Bitwise
import Mathlib.Tactic

namespace Jangri

structure PageTableEntry where
  bits : Nat
  deriving DecidableEq, Repr

namespace PageTableEntry

def user : Nat := 1 <<< 4

def execute : Nat := 1 <<< 3

def write : Nat := 1 <<< 2

def read : Nat := 1 <<< 1

def valid : Nat := 1

def setBit (src target : Nat) : Nat := target ||| src

def setUserMode (self : PageTableEntry) : PageTableEntry := ⟨setBit user self.bits⟩

def setWrite (self : PageTableEntry) : PageTableEntry := ⟨setBit write self.bits⟩

def setRead (self : PageTableEntry) : PageTableEntry := ⟨setBit read self.bits⟩

def setExecute (self : PageTableEntry) : PageTableEntry := ⟨setBit execute self.bits⟩

def setValid (self : PageTableEntry) : PageTableEntry := ⟨setBit valid self.bits⟩

def isValid (self : PageTableEntry) : Bool := self.bits &&& valid == 1

/-- Shifting a `usize` left drops the bits that leave it. -/
def getPhysicalAddress (self : PageTableEntry) : Nat := (self.bits >>> 10) <<< 12 % usizeBound

def setPhysicalAddress (self : PageTableEntry) (pa : Nat) : PageTableEntry :=
  ⟨self.bits ||| ((pa >>> 12) <<< 10) % usizeBound⟩

def clearBits (_ : PageTableEntry) : PageTableEntry := ⟨0⟩

def readable (self : PageTableEntry) : Bool := self.bits &&& read != 0

def writeable (self : PageTableEntry) : Bool := self.bits &&& write != 0

def executable (self : PageTableEntry) : Bool := self.bits &&& execute != 0

def userModeAccessible (self : PageTableEntry) : Bool := self.bits &&& user != 0

def pointerTo (self : PageTableEntry) (page : Nat) : PageTableEntry :=
  (self.setPhysicalAddress page).setValid

def leafFor (self : PageTableEntry) (pa : Nat) (r w x u : Bool) : PageTableEntry :=
  let entry := (self.setPhysicalAddress pa).setValid
  let entry := if r then entry.setRead else entry
  let entry := if w then entry.setWrite else entry
  let entry := if x then entry.setExecute else entry
  if u then entry.setUserMode else entry

def flags (r w x u : Bool) : Nat := 1 + 2 * r.toNat + 4 * w.toNat + 8 * x.toNat + 16 * u.toNat

theorem flags_lt (r w x u : Bool) : flags r w x u < 32 := by
  revert r w x u
  decide

theorem flags_small (r w x u : Bool) : flags r w x u < 1024 :=
  lt_trans (flags_lt r w x u) (by decide)

def pack (pa flags : Nat) : PageTableEntry := ⟨pa / 4096 * 1024 + flags⟩

theorem shifted_page (pa : Nat) (bounded : pa < usizeBound) :
    ((pa >>> 12) <<< 10) % usizeBound = pa / 4096 * 1024 := by
  rw [Nat.shiftRight_eq_div_pow, Nat.shiftLeft_eq]
  apply Nat.mod_eq_of_lt
  simp only [usizeBound] at *
  omega

theorem or_flags (page low : Nat) (small : low < 1024) :
    page * 1024 ||| low = page * 1024 + low := by
  have := Nat.shiftLeft_add_eq_or_of_lt (i := 10) small page
  rw [Nat.shiftLeft_eq] at this
  exact this.symm

theorem pointerTo_zero (page : Nat) (bounded : page < usizeBound) :
    pointerTo ⟨0⟩ page = pack page 1 := by
  simp only [pointerTo, setPhysicalAddress, setValid, setBit, valid, pack, Nat.zero_or,
    shifted_page page bounded, or_flags _ 1 (by decide)]

theorem leafFor_zero (pa : Nat) (bounded : pa < usizeBound) (r w x u : Bool) :
    leafFor ⟨0⟩ pa r w x u = pack pa (flags r w x u) := by
  have step : ∀ low bit : Nat, low < 1024 → low ||| bit < 1024 → (pa / 4096 * 1024 + low) ||| bit =
      pa / 4096 * 1024 + (low ||| bit) := by
    intro low bit small both
    rw [← or_flags _ low small, Nat.or_assoc, or_flags _ _ both]
  cases r <;> cases w <;> cases x <;> cases u <;>
    simp [leafFor, setPhysicalAddress, setValid, setRead, setWrite, setExecute, setUserMode, setBit,
      valid, read, write, execute, user, pack, flags, shifted_page pa bounded,
      or_flags _ 1 (by decide), step]

section Packed

variable (pa low : Nat) (small : low < 1024)
include small

omit small in
theorem isValid_pack : (pack pa low).isValid = true ↔ low % 2 = 1 := by
  simp only [isValid, pack, valid, beq_iff_eq, Nat.and_one_is_mod]
  omega

theorem getPhysicalAddress_pack (bounded : pa < usizeBound) :
    (pack pa low).getPhysicalAddress = pa / 4096 * 4096 := by
  have page : (pa / 4096 * 1024 + low) / 1024 = pa / 4096 := by omega
  rw [getPhysicalAddress, pack, Nat.shiftRight_eq_div_pow, Nat.shiftLeft_eq]
  simp only
  rw [show (2 : Nat) ^ 10 = 1024 by rfl, page, show (2 : Nat) ^ 12 = 4096 by rfl]
  apply Nat.mod_eq_of_lt
  omega

theorem flags_pack : (pack pa low).bits % 1024 = low := by
  simp only [pack]
  omega

end Packed

theorem flag_iff (entry : PageTableEntry) (bit : Nat) :
    (entry.bits &&& 1 <<< bit != 0) = entry.bits.testBit bit := by
  rw [Nat.shiftLeft_eq, Nat.one_mul, Nat.and_two_pow]
  cases entry.bits.testBit bit <;> simp

theorem readable_eq (entry : PageTableEntry) : entry.readable = entry.bits.testBit 1 :=
  entry.flag_iff 1

theorem writeable_eq (entry : PageTableEntry) : entry.writeable = entry.bits.testBit 2 :=
  entry.flag_iff 2

theorem executable_eq (entry : PageTableEntry) : entry.executable = entry.bits.testBit 3 :=
  entry.flag_iff 3

theorem userModeAccessible_eq (entry : PageTableEntry) :
    entry.userModeAccessible = entry.bits.testBit 4 :=
  entry.flag_iff 4

theorem isValid_leaf (pa : Nat) (r w x u : Bool) : (pack pa (flags r w x u)).isValid = true := by
  rw [isValid_pack]
  simp only [flags]
  omega

theorem pointer_rights {entry : PageTableEntry} (bare : entry.bits % 1024 = 1) :
    entry.readable = false ∧ entry.writeable = false ∧ entry.executable = false := by
  rw [readable_eq, writeable_eq, executable_eq]
  simp only [Nat.testBit_eq_decide_div_mod_eq, decide_eq_false_iff_not]
  omega

theorem permissions_pack (pa : Nat) (r w x u : Bool) :
    (pack pa (flags r w x u)).readable = r ∧ (pack pa (flags r w x u)).writeable = w ∧
      (pack pa (flags r w x u)).executable = x ∧ (pack pa (flags r w x u)).userModeAccessible = u := by
  have low := flags_pack pa _ (flags_small r w x u)
  rw [readable_eq, writeable_eq, executable_eq, userModeAccessible_eq]
  simp only [Nat.testBit_eq_decide_div_mod_eq]
  generalize (pack pa (flags r w x u)).bits = bits at low
  cases r <;> cases w <;> cases x <;> cases u <;> simp [flags] at low ⊢ <;> omega

end PageTableEntry

end Jangri
