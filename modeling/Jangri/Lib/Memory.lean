import Mathlib.Data.Set.Function
import Mathlib.Data.List.Basic
import Mathlib.Data.List.GetD
import Mathlib.Order.Interval.Set.Basic
import Mathlib.Tactic

/-! Byte-addressed memory with little-endian words, bulk fills and byte strings.

Every operation comes with two facts: what it stores, and the interval outside of which it
leaves memory alone. Frame arguments are stated with `Set.EqOn`. -/

namespace Lib

abbrev Memory := Nat → UInt8

namespace Memory

def read (m : Memory) (addr : Nat) : Nat → Nat
  | 0 => 0
  | width + 1 => (m addr).toNat + 256 * read m (addr + 1) width

def write (m : Memory) (addr width value : Nat) : Memory := fun x =>
  if addr ≤ x ∧ x < addr + width then UInt8.ofNat (value / 256 ^ (x - addr)) else m x

def fill (m : Memory) (addr count : Nat) (byte : UInt8) : Memory := fun x =>
  if addr ≤ x ∧ x < addr + count then byte else m x

def load (m : Memory) (addr count : Nat) : List UInt8 :=
  (List.range count).map fun i => m (addr + i)

def store (m : Memory) (addr : Nat) (bytes : List UInt8) : Memory := fun x =>
  if addr ≤ x ∧ x < addr + bytes.length then bytes.getD (x - addr) 0 else m x

theorem read_congr (m m' : Memory) (addr width : Nat)
    (same : Set.EqOn m m' (Set.Ico addr (addr + width))) :
    read m addr width = read m' addr width := by
  induction width generalizing addr with
  | zero => rfl
  | succ width ih =>
      have head : m addr = m' addr := same (Set.mem_Ico.mpr ⟨le_refl _, by omega⟩)
      have tail : read m (addr + 1) width = read m' (addr + 1) width := by
        apply ih
        intro x hx
        rw [Set.mem_Ico] at hx
        exact same (Set.mem_Ico.mpr ⟨by omega, by omega⟩)
      simp only [read, head, tail]

theorem read_zero (m : Memory) (addr width : Nat)
    (zero : ∀ x ∈ Set.Ico addr (addr + width), m x = 0) : read m addr width = 0 := by
  have blank : ∀ addr, read (fun _ => 0) addr width = 0 := by
    induction width with
    | zero => exact fun _ => rfl
    | succ width ih =>
        intro addr
        rw [read, ih fun x inside => zero x (by rw [Set.mem_Ico] at *; omega)]
        rfl
  rw [read_congr m (fun _ => 0) addr width zero, blank]

theorem write_eqOn (m : Memory) (addr width value : Nat) (region : Set Nat)
    (apart : ∀ x ∈ region, x < addr ∨ addr + width ≤ x) :
    Set.EqOn (write m addr width value) m region := by
  intro x hx
  have := apart x hx
  exact if_neg (by omega)

theorem read_write_same (m : Memory) (addr width value : Nat) (small : value < 256 ^ width) :
    read (write m addr width value) addr width = value := by
  induction width generalizing m addr value with
  | zero =>
      have : value = 0 := by simpa using small
      simp [read, this]
  | succ width ih =>
      have tail : read (write m addr (width + 1) value) (addr + 1) width = value / 256 := by
        rw [read_congr _ (write m (addr + 1) width (value / 256))]
        · apply ih
          rw [Nat.div_lt_iff_lt_mul (by decide)]
          simpa [pow_succ] using small
        · intro x hx
          rw [Set.mem_Ico] at hx
          have shifted : value / 256 ^ (x - addr) = value / 256 / 256 ^ (x - (addr + 1)) := by
            rw [Nat.div_div_eq_div_mul, ← pow_succ']
            congr 2
            omega
          simp only [write]
          rw [if_pos (by omega), if_pos (by omega), shifted]
      have head : (write m addr (width + 1) value addr).toNat = value % 256 := by
        simp [write]
      rw [read, tail, head]
      omega

theorem write_mod (m : Memory) (addr width value : Nat) :
    write m addr width (value % 256 ^ width) = write m addr width value := by
  funext x
  unfold write
  split
  next inside =>
    have width_ : width = (x - addr) + (width - (x - addr)) := by omega
    have byte : 256 ∣ 256 ^ (width - (x - addr)) := dvd_pow_self 256 (by omega)
    apply UInt8.toNat_inj.mp
    rw [UInt8.toNat_ofNat', UInt8.toNat_ofNat']
    calc
      _ = value / 256 ^ (x - addr) % 256 ^ (width - (x - addr)) % 256 := by
        conv_lhs => rw [width_, pow_add, Nat.mod_mul_right_div_self]
      _ = value / 256 ^ (x - addr) % 256 := Nat.mod_mod_of_dvd _ byte
  next => rfl

theorem byte_of_read (m : Memory) (addr width i : Nat) (low : i < width) :
    UInt8.ofNat (read m addr width / 256 ^ i) = m (addr + i) := by
  induction width generalizing addr i with
  | zero => omega
  | succ width ih =>
      have byte : (m addr).toNat < 256 := (m addr).toNat_lt
      rw [read]
      cases i with
      | zero =>
          apply UInt8.toNat.inj
          simp
      | succ i =>
          have rest : ((m addr).toNat + 256 * read m (addr + 1) width) / 256 ^ (i + 1) =
              read m (addr + 1) width / 256 ^ i := by
            rw [pow_succ', ← Nat.div_div_eq_div_mul]
            congr 1
            omega
          rw [rest, ih (addr + 1) i (by omega)]
          congr 1
          omega

theorem write_self (m : Memory) (addr width : Nat) :
    write m addr width (read m addr width) = m := by
  funext x
  simp only [write]
  split
  next inside =>
    rw [byte_of_read m addr width (x - addr) (by omega), Nat.add_sub_cancel' inside.1]
  next => rfl

theorem read_write_apart (m : Memory) (addr width value addr' width' : Nat)
    (apart : addr' + width' ≤ addr ∨ addr + width ≤ addr') :
    read (write m addr width value) addr' width' = read m addr' width' := by
  apply read_congr
  apply write_eqOn
  intro x hx
  rw [Set.mem_Ico] at hx
  omega

theorem load_store (m : Memory) (addr : Nat) (bytes : List UInt8) :
    (m.store addr bytes).load addr bytes.length = bytes := by
  apply List.ext_getElem
  · simp [load]
  · intro i low high
    simp only [load, List.length_map, List.length_range] at low
    simp only [load, store, List.getElem_map, List.getElem_range]
    rw [if_pos (by omega), Nat.add_sub_cancel_left, List.getD_eq_getElem _ _ low]

theorem load_congr (m m' : Memory) (addr count : Nat)
    (same : ∀ x, addr ≤ x → x < addr + count → m' x = m x) : m'.load addr count = m.load addr count := by
  apply List.map_congr_left
  intro i member
  have low := List.mem_range.mp member
  exact same _ (by omega) (by omega)

theorem load_take (m : Memory) (addr count fewer : Nat) (less : fewer ≤ count) :
    (m.load addr count).take fewer = m.load addr fewer := by
  rw [load, ← List.map_take, List.take_range, min_eq_left less]
  rfl

theorem load_part (m : Memory) (addr : Nat) (bytes : List UInt8)
    (loaded : m.load addr bytes.length = bytes) (offset count : Nat)
    (inside : offset + count ≤ bytes.length) :
    m.load (addr + offset) count = (bytes.drop offset).take count := by
  have part : m.load (addr + offset) count =
      ((m.load addr bytes.length).drop offset).take count := by
    apply List.ext_getElem
    · simp only [load, List.length_map, List.length_range, List.length_take, List.length_drop]
      omega
    · intro i low high
      simp only [load, List.getElem_map, List.getElem_range, List.getElem_take, List.getElem_drop,
        Nat.add_assoc]
  rw [part, loaded]

end Memory

end Lib
