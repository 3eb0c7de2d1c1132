import Jangri.Rust
import Mathlib.Tactic

namespace Jangri

def numMultiplesPerBitmap : Nat := 128

def numBitmaps : Nat := 2560 / numMultiplesPerBitmap

structure Bitmap where
  inner : Fin numBitmaps → BitVec 128

namespace Bitmap

def new : Bitmap := ⟨fun _ => 0#128⟩

def get (self : Bitmap) (index : Nat) : Option (BitVec 128) :=
  if h : index < numBitmaps then some (self.inner ⟨index, h⟩) else none

def set (self : Bitmap) (index : Nat) (word : BitVec 128) : Bitmap :=
  ⟨fun i => if i.val = index then word else self.inner i⟩

def mask (offset : Nat) : BitVec 128 := ((1 : BitVec 128) <<< 127) >>> offset

def markAvailable (self : Bitmap) (multiple : Nat) : Rust Bitmap := do
  assert (multiple ≠ 0) "assertion failed: multiple != 0"
  let multiple := multiple - 1
  let index := multiple / numMultiplesPerBitmap
  let offset := multiple % numMultiplesPerBitmap
  let bitmap ← expect "Multiple must be <= 2560" (self.get index)
  pure (self.set index (bitmap ||| mask offset))

def isAvailable (self : Bitmap) (multiple : Nat) : Rust Bool := do
  assert (multiple ≠ 0) "assertion failed: multiple != 0"
  let multiple := multiple - 1
  let index := multiple / numMultiplesPerBitmap
  let offset := multiple % numMultiplesPerBitmap
  let bitmap ← expect "Multiple must be <= 2560" (self.get index)
  pure (if bitmap &&& mask offset = 0#128 then false else true)

def markUnavailable (self : Bitmap) (multiple : Nat) : Rust Bitmap := do
  assert (multiple ≠ 0) "assertion failed: multiple != 0"
  let multiple := multiple - 1
  let index := multiple / numMultiplesPerBitmap
  let offset := multiple % numMultiplesPerBitmap
  let bitmap ← expect "Multiple must be <= 2560" (self.get index)
  pure (self.set index (bitmap &&& ~~~ mask offset))

def searchWord (word : BitVec 128) (offset : Nat) : Option Nat :=
  if word = 0#128 then none
  else (List.range' offset (128 - offset)).find? fun j => word &&& mask j ≠ 0#128

def searchFrom (self : Bitmap) : (remaining i offset : Nat) → Rust (Option Nat)
  | 0, _, _ => pure none
  | remaining + 1, i, offset => do
      let word ← unwrap (self.get i)
      match searchWord word offset with
      | some j => pure (some (i * numMultiplesPerBitmap + j + 1))
      | none => searchFrom self remaining (i + 1) 0

def firstAvailable (self : Bitmap) (multiple : Nat) : Rust (Option Nat) := do
  assert (multiple ≠ 0) "assertion failed: multiple != 0"
  let multiple := multiple - 1
  let index := multiple / numMultiplesPerBitmap
  let offset := multiple % numMultiplesPerBitmap
  self.searchFrom (numBitmaps - index) index offset

/-- Bit `position` of the whole map, counted from the most significant bit of word 0. -/
def bit (self : Bitmap) (position : Nat) : Bool :=
  match self.get (position / 128) with
  | some word => word.getMsbD (position % 128)
  | none => false

def Member (self : Bitmap) (multiple : Nat) : Prop := 0 < multiple ∧ self.bit (multiple - 1) = true

theorem mask_getMsbD (offset i : Nat) (low : offset < 128) (hi : i < 128) :
    (mask offset).getMsbD i = decide (i = offset) := by
  have one : ((1 : BitVec 128) <<< 127).getMsbD (i - offset) = decide (i - offset = 0) := by
    rw [BitVec.getMsbD_shiftLeft]
    have : ∀ k : Fin 128, BitVec.getMsbD (1#128) (k.val + 127) = decide (k.val = 0) := by
      decide
    exact this ⟨i - offset, by omega⟩
  rw [mask, BitVec.getMsbD_ushiftRight, one]
  by_cases h : i < offset
  · simp [h]
    omega
  · simp [h, hi]
    omega

theorem and_mask_eq_zero (word : BitVec 128) (offset : Nat) (low : offset < 128) :
    word &&& mask offset = 0#128 ↔ word.getMsbD offset = false := by
  constructor
  · intro zero
    have h := congrArg (fun w => BitVec.getMsbD w offset) zero
    simpa [BitVec.getMsbD_and, mask_getMsbD offset offset low low] using h
  · intro clear
    apply BitVec.eq_of_getMsbD_eq
    intro i hi
    rw [BitVec.getMsbD_and, mask_getMsbD offset i low hi]
    by_cases same : i = offset
    · simp [same, clear]
    · simp [same]

theorem get_eq_some (self : Bitmap) (index : Nat) (low : index < numBitmaps) :
    self.get index = some (self.inner ⟨index, low⟩) :=
  dif_pos low

theorem bit_set (self : Bitmap) (index position : Nat) (word : BitVec 128)
    (low : index < numBitmaps) :
    (self.set index word).bit position =
      if position / 128 = index then word.getMsbD (position % 128) else self.bit position := by
  unfold bit get set
  by_cases same : position / 128 = index
  · simp [same, low]
  · simp [same]

theorem bit_of_ge (self : Bitmap) (position : Nat) (high : 2560 ≤ position) :
    self.bit position = false := by
  have : ¬ position / 128 < numBitmaps := by
    simp only [numBitmaps, numMultiplesPerBitmap]
    omega
  simp [bit, get, this]

theorem Member.le (self : Bitmap) (multiple : Nat) (member : self.Member multiple) :
    multiple ≤ 2560 := by
  by_contra high
  have := self.bit_of_ge (multiple - 1) (by omega)
  simp_all [Member]

theorem not_member_new (multiple : Nat) : ¬ new.Member multiple := by
  rintro ⟨-, h⟩
  unfold bit get new at h
  split at h
  next word found =>
    split at found
    · cases found
      simp at h
    · cases found
  next => cases h

section InRange

variable (self : Bitmap) (multiple : Nat) (low : 0 < multiple) (high : multiple ≤ 2560)
include low high

private theorem index_lt : (multiple - 1) / 128 < numBitmaps := by
  simp only [numBitmaps, numMultiplesPerBitmap]
  omega

theorem isAvailable_spec :
    ∃ answer, self.isAvailable multiple = .ok answer ∧
      (answer = true ↔ self.Member multiple) := by
  have inside := index_lt multiple low high
  have offset : (multiple - 1) % 128 < 128 := Nat.mod_lt _ (by decide)
  refine ⟨(self.inner ⟨_, inside⟩).getMsbD ((multiple - 1) % 128), ?_, ?_⟩
  · have nonzero : multiple ≠ 0 := by omega
    simp only [isAvailable, numMultiplesPerBitmap, assert_of_true _ _ nonzero,
      self.get_eq_some _ inside, expect, pure_eq_ok, ok_bind, and_mask_eq_zero _ _ offset]
    cases (self.inner ⟨_, inside⟩).getMsbD ((multiple - 1) % 128) <;> simp
  · simp [Member, bit, self.get_eq_some _ inside, low]

theorem markAvailable_spec :
    ∃ bitmap, self.markAvailable multiple = .ok bitmap ∧
      ∀ k, bitmap.Member k ↔ k = multiple ∨ self.Member k := by
  have inside := index_lt multiple low high
  have nonzero : multiple ≠ 0 := by omega
  refine ⟨self.set ((multiple - 1) / 128)
    (self.inner ⟨_, inside⟩ ||| mask ((multiple - 1) % 128)), ?_, ?_⟩
  · simp [markAvailable, numMultiplesPerBitmap, nonzero, assert, self.get_eq_some _ inside, expect]
  · intro k
    simp only [Member, self.bit_set _ _ _ inside]
    split
    next same =>
      have old : self.bit (k - 1) = (self.inner ⟨_, inside⟩).getMsbD ((k - 1) % 128) := by
        simp [bit, same, self.get_eq_some _ inside]
      rw [BitVec.getMsbD_or, ← old,
        mask_getMsbD _ _ (Nat.mod_lt _ (by decide)) (Nat.mod_lt _ (by decide))]
      have place : 0 < k ∧ (k - 1) % 128 = (multiple - 1) % 128 ↔ k = multiple := by omega
      simp only [Bool.or_eq_true, decide_eq_true_eq, ← place]
      tauto
    next other =>
      constructor
      · exact Or.inr
      · rintro (rfl | member)
        · exact absurd rfl other
        · exact member

theorem markUnavailable_spec :
    ∃ bitmap, self.markUnavailable multiple = .ok bitmap ∧
      ∀ k, bitmap.Member k ↔ k ≠ multiple ∧ self.Member k := by
  have inside := index_lt multiple low high
  have nonzero : multiple ≠ 0 := by omega
  refine ⟨self.set ((multiple - 1) / 128)
    (self.inner ⟨_, inside⟩ &&& ~~~ mask ((multiple - 1) % 128)), ?_, ?_⟩
  · simp [markUnavailable, numMultiplesPerBitmap, nonzero, assert, self.get_eq_some _ inside,
      expect]
  · intro k
    simp only [Member, self.bit_set _ _ _ inside]
    split
    next same =>
      have old : self.bit (k - 1) = (self.inner ⟨_, inside⟩).getMsbD ((k - 1) % 128) := by
        simp [bit, same, self.get_eq_some _ inside]
      have small : (k - 1) % 128 < 128 := Nat.mod_lt _ (by decide)
      rw [BitVec.getMsbD_and, ← old, BitVec.getMsbD_not,
        mask_getMsbD _ _ (Nat.mod_lt _ (by decide)) small]
      simp only [small, decide_true, Bool.true_and, Bool.and_eq_true, Bool.not_eq_true',
        decide_eq_false_iff_not]
      have place : 0 < k ∧ (k - 1) % 128 = (multiple - 1) % 128 ↔ k = multiple := by omega
      rw [Ne, ← place]
      tauto
    next other =>
      constructor
      · rintro ⟨positive, member⟩
        exact ⟨by rintro rfl; exact other rfl, positive, member⟩
      · exact And.right

end InRange

theorem searchWord_some (word : BitVec 128) (offset j : Nat) (found : searchWord word offset = some j) :
    offset ≤ j ∧ j < 128 ∧ word.getMsbD j = true ∧
      ∀ k, offset ≤ k → k < j → word.getMsbD k = false := by
  unfold searchWord at found
  split at found
  · cases found
  · rw [List.find?_range'_eq_some] at found
    obtain ⟨hit, inside, before⟩ := found
    rw [List.mem_range'_1] at inside
    have bound : j < 128 := by omega
    refine ⟨inside.1, bound, ?_, ?_⟩
    · simpa [and_mask_eq_zero word j bound] using hit
    · intro k low high
      simpa [and_mask_eq_zero word k (by omega)] using before k low high

theorem searchWord_none (word : BitVec 128) (offset : Nat) (found : searchWord word offset = none)
    (k : Nat) (low : offset ≤ k) (high : k < 128) : word.getMsbD k = false := by
  unfold searchWord at found
  split at found
  next zero => simp [zero]
  · rw [List.find?_range'_eq_none] at found
    simpa [and_mask_eq_zero word k high] using found k low (by omega)

theorem searchFrom_spec (self : Bitmap) (remaining i offset : Nat) (last : i + remaining = numBitmaps)
    (small : offset < 128) :
    ∃ answer, self.searchFrom remaining i offset = .ok answer ∧
      (∀ v, answer = some v → i * 128 + offset < v ∧ self.bit (v - 1) = true ∧
        ∀ p, i * 128 + offset ≤ p → p + 1 < v → self.bit p = false) ∧
      (answer = none → ∀ p, i * 128 + offset ≤ p → self.bit p = false) := by
  induction remaining generalizing i offset with
  | zero =>
      refine ⟨none, rfl, by simp, fun _ p low => self.bit_of_ge p ?_⟩
      simp only [numBitmaps, numMultiplesPerBitmap] at last
      omega
  | succ remaining ih =>
      have inside : i < numBitmaps := by omega
      have bits : ∀ p, i * 128 + offset ≤ p → p < (i + 1) * 128 →
          self.bit p = (self.inner ⟨i, inside⟩).getMsbD (p - i * 128) := by
        intro p low high
        have index : p / 128 = i := by omega
        have place : p % 128 = p - i * 128 := by omega
        simp [bit, index, self.get_eq_some i inside, place]
      simp only [searchFrom, self.get_eq_some i inside, unwrap, pure_eq_ok, ok_bind]
      cases found : searchWord (self.inner ⟨i, inside⟩) offset with
      | some j =>
          obtain ⟨low, high, hit, before⟩ := searchWord_some _ _ _ found
          refine ⟨_, rfl, ?_, by simp⟩
          rintro v ⟨⟩
          simp only [numMultiplesPerBitmap]
          refine ⟨by omega, ?_, fun p hp hv => ?_⟩
          · rw [Nat.add_sub_cancel, bits _ (by omega) (by omega)]
            simpa using hit
          · rw [bits p hp (by omega)]
            exact before _ (by omega) (by omega)
      | none =>
          have clear := searchWord_none _ _ found
          obtain ⟨answer, run, onSome, onNone⟩ := ih (i + 1) 0 (by omega) (by decide)
          have skipped : ∀ p, i * 128 + offset ≤ p → p < (i + 1) * 128 → self.bit p = false := by
            intro p low high
            rw [bits p low high]
            exact clear _ (by omega) (by omega)
          refine ⟨answer, run, fun v hv => ?_, fun hn p low => ?_⟩
          · obtain ⟨above, hit, before⟩ := onSome v hv
            refine ⟨by omega, hit, fun p low high => ?_⟩
            by_cases here : p < (i + 1) * 128
            · exact skipped p low here
            · exact before p (by omega) high
          · by_cases here : p < (i + 1) * 128
            · exact skipped p low here
            · exact onNone hn p (by omega)

/-- `first_available` is the least member at or above its argument. -/
theorem firstAvailable_spec (self : Bitmap) (multiple : Nat) (low : 0 < multiple) :
    ∃ answer, self.firstAvailable multiple = .ok answer ∧
      (∀ v, answer = some v → multiple ≤ v ∧ self.Member v ∧
        ∀ k, multiple ≤ k → k < v → ¬ self.Member k) ∧
      (answer = none → ∀ k, multiple ≤ k → ¬ self.Member k) := by
  have nonzero : multiple ≠ 0 := by omega
  by_cases high : (multiple - 1) / 128 < numBitmaps
  · obtain ⟨answer, run, onSome, onNone⟩ := self.searchFrom_spec
      (numBitmaps - (multiple - 1) / 128) ((multiple - 1) / 128) ((multiple - 1) % 128)
      (by omega) (Nat.mod_lt _ (by decide))
    have start : (multiple - 1) / 128 * 128 + (multiple - 1) % 128 = multiple - 1 := by omega
    rw [start] at onSome onNone
    refine ⟨answer, ?_, fun v hv => ?_, fun hn k hk member => ?_⟩
    · simpa [firstAvailable, nonzero, assert, numMultiplesPerBitmap] using run
    · obtain ⟨above, hit, before⟩ := onSome v hv
      refine ⟨by omega, ⟨by omega, hit⟩, fun k hk kv member => ?_⟩
      have clear := before (k - 1) (by omega) (by omega)
      exact absurd member.2 (by simp [clear])
    · have clear := onNone hn (k - 1) (by omega)
      exact absurd member.2 (by simp [clear])
  · have empty : numBitmaps - (multiple - 1) / 128 = 0 := by omega
    refine ⟨none, ?_, by simp, fun _ k hk member => ?_⟩
    · simp [firstAvailable, nonzero, assert, numMultiplesPerBitmap, empty, searchFrom]
    · have := Member.le self k member
      simp only [numBitmaps, numMultiplesPerBitmap] at high
      omega

end Bitmap

end Jangri
