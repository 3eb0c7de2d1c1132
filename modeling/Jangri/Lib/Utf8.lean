import Mathlib.Data.List.GetD
import Mathlib.Tactic

namespace Lib

namespace Utf8

def encode (v : Nat) : List UInt8 :=
  if v ≤ 0x7f then [UInt8.ofNat v]
  else if v ≤ 0x7ff then [UInt8.ofNat (v / 64 % 0x20 + 0xc0), UInt8.ofNat (v % 0x40 + 0x80)]
  else if v ≤ 0xffff then
    [UInt8.ofNat (v / 4096 % 0x10 + 0xe0), UInt8.ofNat (v / 64 % 0x40 + 0x80),
      UInt8.ofNat (v % 0x40 + 0x80)]
  else
    [UInt8.ofNat (v / 262144 % 0x08 + 0xf0), UInt8.ofNat (v / 4096 % 0x40 + 0x80),
      UInt8.ofNat (v / 64 % 0x40 + 0x80), UInt8.ofNat (v % 0x40 + 0x80)]

theorem utf8EncodeChar_eq (c : Char) : String.utf8EncodeChar c = encode c.toNat := rfl

theorem toNat_ofNat (v : Nat) (valid : v.isValidChar) : (Char.ofNat v).toNat = v := by
  rw [Char.ofNat, dif_pos valid]
  rfl

theorem encode_one (v : Nat) (high : v ≤ 0x7f) : encode v = [UInt8.ofNat v] := if_pos high

theorem encode_two (v : Nat) (low : 0x7f < v) (high : v ≤ 0x7ff) : encode v =
    [UInt8.ofNat (v / 64 % 0x20 + 0xc0), UInt8.ofNat (v % 0x40 + 0x80)] := by
  rw [encode, if_neg (by omega), if_pos high]

theorem encode_three (v : Nat) (low : 0x7ff < v) (high : v ≤ 0xffff) : encode v =
    [UInt8.ofNat (v / 4096 % 0x10 + 0xe0), UInt8.ofNat (v / 64 % 0x40 + 0x80),
      UInt8.ofNat (v % 0x40 + 0x80)] := by
  rw [encode, if_neg (by omega), if_neg (by omega), if_pos high]

theorem encode_four (v : Nat) (low : 0xffff < v) : encode v =
    [UInt8.ofNat (v / 262144 % 0x08 + 0xf0), UInt8.ofNat (v / 4096 % 0x40 + 0x80),
      UInt8.ofNat (v / 64 % 0x40 + 0x80), UInt8.ofNat (v % 0x40 + 0x80)] := by
  rw [encode, if_neg (by omega), if_neg (by omega), if_neg (by omega)]

/-- Different bytes, and next to each other unless both are part of longer code points. -/
structure Swapped (a b : UInt8) : Prop where
  different : a ≠ b
  near : a.toNat + 1 = b.toNat ∨ b.toNat + 1 = a.toNat ∨ 128 ≤ a.toNat ∧ 128 ≤ b.toNat

theorem swapped_ofNat (a b : Nat) (smallA : a < 256) (smallB : b < 256) (different : a ≠ b)
    (near : a + 1 = b ∨ b + 1 = a ∨ 128 ≤ a ∧ 128 ≤ b) :
    Swapped (UInt8.ofNat a) (UInt8.ofNat b) := by
  have valueA : (UInt8.ofNat a).toNat = a := by
    rw [UInt8.toNat_ofNat']
    exact Nat.mod_eq_of_lt smallA
  have valueB : (UInt8.ofNat b).toNat = b := by
    rw [UInt8.toNat_ofNat']
    exact Nat.mod_eq_of_lt smallB
  constructor
  · intro same
    rw [same, valueB] at valueA
    exact different valueA.symm
  · rw [valueA, valueB]
    exact near

def Neighbour (v k v' : Nat) : Prop :=
  v'.isValidChar ∧ ∃ new, encode v' = (encode v).set k new ∧ Swapped ((encode v).getD k 0) new

def flip (p v : Nat) : Nat := if v / p % 2 = 0 then v + p else v - p

theorem neighbour_one (v : Nat) (high : v ≤ 0x7f) : Neighbour v 0 (flip 1 v) := by
  have flipped : flip 1 v ≤ 0x7f ∧ (v + 1 = flip 1 v ∨ flip 1 v + 1 = v) := by
    simp only [flip]
    split <;> omega
  generalize flip 1 v = v' at flipped
  rcases flipped with ⟨small, near⟩
  refine ⟨Or.inl (by omega), UInt8.ofNat v', ?_, ?_⟩
  · rw [encode_one v high, encode_one v' small]
    rfl
  · rw [encode_one v high]
    apply swapped_ofNat <;> omega

theorem neighbour_two (v k : Nat) (low : 0x7f < v) (high : v ≤ 0x7ff) (inside : k < 2) :
    ∃ v', Neighbour v k v' := by
  have cases_ : k = 0 ∨ k = 1 := by omega
  rcases cases_ with rfl | rfl
  · have flipped : 0x7f < flip 64 v ∧ flip 64 v ≤ 0x7ff ∧ flip 64 v % 64 = v % 64 ∧
        flip 64 v / 64 ≠ v / 64 := by
      simp only [flip]
      split <;> omega
    generalize flip 64 v = v' at flipped
    rcases flipped with ⟨low', high', tail, head⟩
    refine ⟨v', Or.inl (by omega), UInt8.ofNat (v' / 64 % 0x20 + 0xc0), ?_, ?_⟩
    · rw [encode_two v low high, encode_two v' low' high', tail]
      rfl
    · rw [encode_two v low high]
      apply swapped_ofNat <;> omega
  · have flipped : 0x7f < flip 1 v ∧ flip 1 v ≤ 0x7ff ∧ flip 1 v / 64 = v / 64 ∧
        flip 1 v % 64 ≠ v % 64 := by
      simp only [flip]
      split <;> omega
    generalize flip 1 v = v' at flipped
    rcases flipped with ⟨low', high', head, tail⟩
    refine ⟨v', Or.inl (by omega), UInt8.ofNat (v' % 0x40 + 0x80), ?_, ?_⟩
    · rw [encode_two v low high, encode_two v' low' high', head]
      rfl
    · rw [encode_two v low high]
      apply swapped_ofNat <;> omega

def lead (p v : Nat) : Nat := if v / p = 1 then v % p + 2 * p else v % p + p

theorem neighbour_three (v k : Nat) (valid : v.isValidChar) (low : 0x7ff < v) (high : v ≤ 0xffff)
    (inside : k < 3) : ∃ v', Neighbour v k v' := by
  have range : v < 0xd800 ∨ 0xdfff < v ∧ v < 0x110000 := valid
  have cases_ : k = 0 ∨ k = 1 ∨ k = 2 := by omega
  rcases cases_ with rfl | rfl | rfl
  · have led : 0x7ff < lead 4096 v ∧ lead 4096 v < 0xd800 ∧ lead 4096 v % 4096 = v % 4096 ∧
        lead 4096 v / 4096 ≠ v / 4096 := by
      simp only [lead]
      split <;> omega
    generalize lead 4096 v = v' at led
    rcases led with ⟨low', high', tail, head⟩
    have second : v' / 64 % 0x40 = v / 64 % 0x40 := by omega
    have third : v' % 0x40 = v % 0x40 := by omega
    refine ⟨v', Or.inl high', UInt8.ofNat (v' / 4096 % 0x10 + 0xe0), ?_, ?_⟩
    · rw [encode_three v low high, encode_three v' low' (by omega), second, third]
      rfl
    · rw [encode_three v low high]
      apply swapped_ofNat <;> omega
  · have flipped : 0x7ff < flip 64 v ∧ flip 64 v ≤ 0xffff ∧
        (flip 64 v < 0xd800 ∨ 0xdfff < flip 64 v) ∧ flip 64 v % 64 = v % 64 ∧
        flip 64 v / 4096 = v / 4096 ∧ flip 64 v / 64 ≠ v / 64 := by
      simp only [flip]
      split <;> omega
    generalize flip 64 v = v' at flipped
    rcases flipped with ⟨low', high', apart, third, first, second⟩
    refine ⟨v', ?_, UInt8.ofNat (v' / 64 % 0x40 + 0x80), ?_, ?_⟩
    · exact apart.imp_right fun above => ⟨above, by omega⟩
    · rw [encode_three v low high, encode_three v' low' high', first, third]
      rfl
    · rw [encode_three v low high]
      apply swapped_ofNat <;> omega
  · have flipped : 0x7ff < flip 1 v ∧ flip 1 v ≤ 0xffff ∧
        (flip 1 v < 0xd800 ∨ 0xdfff < flip 1 v) ∧ flip 1 v / 64 = v / 64 ∧
        flip 1 v % 64 ≠ v % 64 := by
      simp only [flip]
      split <;> omega
    generalize flip 1 v = v' at flipped
    rcases flipped with ⟨low', high', apart, front, third⟩
    have first : v' / 4096 = v / 4096 := by omega
    refine ⟨v', ?_, UInt8.ofNat (v' % 0x40 + 0x80), ?_, ?_⟩
    · exact apart.imp_right fun above => ⟨above, by omega⟩
    · rw [encode_three v low high, encode_three v' low' high', first, front]
      rfl
    · rw [encode_three v low high]
      apply swapped_ofNat <;> omega

theorem neighbour_four (v k : Nat) (low : 0xffff < v) (high : v < 0x110000) (inside : k < 4) :
    ∃ v', Neighbour v k v' := by
  have cases_ : k = 0 ∨ k = 1 ∨ k = 2 ∨ k = 3 := by omega
  rcases cases_ with rfl | rfl | rfl | rfl
  · have led : 0xffff < lead 262144 v ∧ lead 262144 v < 0x110000 ∧
        lead 262144 v % 262144 = v % 262144 ∧ lead 262144 v / 262144 ≠ v / 262144 := by
      simp only [lead]
      split <;> omega
    generalize lead 262144 v = v' at led
    rcases led with ⟨low', high', tail, first⟩
    have second : v' / 4096 % 0x40 = v / 4096 % 0x40 := by omega
    have third : v' / 64 % 0x40 = v / 64 % 0x40 := by omega
    have fourth : v' % 0x40 = v % 0x40 := by omega
    refine ⟨v', Or.inr ⟨by omega, high'⟩, UInt8.ofNat (v' / 262144 % 0x08 + 0xf0), ?_, ?_⟩
    · rw [encode_four v low, encode_four v' low', second, third, fourth]
      rfl
    · rw [encode_four v low]
      apply swapped_ofNat <;> omega
  · have flipped : 0xffff < flip 4096 v ∧ flip 4096 v < 0x110000 ∧
        flip 4096 v % 4096 = v % 4096 ∧ flip 4096 v / 262144 = v / 262144 ∧
        flip 4096 v / 4096 ≠ v / 4096 := by
      simp only [flip]
      split <;> omega
    generalize flip 4096 v = v' at flipped
    rcases flipped with ⟨low', high', tail, first, second⟩
    have third : v' / 64 % 0x40 = v / 64 % 0x40 := by omega
    have fourth : v' % 0x40 = v % 0x40 := by omega
    refine ⟨v', Or.inr ⟨by omega, high'⟩, UInt8.ofNat (v' / 4096 % 0x40 + 0x80), ?_, ?_⟩
    · rw [encode_four v low, encode_four v' low', first, third, fourth]
      rfl
    · rw [encode_four v low]
      apply swapped_ofNat <;> omega
  · have flipped : 0xffff < flip 64 v ∧ flip 64 v < 0x110000 ∧ flip 64 v % 64 = v % 64 ∧
        flip 64 v / 4096 = v / 4096 ∧ flip 64 v / 64 ≠ v / 64 := by
      simp only [flip]
      split <;> omega
    generalize flip 64 v = v' at flipped
    rcases flipped with ⟨low', high', fourth, front, third⟩
    have first : v' / 262144 = v / 262144 := by omega
    refine ⟨v', Or.inr ⟨by omega, high'⟩, UInt8.ofNat (v' / 64 % 0x40 + 0x80), ?_, ?_⟩
    · rw [encode_four v low, encode_four v' low', first, front, fourth]
      rfl
    · rw [encode_four v low]
      apply swapped_ofNat <;> omega
  · have flipped : 0xffff < flip 1 v ∧ flip 1 v < 0x110000 ∧ flip 1 v / 64 = v / 64 ∧
        flip 1 v % 64 ≠ v % 64 := by
      simp only [flip]
      split <;> omega
    generalize flip 1 v = v' at flipped
    rcases flipped with ⟨low', high', front, fourth⟩
    have first : v' / 262144 = v / 262144 := by omega
    have second : v' / 4096 = v / 4096 := by omega
    refine ⟨v', Or.inr ⟨by omega, high'⟩, UInt8.ofNat (v' % 0x40 + 0x80), ?_, ?_⟩
    · rw [encode_four v low, encode_four v' low', first, second, front]
      rfl
    · rw [encode_four v low]
      apply swapped_ofNat <;> omega

theorem exists_neighbour (v k : Nat) (valid : v.isValidChar) (inside : k < (encode v).length) :
    ∃ v', Neighbour v k v' := by
  by_cases one : v ≤ 0x7f
  · rw [encode_one v one, List.length_singleton] at inside
    have here : k = 0 := by omega
    exact ⟨_, here ▸ neighbour_one v one⟩
  by_cases two : v ≤ 0x7ff
  · rw [encode_two v (by omega) two] at inside
    exact neighbour_two v k (by omega) two inside
  by_cases three : v ≤ 0xffff
  · rw [encode_three v (by omega) three] at inside
    exact neighbour_three v k valid (by omega) three inside
  · rw [encode_four v (by omega)] at inside
    have range : v < 0xd800 ∨ 0xdfff < v ∧ v < 0x110000 := valid
    exact neighbour_four v k (by omega) (by omega) inside

theorem exists_text (text : List Char) (i : Nat)
    (inside : i < (text.flatMap String.utf8EncodeChar).length) :
    ∃ (other : List Char) (new : UInt8), other.flatMap String.utf8EncodeChar =
        (text.flatMap String.utf8EncodeChar).set i new ∧
      Swapped ((text.flatMap String.utf8EncodeChar).getD i 0) new := by
  induction text generalizing i with
  | nil => simp at inside
  | cons c rest ih =>
      rw [List.flatMap_cons, utf8EncodeChar_eq] at *
      rw [List.length_append] at inside
      by_cases first : i < (encode c.toNat).length
      · rcases exists_neighbour c.toNat i c.valid first with ⟨v', valid, new, same, swapped⟩
        refine ⟨Char.ofNat v' :: rest, new, ?_, ?_⟩
        · rw [List.flatMap_cons, utf8EncodeChar_eq, toNat_ofNat v' valid, same,
            List.set_append_left _ _ first]
        · rw [List.getD_append _ _ _ _ first]
          exact swapped
      · rcases ih (i - (encode c.toNat).length) (by omega) with ⟨other, new, same, swapped⟩
        refine ⟨c :: other, new, ?_, ?_⟩
        · rw [List.flatMap_cons, utf8EncodeChar_eq, same, List.set_append_right _ _ (by omega)]
        · rw [List.getD_append_right _ _ _ _ (by omega)]
          exact swapped

theorem exists_valid (bytes : List UInt8) (valid : ByteArray.validateUTF8 ⟨bytes.toArray⟩ = true)
    (i : Nat) (inside : i < bytes.length) :
    ∃ new, ByteArray.validateUTF8 ⟨(bytes.set i new).toArray⟩ = true ∧
      Swapped (bytes.getD i 0) new := by
  rw [ByteArray.validateUTF8_eq_true_iff] at valid
  rcases valid with ⟨text, encoded⟩
  have same : bytes = text.flatMap String.utf8EncodeChar := by
    have data := congrArg (fun b : ByteArray => b.data.toList) encoded
    simp only [List.utf8Encode, List.toList_data_toByteArray] at data
    exact data
  rw [same] at inside ⊢
  rcases exists_text text i inside with ⟨other, new, changed, swapped⟩
  refine ⟨new, ?_, swapped⟩
  rw [ByteArray.validateUTF8_eq_true_iff, ← changed]
  refine ⟨other, ?_⟩
  rw [List.utf8Encode, ByteArray.ext_iff, List.data_toByteArray]

end Utf8

end Lib
