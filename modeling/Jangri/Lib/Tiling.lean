import Mathlib.Algebra.BigOperators.Group.Finset.Basic
import Mathlib.Algebra.BigOperators.Intervals
import Mathlib.Data.List.Perm.Basic
import Mathlib.Order.Interval.Set.Basic
import Mathlib.Tactic

/-! Blocks of addresses that tile an interval.

A list of blocks tiles `[lo, hi)` when every address inside is covered exactly once and every
address outside is not covered at all. Counting turns moving a block between two lists,
splitting it or taking it off the front of a region into additions. -/

namespace Lib

structure Block where
  addr : Nat
  size : Nat
  deriving DecidableEq, Repr

namespace Block

def Contains (b : Block) (x : Nat) : Prop := b.addr ≤ x ∧ x < b.addr + b.size

instance (b : Block) (x : Nat) : Decidable (b.Contains x) :=
  inferInstanceAs (Decidable (_ ∧ _))

def Disjoint (a b : Block) : Prop := ∀ x, a.Contains x → ¬ b.Contains x

def hits (b : Block) (x : Nat) : Nat := if b.addr ≤ x ∧ x < b.addr + b.size then 1 else 0

theorem hits_le_one (b : Block) (x : Nat) : b.hits x ≤ 1 := by
  unfold hits
  split <;> omega

theorem hits_pos_iff (b : Block) (x : Nat) : 0 < b.hits x ↔ b.Contains x := by
  unfold hits Contains
  split <;> omega

theorem hits_split (addr first second x : Nat) :
    hits ⟨addr, first + second⟩ x = hits ⟨addr, first⟩ x + hits ⟨addr + first, second⟩ x := by
  simp only [hits]
  split_ifs <;> omega

end Block

def cover (blocks : List Block) (x : Nat) : Nat := (blocks.map (·.hits x)).sum

def Tiles (blocks : List Block) (lo hi : Nat) : Prop :=
  ∀ x, cover blocks x = Block.hits ⟨lo, hi - lo⟩ x

@[simp] theorem cover_nil (x : Nat) : cover [] x = 0 := rfl

@[simp] theorem cover_cons (b : Block) (blocks : List Block) (x : Nat) :
    cover (b :: blocks) x = b.hits x + cover blocks x := by
  simp [cover]

@[simp] theorem cover_append (left right : List Block) (x : Nat) :
    cover (left ++ right) x = cover left x + cover right x := by
  simp [cover]

theorem cover_perm (left right : List Block) (perm : left.Perm right) (x : Nat) :
    cover left x = cover right x :=
  (perm.map _).sum_eq

theorem cover_erase (blocks : List Block) (b : Block) (present : b ∈ blocks) (x : Nat) :
    cover blocks x = b.hits x + cover (blocks.erase b) x := by
  rw [cover_perm _ _ (List.perm_cons_erase present), cover_cons]

theorem hits_le_cover (blocks : List Block) (b : Block) (present : b ∈ blocks) (x : Nat) :
    b.hits x ≤ cover blocks x := by
  rw [cover_erase blocks b present]
  omega

theorem cover_pos_iff (blocks : List Block) (x : Nat) :
    0 < cover blocks x ↔ ∃ b ∈ blocks, b.Contains x := by
  induction blocks with
  | nil => simp
  | cons head tail ih =>
      have heads := head.hits_pos_iff x
      simp only [cover_cons, List.mem_cons, exists_eq_or_imp, ← ih, ← heads]
      omega

theorem cover_flatMap_range (n : Nat) (family : Nat → List Block) (x : Nat) :
    cover ((List.range n).flatMap family) x = ∑ i ∈ Finset.range n, cover (family i) x := by
  induction n with
  | zero => rfl
  | succ n ih =>
      rw [List.range_succ, List.flatMap_append, cover_append, ih, Finset.sum_range_succ]
      simp

def Block.parts (unit : Nat) (b : Block) : List Block :=
  (List.range (b.size / unit)).map fun k => ⟨b.addr + k * unit, unit⟩

theorem cover_range_parts (addr unit n x : Nat) :
    cover ((List.range n).map fun k => (⟨addr + k * unit, unit⟩ : Block)) x =
      Block.hits ⟨addr, n * unit⟩ x := by
  induction n with
  | zero => simp [Block.hits]
  | succ n ih =>
      calc
        _ = Block.hits ⟨addr, n * unit⟩ x + Block.hits ⟨addr + n * unit, unit⟩ x := by
          rw [List.range_succ, List.map_append, cover_append, ih]
          simp
        _ = Block.hits ⟨addr, (n + 1) * unit⟩ x := by
          rw [Nat.succ_mul, Block.hits_split]

theorem cover_parts (unit : Nat) (blocks : List Block) (whole : ∀ b ∈ blocks, b.size % unit = 0)
    (x : Nat) : cover (blocks.flatMap (Block.parts unit)) x = cover blocks x := by
  induction blocks with
  | nil => rfl
  | cons b rest ih =>
      have size := Nat.div_mul_cancel (Nat.dvd_of_mod_eq_zero (whole b List.mem_cons_self))
      have others := ih fun other later => whole other (List.mem_cons_of_mem _ later)
      rw [List.flatMap_cons, cover_append, cover_cons, others, Block.parts, cover_range_parts, size]

theorem mem_parts (unit : Nat) (blocks : List Block) (part : Block) :
    part ∈ blocks.flatMap (Block.parts unit) ↔
      ∃ b ∈ blocks, ∃ k < b.size / unit, part = ⟨b.addr + k * unit, unit⟩ := by
  simp only [Block.parts, List.mem_flatMap, List.mem_map, List.mem_range]
  constructor
  · rintro ⟨b, present, k, low, rfl⟩
    exact ⟨b, present, k, low, rfl⟩
  · rintro ⟨b, present, k, low, rfl⟩
    exact ⟨b, present, k, low, rfl⟩

theorem sum_change_one (n i : Nat) (f g : Nat → Nat) (inside : i < n)
    (same : ∀ j, j ≠ i → g j = f j) :
    ∑ j ∈ Finset.range n, g j + f i = ∑ j ∈ Finset.range n, f j + g i := by
  have member : i ∈ Finset.range n := Finset.mem_range.mpr inside
  have rest : ∑ j ∈ (Finset.range n).erase i, g j = ∑ j ∈ (Finset.range n).erase i, f j :=
    Finset.sum_congr rfl fun j hj => same j (Finset.ne_of_mem_erase hj)
  rw [← Finset.add_sum_erase _ g member, ← Finset.add_sum_erase _ f member, rest]
  omega

namespace Tiles

variable {blocks : List Block} {lo hi : Nat}

theorem cover_le_one (tiles : Tiles blocks lo hi) (x : Nat) : cover blocks x ≤ 1 := by
  rw [tiles x]
  exact Block.hits_le_one _ _

theorem pairwise (tiles : Tiles blocks lo hi) : blocks.Pairwise Block.Disjoint := by
  have bound := tiles.cover_le_one
  clear tiles
  induction blocks with
  | nil => exact List.Pairwise.nil
  | cons head tail ih =>
      refine List.Pairwise.cons ?_ (ih fun x => ?_)
      · intro b present x inHead inTail
        have := bound x
        have h1 := (head.hits_pos_iff x).mpr inHead
        have h2 := (cover_pos_iff tail x).mpr ⟨b, present, inTail⟩
        rw [cover_cons] at this
        omega
      · have := bound x
        rw [cover_cons] at this
        omega

theorem mem_iff (tiles : Tiles blocks lo hi) (x : Nat) :
    (lo ≤ x ∧ x < hi) ↔ ∃ b ∈ blocks, b.Contains x := by
  rw [← cover_pos_iff, tiles x, Block.hits_pos_iff]
  simp only [Block.Contains]
  omega

theorem inside (tiles : Tiles blocks lo hi) (b : Block) (present : b ∈ blocks)
    (nonempty : 0 < b.size) : lo ≤ b.addr ∧ b.addr + b.size ≤ hi := by
  have first := (tiles.mem_iff b.addr).mpr ⟨b, present, by simp only [Block.Contains]; omega⟩
  have last := (tiles.mem_iff (b.addr + b.size - 1)).mpr
    ⟨b, present, by simp only [Block.Contains]; omega⟩
  omega

theorem eq_of_contains (tiles : Tiles blocks lo hi) (a b : Block) (ha : a ∈ blocks)
    (hb : b ∈ blocks) (x : Nat) (inA : a.Contains x) (inB : b.Contains x) : a = b := by
  by_contra different
  have bound := tiles.cover_le_one x
  rw [cover_erase blocks a ha] at bound
  have other := hits_le_cover (blocks.erase a) b
    ((List.mem_erase_of_ne (Ne.symm different)).mpr hb) x
  have h1 := (a.hits_pos_iff x).mpr inA
  have h2 := (b.hits_pos_iff x).mpr inB
  omega

theorem apart (tiles : Tiles blocks lo hi) (a b : Block) (ha : a ∈ blocks) (hb : b ∈ blocks)
    (different : a ≠ b) (x : Nat) (inA : a.Contains x) : x < b.addr ∨ b.addr + b.size ≤ x := by
  by_contra close
  exact different (tiles.eq_of_contains a b ha hb x inA ⟨by omega, by omega⟩)

end Tiles

end Lib
