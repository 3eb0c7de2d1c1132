import Jangri.Arch.Vm
import Jangri.Lib.WP

/-! The tree a page table root stands for.

`tableAt m root path` is the table page reached by following `path`, a list of indices from the
root down. `Tables m root` is the shape every table built by `map` has: pages are aligned, no page
is reached along two paths, entries that are not valid are zero, and valid entries above the leaf
level are bare pointers. -/

namespace Jangri

open Lib

def entryAt (m : Memory) (table index : Nat) : PageTableEntry :=
  loadEntry m (entryAddress table index)

def child (m : Memory) (table index : Nat) : Option Nat :=
  if index < numberOfPageTableEntriesPerPage ∧ (entryAt m table index).isValid = true then
    some (entryAt m table index).getPhysicalAddress
  else none

def tableAt (m : Memory) (root : Nat) (path : List Nat) : Option Nat :=
  path.foldlM (child m) root

@[simp] theorem tableAt_nil (m : Memory) (root : Nat) : tableAt m root [] = some root := rfl

theorem tableAt_snoc (m : Memory) (root : Nat) (path : List Nat) (index : Nat) :
    tableAt m root (path ++ [index]) = (tableAt m root path).bind fun t => child m t index := by
  simp [tableAt, List.foldlM_append]

def TablePage (m : Memory) (root t : Nat) : Prop :=
  ∃ path : List Nat, path.length ≤ 3 ∧ tableAt m root path = some t

structure Tables (m : Memory) (root : Nat) : Prop where
  aligned : ∀ t, TablePage m root t → t % pageSize = 0 ∧ t < usizeBound
  injective : ∀ p q : List Nat, ∀ t, p.length ≤ 3 → q.length ≤ 3 →
    tableAt m root p = some t → tableAt m root q = some t → p = q
  clear : ∀ t, TablePage m root t → ∀ i < 512, (entryAt m t i).isValid = false →
    (entryAt m t i).bits = 0
  pointers : ∀ p : List Nat, ∀ t, p.length ≤ 2 → tableAt m root p = some t →
    ∀ i < 512, (entryAt m t i).isValid = true → (entryAt m t i).bits % 1024 = 1

def pathOf (va : Nat) : List Nat := [levelToIndex 3 va, levelToIndex 2 va, levelToIndex 1 va]

def ifValid (entry : PageTableEntry) : Option PageTableEntry :=
  if entry.isValid = true then some entry else none

def leafAt (m : Memory) (root va : Nat) : Option PageTableEntry :=
  (tableAt m root (pathOf va)).bind fun t => ifValid (entryAt m t (levelToIndex 0 va))

theorem levelToIndex_eq (level va : Nat) : levelToIndex level va = va / 2 ^ (12 + level * 9) % 512 := by
  rw [levelToIndex, show (0b111111111 : Nat) = 2 ^ 9 - 1 by rfl, Nat.and_two_pow_sub_one_eq_mod,
    Nat.shiftRight_eq_div_pow]

theorem levelToIndex_lt (level va : Nat) : levelToIndex level va < 512 := by
  rw [levelToIndex_eq]
  exact Nat.mod_lt _ (by decide)

/-- Bits 12 to 47 of an address: the page it lies in, as the walk sees it. -/
def vpn (va : Nat) : Nat := va / 4096 % 2 ^ 36

/-- Two addresses take the same way through the tables exactly when bits 12 to 47 agree. -/
theorem path_eq_iff (va va' : Nat) :
    (pathOf va = pathOf va' ∧ levelToIndex 0 va = levelToIndex 0 va') ↔ vpn va = vpn va' := by
  simp only [pathOf, levelToIndex_eq, vpn, List.cons.injEq, and_true]
  norm_num
  omega

section Pages

variable {m : Memory} {root : Nat}

theorem tableAt_child (t i c : Nat) (low : i < 512) (valid : (entryAt m t i).isValid = true)
    (points : (entryAt m t i).getPhysicalAddress = c) : child m t i = some c := by
  rw [child, if_pos ⟨low, valid⟩, points]

theorem tablePage_root : TablePage m root root := ⟨[], by simp, rfl⟩

theorem tablePage_path {va t : Nat} (at_ : tableAt m root (pathOf va) = some t) :
    TablePage m root t :=
  ⟨pathOf va, by simp [pathOf], at_⟩

theorem Tables.zero_entry (tables : Tables m root) {t i : Nat} (page : TablePage m root t)
    (low : i < 512) (vacant : (entryAt m t i).isValid = false) : entryAt m t i = ⟨0⟩ :=
  congrArg PageTableEntry.mk (tables.clear t page i low vacant)

end Pages

theorem entryAt_store (m : Memory) (t i t' i' : Nat) (entry : PageTableEntry)
    (small : entry.bits < usizeBound) (aligned : t % pageSize = 0) (aligned' : t' % pageSize = 0)
    (low : i < 512) (low' : i' < 512) :
    entryAt (storeEntry m (entryAddress t i) entry) t' i' =
      if t' = t ∧ i' = i then entry else entryAt m t' i' := by
  unfold entryAt loadEntry storeEntry
  split
  next same =>
    obtain ⟨rfl, rfl⟩ := same
    rw [Memory.read_write_same _ _ _ _ (by rw [usizeBound] at small; exact small)]
  next different =>
    rw [Memory.read_write_apart]
    simp only [entryAddress, pageSize] at *
    omega

theorem entryAt_congr (m m' : Memory) (t : Nat)
    (same : ∀ x, t ≤ x → x < t + pageSize → m' x = m x) (i : Nat) (low : i < 512) :
    entryAt m' t i = entryAt m t i := by
  unfold entryAt loadEntry
  rw [Memory.read_congr m' m]
  intro x hx
  rw [Set.mem_Ico] at hx
  apply same x
  · simp only [entryAddress] at hx
    omega
  · simp only [entryAddress, pageSize] at *
    omega

theorem entryAt_zero (m : Memory) (t : Nat) (zero : ∀ x, t ≤ x → x < t + pageSize → m x = 0)
    (i : Nat) (low : i < 512) : entryAt m t i = ⟨0⟩ := by
  have := entryAt_congr (fun _ => 0) m t zero i low
  rw [this]
  have nothing : ∀ addr n, Memory.read (fun _ => 0) addr n = 0 := by
    intro addr n
    induction n generalizing addr with
    | zero => rfl
    | succ n ih =>
        rw [Memory.read, ih]
        rfl
  simp [entryAt, loadEntry, nothing]

theorem child_congr (m m' : Memory) (t i : Nat) (same : i < 512 → entryAt m' t i = entryAt m t i) :
    child m' t i = child m t i := by
  unfold child
  by_cases low : i < 512
  · rw [same low]
  · simp [numberOfPageTableEntriesPerPage, low]

theorem child_zero (m : Memory) (t i : Nat) (zero : i < 512 → entryAt m t i = ⟨0⟩) :
    child m t i = none := by
  unfold child
  refine if_neg ?_
  rintro ⟨low, valid⟩
  rw [zero low] at valid
  simp [PageTableEntry.isValid] at valid

/-- The tree is determined by its own pages. -/
theorem tableAt_congr (m m' : Memory) (root : Nat)
    (same : ∀ t, TablePage m root t → ∀ x, t ≤ x → x < t + pageSize → m' x = m x)
    (path : List Nat) (short : path.length ≤ 3) : tableAt m' root path = tableAt m root path := by
  induction path using List.reverseRecOn with
  | nil => rw [tableAt_nil, tableAt_nil]
  | append_singleton p i ih =>
      simp only [List.length_append, List.length_singleton] at short
      rw [tableAt_snoc, tableAt_snoc, ih (by omega)]
      cases at_ : tableAt m root p with
      | none => rw [Option.bind_none, Option.bind_none]
      | some t =>
          exact child_congr m m' t i fun low =>
            entryAt_congr m m' t (same t ⟨p, by omega, at_⟩) i low

theorem tablePage_congr (m m' : Memory) (root : Nat)
    (same : ∀ t, TablePage m root t → ∀ x, t ≤ x → x < t + pageSize → m' x = m x) (t : Nat) :
    TablePage m' root t ↔ TablePage m root t := by
  have path := tableAt_congr m m' root same
  constructor
  · rintro ⟨p, short, at_⟩
    exact ⟨p, short, by rw [← path p short]; exact at_⟩
  · rintro ⟨p, short, at_⟩
    exact ⟨p, short, by rw [path p short]; exact at_⟩

theorem leafAt_congr (m m' : Memory) (root : Nat)
    (same : ∀ t, TablePage m root t → ∀ x, t ≤ x → x < t + pageSize → m' x = m x) (va : Nat) :
    leafAt m' root va = leafAt m root va := by
  rw [leafAt, leafAt, tableAt_congr m m' root same (pathOf va) (by simp [pathOf])]
  cases at_ : tableAt m root (pathOf va) with
  | none => rw [Option.bind_none, Option.bind_none]
  | some t =>
      rw [Option.bind_some, Option.bind_some, entryAt_congr m m' t
        (same t (tablePage_path at_)) _ (levelToIndex_lt 0 va)]

theorem tableAt_cons_of_zero (m : Memory) (root : Nat)
    (zero : ∀ x, root ≤ x → x < root + pageSize → m x = 0) (i : Nat) (rest : List Nat) :
    tableAt m root (i :: rest) = none := by
  have empty := child_zero m root i fun low => entryAt_zero m root zero i low
  rw [tableAt, List.foldlM_cons, empty]
  rfl

theorem leafAt_of_zero (m : Memory) (root : Nat)
    (zero : ∀ x, root ≤ x → x < root + pageSize → m x = 0) (va : Nat) :
    leafAt m root va = none := by
  rw [leafAt, pathOf, tableAt_cons_of_zero m root zero, Option.bind_none]

namespace Tables

variable {m : Memory} {root : Nat}

theorem congr (tables : Tables m root) (m' : Memory)
    (same : ∀ t, TablePage m root t → ∀ x, t ≤ x → x < t + pageSize → m' x = m x) :
    Tables m' root := by
  have path := tableAt_congr m m' root same
  have page := fun t => (tablePage_congr m m' root same t).mp
  have entry : ∀ t, TablePage m root t → ∀ i < 512, entryAt m' t i = entryAt m t i :=
    fun t ht i low => entryAt_congr m m' t (same t ht) i low
  refine ⟨fun t ht => tables.aligned t (page t ht), ?_, ?_, ?_⟩
  · intro p q t hp hq atP atQ
    rw [path p hp] at atP
    rw [path q hq] at atQ
    exact tables.injective p q t hp hq atP atQ
  · intro t ht i low
    rw [entry t (page t ht) i low]
    exact tables.clear t (page t ht) i low
  · intro p t short at_ i low
    rw [path p (by omega)] at at_
    rw [entry t ⟨p, by omega, at_⟩ i low]
    exact tables.pointers p t short at_ i low

theorem of_zero_root (aligned : root % pageSize = 0) (bounded : root < usizeBound)
    (zero : ∀ x, root ≤ x → x < root + pageSize → m x = 0) : Tables m root := by
  have entries := entryAt_zero m root zero
  have only : ∀ p : List Nat, ∀ t, tableAt m root p = some t → p = [] ∧ t = root := by
    intro p
    induction p using List.reverseRecOn with
    | nil =>
        intro t at_
        exact ⟨rfl, (Option.some.inj at_).symm⟩
    | append_singleton p i ih =>
        intro t at_
        rw [tableAt_snoc] at at_
        obtain ⟨c, atC, next⟩ := Option.bind_eq_some_iff.mp at_
        obtain ⟨rfl, rfl⟩ := ih c atC
        rw [child_zero m c i (entries i)] at next
        cases next
  refine ⟨?_, ?_, ?_, ?_⟩
  · rintro t ⟨p, -, at_⟩
    rw [(only p t at_).2]
    exact ⟨aligned, bounded⟩
  · intro p q t _ _ atP atQ
    rw [(only p t atP).1, (only q t atQ).1]
  · rintro t ⟨p, -, at_⟩ i low -
    rw [(only p t at_).2, entries i low]
  · intro p t _ at_ i low valid
    rw [(only p t at_).2, entries i low] at valid
    simp [PageTableEntry.isValid] at valid

end Tables

end Jangri
