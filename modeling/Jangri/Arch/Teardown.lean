import Jangri.Arch.Mapping

namespace Jangri

open Lib

def Below (m : Memory) (root : Nat) (q : List Nat) : Set Nat :=
  {t | ∃ path, (q ++ path).length ≤ 3 ∧ tableAt m root (q ++ path) = some t}

def PageTableEntry.HasRights (entry : PageTableEntry) : Prop :=
  entry.readable = true ∨ entry.writeable = true ∨ entry.executable = true

theorem PageTableEntry.no_rights {entry : PageTableEntry} (bare : entry.bits % 1024 = 1) :
    ¬ entry.HasRights := by
  rcases PageTableEntry.pointer_rights bare with ⟨readable, writeable, executable⟩
  simp [HasRights, readable, writeable, executable]

/-- `recursive_clean` goes into an entry that has no permission. -/
theorem PageTableEntry.hasRights_iff {entry : PageTableEntry} :
    ¬ (¬ entry.readable ∧ ¬ entry.writeable ∧ ¬ entry.executable) ↔ entry.HasRights := by
  rw [HasRights]
  tauto

def Rights (m : Memory) (root : Nat) : Prop :=
  ∀ q t, q.length = 3 → tableAt m root q = some t → ∀ i < 512, (entryAt m t i).isValid = true →
    ¬ (¬ (entryAt m t i).readable ∧ ¬ (entryAt m t i).writeable ∧ ¬ (entryAt m t i).executable)

section Subtrees

variable {m : Memory} {root t : Nat} {q : List Nat}

theorem below_nil : Below m root [] = {t | TablePage m root t} := rfl

theorem mem_below_self (short : q.length ≤ 3) (at_ : tableAt m root q = some t) :
    t ∈ Below m root q := by
  refine ⟨[], ?_, ?_⟩
  · rw [List.append_nil]
    exact short
  · rw [List.append_nil]
    exact at_

theorem tablePage_of_below (inside : t ∈ Below m root q) : TablePage m root t := by
  rcases inside with ⟨path, short, at_⟩
  exact ⟨q ++ path, short, at_⟩

theorem below_snoc_subset (i : Nat) : Below m root (q ++ [i]) ⊆ Below m root q := by
  intro x inside
  rcases inside with ⟨path, short, at_⟩
  rw [List.append_assoc] at short at_
  exact ⟨[i] ++ path, short, at_⟩

theorem mem_below_iff (short : q.length ≤ 3)
    (at_ : tableAt m root q = some t) (x : Nat) :
    x ∈ Below m root q ↔ x = t ∨ ∃ i < 512, x ∈ Below m root (q ++ [i]) := by
  constructor
  · intro inside
    rcases inside with ⟨path, bound, atX⟩
    cases path with
    | nil =>
        rw [List.append_nil, at_] at atX
        exact Or.inl (Option.some.inj atX).symm
    | cons i path =>
        refine Or.inr ⟨i, ?_, path, ?_, ?_⟩
        · rw [List.append_cons] at atX
          by_contra high
          have stuck : tableAt m root (q ++ [i]) = none := by
            rw [tableAt_snoc, at_]
            exact if_neg fun h => high h.1
          have ended : tableAt m root (q ++ [i] ++ path) = none := by
            rw [tableAt, List.foldlM_append, ← tableAt, stuck]
            rfl
          rw [ended] at atX
          cases atX
        · rw [List.append_assoc]
          exact bound
        · rw [List.append_assoc]
          exact atX
  · intro cases_
    rcases cases_ with rfl | ⟨i, -, inside⟩
    · exact mem_below_self short at_
    · exact below_snoc_subset i inside

theorem not_mem_below_snoc (tables : Tables m root) (short : q.length ≤ 3)
    (at_ : tableAt m root q = some t) (i : Nat) : t ∉ Below m root (q ++ [i]) := by
  intro inside
  rcases inside with ⟨path, bound, again⟩
  have same := tables.injective q (q ++ [i] ++ path) t short bound at_ again
  have longer := congrArg List.length same
  simp at longer

theorem below_disjoint (tables : Tables m root) {i j x : Nat}
    (inI : x ∈ Below m root (q ++ [i])) (inJ : x ∈ Below m root (q ++ [j])) : i = j := by
  rcases inI with ⟨pathI, shortI, atI⟩
  rcases inJ with ⟨pathJ, shortJ, atJ⟩
  have same := tables.injective _ _ x shortI shortJ atI atJ
  rw [List.append_assoc, List.append_assoc] at same
  have tails := List.append_cancel_left same
  exact (List.cons.inj tails).1

def Behind (m : Memory) (root : Nat) (q : List Nat) (index : Nat) : Set Nat :=
  {x | ∃ j, index ≤ j ∧ j < 512 ∧ x ∈ Below m root (q ++ [j])}

theorem diff_of_empty {T S : Set Nat} (empty : ∀ x, x ∉ S) : T \ S = T := by
  ext x
  exact ⟨fun member => member.1, fun member => ⟨member, empty x⟩⟩

theorem diff_behind_end (T : Set Nat) : T \ Behind m root q 512 = T := by
  apply diff_of_empty
  intro x found
  rcases found with ⟨j, low, high, -⟩
  omega

theorem diff_behind (T : Set Nat) {index : Nat} (low : index < 512) :
    T \ Behind m root q index =
      (T \ Below m root (q ++ [index])) \ Behind m root q (index + 1) := by
  ext x
  constructor
  · intro outside
    refine ⟨⟨outside.1, fun member => outside.2 ⟨index, le_refl _, low, member⟩⟩, ?_⟩
    intro found
    rcases found with ⟨j, above, high, member⟩
    exact outside.2 ⟨j, by omega, high, member⟩
  · intro outside
    refine ⟨outside.1.1, ?_⟩
    intro found
    rcases found with ⟨j, above, high, member⟩
    rcases Nat.eq_or_lt_of_le above with rfl | later
    · exact outside.1.2 member
    · exact outside.2 ⟨j, later, high, member⟩

/-- The subtrees below all entries and the table itself make the subtree. -/
theorem diff_behind_start (T : Set Nat) (short : q.length ≤ 3) (at_ : tableAt m root q = some t) :
    (T \ Behind m root q 0) \ {t} = T \ Below m root q := by
  have member := mem_below_iff short at_
  ext x
  constructor
  · intro outside
    refine ⟨outside.1.1, ?_⟩
    intro below
    rcases (member x).mp below with same | ⟨j, high, deeper⟩
    · exact outside.2 same
    · exact outside.1.2 ⟨j, Nat.zero_le j, high, deeper⟩
  · intro outside
    refine ⟨⟨outside.1, ?_⟩, ?_⟩
    · intro found
      rcases found with ⟨j, -, high, deeper⟩
      exact outside.2 ((member x).mpr (Or.inr ⟨j, high, deeper⟩))
    · intro same
      exact outside.2 ((member x).mpr (Or.inl same))

theorem below_empty_of_child (at_ : tableAt m root q = some t) {i : Nat}
    (none_ : child m t i = none) (x : Nat) : x ∉ Below m root (q ++ [i]) := by
  intro inside
  rcases inside with ⟨path, -, atX⟩
  have stuck : tableAt m root (q ++ [i]) = none := by
    rw [tableAt_snoc, at_]
    exact none_
  rw [tableAt, List.foldlM_append, ← tableAt, stuck] at atX
  cases atX

theorem below_empty_of_long (long : q.length = 3) (i x : Nat) : x ∉ Below m root (q ++ [i]) := by
  intro inside
  rcases inside with ⟨path, short, -⟩
  simp only [List.length_append, List.length_singleton] at short
  omega

end Subtrees

section Leaves

variable {m : Memory} {root t i : Nat} {q : List Nat}

theorem index_lt_of_tableAt {path : List Nat}
    (at_ : tableAt m root (q ++ i :: path) = some t) : i < 512 := by
  by_contra high
  have stuck : ∀ u, child m u i = none := fun u => if_neg fun h => high h.1
  rw [tableAt, List.foldlM_append] at at_
  rcases Option.bind_eq_some_iff.mp at_ with ⟨u, -, rest⟩
  rw [List.foldlM_cons, stuck u] at rest
  cases rest

theorem exists_leafAt (long : q.length = 3)
    (at_ : tableAt m root q = some t) (low : i < 512) (valid : (entryAt m t i).isValid = true) :
    ∃ va, leafAt m root va = some (entryAt m t i) := by
  match q, long with
  | [a, b, c], _ =>
      have lowA : a < 512 := index_lt_of_tableAt (q := []) at_
      have lowB : b < 512 := index_lt_of_tableAt (q := [a]) at_
      have lowC : c < 512 := index_lt_of_tableAt (q := [a, b]) at_
      have three : levelToIndex 3 ((((a * 512 + b) * 512 + c) * 512 + i) * 4096) = a := by
        rw [levelToIndex_eq]
        omega
      have two : levelToIndex 2 ((((a * 512 + b) * 512 + c) * 512 + i) * 4096) = b := by
        rw [levelToIndex_eq]
        omega
      have one : levelToIndex 1 ((((a * 512 + b) * 512 + c) * 512 + i) * 4096) = c := by
        rw [levelToIndex_eq]
        omega
      have zero : levelToIndex 0 ((((a * 512 + b) * 512 + c) * 512 + i) * 4096) = i := by
        rw [levelToIndex_eq]
        omega
      refine ⟨(((a * 512 + b) * 512 + c) * 512 + i) * 4096, ?_⟩
      rw [leafAt, pathOf, three, two, one, zero, at_, Option.bind_some, ifValid, if_pos valid]

theorem rights_of_leaves
    (rights : ∀ va entry, leafAt m root va = some entry → entry.HasRights) : Rights m root := by
  intro q t long at_ i low valid
  rcases exists_leafAt long at_ low valid with ⟨va, leaf⟩
  exact PageTableEntry.hasRights_iff.mpr (rights va _ leaf)

end Leaves

/-- What the teardown relies on in its deallocation callback: a page of `T` can be given back, and
the other pages of `T` stay as they are. -/
structure PageSink {σ : Type} [HasMemory σ] (deallocate : Nat → Nat → Stateful σ Unit)
    (inv : Set Nat → σ → Prop) (halts : Halt → Prop) : Prop where
  freed : ∀ T s t, inv T s → t ∈ T → wp (deallocate t pageSize)
    (fun _ s' => inv (T \ {t}) s' ∧ SameOn (T \ {t}) s s') halts s
  written : ∀ T s t i entry, inv T s → t ∈ T → i < 512 →
    inv T (setMemory s (storeEntry (memory s) (entryAddress t i) entry))

section Cleaning

variable {σ : Type} [HasMemory σ] {inv : Set Nat → σ → Prop} {halts : Halt → Prop}

structure Kept (inv : Set Nat → σ → Prop) (ref : Memory) (T : Set Nat) (s : σ) : Prop where
  held : inv T s
  same : ∀ t ∈ T, ∀ x, t ≤ x → x < t + pageSize → memory s x = ref x

variable {m ref : Memory} {root t : Nat} {q : List Nat} {T : Set Nat} {s : σ}

theorem Kept.entry (kept : Kept inv ref T s) (present : t ∈ T) (i : Nat) (low : i < 512) :
    entryAt (memory s) t i = entryAt ref t i :=
  entryAt_congr ref (memory s) t (kept.same t present) i low

theorem storeEntry_apart (ref : Memory) (t' i : Nat) (entry : PageTableEntry)
    (aligned : t % pageSize = 0) (aligned' : t' % pageSize = 0) (different : t' ≠ t)
    (low : i < 512) (x : Nat) (first : t' ≤ x) (last : x < t' + pageSize) :
    storeEntry ref (entryAddress t i) entry x = ref x := by
  refine if_neg ?_
  simp only [entryAddress, pageSize] at *
  omega

theorem Kept.write {deallocate : Nat → Nat → Stateful σ Unit}
    (sink : PageSink deallocate inv halts) (kept : Kept inv ref T s) (present : t ∈ T) (i : Nat)
    (low : i < 512) (entry : PageTableEntry) :
    Kept inv (storeEntry ref (entryAddress t i) entry) T
      (setMemory s (storeEntry (memory s) (entryAddress t i) entry)) where
  held := sink.written T s t i entry kept.held present low
  same := by
    intro t' present' x first last
    rw [memory_setMemory]
    unfold storeEntry Memory.write
    split
    · rfl
    · exact kept.same t' present' x first last

def KeptBut (inv : Set Nat → σ → Prop) (ref : Memory) (t : Nat) (T : Set Nat) (s : σ) : Prop :=
  ∃ ref', Kept inv ref' T s ∧
    ∀ x ∈ T, x ≠ t → ∀ y, x ≤ y → y < x + pageSize → ref' y = ref y

theorem KeptBut.congr {ref₁ : Memory} {S : Set Nat} (kept : KeptBut inv ref₁ t T s)
    (fewer : T ⊆ S) (agrees : ∀ x ∈ S, x ≠ t → ∀ y, x ≤ y → y < x + pageSize → ref₁ y = ref y) :
    KeptBut inv ref t T s := by
  rcases kept with ⟨ref', kept', agrees'⟩
  refine ⟨ref', kept', ?_⟩
  intro x member notSelf y first last
  rw [agrees' x member notSelf y first last]
  exact agrees x (fewer member) notSelf y first last

/-- The loop over the entries of one table that are left, given what the recursive call does. -/
theorem cleanEntries_spec {deallocate : Nat → Nat → Stateful σ Unit}
    (sink : PageSink deallocate inv halts) (tables : Tables m root) (rights : Rights m root)
    (short : q.length ≤ 3) (at_ : tableAt m root q = some t) (recurse : Nat → Stateful σ Unit)
    (recursive : ∀ j c ref T s, q.length ≤ 2 → tableAt m root (q ++ [j]) = some c →
      Below m root (q ++ [j]) ⊆ T → (∀ x ∈ T, x % pageSize = 0) →
      (∀ x ∈ Below m root (q ++ [j]), ∀ y, x ≤ y → y < x + pageSize → ref y = m y) →
      Kept inv ref T s →
      wp (recurse c) (fun _ s' => Kept inv ref (T \ Below m root (q ++ [j])) s') halts s)
    (aligned : ∀ x ∈ T, x % pageSize = 0) (entries index : Nat) (all : index + entries = 512)
    (present : t ∈ T) (inside : ∀ j, index ≤ j → j < 512 → Below m root (q ++ [j]) ⊆ T)
    (unread : ∀ j, index ≤ j → j < 512 → entryAt ref t j = entryAt m t j)
    (untouched : ∀ j, index ≤ j → j < 512 → ∀ x ∈ Below m root (q ++ [j]), ∀ y, x ≤ y →
      y < x + pageSize → ref y = m y)
    (kept : Kept inv ref T s) :
    wp (Riscv.cleanEntries recurse t entries index)
      (fun _ s' => KeptBut inv ref t (T \ Behind m root q index) s') halts s := by
  induction entries generalizing index ref T s with
  | zero =>
      have last : index = 512 := all
      rw [Riscv.cleanEntries, wp_pure, last, diff_behind_end]
      exact ⟨ref, kept, fun _ _ _ _ _ _ => rfl⟩
  | succ entries ih =>
      have low : index < 512 := by omega
      have read : loadEntry (memory s) (entryAddress t index) = entryAt m t index := by
        have first := kept.entry present index low
        exact first.trans (unread index (le_refl _) low)
      have self : t ∈ T \ Below m root (q ++ [index]) :=
        ⟨present, not_mem_below_snoc tables short at_ index⟩
      -- the entries behind this one, when its subtree is out of the way
      have next : ∀ ref₁ (s₁ : σ), (∀ x ∈ T, x ≠ t → ∀ y, x ≤ y → y < x + pageSize →
            ref₁ y = ref y) → (∀ j, index + 1 ≤ j → j < 512 → entryAt ref₁ t j = entryAt m t j) →
          Kept inv ref₁ (T \ Below m root (q ++ [index])) s₁ →
          wp (Riscv.cleanEntries recurse t entries (index + 1))
            (fun _ s' => KeptBut inv ref t (T \ Behind m root q index) s') halts s₁ := by
        intro ref₁ s₁ agrees later kept₁
        have subtrees : ∀ j, index + 1 ≤ j → j < 512 →
            Below m root (q ++ [j]) ⊆ T \ Below m root (q ++ [index]) := by
          intro j above high x member
          refine ⟨inside j (by omega) high member, ?_⟩
          intro other
          have same := below_disjoint tables member other
          omega
        have old : ∀ j, index + 1 ≤ j → j < 512 → ∀ x ∈ Below m root (q ++ [j]), ∀ y, x ≤ y →
            y < x + pageSize → ref₁ y = m y := by
          intro j above high x member y first last
          have notSelf : x ≠ t := by
            intro same
            rw [same] at member
            exact not_mem_below_snoc tables short at_ j member
          rw [agrees x (inside j (by omega) high member) notSelf y first last]
          exact untouched j (by omega) high x member y first last
        have spec := ih (fun x member => aligned x member.1) (index + 1) (by omega) self subtrees
          later old kept₁
        rw [diff_behind T low]
        apply wp_weaken spec
        intro _ s' done
        exact done.congr (fun x member => member.1.1) agrees
      -- the entry is cleared once its subtree is gone
      have clears : ∀ s₁ : σ, Kept inv ref (T \ Below m root (q ++ [index])) s₁ →
          wp (do
            let entry ← (readEntry (entryAddress t index) : Stateful σ PageTableEntry)
            writeEntry (entryAddress t index) entry.clearBits
            Riscv.cleanEntries recurse t entries (index + 1))
            (fun _ s' => KeptBut inv ref t (T \ Behind m root q index) s') halts s₁ := by
        intro s₁ kept₁
        simp only [wp_bind, wp_readEntry, wp_writeEntry]
        apply next (storeEntry ref (entryAddress t index) ⟨0⟩)
        · intro x member notSelf y first last
          exact storeEntry_apart ref x index ⟨0⟩ (aligned t present) (aligned x member) notSelf low y
            first last
        · intro j above high
          rw [entryAt_store ref t index t j ⟨0⟩ (Nat.two_pow_pos 64) (aligned t present)
            (aligned t present) low high, if_neg (by omega)]
          exact unread j (by omega) high
        · exact kept₁.write sink self index low ⟨0⟩
      rw [Riscv.cleanEntries]
      simp only [wp_bind, wp_readEntry, read]
      by_cases valid : (entryAt m t index).isValid = true
      · rw [if_pos valid]
        by_cases pointer : ¬ (entryAt m t index).readable ∧ ¬ (entryAt m t index).writeable ∧
            ¬ (entryAt m t index).executable
        · rw [if_pos pointer]
          have inner : q.length ≤ 2 := by
            by_contra deep
            exact rights q t (by omega) at_ index low valid pointer
          have atChild : tableAt m root (q ++ [index]) =
              some (entryAt m t index).getPhysicalAddress := by
            rw [tableAt_snoc, at_]
            exact tableAt_child t index _ low valid rfl
          have spec := recursive index _ ref T s inner atChild (inside index (le_refl _) low) aligned
            (untouched index (le_refl _) low) kept
          rw [wp_bind]
          apply wp_weaken spec
          intro _ s₁ kept₁
          exact clears s₁ kept₁
        · rw [if_neg pointer]
          -- only the last level has entries with permissions, and nothing hangs below those
          have last : q.length = 3 := by
            by_contra inner
            have bits := tables.pointers q t (by omega) at_ index low valid
            exact PageTableEntry.no_rights bits (PageTableEntry.hasRights_iff.mp pointer)
          apply clears s
          rw [diff_of_empty (below_empty_of_long last index)]
          exact kept
      · rw [if_neg valid]
        have empty : child m t index = none := if_neg fun h => valid h.2
        apply next ref s
        · intro _ _ _ _ _ _
          rfl
        · intro j above high
          exact unread j (by omega) high
        · rw [diff_of_empty (below_empty_of_child at_ empty)]
          exact kept

theorem cleanTable_spec (arch : Riscv σ) (sink : PageSink arch.deallocate inv halts)
    (tables : Tables m root) (rights : Rights m root) (short : q.length ≤ 3)
    (at_ : tableAt m root q = some t) (depth : Nat)
    (recursive : ∀ j c ref T s, q.length ≤ 2 → tableAt m root (q ++ [j]) = some c →
      Below m root (q ++ [j]) ⊆ T → (∀ x ∈ T, x % pageSize = 0) →
      (∀ x ∈ Below m root (q ++ [j]), ∀ y, x ≤ y → y < x + pageSize → ref y = m y) →
      Kept inv ref T s →
      wp (arch.recursiveClean depth c) (fun _ s' => Kept inv ref (T \ Below m root (q ++ [j])) s')
        halts s)
    (inside : Below m root q ⊆ T) (aligned : ∀ x ∈ T, x % pageSize = 0)
    (untouched : ∀ x ∈ Below m root q, ∀ y, x ≤ y → y < x + pageSize → ref y = m y)
    (kept : Kept inv ref T s) :
    wp (arch.recursiveClean (depth + 1) t) (fun _ s' => Kept inv ref (T \ Below m root q) s')
      halts s := by
  have self : t ∈ Below m root q := mem_below_self short at_
  have loop := cleanEntries_spec sink tables rights short at_ (arch.recursiveClean depth) recursive
    aligned 512 0 rfl (inside self) (fun j _ _ x below => inside (below_snoc_subset j below))
    (fun j _ high => entryAt_congr m ref t (untouched t self) j high)
    (fun j _ _ x below => untouched x (below_snoc_subset j below)) kept
  rw [Riscv.recursiveClean, wp_bind]
  apply wp_weaken loop
  intro _ s₁ found
  rcases found with ⟨ref', kept', agrees⟩
  have present : t ∈ T \ Behind m root q 0 := by
    refine ⟨inside self, ?_⟩
    intro found
    rcases found with ⟨j, -, -, below⟩
    exact not_mem_below_snoc tables short at_ j below
  apply wp_weaken (sink.freed _ s₁ t kept'.held present)
  intro _ s₂ freed
  rw [diff_behind_start T short at_] at freed
  refine ⟨freed.1, ?_⟩
  intro x remains y first last
  have left_ : x ∈ (T \ Behind m root q 0) \ {t} := by
    rw [diff_behind_start T short at_]
    exact remains
  calc
    memory s₂ y = memory s₁ y := freed.2 x remains y first last
    _ = ref' y := kept'.same x left_.1 y first last
    _ = ref y := agrees x left_.1 left_.2 y first last

/-- The teardown of a subtree gives back its pages and leaves the other ones alone. -/
theorem recursiveClean_spec (arch : Riscv σ) (sink : PageSink arch.deallocate inv halts)
    (tables : Tables m root) (rights : Rights m root) (height depth : Nat) (enough : height < depth)
    (level : q.length + height = 3) (at_ : tableAt m root q = some t)
    (inside : Below m root q ⊆ T) (aligned : ∀ x ∈ T, x % pageSize = 0)
    (untouched : ∀ x ∈ Below m root q, ∀ y, x ≤ y → y < x + pageSize → ref y = m y)
    (kept : Kept inv ref T s) :
    wp (arch.recursiveClean depth t) (fun _ s' => Kept inv ref (T \ Below m root q) s') halts s := by
  induction height generalizing depth q t T ref s with
  | zero =>
      cases depth with
      | zero => omega
      | succ depth =>
          apply cleanTable_spec arch sink tables rights (by omega) at_ depth
          · intro j c ref T s shallow
            omega
          · exact inside
          · exact aligned
          · exact untouched
          · exact kept
  | succ height ih =>
      cases depth with
      | zero => omega
      | succ depth =>
          apply cleanTable_spec arch sink tables rights (by omega) at_ depth
          · intro j c ref T s _ atChild insideT alignedT untouchedT keptT
            apply ih depth (by omega) ?_ atChild insideT alignedT untouchedT keptT
            rw [List.length_append, List.length_singleton]
            omega
          · exact inside
          · exact aligned
          · exact untouched
          · exact kept

theorem cleanUpPageTable_spec (arch : Riscv σ) (sink : PageSink arch.deallocate inv halts)
    (tables : Tables (memory s) root) (rights : Rights (memory s) root)
    (held : inv {x | TablePage (memory s) root x} s) :
    wpr (arch.cleanUpPageTable root) (fun _ s' => inv ∅ s') (fun _ _ => False) halts s := by
  rw [Riscv.cleanUpPageTable, wpr_lift]
  have spec := recursiveClean_spec arch sink tables rights 3 usizeBound
    (Nat.lt_of_lt_of_le (by decide) (Nat.pow_le_pow_right (by decide) (by decide : 2 ≤ 64))) rfl
    (tableAt_nil (memory s) root) (subset_refl _)
    (fun x page => (tables.aligned x (tablePage_of_below page)).1) (fun _ _ _ _ _ => rfl)
    ⟨held, fun _ _ _ _ _ => rfl⟩
  apply wp_weaken spec
  intro _ s' kept
  have nothing := kept.held
  rw [below_nil, Set.sdiff_self] at nothing
  exact nothing

end Cleaning

end Jangri
