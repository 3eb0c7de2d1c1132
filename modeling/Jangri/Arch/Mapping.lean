import Jangri.Arch.Translate
import Jangri.Lib.Run

/-! The walk with allocation, and `map`, as operations on trees.

`PageSource` is what the code relies on in its allocation callback: a page it returns is zeroed
and is no live table page, and table pages stay as they are. `inv` is whatever the callback needs
to know about the state to keep that promise. -/

namespace Jangri

open Lib

section Primitives

variable {σ α : Type} [HasMemory σ] {halts : Halt → Prop} {s : σ}

@[simp] theorem wp_readEntry (addr : Nat) (post : PageTableEntry → σ → Prop) :
    wp (readEntry addr) post halts s ↔ post (loadEntry (memory s) addr) s := by
  rw [wp_def]
  exact Iff.rfl

@[simp] theorem wp_writeEntry (addr : Nat) (entry : PageTableEntry) (post : Unit → σ → Prop) :
    wp (writeEntry addr entry) post halts s ↔
      post () (setMemory s (storeEntry (memory s) addr entry)) := by
  rw [wp_def]
  exact Iff.rfl

theorem wp_liftRust {σ α : Type} {halts : Halt → Prop} {s : σ} (x : Rust α)
    (post : α → σ → Prop) :
    wp (liftRust x) post halts s ↔ match x with
      | .ok a => post a s
      | .error e => halts e := by
  rw [wp_def]
  cases x <;> exact Iff.rfl

theorem wp_usizeAdd {σ : Type} {halts : Halt → Prop} {s : σ} (a b : Nat) (post : Nat → σ → Prop)
    (fits : a + b < usizeBound → post (a + b) s) (stops : halts (.panic .overflow)) :
    wp (liftRust (usizeAdd a b)) post halts s := by
  rw [wp_liftRust, usizeAdd]
  by_cases bound : a + b < usizeBound
  · rw [if_pos bound]
    exact fits bound
  · rw [if_neg bound]
    exact stops

end Primitives

def SameOn {σ : Type} [HasMemory σ] (T : Set Nat) (s s' : σ) : Prop :=
  ∀ t ∈ T, ∀ x, t ≤ x → x < t + pageSize → memory s' x = memory s x

theorem zero_entry_of_same {σ : Type} [HasMemory σ] {s s' : σ} {root t i : Nat}
    (tables : Tables (memory s) root) (page : TablePage (memory s) root t) (low : i < 512)
    (vacant : (entryAt (memory s) t i).isValid = false)
    (same : SameOn {x | TablePage (memory s) root x} s s') : entryAt (memory s') t i = ⟨0⟩ :=
  (entryAt_congr _ _ t (same t page) i low).trans (tables.zero_entry page low vacant)

structure PageSource {σ : Type} [HasMemory σ] (allocate : Nat → Fallible σ Nat)
    (inv : Set Nat → σ → Prop) (halts : Halt → Prop) : Prop where
  allocated : ∀ T s, inv T s → wpr (allocate pageSize)
    (fun v s' => v % pageSize = 0 ∧ v < usizeBound ∧ v ∉ T ∧
      (∀ x, v ≤ x → x < v + pageSize → memory s' x = 0) ∧ SameOn T s s' ∧ inv (insert v T) s')
    (fun _ s' => SameOn T s s' ∧ inv T s') halts s
  written : ∀ T s t i entry, inv T s → t ∈ T → i < 512 →
    inv T (setMemory s (storeEntry (memory s) (entryAddress t i) entry))
  overflow : halts (.panic .overflow)

section Growing

variable {σ : Type} [HasMemory σ] (inv : Set Nat → σ → Prop) (root : Nat)

/-- The tree at `root` has the shape `map` gives it, and the callback knows its pages. -/
def Rooted (s : σ) : Prop :=
  Tables (memory s) root ∧ inv {x | TablePage (memory s) root x} s

structure Grown (new : Nat → PageTableEntry → Prop) (s s' : σ) : Prop where
  rooted : Rooted inv root s'
  tables : ∀ path t, path.length ≤ 3 → tableAt (memory s) root path = some t →
    tableAt (memory s') root path = some t
  keeps : ∀ va entry, leafAt (memory s) root va = some entry →
    leafAt (memory s') root va = some entry
  only : ∀ va entry, leafAt (memory s') root va = some entry →
    leafAt (memory s) root va = some entry ∨ new (vpn va) entry

variable {inv root} {allocate : Nat → Fallible σ Nat} {halts : Halt → Prop}
  {new : Nat → PageTableEntry → Prop} {s s' s'' : σ}

theorem Grown.refl (rooted : Rooted inv root s) : Grown inv root new s s :=
  ⟨rooted, fun _ _ _ h => h, fun _ _ h => h, fun _ _ h => Or.inl h⟩

theorem Grown.trans (first : Grown inv root new s s') (second : Grown inv root new s' s'') :
    Grown inv root new s s'' where
  rooted := second.rooted
  tables := fun path t short at_ => second.tables path t short (first.tables path t short at_)
  keeps := fun va entry leaf => second.keeps va entry (first.keeps va entry leaf)
  only := by
    intro va entry leaf
    rcases second.only va entry leaf with old | added
    · exact first.only va entry old
    · exact Or.inr added

theorem Grown.weaken {new' : Nat → PageTableEntry → Prop} (grown : Grown inv root new s s')
    (weaker : ∀ page entry, new page entry → new' page entry) : Grown inv root new' s s' where
  rooted := grown.rooted
  tables := grown.tables
  keeps := grown.keeps
  only := fun va entry leaf => (grown.only va entry leaf).imp_right (weaker _ _)

theorem grown_of_same (rooted : Rooted inv root s)
    (same : SameOn {x | TablePage (memory s) root x} s s')
    (kept : inv {x | TablePage (memory s) root x} s') : Grown inv root new s s' := by
  have path := tableAt_congr (memory s) (memory s') root same
  have page : {x | TablePage (memory s') root x} = {x | TablePage (memory s) root x} :=
    Set.ext (tablePage_congr _ _ root same)
  have leaf := leafAt_congr (memory s) (memory s') root same
  refine ⟨⟨rooted.1.congr _ same, by rw [page]; exact kept⟩, ?_, ?_, ?_⟩
  · intro p t short at_
    rw [path p short]
    exact at_
  · intro va entry found
    rw [leaf va]
    exact found
  · intro va entry found
    rw [leaf va] at found
    exact Or.inl found

theorem grown_link (source : PageSource allocate inv halts) (rooted : Rooted inv root s)
    {q : List Nat} {t i v : Nat} (short : q.length ≤ 2) (at_ : tableAt (memory s) root q = some t)
    (low : i < 512) (vacant : (entryAt (memory s) t i).isValid = false)
    (aligned : v % pageSize = 0) (bounded : v < usizeBound) (fresh : ¬ TablePage (memory s) root v)
    (zero : ∀ x, v ≤ x → x < v + pageSize → memory s' x = 0)
    (same : SameOn {x | TablePage (memory s) root x} s s')
    (held : inv (insert v {x | TablePage (memory s) root x}) s') :
    Grown inv root new s
        (setMemory s' (storeEntry (memory s') (entryAddress t i) (.pack v 1))) ∧
      tableAt (storeEntry (memory s') (entryAddress t i) (.pack v 1)) root (q ++ [i]) = some v := by
  have path := tableAt_congr (memory s) (memory s') root same
  have page := tablePage_congr (memory s) (memory s') root same
  have tables := rooted.1.congr _ same
  have at' : tableAt (memory s') root q = some t := by
    rw [path q (by omega)]
    exact at_
  have entry : entryAt (memory s') t i = entryAt (memory s) t i :=
    entryAt_congr _ _ t (same t ⟨q, by omega, at_⟩) i low
  have fresh' : ¬ TablePage (memory s') root v := fun known => fresh ((page v).mp known)
  have vacant' : (entryAt (memory s') t i).isValid = false := by
    rw [entry]
    exact vacant
  have linked := tableAt_link tables short at' low vacant' fresh' aligned bounded zero
  have before : tableAt (memory s') root (q ++ [i]) = none := by
    rw [tableAt_snoc, at', Option.bind_some, child, if_neg]
    simp [vacant']
  have leaf : ∀ va, leafAt (storeEntry (memory s') (entryAddress t i) (.pack v 1)) root va =
      leafAt (memory s) root va := by
    intro va
    rw [leafAt_link tables short at' low vacant' fresh' aligned bounded zero va,
      leafAt_congr _ _ root same va]
  have pages : {x | TablePage (storeEntry (memory s') (entryAddress t i) (.pack v 1)) root x} =
      insert v {x | TablePage (memory s) root x} := by
    ext x
    change TablePage _ root x ↔ x = v ∨ TablePage _ root x
    rw [tablePage_link tables short at' low vacant' fresh' aligned bounded zero x, page x, or_comm]
  refine ⟨⟨⟨?_, ?_⟩, ?_, ?_, ?_⟩, ?_⟩
  · rw [memory_setMemory]
    exact tables_link tables short at' low vacant' fresh' aligned bounded zero
  · rw [memory_setMemory, pages]
    exact source.written _ s' t i _ held (Or.inr ⟨q, by omega, at_⟩) low
  · intro p t' bound atP
    rw [memory_setMemory, linked p bound, if_neg, path p bound]
    · exact atP
    · rintro rfl
      rw [← path _ bound, before] at atP
      cases atP
  · intro va entry found
    rw [memory_setMemory, leaf va]
    exact found
  · intro va entry found
    rw [memory_setMemory, leaf va] at found
    exact Or.inl found
  · rw [linked _ (by simp; omega), if_pos rfl]

theorem grown_leaf (source : PageSource allocate inv halts) (rooted : Rooted inv root s)
    {va t : Nat} {entry : PageTableEntry} (at_ : tableAt (memory s) root (pathOf va) = some t)
    (vacant : (entryAt (memory s) t (levelToIndex 0 va)).isValid = false)
    (small : entry.bits < usizeBound) (valid : entry.isValid = true)
    (allowed : new (vpn va) entry) :
    Grown inv root new s
        (setMemory s (storeEntry (memory s) (entryAddress t (levelToIndex 0 va)) entry)) ∧
      leafAt (storeEntry (memory s) (entryAddress t (levelToIndex 0 va)) entry) root va =
        some entry := by
  have low := levelToIndex_lt 0 va
  have deep : (pathOf va).length = 3 := rfl
  have leaf := leafAt_leaf rooted.1 va at_ small valid
  have pages : {x | TablePage (storeEntry (memory s) (entryAddress t (levelToIndex 0 va)) entry) root x} =
      {x | TablePage (memory s) root x} := by
    ext x
    exact tablePage_leaf rooted.1 deep at_ low small x
  refine ⟨⟨⟨?_, ?_⟩, ?_, ?_, ?_⟩, ?_⟩
  · rw [memory_setMemory]
    exact tables_leaf rooted.1 deep at_ low small valid
  · rw [memory_setMemory, pages]
    exact source.written _ s t _ entry rooted.2 (tablePage_path at_) low
  · intro p t' bound atP
    rw [memory_setMemory, tableAt_leaf rooted.1 deep at_ low small p bound]
    exact atP
  · intro va' old found
    rw [memory_setMemory, leaf va', if_neg]
    · exact found
    · intro same
      rw [leafAt_eq_of_vpn _ root va' va same, leafAt, at_, Option.bind_some, ifValid,
        if_neg (by simp [vacant])] at found
      cases found
  · intro va' found isLeaf
    rw [memory_setMemory, leaf va'] at isLeaf
    split at isLeaf
    next same =>
      rw [same, ← Option.some.inj isLeaf]
      exact Or.inr allowed
    next => exact Or.inl isLeaf
  · rw [leaf va, if_pos rfl]

/-- The walk with allocation adds the missing tables and ends at the leaf table. -/
theorem walk_spec (source : PageSource allocate inv halts) (va level : Nat) (q : List Nat) (t : Nat)
    (s : σ) (rooted : Rooted inv root s) (at_ : tableAt (memory s) root q = some t)
    (length : q.length + level = 3) :
    wpr (walk allocate va true level t)
      (fun a s' => Grown inv root new s s' ∧ ∃ t',
        tableAt (memory s') root (q ++ below va level) = some t' ∧
          a = entryAddress t' (levelToIndex 0 va))
      (fun _ s' => Grown inv root new s s') halts s := by
  induction level generalizing q t s with
  | zero =>
      rw [walk, wpr_pure]
      exact ⟨Grown.refl rooted, t, by simpa [below] using at_, rfl⟩
  | succ level ih =>
      have low := levelToIndex_lt (level + 1) va
      have rest : q ++ below va (level + 1) =
          (q ++ [levelToIndex (level + 1) va]) ++ below va level := by
        rw [below, List.append_assoc, List.singleton_append]
      have longer : (q ++ [levelToIndex (level + 1) va]).length + level = 3 := by
        rw [List.length_append, List.length_singleton]
        omega
      rw [walk]
      simp only [wpr_bind, wpr_lift, wp_readEntry, if_true]
      change wpr (if (entryAt (memory s) t (levelToIndex (level + 1) va)).isValid = true then _
        else _) _ _ _ _
      by_cases valid : (entryAt (memory s) t (levelToIndex (level + 1) va)).isValid = true
      · rw [if_pos valid, rest]
        refine ih _ _ s rooted ?_ longer
        rw [tableAt_snoc, at_]
        exact tableAt_child t _ _ low valid rfl
      · rw [if_neg valid]
        simp only [wpr_bind, wpr_lift, wp_readEntry, wp_writeEntry]
        apply wpr_weaken (source.allocated _ s rooted.2)
        · rintro v s' ⟨aligned, bounded, fresh, zero, same, held⟩
          have vacant : (entryAt (memory s) t (levelToIndex (level + 1) va)).isValid = false :=
            Bool.eq_false_iff.mpr valid
          have page : TablePage (memory s) root t := ⟨q, by omega, at_⟩
          have clear : loadEntry (memory s') (entryAddress t (levelToIndex (level + 1) va)) = ⟨0⟩ :=
            zero_entry_of_same rooted.1 page low vacant same
          rw [clear, PageTableEntry.pointerTo_zero v bounded]
          have linked : Grown inv root new s _ ∧ _ := grown_link source rooted
            (by omega : q.length ≤ 2) at_ low vacant aligned bounded fresh zero same held
          obtain ⟨grown, at'⟩ := linked
          rw [rest]
          refine wpr_mono (ih _ v _ grown.rooted ?_ longer) ?_ ?_ fun _ h => h
          · rw [memory_setMemory]
            exact at'
          · rintro a s'' ⟨grown', found⟩
            exact ⟨grown.trans grown', found⟩
          · intro e s'' grown'
            exact grown.trans grown'
        · rintro e s' ⟨same, held⟩
          exact grown_of_same rooted same held

def Leaves (va pa pages flags : Nat) (page : Nat) (entry : PageTableEntry) : Prop :=
  ∃ j < pages, page = vpn (va + j * pageSize) ∧ entry = .pack (pa + j * pageSize) flags

theorem vpn_wrap (va : Nat) : vpn (va % usizeBound) = vpn va := by
  simp only [vpn, usizeBound]
  omega

theorem Leaves.of_rest {va pa pages flags page : Nat} {entry : PageTableEntry}
    (leaf : Leaves ((va + pageSize) % usizeBound) (pa + pageSize) pages flags page entry) :
    Leaves va pa (pages + 1) flags page entry := by
  obtain ⟨j, low, at_, rfl⟩ := leaf
  refine ⟨j + 1, by omega, ?_, ?_⟩
  · rw [at_]
    simp only [vpn, usizeBound, pageSize]
    omega
  · rw [show pa + pageSize + j * pageSize = pa + (j + 1) * pageSize by ring]

theorem Grown.vacant (grown : Grown inv root new s s') {va : Nat}
    (later : leafAt (memory s') root va = none) : leafAt (memory s) root va = none := by
  cases found : leafAt (memory s) root va with
  | none => rfl
  | some entry =>
      rw [grown.keeps va entry found] at later
      cases later

/-- The pages that a call maps were not mapped before. -/
theorem mapPages_vacant (arch : Riscv σ) (source : PageSource arch.allocate inv halts)
    (r w x u : Bool) (pages va pa : Nat) (bounded : pa < usizeBound) (rooted : Rooted inv root s) :
    wpr (arch.mapPages root r w x u pages va pa)
      (fun _ s' => Grown inv root (Leaves va pa pages (PageTableEntry.flags r w x u)) s s' ∧
        pa + pages * pageSize < usizeBound ∧
        (∀ j < pages, leafAt (memory s') root (va + j * pageSize) =
          some (.pack (pa + j * pageSize) (PageTableEntry.flags r w x u))) ∧
        ∀ j < pages, leafAt (memory s) root (va + j * pageSize) = none)
      (fun _ s' => Grown inv root (Leaves va pa pages (PageTableEntry.flags r w x u)) s s')
      halts s := by
  induction pages generalizing va pa s with
  | zero =>
      rw [Riscv.mapPages, wpr_pure]
      refine ⟨Grown.refl rooted, by simpa using bounded, ?_, ?_⟩
      · exact fun j low => absurd low (Nat.not_lt_zero j)
      · exact fun j low => absurd low (Nat.not_lt_zero j)
  | succ pages ih =>
      have flagsSmall := PageTableEntry.flags_small r w x u
      have valid := PageTableEntry.isValid_leaf pa r w x u
      rw [Riscv.mapPages, getPageTableEntryAddress]
      by_cases large : va > maxVa
      · rw [if_pos large, wpr_bind, wpr_throw]
        exact Grown.refl rooted
      rw [if_neg large]
      simp only [wpr_bind, wpr_lift, wp_readEntry, wp_writeEntry, wpr_ite, wpr_throw]
      refine wpr_mono (walk_spec source va 3 [] root s rooted rfl rfl) ?_ (fun _ _ h => h) fun _ h => h
      rintro a s₁ ⟨grown, t, at_, rfl⟩
      rw [List.nil_append, below_three] at at_
      change if (entryAt (memory s₁) t (levelToIndex 0 va)).isValid = true then _ else _
      split
      next => exact grown
      next taken =>
        have vacant := Bool.eq_false_iff.mpr taken
        have clear : loadEntry (memory s₁) (entryAddress t (levelToIndex 0 va)) = ⟨0⟩ :=
          grown.rooted.1.zero_entry (tablePage_path at_) (levelToIndex_lt 0 va) vacant
        rw [clear, PageTableEntry.leafFor_zero pa bounded]
        have first : Leaves va pa (pages + 1) (PageTableEntry.flags r w x u) (vpn va)
            (.pack pa (PageTableEntry.flags r w x u)) :=
          ⟨0, Nat.succ_pos _, by simp, by simp⟩
        obtain ⟨grown', leaf⟩ := grown_leaf source grown.rooted at_ vacant
          (pack_bits_lt pa _ bounded flagsSmall) valid first
        refine wp_usizeAdd _ _ _ (fun fits => ?_) source.overflow
        · apply wpr_weaken (ih _ _ fits grown'.rooted)
          · rintro - s₂ ⟨grown'', bound, leaves, vacancies⟩
            refine ⟨(grown.trans grown').trans (grown''.weaken fun _ _ => Leaves.of_rest), ?_, ?_, ?_⟩
            · rw [show pa + (pages + 1) * pageSize = pa + pageSize + pages * pageSize by ring]
              exact bound
            · intro j low
              cases j with
              | zero =>
                  apply grown''.keeps
                  rw [memory_setMemory, Nat.zero_mul, Nat.add_zero, Nat.add_zero]
                  exact leaf
              | succ j =>
                  rw [show pa + (j + 1) * pageSize = pa + pageSize + j * pageSize by ring,
                    ← leaves j (by omega)]
                  apply leafAt_eq_of_vpn
                  simp only [vpn, usizeBound, pageSize]
                  omega
            · intro j low
              cases j with
              | zero =>
                  apply grown.vacant
                  rw [Nat.zero_mul, Nat.add_zero, leafAt, at_, Option.bind_some, ifValid]
                  exact if_neg (Bool.eq_false_iff.mp vacant)
              | succ j =>
                  have samePage : vpn (va + (j + 1) * pageSize) =
                      vpn ((va + pageSize) % usizeBound + j * pageSize) := by
                    simp only [vpn, usizeBound, pageSize]
                    omega
                  rw [leafAt_eq_of_vpn _ root _ _ samePage]
                  exact (grown.trans grown').vacant (vacancies j (by omega))
          · intro e s₂ grown''
            exact (grown.trans grown').trans (grown''.weaken fun _ _ => Leaves.of_rest)

theorem mapPages_spec (arch : Riscv σ) (source : PageSource arch.allocate inv halts)
    (r w x u : Bool) (pages va pa : Nat) (bounded : pa < usizeBound) (rooted : Rooted inv root s) :
    wpr (arch.mapPages root r w x u pages va pa)
      (fun _ s' => Grown inv root (Leaves va pa pages (PageTableEntry.flags r w x u)) s s' ∧
        pa + pages * pageSize < usizeBound ∧
        ∀ j < pages, leafAt (memory s') root (va + j * pageSize) =
          some (.pack (pa + j * pageSize) (PageTableEntry.flags r w x u)))
      (fun _ s' => Grown inv root (Leaves va pa pages (PageTableEntry.flags r w x u)) s s')
      halts s := by
  apply wpr_weaken (mapPages_vacant arch source r w x u pages va pa bounded rooted)
  · exact fun _ s' done => ⟨done.1, done.2.1, done.2.2.1⟩
  · exact fun _ _ grown => grown

theorem map_vacant (arch : Riscv σ) (source : PageSource arch.allocate inv halts)
    (va pa size : Nat) (r w x u : Bool) (bounded : pa < usizeBound) (rooted : Rooted inv root s) :
    wpr (arch.map root va pa size r w x u)
      (fun _ s' => va % pageSize = 0 ∧ (size % pageSize = 0 ∧ size ≠ 0 ∧ pa + size < usizeBound) ∧
        Grown inv root (Leaves va pa (size / pageSize) (PageTableEntry.flags r w x u)) s s' ∧
        (∀ j < size / pageSize, leafAt (memory s') root (va + j * pageSize) =
          some (.pack (pa + j * pageSize) (PageTableEntry.flags r w x u))) ∧
        ∀ j < size / pageSize, leafAt (memory s) root (va + j * pageSize) = none)
      (fun _ s' => Grown inv root (Leaves va pa (size / pageSize) (PageTableEntry.flags r w x u)) s s')
      halts s := by
  unfold Riscv.map
  simp only [wpr_ite, wpr_throw]
  split
  next => exact Grown.refl rooted
  next alignedVa =>
    split
    next => exact Grown.refl rooted
    next alignedSize =>
      split
      next => exact Grown.refl rooted
      next positive =>
        refine wpr_mono (mapPages_vacant arch source r w x u _ va pa bounded rooted) ?_
          (fun _ _ h => h) fun _ h => h
        rintro - s' ⟨grown, fits, leaves, vacancies⟩
        have whole := not_not.mp alignedSize
        rw [Nat.div_mul_cancel (Nat.dvd_of_mod_eq_zero whole)] at fits
        exact ⟨not_not.mp alignedVa, ⟨whole, positive, fits⟩, grown, leaves, vacancies⟩

theorem map_spec (arch : Riscv σ) (source : PageSource arch.allocate inv halts)
    (va pa size : Nat) (r w x u : Bool) (bounded : pa < usizeBound) (rooted : Rooted inv root s) :
    wpr (arch.map root va pa size r w x u)
      (fun _ s' => va % pageSize = 0 ∧ size % pageSize = 0 ∧
        Grown inv root (Leaves va pa (size / pageSize) (PageTableEntry.flags r w x u)) s s' ∧
        ∀ j < size / pageSize, leafAt (memory s') root (va + j * pageSize) =
          some (.pack (pa + j * pageSize) (PageTableEntry.flags r w x u)))
      (fun _ s' => Grown inv root (Leaves va pa (size / pageSize) (PageTableEntry.flags r w x u)) s s')
      halts s := by
  apply wpr_weaken (map_vacant arch source va pa size r w x u bounded rooted)
  · exact fun _ s' done => ⟨done.1, done.2.1.1, done.2.2.1, done.2.2.2.1⟩
  · exact fun _ _ grown => grown

end Growing

end Jangri
