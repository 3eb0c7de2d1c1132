import Jangri.Arch.Grow

namespace Jangri

open Lib

theorem vpn_eq_of_path (va va' : Nat) (path : pathOf va = pathOf va')
    (last : levelToIndex 0 va = levelToIndex 0 va') : vpn va = vpn va' :=
  (path_eq_iff va va').mp ⟨path, last⟩

theorem leafAt_eq_of_vpn (m : Memory) (root va va' : Nat) (same : vpn va = vpn va') :
    leafAt m root va = leafAt m root va' := by
  obtain ⟨path, last⟩ := (path_eq_iff va va').mpr same
  rw [leafAt, leafAt, path, last]

theorem leafAt_page (m : Memory) (root page va : Nat) (aligned : page % pageSize = 0)
    (low : page ≤ va) (high : va < page + pageSize) : leafAt m root va = leafAt m root page := by
  apply leafAt_eq_of_vpn
  simp only [vpn, pageSize] at *
  omega

section Leaves

variable {m : Memory} {root : Nat}

theorem leafAt_link {t i v : Nat} {q : List Nat} (tables : Tables m root) (short : q.length ≤ 2)
    (at_ : tableAt m root q = some t) (low : i < 512) (vacant : (entryAt m t i).isValid = false)
    (fresh : ¬ TablePage m root v) (aligned : v % pageSize = 0) (bounded : v < usizeBound)
    (zero : ∀ x, v ≤ x → x < v + pageSize → m x = 0) (va : Nat) :
    leafAt (storeEntry m (entryAddress t i) (.pack v 1)) root va = leafAt m root va := by
  have path := tableAt_link tables short at_ low vacant fresh aligned bounded zero (pathOf va)
    (by simp [pathOf])
  have entry := entryAt_link tables short at_ low bounded
  have before : tableAt m root (q ++ [i]) = none := by
    rw [tableAt_snoc, at_, Option.bind_some, child, if_neg]
    simp [vacant]
  rw [leafAt, leafAt, path]
  split
  next below =>
    rw [below, before, Option.bind_some, Option.bind_none,
      entry v _ aligned (levelToIndex_lt 0 va), if_neg, entryAt_zero m v zero _ (levelToIndex_lt 0 va)]
    · rfl
    · rintro ⟨rfl, -⟩
      exact fresh ⟨q, by omega, at_⟩
  next other =>
    cases atP : tableAt m root (pathOf va) with
    | none => rw [Option.bind_none, Option.bind_none]
    | some t' =>
        have page : TablePage m root t' := tablePage_path atP
        rw [Option.bind_some, Option.bind_some,
          entry t' _ (tables.aligned t' page).1 (levelToIndex_lt 0 va), if_neg]
        rintro ⟨rfl, -⟩
        have := congrArg List.length
          (tables.injective (pathOf va) q t' (by simp [pathOf]) (by omega) atP at_)
        simp only [pathOf, List.length_cons, List.length_nil] at this
        omega

theorem leafAt_leaf {t : Nat} {entry : PageTableEntry} (tables : Tables m root) (va' : Nat)
    (at_ : tableAt m root (pathOf va') = some t) (small : entry.bits < usizeBound)
    (valid : entry.isValid = true) (va : Nat) :
    leafAt (storeEntry m (entryAddress t (levelToIndex 0 va')) entry) root va =
      if vpn va = vpn va' then some entry else leafAt m root va := by
  have deep : (pathOf va').length = 3 := rfl
  have low := levelToIndex_lt 0 va'
  have path := tableAt_leaf tables deep at_ low small (pathOf va) (by simp [pathOf])
  have entries := entryAt_leaf tables deep at_ low small
  split
  next same =>
    rw [leafAt_eq_of_vpn _ root va va' same, leafAt,
      tableAt_leaf tables deep at_ low small (pathOf va') (by simp [pathOf]), at_,
      Option.bind_some, entries t _ (tables.aligned t (tablePage_path at_)).1 low,
      if_pos ⟨rfl, rfl⟩]
    exact if_pos valid
  next different =>
    rw [leafAt, leafAt, path]
    cases atP : tableAt m root (pathOf va) with
    | none => rw [Option.bind_none, Option.bind_none]
    | some t' =>
        have page : TablePage m root t' := tablePage_path atP
        rw [Option.bind_some, Option.bind_some,
          entries t' _ (tables.aligned t' page).1 (levelToIndex_lt 0 va), if_neg]
        rintro ⟨rfl, last⟩
        exact different (vpn_eq_of_path va va'
          (tables.injective _ _ t' (by simp [pathOf]) (by simp [pathOf]) atP at_) last)

end Leaves

def below (va : Nat) : (level : Nat) → List Nat
  | 0 => []
  | level + 1 => levelToIndex (level + 1) va :: below va level

theorem below_three (va : Nat) : below va 3 = pathOf va := rfl

section Reading

variable {σ : Type} [HasMemory σ]

theorem walk_reads (allocate : Nat → Fallible σ Nat) (va level t : Nat) (s : σ) :
    ∃ r, (walk allocate va false level t).run s = .ok (r, s) ∧
      ∀ a, r = .ok a ↔ ∃ t', tableAt (memory s) t (below va level) = some t' ∧
        a = entryAddress t' (levelToIndex 0 va) := by
  induction level generalizing t with
  | zero =>
      refine ⟨.ok (entryAddress t (levelToIndex 0 va)), rfl, fun a => ?_⟩
      constructor
      · intro same
        exact ⟨t, rfl, (Except.ok.inj same).symm⟩
      · rintro ⟨t', at_, rfl⟩
        rw [below, tableAt_nil] at at_
        rw [Option.some.inj at_]
  | succ level ih =>
      have unfolded : (walk allocate va false (level + 1) t).run s =
          if (entryAt (memory s) t (levelToIndex (level + 1) va)).isValid then
            (walk allocate va false level
              (entryAt (memory s) t (levelToIndex (level + 1) va)).getPhysicalAddress).run s
          else .ok (.error (Error.noSuchVirtualAddress va t), s) := by
        rw [walk, run_lift_bind_ok rfl]
        unfold entryAt
        split
        · rfl
        · rfl
      have next : tableAt (memory s) t (below va (level + 1)) =
          (child (memory s) t (levelToIndex (level + 1) va)).bind fun c =>
            tableAt (memory s) c (below va level) := by
        rw [below, tableAt, List.foldlM_cons]
        rfl
      rw [unfolded, next]
      have low := levelToIndex_lt (level + 1) va
      by_cases valid : (entryAt (memory s) t (levelToIndex (level + 1) va)).isValid = true
      · rw [if_pos valid, child, if_pos ⟨low, valid⟩, Option.bind_some]
        exact ih _
      · rw [if_neg valid, child, if_neg fun both => valid both.2, Option.bind_none]
        refine ⟨_, rfl, fun a => ⟨fun same => ?_, ?_⟩⟩
        · cases same
        · rintro ⟨t', at_, -⟩
          cases at_

theorem getPhysicalAddress_aligned (entry : PageTableEntry) :
    entry.getPhysicalAddress % 4096 = 0 ∧ entry.getPhysicalAddress < usizeBound := by
  rw [PageTableEntry.getPhysicalAddress, Nat.shiftLeft_eq]
  simp only [usizeBound]
  omega

theorem vpn_page (va : Nat) : vpn (va / pageSize * pageSize) = vpn va := by
  simp only [vpn, pageSize]
  omega

/-- What `va2pa` does once it has the address of the entry. -/
theorem translate_entry (m : Memory) (root va t i : Nat) (s : σ) (same : memory s = m) :
    ∃ r, (do
        let entry ← (readEntry (entryAddress t i) : Stateful σ PageTableEntry)
        if ¬ entry.isValid then throw (Error.noSuchVirtualAddress va root)
        else (liftRust (usizeAdd entry.getPhysicalAddress (va % pageSize)) : Stateful σ Nat) :
          Fallible σ Nat).run s = .ok (r, s) ∧
      ∀ pa, r = .ok pa ↔ ∃ entry, ifValid (entryAt m t i) = some entry ∧
        pa = entry.getPhysicalAddress + va % pageSize := by
  subst same
  have unfolded : (do
        let entry ← (readEntry (entryAddress t i) : Stateful σ PageTableEntry)
        if ¬ entry.isValid then throw (Error.noSuchVirtualAddress va root)
        else (liftRust (usizeAdd entry.getPhysicalAddress (va % pageSize)) : Stateful σ Nat) :
          Fallible σ Nat).run s =
      (if ¬ (entryAt (memory s) t i).isValid then throw (Error.noSuchVirtualAddress va root)
        else (liftRust (usizeAdd (entryAt (memory s) t i).getPhysicalAddress (va % pageSize)) :
          Stateful σ Nat) : Fallible σ Nat).run s := rfl
  rw [unfolded, ifValid]
  by_cases valid : (entryAt (memory s) t i).isValid = true
  · have fits : (entryAt (memory s) t i).getPhysicalAddress + va % pageSize < usizeBound := by
      have := getPhysicalAddress_aligned (entryAt (memory s) t i)
      simp only [usizeBound, pageSize] at *
      omega
    rw [if_neg (not_not_intro valid), if_pos valid, usizeAdd, if_pos fits]
    refine ⟨.ok ((entryAt (memory s) t i).getPhysicalAddress + va % pageSize), rfl, fun pa => ?_⟩
    constructor
    · intro same
      exact ⟨_, rfl, (Except.ok.inj same).symm⟩
    · rintro ⟨entry, found, rfl⟩
      rw [Option.some.inj found]
  · rw [if_pos valid, if_neg valid]
    refine ⟨.error (Error.noSuchVirtualAddress va root), rfl, fun pa => ⟨fun same => ?_, ?_⟩⟩
    · cases same
    · rintro ⟨entry, found, -⟩
      cases found

/-- `va2pa` reads the translation off the leaf entry and leaves the state alone. -/
theorem va2pa_reads (arch : Riscv σ) (root va : Nat) (bounded : va < usizeBound) (s : σ) :
    ∃ r, (arch.va2pa root va).run s = .ok (r, s) ∧
      ∀ pa, r = .ok pa ↔ ∃ entry, leafAt (memory s) root va = some entry ∧
        pa = entry.getPhysicalAddress + va % pageSize := by
  obtain ⟨r, ran, exact_⟩ := walk_reads arch.allocate (va / pageSize * pageSize) 3 root s
  rw [below_three] at exact_
  have small : ¬ va / pageSize * pageSize > maxVa := by
    simp only [pageSize, maxVa, usizeBound] at *
    omega
  rw [Riscv.va2pa, getPageTableEntryAddress, if_neg small, ExceptT.run_bind]
  change ∃ r', ((walk arch.allocate (va / pageSize * pageSize) false 3 root).run s >>= _) = _ ∧ _
  rw [ran, leafAt_eq_of_vpn _ root va _ (vpn_page va).symm, leafAt]
  cases r with
  | error e =>
      refine ⟨.error e, rfl, fun pa => ⟨fun same => ?_, ?_⟩⟩
      · cases same
      · rintro ⟨entry, found, -⟩
        obtain ⟨t', at_, -⟩ := Option.bind_eq_some_iff.mp found
        cases (exact_ _).mpr ⟨t', at_, rfl⟩
  | ok address =>
      obtain ⟨t', at_, rfl⟩ := (exact_ address).mp rfl
      rw [at_, Option.bind_some]
      exact translate_entry (memory s) root va t' _ s rfl

end Reading

end Jangri
