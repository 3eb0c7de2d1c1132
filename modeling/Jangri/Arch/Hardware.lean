import Jangri.Arch.MapRuns

/-! The address translation of the Sv48 hardware, beside that of `va2pa`.

The hardware part follows the privileged specification: virtual addresses are sign-extended from bit
47, page numbers have 44 bits, and an entry with any of the bits above them set faults. What a leaf
allows is checked against each access and is no part of the translation. -/

namespace Jangri

open Lib

namespace Sv48

/-- Bits 63 to 48 of an address equal bit 47. -/
def Canonical (va : Nat) : Prop := va / 2 ^ 47 = 0 ∨ va / 2 ^ 47 = 2 ^ 17 - 1

instance (va : Nat) : Decidable (Canonical va) := inferInstanceAs (Decidable (_ ∨ _))

def reserved (entry : PageTableEntry) : Bool := entry.bits / 2 ^ 54 != 0

def physicalPageNumber (entry : PageTableEntry) : Nat := entry.bits / 1024 % 2 ^ 44

/-- Not valid, writable but not readable, or with a reserved bit. -/
def faults (entry : PageTableEntry) : Bool :=
  !entry.isValid || (entry.writeable && !entry.readable) || reserved entry

def isLeaf (entry : PageTableEntry) : Bool := entry.readable || entry.executable

def walk (m : Memory) (va : Nat) : (level table : Nat) → Option Nat
  | 0, table =>
      let entry := entryAt m table (levelToIndex 0 va)
      if faults entry then none
      else if isLeaf entry then some (physicalPageNumber entry * 4096 + va % 4096)
      else none
  | level + 1, table =>
      let entry := entryAt m table (levelToIndex (level + 1) va)
      if faults entry then none
      else if isLeaf entry then
        if physicalPageNumber entry % 2 ^ (9 * (level + 1)) = 0 then
          some (physicalPageNumber entry * 4096 + va % 2 ^ (12 + 9 * (level + 1)))
        else none
      else walk m va level (physicalPageNumber entry * 4096)

def translate (m : Memory) (root va : Nat) : Option Nat :=
  if Canonical va then walk m va 3 root else none

structure Legal (entry : PageTableEntry) : Prop where
  leaf : entry.readable = true ∨ entry.executable = true
  writeable : entry.writeable = true → entry.readable = true

/-- No entry that the walk goes through from `table` on has a reserved bit set. -/
def Addressable (m : Memory) (va : Nat) : (level table : Nat) → Prop
  | 0, _ => True
  | level + 1, table => ∀ t, child m table (levelToIndex (level + 1) va) = some t →
      reserved (entryAt m table (levelToIndex (level + 1) va)) = false ∧ Addressable m va level t

/-- What the hardware asks of the mapping of a page on top of what `map` makes sure of. -/
structure Usable (m : Memory) (root va : Nat) (entry : PageTableEntry) : Prop where
  canonical : Canonical va
  legal : Legal entry
  frame : reserved entry = false
  tables : Addressable m va 3 root

section Entries

variable {entry : PageTableEntry}

theorem physicalPageNumber_eq (clear : reserved entry = false) :
    physicalPageNumber entry * 4096 = entry.getPhysicalAddress := by
  rw [PageTableEntry.getPhysicalAddress, Nat.shiftRight_eq_div_pow, Nat.shiftLeft_eq]
  simp only [reserved, bne_eq_false_iff_eq, physicalPageNumber, usizeBound] at *
  omega

theorem not_faults_iff : faults entry = false ↔
    entry.isValid = true ∧ (entry.writeable = true → entry.readable = true) ∧
      reserved entry = false := by
  simp only [faults, Bool.or_eq_false_iff, Bool.not_eq_false', Bool.and_eq_false_imp, and_assoc]

end Entries

section Walk

variable {m : Memory} {root va : Nat}

theorem walk_leaf (t pa : Nat) :
    walk m va 0 t = some pa ↔ ∃ entry, ifValid (entryAt m t (levelToIndex 0 va)) = some entry ∧
      Legal entry ∧ reserved entry = false ∧ pa = entry.getPhysicalAddress + va % pageSize := by
  rw [walk]
  generalize entryAt m t (levelToIndex 0 va) = e
  constructor
  · intro reached
    by_cases bad : faults e = true
    · rw [if_pos bad] at reached
      cases reached
    · rw [if_neg bad] at reached
      rcases not_faults_iff.mp (Bool.eq_false_iff.mpr bad) with ⟨valid, writeable, clear⟩
      by_cases leaf : isLeaf e = true
      · rw [if_pos leaf, physicalPageNumber_eq clear] at reached
        refine ⟨e, if_pos valid, ⟨?_, writeable⟩, clear, (Option.some.inj reached).symm⟩
        rw [isLeaf, Bool.or_eq_true] at leaf
        exact leaf
      · rw [if_neg leaf] at reached
        cases reached
  · rintro ⟨entry, found, legal, clear, rfl⟩
    rcases Option.ite_none_right_eq_some.mp found with ⟨valid, same⟩
    cases Option.some.inj same
    have good : faults e = false := not_faults_iff.mpr ⟨valid, legal.writeable, clear⟩
    have leaf : isLeaf e = true := by
      rw [isLeaf, Bool.or_eq_true]
      exact legal.leaf
    rw [if_neg (Bool.eq_false_iff.mp good), if_pos leaf, physicalPageNumber_eq clear]
    rfl

/-- Above the last level an entry is a pointer or faults. -/
theorem walk_succ (tables : Tables m root) (level : Nat) (q : List Nat) (t : Nat)
    (at_ : tableAt m root q = some t) (short : q.length ≤ 2) :
    walk m va (level + 1) t = (child m t (levelToIndex (level + 1) va)).bind fun c =>
      if reserved (entryAt m t (levelToIndex (level + 1) va)) = false then walk m va level c
      else none := by
  have low := levelToIndex_lt (level + 1) va
  have bare := tables.pointers q t short at_ _ low
  rw [walk, child]
  generalize entryAt m t (levelToIndex (level + 1) va) = e at bare
  by_cases valid : e.isValid = true
  · rcases PageTableEntry.pointer_rights (bare valid) with ⟨unread, unwritten, unexecuted⟩
    have pointer : ¬ isLeaf e = true := by
      rw [isLeaf, unread, unexecuted]
      decide
    have present : levelToIndex (level + 1) va < numberOfPageTableEntriesPerPage ∧
        e.isValid = true := ⟨low, valid⟩
    rw [if_pos present, Option.bind_some]
    by_cases clear : reserved e = false
    · have good : faults e = false := by
        rw [not_faults_iff, unwritten]
        exact ⟨valid, by simp, clear⟩
      rw [if_neg (Bool.eq_false_iff.mp good), if_neg pointer, if_pos clear,
        physicalPageNumber_eq clear]
    · have bad : faults e = true := by
        rw [← Bool.not_eq_false, not_faults_iff]
        exact fun good => clear good.2.2
      rw [if_pos bad, if_neg clear]
  · have bad : faults e = true := by
      rw [← Bool.not_eq_false, not_faults_iff]
      exact fun good => valid good.1
    have absent : ¬ (levelToIndex (level + 1) va < numberOfPageTableEntriesPerPage ∧
        e.isValid = true) := fun both => valid both.2
    rw [if_pos bad, if_neg absent, Option.bind_none]

/-- The hardware walk and the tree: they lead to the same leaf table. -/
theorem walk_iff (tables : Tables m root) (level : Nat) (q : List Nat) (t pa : Nat)
    (at_ : tableAt m root q = some t) (length : q.length + level = 3) :
    walk m va level t = some pa ↔ Addressable m va level t ∧ ∃ entry,
      ((tableAt m t (below va level)).bind fun t' => ifValid (entryAt m t' (levelToIndex 0 va))) =
        some entry ∧
      Legal entry ∧ reserved entry = false ∧ pa = entry.getPhysicalAddress + va % pageSize := by
  induction level generalizing q t with
  | zero =>
      rw [walk_leaf]
      simp only [Addressable, below, tableAt_nil, Option.bind_some, true_and]
  | succ level ih =>
      have next : tableAt m t (below va (level + 1)) =
          (child m t (levelToIndex (level + 1) va)).bind fun c => tableAt m c (below va level) := by
        rw [below, tableAt, List.foldlM_cons]
        rfl
      have longer : (q ++ [levelToIndex (level + 1) va]).length + level = 3 := by
        rw [List.length_append, List.length_singleton]
        omega
      rw [walk_succ tables level q t at_ (by omega), next, Addressable]
      cases down : child m t (levelToIndex (level + 1) va) with
      | none =>
          simp only [Option.bind_none]
          constructor
          · intro impossible
            cases impossible
          · rintro ⟨-, entry, impossible, -⟩
            cases impossible
      | some c =>
          have here : tableAt m root (q ++ [levelToIndex (level + 1) va]) = some c := by
            rw [tableAt_snoc, at_, Option.bind_some, down]
          simp only [Option.bind_some, Option.some.injEq, forall_eq']
          by_cases clear : reserved (entryAt m t (levelToIndex (level + 1) va)) = false
          · rw [if_pos clear, ih _ c here longer]
            simp only [clear, true_and]
          · rw [if_neg clear]
            constructor
            · intro impossible
              cases impossible
            · intro reached
              exact absurd reached.1.1 clear

/-- The hardware translates by the leaf entry, if that is usable. -/
theorem translate_iff (tables : Tables m root) (pa : Nat) :
    translate m root va = some pa ↔ ∃ entry, leafAt m root va = some entry ∧
      Usable m root va entry ∧ pa = entry.getPhysicalAddress + va % pageSize := by
  have walked := @walk_iff m root va tables 3 [] root pa rfl rfl
  rw [translate, Option.ite_none_right_eq_some, walked, below_three]
  constructor
  · rintro ⟨canonical, addressable, entry, found, legal, clear, rfl⟩
    exact ⟨entry, found, ⟨canonical, legal, clear, addressable⟩, rfl⟩
  · rintro ⟨entry, found, usable, rfl⟩
    exact ⟨usable.canonical, usable.tables, entry, found, usable.legal, usable.frame, rfl⟩

end Walk

end Sv48

section Results

variable {σ : Type} [HasMemory σ] {inv : Set Nat → σ → Prop} {halts : Halt → Prop}
  (arch : Riscv σ) (root : Nat)

/-- `va2pa` and the hardware agree on an address exactly when its page is not mapped or the hardware
can use the mapping. -/
theorem walks_agree_iff (source : PageSource arch.allocate inv halts)
    (aligned : root % pageSize = 0) (bounded : root < usizeBound) (start s : σ)
    (zero : ∀ x, root ≤ x → x < root + pageSize → memory start x = 0) (held : inv {root} start)
    (trace : List (σ × MapCall)) (run : Run (arch.MapSteps root) start trace s) (va : Nat)
    (small : va < usizeBound) :
    (∀ pa, (arch.va2pa root va).run s = .ok (.ok pa, s) ↔
        Sv48.translate (memory s) root va = some pa) ↔
      ∀ entry, leafAt (memory s) root va = some entry → Sv48.Usable (memory s) root va entry := by
  have rooted := rooted_run source start s trace (rooted_of_zero aligned bounded start zero held) run
  rcases va2pa_reads arch root va small s with ⟨r, ran, reads⟩
  have software : ∀ pa, (arch.va2pa root va).run s = .ok (.ok pa, s) ↔
      ∃ entry, leafAt (memory s) root va = some entry ∧
        pa = entry.getPhysicalAddress + va % pageSize := by
    intro pa
    rw [ran, ← reads pa]
    constructor
    · intro same
      exact congrArg Prod.fst (Except.ok.inj same)
    · intro same
      rw [same]
  constructor
  · intro agree entry found
    have translated := (agree _).mp ((software _).mpr ⟨entry, found, rfl⟩)
    rcases (Sv48.translate_iff rooted.1 _).mp translated with ⟨entry', found', usable, -⟩
    cases Option.some.inj (found.symm.trans found')
    exact usable
  · intro usable pa
    rw [software, Sv48.translate_iff rooted.1]
    constructor
    · rintro ⟨entry, found, rfl⟩
      exact ⟨entry, found, usable entry found, rfl⟩
    · rintro ⟨entry, found, -, rfl⟩
      exact ⟨entry, found, rfl⟩

end Results

theorem mapped_page_agrees :
    (Pages.arch.va2pa 4096 0x3ffff000).run Pages.mapped = .ok (.ok 0x80000000, Pages.mapped) ∧
      Sv48.translate Pages.mapped.memory 4096 0x3ffff000 = some 0x80000000 := by
  have reached : Sv48.translate Pages.mapped.memory 4096 0x3ffff000 = some 0x80000000 := by
    decide +kernel
  have zero : ∀ x, 4096 ≤ x → x < 4096 + pageSize → memory Pages.fresh x = 0 := fun _ _ _ => rfl
  have held : Pages.Inv {4096} Pages.fresh := by
    refine ⟨by decide, by decide, ?_⟩
    rintro t rfl
    decide
  have run := Run.single Pages.mapped_of_fresh
  have rooted := rooted_run Pages.source Pages.fresh Pages.mapped _
    (rooted_of_zero (by decide) (by decide) Pages.fresh zero held) run
  refine ⟨((walks_agree_iff Pages.arch 4096 Pages.source (by decide) (by decide) Pages.fresh
    Pages.mapped zero held _ run 0x3ffff000 (by decide)).mpr ?_ 0x80000000).mpr reached, reached⟩
  rcases (Sv48.translate_iff rooted.1 _).mp reached with ⟨entry, found, usable, -⟩
  intro entry' found'
  cases found.symm.trans found'
  exact usable

/-- 2 ^ 48 above a mapped page `va2pa` finds the page again, where the hardware faults. -/
theorem upper_bits_ignored :
    (Pages.arch.va2pa 4096 0x100003ffff000).run Pages.mapped = .ok (.ok 0x80000000, Pages.mapped) ∧
      Sv48.translate Pages.mapped.memory 4096 0x100003ffff000 = none := by
  constructor
  · rcases va2pa_reads Pages.arch 4096 0x100003ffff000 (by decide) Pages.mapped with ⟨r, ran, reads⟩
    have entry : (leafAt Pages.mapped.memory 4096 0x100003ffff000).map
        PageTableEntry.getPhysicalAddress = some 0x80000000 := by decide +kernel
    rcases Option.map_eq_some_iff.mp entry with ⟨leaf, found, frame⟩
    have translated : r = .ok 0x80000000 := by
      refine (reads 0x80000000).mpr ⟨leaf, found, ?_⟩
      rw [frame]
      rfl
    rw [ran, translated]
  · exact if_neg (by decide)

end Jangri
