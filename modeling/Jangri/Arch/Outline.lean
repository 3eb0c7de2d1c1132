import Jangri.Arch.Supply
import Jangri.Lib.Answer

namespace Jangri

open Lib

structure Outline (π : Type) where
  tables : Set (List Nat)
  pages : Set Nat
  stock : π

open Classical in
noncomputable def lacking (tables : Set (List Nat)) (va : Nat) : (levels : Nat) → Nat
  | 0 => 0
  | levels + 1 =>
      lacking tables va levels + if (pathOf va).take (3 - levels) ∈ tables then 0 else 1

namespace Outline

variable {π : Type} (take : π → Answer π)

def insert (va : Nat) (stock : π) (outline : Outline π) : Outline π where
  tables := outline.tables ∪ {path | path = (pathOf va).take path.length}
  pages := Insert.insert (vpn va) outline.pages
  stock

open Classical in
noncomputable def mapPage (va : Nat) (outline : Outline π) : Answer (Outline π) :=
  (Answer.times take (lacking outline.tables va 3) outline.stock).bind fun stock =>
    if vpn va ∈ outline.pages then .refused else .served (outline.insert va stock)

/-- Pages in a row. The physical address is counted up behind each page, and may overflow. -/
noncomputable def mapRange : (count va pa : Nat) → Outline π → Answer (Outline π)
  | 0, _, _, outline => .served outline
  | count + 1, va, pa, outline =>
      (outline.mapPage take va).bind fun outline =>
        if pa + pageSize < usizeBound then
          mapRange count ((va + pageSize) % usizeBound) (pa + pageSize) outline
        else .stuck

end Outline

/-- What the allocation callback answers depends on `stock` only. -/
structure ForetoldSupply {σ : Type} [HasMemory σ] {π : Type} (allocate : Nat → Fallible σ Nat)
    (inv : Set Nat → σ → Prop) (take : π → Answer π) (stock : π → σ → Prop) : Prop where
  allocated : ∀ p T s, inv T s → stock p s →
    Foretold (take p) (allocate pageSize) (fun p' _ s' => stock p' s') s
  written : ∀ p T s t i entry, inv T s → stock p s → t ∈ T → i < 512 →
    stock p (setMemory s (storeEntry (memory s) (entryAddress t i) entry))

structure Outlines {π : Type} (root : Nat) (outline : Outline π) (m : Memory) : Prop where
  tables : ∀ path, path.length ≤ 3 →
    ((∃ t, tableAt m root path = some t) ↔ path ∈ outline.tables)
  leaves : ∀ va, (∃ entry, leafAt m root va = some entry) ↔ vpn va ∈ outline.pages

theorem pathOf_take_succ (va : Nat) {level : Nat} (low : level ≤ 2) :
    (pathOf va).take (3 - level) = (pathOf va).take (2 - level) ++ [levelToIndex (level + 1) va] := by
  rcases level with _ | _ | _ | level
  · rfl
  · rfl
  · rfl
  · omega

theorem length_pathOf_take (va : Nat) {k : Nat} (low : k ≤ 3) : ((pathOf va).take k).length = k := by
  rw [List.length_take]
  exact Nat.min_eq_left low

section Walk

variable {σ : Type} [HasMemory σ] {π : Type} {inv : Set Nat → σ → Prop} {take : π → Answer π}
  {stock : π → σ → Prop} {halts : Halt → Prop} {allocate : Nat → Fallible σ Nat} {root : Nat}
  {there : Set (List Nat)} {s s' : σ}

theorem linked_tables (rooted : Rooted inv root s) {q : List Nat} {t i v : Nat}
    (short : q.length ≤ 2) (at_ : tableAt (memory s) root q = some t) (low : i < 512)
    (vacant : (entryAt (memory s) t i).isValid = false) (aligned : v % pageSize = 0)
    (bounded : v < usizeBound) (fresh : ¬ TablePage (memory s) root v)
    (zero : ∀ x, v ≤ x → x < v + pageSize → memory s' x = 0)
    (same : SameOn {x | TablePage (memory s) root x} s s') (path : List Nat) (bound : path.length ≤ 3) :
    tableAt (storeEntry (memory s') (entryAddress t i) (.pack v 1)) root path =
      if path = q ++ [i] then some v else tableAt (memory s) root path := by
  have paths := tableAt_congr (memory s) (memory s') root same
  have page := tablePage_congr (memory s) (memory s') root same
  have at' : tableAt (memory s') root q = some t := by
    rw [paths q (by omega)]
    exact at_
  have vacant' : (entryAt (memory s') t i).isValid = false := by
    rw [entryAt_congr _ _ t (same t ⟨q, by omega, at_⟩) i low]
    exact vacant
  rw [tableAt_link (rooted.1.congr _ same) short at' low vacant'
    (fun known => fresh ((page v).mp known)) aligned bounded zero path bound, paths path bound]

def Walked (there : Set (List Nat)) (va depth : Nat) : Set (List Nat) :=
  {path | path ∈ there ∨ path.length ≤ depth ∧ path = (pathOf va).take path.length}

theorem walked_next {va depth : Nat} {path : List Nat}
    (found : path = (pathOf va).take (depth + 1) → path ∈ Walked there va depth) :
    path ∈ Walked there va (depth + 1) ↔ path ∈ Walked there va depth := by
  constructor
  · intro reached
    rcases reached with old | ⟨short, isPath⟩
    · exact Or.inl old
    · by_cases last : path.length = depth + 1
      · rw [last] at isPath
        exact found isPath
      · exact Or.inr ⟨by omega, isPath⟩
  · intro reached
    rcases reached with old | ⟨short, isPath⟩
    · exact Or.inl old
    · exact Or.inr ⟨by omega, isPath⟩

/-- The walk ends as the number of missing tables says. -/
theorem walk_outlined (source : PageSource allocate inv halts)
    (supply : ForetoldSupply allocate inv take stock) (va level t : Nat) (s : σ) (p : π)
    (rooted : Rooted inv root s) (low : level ≤ 3)
    (at_ : tableAt (memory s) root ((pathOf va).take (3 - level)) = some t)
    (known : ∀ path, path.length ≤ 3 →
      ((∃ t, tableAt (memory s) root path = some t) ↔ path ∈ Walked there va (3 - level)))
    (stocked : stock p s) :
    Foretold (Answer.times take (lacking there va level) p) (walk allocate va true level t)
      (fun p' _ s' => stock p' s' ∧ ∀ path, path.length ≤ 3 →
        ((∃ t, tableAt (memory s') root path = some t) ↔ path ∈ Walked there va 3)) s := by
  induction level generalizing t s p with
  | zero =>
      rw [walk]
      exact Foretold.pure ⟨stocked, known⟩
  | succ level ih =>
      have index := levelToIndex_lt (level + 1) va
      have next := pathOf_take_succ va (by omega : level ≤ 2)
      have before : 3 - (level + 1) = 2 - level := by omega
      have deeper : 2 - level + 1 = 3 - level := by omega
      have length := length_pathOf_take va (by omega : 3 - level ≤ 3)
      rw [before] at at_ known
      have needed : (pathOf va).take (3 - level) ∈ Walked there va (2 - level) ↔
          (pathOf va).take (3 - level) ∈ there := by
        constructor
        · intro reached
          rcases reached with old | ⟨short, -⟩
          · exact old
          · omega
        · exact Or.inl
      have found : (∃ t', tableAt (memory s) root ((pathOf va).take (3 - level)) = some t') ↔
          (pathOf va).take (3 - level) ∈ there :=
        (known _ (by omega)).trans needed
      rw [Foretold, walk, lacking]
      simp only [wpr_bind, wpr_lift, wp_readEntry, if_true]
      change wpr (if (entryAt (memory s) t (levelToIndex (level + 1) va)).isValid = true then _
        else _) _ _ _ _
      by_cases valid : (entryAt (memory s) t (levelToIndex (level + 1) va)).isValid = true
      · have child_ : tableAt (memory s) root ((pathOf va).take (3 - level)) =
            some (entryAt (memory s) t (levelToIndex (level + 1) va)).getPhysicalAddress := by
          rw [next, tableAt_snoc, at_]
          exact tableAt_child t _ _ index valid rfl
        rw [if_pos valid, if_pos (found.mp ⟨_, child_⟩), Nat.add_zero]
        apply ih _ s p rooted (by omega) child_ _ stocked
        intro path bound
        rw [known path bound, ← deeper]
        symm
        apply walked_next
        intro isPath
        rw [isPath, deeper]
        exact needed.mpr (found.mp ⟨_, child_⟩)
      · have absent : (pathOf va).take (3 - level) ∉ there := by
          rw [← found, next]
          rintro ⟨t', isTable⟩
          rw [tableAt_snoc, at_, Option.bind_some, child, if_neg fun both => valid both.2] at isTable
          cases isTable
        rw [if_neg valid, if_neg absent, Answer.times_succ]
        apply Foretold.bind ((supply.allocated p _ s rooted.2 stocked).and (source.allocated _ s rooted.2))
        rintro p' v s' ⟨remaining, aligned, bounded, fresh, zero, same, held⟩
        have vacant : (entryAt (memory s) t (levelToIndex (level + 1) va)).isValid = false :=
          Bool.eq_false_iff.mpr valid
        have short : ((pathOf va).take (2 - level)).length ≤ 2 := by
          rw [length_pathOf_take va (Nat.le_succ_of_le (Nat.sub_le 2 level))]
          exact Nat.sub_le 2 level
        have page : TablePage (memory s) root t := ⟨_, Nat.le_succ_of_le short, at_⟩
        have clear : loadEntry (memory s') (entryAddress t (levelToIndex (level + 1) va)) = ⟨0⟩ :=
          zero_entry_of_same rooted.1 page index vacant same
        have linked : Grown inv root (fun _ _ => True) s _ ∧ _ := grown_link source rooted short at_
          index vacant aligned bounded fresh zero same held
        have tables := linked_tables rooted short at_ index vacant aligned bounded fresh zero same
        rw [← next] at tables linked
        rw [Foretold]
        simp only [wpr_bind, wpr_lift, wp_readEntry, wp_writeEntry, clear,
          PageTableEntry.pointerTo_zero v bounded]
        apply ih v _ p' linked.1.rooted (by omega)
        case at_ =>
          rw [memory_setMemory]
          exact linked.2
        case stocked => exact supply.written p' _ s' t _ _ held remaining (Or.inr page) index
        case known =>
          intro path bound
          rw [memory_setMemory, tables path bound]
          by_cases new : path = (pathOf va).take (3 - level)
          · rw [if_pos new]
            have isLong : path.length = 3 - level := by rw [new, length]
            refine iff_of_true ⟨v, rfl⟩ (Or.inr ⟨isLong.le, ?_⟩)
            rw [isLong]
            exact new
          · rw [if_neg new, known path bound, ← deeper]
            symm
            apply walked_next
            intro isPath
            rw [deeper] at isPath
            exact absurd isPath new

end Walk

section Pages

variable {σ : Type} [HasMemory σ] {π : Type} {inv : Set Nat → σ → Prop} {take : π → Answer π}
  {stock : π → σ → Prop} {halts : Halt → Prop} {root : Nat} {s : σ}

theorem outlines_insert {va t : Nat} {entry : PageTableEntry} {outline : Outline π} {p : π}
    (rooted : Rooted inv root s) (at_ : tableAt (memory s) root (pathOf va) = some t)
    (small : entry.bits < usizeBound) (valid : entry.isValid = true)
    (tables : ∀ path, path.length ≤ 3 →
      ((∃ t, tableAt (memory s) root path = some t) ↔ path ∈ Walked outline.tables va 3))
    (leaves : ∀ va, (∃ entry, leafAt (memory s) root va = some entry) ↔ vpn va ∈ outline.pages) :
    Outlines root (outline.insert va p)
      (storeEntry (memory s) (entryAddress t (levelToIndex 0 va)) entry) where
  tables := by
    intro path bound
    rw [tableAt_leaf rooted.1 rfl at_ (levelToIndex_lt 0 va) small path bound, tables path bound]
    constructor
    · intro reached
      exact reached.imp_right And.right
    · intro known
      exact known.imp_right fun isPath => ⟨bound, isPath⟩
  leaves := by
    intro va'
    rw [leafAt_leaf rooted.1 va at_ small valid va', Outline.insert, Set.mem_insert_iff]
    by_cases here : vpn va' = vpn va
    · rw [if_pos here]
      exact iff_of_true ⟨entry, rfl⟩ (Or.inl here)
    · rw [if_neg here, leaves va']
      exact ⟨Or.inr, fun known => known.resolve_left here⟩

theorem mapPages_step (arch : Riscv σ) (source : PageSource arch.allocate inv halts)
    (supply : ForetoldSupply arch.allocate inv take stock) (r w x u : Bool) (count va pa : Nat)
    (outline : Outline π) (rooted : Rooted inv root s) (inside : va < usizeBound)
    (bounded : pa < usizeBound) (outlines : Outlines root outline (memory s))
    (stocked : stock outline.stock s) {ok : Unit → σ → Prop} {err : Error → σ → Prop}
    {stops : Halt → Prop}
    (served : ∀ outline' s₁, outline.mapPage take va = .served outline' → Rooted inv root s₁ →
      Outlines root outline' (memory s₁) → stock outline'.stock s₁ →
      (∃ entry, leafAt (memory s₁) root va = some entry) → pa + pageSize < usizeBound →
      wpr (arch.mapPages root r w x u count ((va + pageSize) % usizeBound) (pa + pageSize)) ok err
        stops s₁)
    (overflows : ∀ outline', outline.mapPage take va = .served outline' →
      ¬ pa + pageSize < usizeBound → stops (.panic .overflow))
    (refused : outline.mapPage take va = .refused → ∀ e s₁,
      Grown inv root (fun _ _ => False) s s₁ → err e s₁)
    (stuck : outline.mapPage take va = .stuck → ∀ h, stops h) :
    wpr (arch.mapPages root r w x u (count + 1) va pa) ok err stops s := by
  have flagsSmall := PageTableEntry.flags_small r w x u
  have valid := PageTableEntry.isValid_leaf pa r w x u
  have small : ¬ va > maxVa := by
    simp only [usizeBound, maxVa] at *
    omega
  have known : ∀ path, path.length ≤ 3 → ((∃ t, tableAt (memory s) root path = some t) ↔
      path ∈ Walked outline.tables va (3 - 3)) := by
    intro path bound
    rw [outlines.tables path bound]
    constructor
    · exact Or.inl
    · intro reached
      rcases reached with old | ⟨short, -⟩
      · exact old
      · have isRoot : path = [] := List.length_eq_zero_iff.mp (Nat.le_zero.mp short)
        rw [isRoot, ← outlines.tables [] (Nat.zero_le 3)]
        exact ⟨root, rfl⟩
  have walks : wpr (walk arch.allocate va true 3 root)
      (fun a s' => Grown inv root (fun _ _ => False) s s' ∧ _) _ halts s :=
    walk_spec source va 3 [] root s rooted rfl rfl
  have ends := walk_outlined source supply va 3 root s outline.stock rooted (le_refl 3) rfl known stocked
  rw [Riscv.mapPages, getPageTableEntryAddress, if_neg small, wpr_bind]
  apply wpr_mono (wpr_and ends walks)
  case fails =>
    intro e s₁ both
    apply refused _ e s₁ both.2
    rw [Outline.mapPage, both.1]
    rfl
  case stops =>
    intro h both
    apply stuck
    rw [Outline.mapPage, both.1]
    rfl
  intro a s₁ both
  rcases both with ⟨⟨p, isServed, stocked₁, tables⟩, grown, t, at_, rfl⟩
  rw [List.nil_append, below_three] at at_
  have leaves : ∀ va', (∃ entry, leafAt (memory s₁) root va' = some entry) ↔
      vpn va' ∈ outline.pages := by
    intro va'
    rw [← outlines.leaves va']
    constructor
    · rintro ⟨entry, leaf⟩
      rcases grown.only va' entry leaf with old | new
      · exact ⟨entry, old⟩
      · exact new.elim
    · rintro ⟨entry, leaf⟩
      exact ⟨entry, grown.keeps va' entry leaf⟩
  have mapped : (entryAt (memory s₁) t (levelToIndex 0 va)).isValid = true ↔
      vpn va ∈ outline.pages := by
    rw [← leaves va, leafAt, at_, Option.bind_some, ifValid]
    constructor
    · intro valid
      rw [if_pos valid]
      exact ⟨_, rfl⟩
    · rintro ⟨entry, found⟩
      by_contra invalid
      rw [if_neg invalid] at found
      cases found
  simp only [wpr_bind, wpr_lift, wp_readEntry, wp_writeEntry, wpr_ite, wpr_throw]
  change if (entryAt (memory s₁) t (levelToIndex 0 va)).isValid = true then _ else _
  by_cases taken : vpn va ∈ outline.pages
  · have page : outline.mapPage take va = .refused := by
      rw [Outline.mapPage, isServed, Answer.bind, if_pos taken]
    rw [if_pos (mapped.mpr taken)]
    exact refused page _ s₁ grown
  · have vacant := mt mapped.mp taken
    have table : TablePage (memory s₁) root t := tablePage_path at_
    have clear : loadEntry (memory s₁) (entryAddress t (levelToIndex 0 va)) = ⟨0⟩ :=
      grown.rooted.1.zero_entry table (levelToIndex_lt 0 va) (Bool.eq_false_iff.mpr vacant)
    have bits := pack_bits_lt pa _ bounded flagsSmall
    have installed : Grown inv root (fun _ _ => True) s₁ _ ∧ _ := grown_leaf source grown.rooted
      at_ (Bool.eq_false_iff.mpr vacant) bits valid trivial
    have page : outline.mapPage take va = .served (outline.insert va p) := by
      rw [Outline.mapPage, isServed, Answer.bind, if_neg taken]
    have drawn : Outlines root (outline.insert va p) _ :=
      outlines_insert grown.rooted at_ bits valid tables leaves
    by_cases fits : pa + pageSize < usizeBound
    · rw [if_neg vacant, clear, PageTableEntry.leafFor_zero pa bounded, wp_liftRust, usizeAdd,
        if_pos fits]
      apply served _ _ page installed.1.rooted _ _ _ fits
      · rw [memory_setMemory]
        exact drawn
      · exact supply.written p _ s₁ t _ _ grown.rooted.2 stocked₁ table (levelToIndex_lt 0 va)
      · rw [memory_setMemory]
        exact ⟨_, installed.2⟩
    · rw [if_neg vacant, clear, PageTableEntry.leafFor_zero pa bounded, wp_liftRust, usizeAdd,
        if_neg fits]
      exact overflows _ page fits

/-- The loop of `map` ends as the outline says. -/
theorem mapPages_outlined (arch : Riscv σ) (source : PageSource arch.allocate inv halts)
    (supply : ForetoldSupply arch.allocate inv take stock) (r w x u : Bool) (count va pa : Nat)
    (outline : Outline π) (rooted : Rooted inv root s) (inside : va < usizeBound)
    (bounded : pa < usizeBound) (outlines : Outlines root outline (memory s))
    (stocked : stock outline.stock s) :
    Foretold (outline.mapRange take count va pa) (arch.mapPages root r w x u count va pa)
      (fun outline' _ s' => Outlines root outline' (memory s') ∧ stock outline'.stock s') s := by
  induction count generalizing va pa s outline with
  | zero =>
      rw [Riscv.mapPages]
      exact Foretold.pure ⟨outlines, stocked⟩
  | succ count ih =>
      rw [Foretold]
      apply mapPages_step arch source supply r w x u count va pa outline rooted inside bounded
        outlines stocked
      case served =>
        intro outline' s₁ isServed rooted₁ outlines₁ stocked₁ _ fits
        have rest : outline.mapRange take (count + 1) va pa =
            outline'.mapRange take count ((va + pageSize) % usizeBound) (pa + pageSize) := by
          rw [Outline.mapRange, isServed, Answer.bind, if_pos fits]
        rw [rest]
        exact ih _ _ outline' rooted₁ (Nat.mod_lt _ (by decide)) fits outlines₁ stocked₁
      case overflows =>
        intro outline' isServed exceeds
        rw [Outline.mapRange, isServed, Answer.bind, if_neg exceeds]
      case refused =>
        intro isRefused _ _ _
        rw [Outline.mapRange, isRefused, Answer.bind]
      case stuck =>
        intro isStuck _
        rw [Outline.mapRange, isStuck, Answer.bind]

end Pages

end Jangri
