import Jangri.Arch.Mapping

namespace Jangri

open Lib

structure PageSupply {σ : Type} [HasMemory σ] (allocate : Nat → Fallible σ Nat)
    (inv : Set Nat → σ → Prop) (stock : Nat → σ → Prop) (fails : Error → Prop)
    (halts : Halt → Prop) : Prop where
  allocated : ∀ n T s, inv T s → stock (n + 1) s →
    wpr (allocate pageSize) (fun _ s' => stock n s') (fun e _ => fails e) halts s
  written : ∀ n s m, stock n s → stock n (setMemory s m)
  less : ∀ n s, stock (n + 1) s → stock n s

section Supplied

variable {σ : Type} [HasMemory σ] {inv : Set Nat → σ → Prop} {stock : Nat → σ → Prop}
  {fails : Error → Prop} {halts halts' : Halt → Prop} {allocate : Nat → Fallible σ Nat}
  {root : Nat} {s : σ}

theorem PageSupply.lessThan (supply : PageSupply allocate inv stock fails halts) {n k : Nat}
    (fewer : n ≤ k) (stocked : stock k s) : stock n s := by
  induction k, fewer using Nat.le_induction with
  | base => exact stocked
  | succ k _ ih => exact ih (supply.less k s stocked)

theorem walk_found (allocate : Nat → Fallible σ Nat) (va level t t' : Nat) (s : σ)
    (at_ : tableAt (memory s) t (below va level) = some t') :
    (walk allocate va true level t).run s = .ok (.ok (entryAddress t' (levelToIndex 0 va)), s) := by
  induction level generalizing t with
  | zero =>
      rw [below, tableAt_nil] at at_
      rw [walk, Option.some.inj at_]
      rfl
  | succ level ih =>
      have first : tableAt (memory s) t (below va (level + 1)) =
          (child (memory s) t (levelToIndex (level + 1) va)).bind fun c =>
            tableAt (memory s) c (below va level) := by
        rw [below, tableAt, List.foldlM_cons]
        rfl
      rw [first] at at_
      rcases Option.bind_eq_some_iff.mp at_ with ⟨c, next, rest⟩
      rw [child] at next
      split at next
      next both =>
        have isNext := Option.some.inj next
        subst isNext
        have valid : (loadEntry (memory s)
          (entryAddress t (levelToIndex (level + 1) va))).isValid = true := both.2
        rw [walk, run_lift_bind_ok rfl, if_pos valid]
        exact ih _ rest
      next => cases next

theorem walk_supplied (source : PageSource allocate inv halts')
    (supply : PageSupply allocate inv stock fails halts) (n va level : Nat) (q : List Nat) (t : Nat)
    (s : σ) (rooted : Rooted inv root s) (at_ : tableAt (memory s) root q = some t)
    (length : q.length + level = 3) (stocked : stock (n + level) s) :
    wpr (walk allocate va true level t) (fun _ s' => stock n s') (fun e _ => fails e) halts s := by
  induction level generalizing q t s with
  | zero =>
      rw [walk, wpr_pure]
      exact stocked
  | succ level ih =>
      have low := levelToIndex_lt (level + 1) va
      have longer : (q ++ [levelToIndex (level + 1) va]).length + level = 3 := by
        rw [List.length_append, List.length_singleton]
        omega
      rw [walk]
      simp only [wpr_bind, wpr_lift, wp_readEntry, if_true]
      change wpr (if (entryAt (memory s) t (levelToIndex (level + 1) va)).isValid = true then _
        else _) _ _ _ _
      by_cases valid : (entryAt (memory s) t (levelToIndex (level + 1) va)).isValid = true
      · rw [if_pos valid]
        apply ih _ _ s rooted _ longer (supply.less _ s stocked)
        rw [tableAt_snoc, at_]
        exact tableAt_child t _ _ low valid rfl
      · rw [if_neg valid]
        simp only [wpr_bind, wpr_lift, wp_readEntry, wp_writeEntry]
        apply wpr_mono (wpr_and (source.allocated _ s rooted.2)
          (supply.allocated (n + level) _ s rooted.2 stocked))
        case fails => exact fun e s' failed => failed.2
        case stops => exact fun e stopped => stopped.2
        rintro v s' ⟨⟨aligned, bounded, fresh, zero, same, held⟩, remaining⟩
        have vacant : (entryAt (memory s) t (levelToIndex (level + 1) va)).isValid = false :=
          Bool.eq_false_iff.mpr valid
        have page : TablePage (memory s) root t := ⟨q, by omega, at_⟩
        have clear : loadEntry (memory s') (entryAddress t (levelToIndex (level + 1) va)) = ⟨0⟩ :=
          zero_entry_of_same rooted.1 page low vacant same
        rw [clear, PageTableEntry.pointerTo_zero v bounded]
        have linked : Grown inv root (fun _ _ => True) s _ ∧ _ := grown_link source rooted
          (by omega : q.length ≤ 2) at_ low vacant aligned bounded fresh zero same held
        apply ih _ v _ linked.1.rooted _ longer (supply.written _ _ _ remaining)
        rw [memory_setMemory]
        exact linked.2

def tablesFor (va pages : Nat) : Nat := (vpn va % 512 + pages + 511) / 512

def Needs (m : Memory) (root va pages tables : Nat) : Prop :=
  tables = tablesFor va pages ∨
    tables + 1 = tablesFor va pages ∧ ∃ t, tableAt m root (pathOf va) = some t

theorem pathOf_next (va : Nat) (inside : vpn va % 512 ≠ 511) :
    pathOf ((va + pageSize) % usizeBound) = pathOf va := by
  simp only [pathOf, levelToIndex_eq, vpn, usizeBound, pageSize, List.cons.injEq, and_true] at *
  omega

theorem vpn_next (va : Nat) : vpn ((va + pageSize) % usizeBound) = (vpn va + 1) % 2 ^ 36 := by
  simp only [vpn, usizeBound, pageSize]
  omega

/-- A leaf table that was just used is there for the next page. -/
theorem needs_next {m : Memory} {va pages tables t : Nat}
    (enough : tables + 1 = tablesFor va (pages + 1))
    (at_ : tableAt m root (pathOf va) = some t) :
    Needs m root ((va + pageSize) % usizeBound) pages tables := by
  have next := vpn_next va
  unfold tablesFor at enough
  unfold Needs tablesFor
  by_cases last : vpn va % 512 = 511
  · left
    rw [next]
    omega
  · right
    rw [next, pathOf_next va last]
    exact ⟨by omega, t, at_⟩

/-- The walk for the first of the pages leaves what the others need. -/
theorem walk_needed (allocate : Nat → Fallible σ Nat) (source : PageSource allocate inv halts')
    (supply : PageSupply allocate inv stock fails halts) (n tables pages va : Nat)
    (rooted : Rooted inv root s) (needs : Needs (memory s) root va (pages + 1) tables)
    (stocked : stock (n + 3 * tables) s) :
    wpr (walk allocate va true 3 root)
      (fun a s' => Grown inv root (fun _ _ => False) s s' ∧
        (∃ t, tableAt (memory s') root (pathOf va) = some t ∧
          a = entryAddress t (levelToIndex 0 va)) ∧
        ∃ tables', tables' + 1 = tablesFor va (pages + 1) ∧ stock (n + 3 * tables') s')
      (fun e _ => fails e) halts s := by
  rcases needs with all | ⟨rest, t, at_⟩
  · have some_ : 0 < tables := by
      rw [all, tablesFor]
      omega
    have counted : n + 3 * tables = n + 3 * (tables - 1) + 3 := by omega
    rw [counted] at stocked
    have walks : wpr (walk allocate va true 3 root)
        (fun a s' => Grown inv root (fun _ _ => False) s s' ∧ _) _ halts' s :=
      walk_spec source va 3 [] root s rooted rfl rfl
    apply wpr_mono (wpr_and walks (walk_supplied source supply _ va 3 [] root s rooted rfl rfl stocked))
    · rintro a s' ⟨⟨grown, found⟩, remaining⟩
      exact ⟨grown, found, tables - 1, by omega, remaining⟩
    · exact fun _ _ failed => failed.2
    · exact fun _ stopped => stopped.2
  · have ran := walk_found allocate va 3 root t s at_
    unfold wpr
    rw [wp_def, ran]
    exact ⟨Grown.refl rooted, ⟨t, at_, rfl⟩, tables, rest, stocked⟩

/-- `map` for vacant pages fails only where the callback does. -/
theorem mapPages_supplied (arch : Riscv σ) (source : PageSource arch.allocate inv halts')
    (supply : PageSupply arch.allocate inv stock fails halts) (r w x u : Bool)
    (n tables pages va pa : Nat) (rooted : Rooted inv root s) (inside : va < usizeBound)
    (few : pages ≤ 2 ^ 36) (bounded : pa + pages * pageSize < usizeBound)
    (vacant : ∀ j < pages, leafAt (memory s) root (va + j * pageSize) = none)
    (needs : Needs (memory s) root va pages tables) (stocked : stock (n + 3 * tables) s) :
    wpr (arch.mapPages root r w x u pages va pa) (fun _ s' => stock n s') (fun e _ => fails e)
      halts s := by
  induction pages generalizing va pa s tables with
  | zero =>
      rw [Riscv.mapPages, wpr_pure]
      exact supply.lessThan (by omega) stocked
  | succ pages ih =>
      have flagsSmall := PageTableEntry.flags_small r w x u
      have valid := PageTableEntry.isValid_leaf pa r w x u
      have small : pa < usizeBound := by omega
      have fits : pa + pageSize < usizeBound := by
        rw [Nat.add_mul, Nat.one_mul] at bounded
        omega
      have small' : ¬ va > maxVa := by
        simp only [usizeBound, maxVa] at *
        omega
      have free : leafAt (memory s) root va = none := by
        have here := vacant 0 (Nat.succ_pos _)
        rw [Nat.zero_mul, Nat.add_zero] at here
        exact here
      have walks := walk_needed arch.allocate source supply n tables pages va rooted needs stocked
      rw [Riscv.mapPages, getPageTableEntryAddress, if_neg small']
      simp only [wpr_bind, wpr_lift, wp_readEntry, wp_writeEntry, wpr_ite, wpr_throw]
      apply wpr_weaken walks
      case fails => exact fun _ _ failed => failed
      rintro a s₁ ⟨grown, ⟨t, at_, rfl⟩, tables', enough, stocked₁⟩
      have same : ∀ va', leafAt (memory s) root va' = none → leafAt (memory s₁) root va' = none := by
        intro va' before
        cases found : leafAt (memory s₁) root va' with
        | none => rfl
        | some entry =>
            rcases grown.only va' entry found with old | new
            · rw [before] at old
              cases old
            · exact new.elim
      have vacant₁ : (entryAt (memory s₁) t (levelToIndex 0 va)).isValid = false := by
        have before := same va free
        rw [leafAt, at_, Option.bind_some, ifValid] at before
        split at before
        next => cases before
        next invalid => exact Bool.eq_false_iff.mpr invalid
      have clear : loadEntry (memory s₁) (entryAddress t (levelToIndex 0 va)) = ⟨0⟩ :=
        grown.rooted.1.zero_entry (tablePage_path at_) (levelToIndex_lt 0 va) vacant₁
      change if (entryAt (memory s₁) t (levelToIndex 0 va)).isValid = true then _ else _
      rw [vacant₁, if_neg Bool.false_ne_true, clear, PageTableEntry.leafFor_zero pa small]
      have installed : Grown inv root (fun page _ => page = vpn va) s₁ _ ∧ _ :=
        grown_leaf source grown.rooted at_ vacant₁ (pack_bits_lt pa _ small flagsSmall) valid rfl
      rw [wp_liftRust, usizeAdd, if_pos fits]
      apply ih tables' _ _ installed.1.rooted (Nat.mod_lt _ (by decide)) (by omega)
      case bounded =>
        rw [Nat.add_mul, Nat.one_mul] at bounded
        omega
      case vacant =>
        intro j low
        have samePage : vpn ((va + pageSize) % usizeBound + j * pageSize) =
            vpn (va + (j + 1) * pageSize) := by
          simp only [vpn, usizeBound, pageSize]
          omega
        rw [leafAt_eq_of_vpn _ root _ _ samePage]
        cases found : leafAt _ root (va + (j + 1) * pageSize) with
        | none => rfl
        | some entry =>
            rcases installed.1.only _ entry found with old | new
            · rw [same _ (vacant (j + 1) (by omega))] at old
              cases old
            · simp only [vpn, pageSize] at new
              omega
      case needs =>
        apply needs_next enough
        exact installed.1.tables _ _ (by simp [pathOf]) at_
      case stocked => exact supply.written _ _ _ stocked₁

theorem map_supplied (arch : Riscv σ) (source : PageSource arch.allocate inv halts')
    (supply : PageSupply arch.allocate inv stock fails halts) (n va pa size : Nat) (r w x u : Bool)
    (rooted : Rooted inv root s) (inside : va < usizeBound) (aligned : va % pageSize = 0)
    (whole : size % pageSize = 0) (some_ : size ≠ 0) (few : size / pageSize ≤ 2 ^ 36)
    (bounded : pa + size < usizeBound)
    (vacant : ∀ j < size / pageSize, leafAt (memory s) root (va + j * pageSize) = none)
    (stocked : stock (n + 3 * tablesFor va (size / pageSize)) s) :
    wpr (arch.map root va pa size r w x u) (fun _ s' => stock n s') (fun e _ => fails e)
      halts s := by
  have exact_ : size / pageSize * pageSize = size := Nat.div_mul_cancel (Nat.dvd_of_mod_eq_zero whole)
  rw [Riscv.map, if_neg (not_not_intro aligned), if_neg (not_not_intro whole), if_neg some_]
  apply mapPages_supplied arch source supply r w x u n _ _ va pa rooted inside few
  · rw [exact_]
    exact bounded
  · exact vacant
  · exact Or.inl rfl
  · exact stocked

theorem map_occupied (arch : Riscv σ) (va pa size : Nat) (r w x u : Bool) {entry : PageTableEntry}
    (leaf : leafAt (memory s) root va = some entry) (inside : va < usizeBound)
    (aligned : va % pageSize = 0) (whole : size % pageSize = 0) (some_ : size ≠ 0) :
    (arch.map root va pa size r w x u).run s =
      .ok (.error (.pageAlreadyMapped va arch.parameterAddress), s) := by
  have small : ¬ va > maxVa := by
    simp only [usizeBound, maxVa] at *
    omega
  have pages : ∃ pages, size / pageSize = pages + 1 := by
    apply Nat.exists_eq_succ_of_ne_zero
    have size_ := Nat.div_mul_cancel (Nat.dvd_of_mod_eq_zero whole)
    intro none_
    rw [none_, Nat.zero_mul] at size_
    exact some_ size_.symm
  rcases pages with ⟨pages, isPages⟩
  rcases Option.bind_eq_some_iff.mp leaf with ⟨t, at_, found⟩
  have valid : (loadEntry (memory s) (entryAddress t (levelToIndex 0 va))).isValid = true := by
    rw [ifValid] at found
    split at found
    next valid => exact valid
    next => cases found
  have walked : (walk arch.allocate va true (numberOfLevels - 1) root).run s =
      .ok (.ok (entryAddress t (levelToIndex 0 va)), s) := walk_found _ va 3 root t s at_
  rw [Riscv.map, if_neg (not_not_intro aligned), if_neg (not_not_intro whole), if_neg some_, isPages,
    Riscv.mapPages, getPageTableEntryAddress, if_neg small, run_bind_ok walked,
    run_lift_bind_ok rfl, if_pos valid]
  rfl

end Supplied

end Jangri
