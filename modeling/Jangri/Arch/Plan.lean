import Jangri.Arch.Outline

namespace Jangri

open Lib

def missing (pages : List Nat) (page : Nat) : (levels : Nat) → Nat
  | 0 => 0
  | levels + 1 =>
      missing pages page levels +
        if ∃ q ∈ pages, q / 512 ^ (levels + 1) = page / 512 ^ (levels + 1) then 0 else 1

structure Plan (π : Type) where
  pages : List Nat
  stock : π

namespace Plan

variable {π : Type} (take : π → Answer π)

def mapPage (page : Nat) (plan : Plan π) : Answer (Plan π) :=
  (Answer.times take (missing plan.pages page 3) plan.stock).bind fun stock =>
    if page ∈ plan.pages then .refused else .served ⟨page :: plan.pages, stock⟩

/-- Pages in a row. Page numbers are taken modulo `2 ^ 36`, as the walk does. -/
def mapRange : (count page : Nat) → Plan π → Answer (Plan π)
  | 0, _, plan => .served plan
  | count + 1, page, plan =>
      (plan.mapPage take page).bind fun plan => mapRange count ((page + 1) % 2 ^ 36) plan

end Plan

def Shared (pages : List Nat) (path : List Nat) : Prop :=
  ∃ va, vpn va ∈ pages ∧ path = (pathOf va).take path.length

structure Grid (root : Nat) (pages : List Nat) (m : Memory) : Prop where
  small : ∀ page ∈ pages, page < 2 ^ 36
  tables : ∀ path, path.length ≤ 3 →
    ((∃ t, tableAt m root path = some t) ↔ path = [] ∨ Shared pages path)
  leaves : ∀ va, (∃ entry, leafAt m root va = some entry) ↔ vpn va ∈ pages

section Numbers

theorem pathOf_take (va va' : Nat) {k : Nat} (low : k ≤ 3) :
    (pathOf va).take k = (pathOf va').take k ↔ vpn va / 512 ^ (4 - k) = vpn va' / 512 ^ (4 - k) := by
  rcases k with _ | _ | _ | _ | k
  · simp only [List.take_zero, true_iff, vpn]
    omega
  · simp only [pathOf, levelToIndex_eq, vpn, List.take_succ_cons, List.take_zero, List.cons.injEq,
      and_true]
    norm_num
    omega
  · simp only [pathOf, levelToIndex_eq, vpn, List.take_succ_cons, List.take_zero, List.cons.injEq,
      and_true]
    norm_num
    omega
  · simp only [pathOf, levelToIndex_eq, vpn, List.take_succ_cons, List.take_zero, List.cons.injEq,
      and_true]
    norm_num
    omega
  · omega

theorem shared_iff {pages : List Nat} (small : ∀ page ∈ pages, page < 2 ^ 36) (va : Nat) {k : Nat}
    (low : k ≤ 3) :
    Shared pages ((pathOf va).take k) ↔
      ∃ q ∈ pages, q / 512 ^ (4 - k) = vpn va / 512 ^ (4 - k) := by
  constructor
  · rintro ⟨va', present, same⟩
    rw [length_pathOf_take va low] at same
    exact ⟨vpn va', present, ((pathOf_take va va' low).mp same).symm⟩
  · rintro ⟨q, present, same⟩
    have page : vpn (q * 4096) = q := by
      have bounded := small q present
      simp only [vpn]
      omega
    refine ⟨q * 4096, page.symm ▸ present, ?_⟩
    rw [length_pathOf_take va low]
    apply (pathOf_take va _ low).mpr
    rw [page]
    exact same.symm

end Numbers

section Walk

variable {σ : Type} [HasMemory σ] {π : Type} {inv : Set Nat → σ → Prop} {take : π → Answer π}
  {stock : π → σ → Prop} {halts : Halt → Prop} {root : Nat} {pages : List Nat} {s : σ}

def Plan.outline (plan : Plan π) : Outline π where
  tables := {path | path = [] ∨ Shared plan.pages path}
  pages := {page | page ∈ plan.pages}
  stock := plan.stock

theorem lacking_outline {plan : Plan π} (small : ∀ page ∈ plan.pages, page < 2 ^ 36) (va : Nat)
    {levels : Nat} (low : levels ≤ 3) :
    lacking plan.outline.tables va levels = missing plan.pages (vpn va) levels := by
  induction levels with
  | zero => rfl
  | succ level ih =>
      have height : 4 - (3 - level) = level + 1 := by omega
      have length := length_pathOf_take va (by omega : 3 - level ≤ 3)
      have sharing := shared_iff small va (by omega : 3 - level ≤ 3)
      rw [height] at sharing
      have there : (pathOf va).take (3 - level) ∈ plan.outline.tables ↔
          ∃ q ∈ plan.pages, q / 512 ^ (level + 1) = vpn va / 512 ^ (level + 1) := by
        rw [← sharing]
        constructor
        · intro known
          rcases known with isRoot | shared
          · rw [isRoot, List.length_nil] at length
            omega
          · exact shared
        · exact Or.inr
      rw [lacking, missing, ih (Nat.le_of_succ_le low)]
      by_cases needed : ∃ q ∈ plan.pages, q / 512 ^ (level + 1) = vpn va / 512 ^ (level + 1)
      · rw [if_pos (there.mpr needed), if_pos needed]
      · rw [if_neg (mt there.mp needed), if_neg needed]

theorem outline_insert (plan : Plan π) (va : Nat) (p : π) :
    plan.outline.insert va p = Plan.outline ⟨vpn va :: plan.pages, p⟩ := by
  rw [Outline.insert, Plan.outline, Plan.outline]
  congr 1
  · ext path
    constructor
    · rintro ((isRoot | ⟨va', present, isPath⟩) | isPath)
      · exact Or.inl isRoot
      · exact Or.inr ⟨va', List.mem_cons_of_mem _ present, isPath⟩
      · exact Or.inr ⟨va, List.mem_cons_self, isPath⟩
    · rintro (isRoot | ⟨va', present, isPath⟩)
      · exact Or.inl (Or.inl isRoot)
      · rcases List.mem_cons.mp present with here | before
        · rw [((path_eq_iff va' va).mpr here).1] at isPath
          exact Or.inr isPath
        · exact Or.inl (Or.inr ⟨va', before, isPath⟩)
  · ext page
    exact List.mem_cons.symm

theorem mapPage_outline {plan : Plan π} (small : ∀ page ∈ plan.pages, page < 2 ^ 36) (va : Nat) :
    plan.outline.mapPage take va =
      (plan.mapPage take (vpn va)).bind fun plan => .served plan.outline := by
  rw [Outline.mapPage, Plan.mapPage, lacking_outline small va (le_refl 3), Answer.bind_assoc]
  congr 1
  funext p
  by_cases taken : vpn va ∈ plan.pages
  · rw [if_pos taken]
    exact if_pos taken
  · rw [if_neg taken, Answer.bind, ← outline_insert]
    exact if_neg taken

theorem mapPage_small {plan plan' : Plan π} {page : Nat} (low : page < 2 ^ 36)
    (small : ∀ page ∈ plan.pages, page < 2 ^ 36) (served : plan.mapPage take page = .served plan') :
    ∀ page ∈ plan'.pages, page < 2 ^ 36 := by
  rw [Plan.mapPage] at served
  cases drawn : Answer.times take (missing plan.pages page 3) plan.stock with
  | served p =>
      rw [drawn, Answer.bind] at served
      split at served
      next => cases served
      next =>
        cases served
        exact List.forall_mem_cons.mpr ⟨low, small⟩
  | refused =>
      rw [drawn] at served
      cases served
  | stuck =>
      rw [drawn] at served
      cases served

variable (take) in
/-- A plan and its outline answer alike, and the plan stays one of page numbers. -/
theorem mapRange_outline (count va pa : Nat) (plan : Plan π)
    (small : ∀ page ∈ plan.pages, page < 2 ^ 36) (bounded : pa + count * pageSize < usizeBound) :
    plan.outline.mapRange take count va pa =
        ((plan.mapRange take count (vpn va)).bind fun plan => .served plan.outline) ∧
      ∀ plan', plan.mapRange take count (vpn va) = .served plan' →
        ∀ page ∈ plan'.pages, page < 2 ^ 36 := by
  induction count generalizing va pa plan with
  | zero =>
      refine ⟨rfl, ?_⟩
      intro plan' isServed
      cases isServed
      exact small
  | succ count ih =>
      have rest : pa + pageSize + count * pageSize < usizeBound := by
        rw [Nat.add_mul, Nat.one_mul] at bounded
        omega
      have fits : pa + pageSize < usizeBound := by omega
      rw [Outline.mapRange, Plan.mapRange, mapPage_outline small]
      cases first : plan.mapPage take (vpn va) with
      | served next =>
          have low : vpn va < 2 ^ 36 := Nat.mod_lt _ (by decide)
          have later := ih ((va + pageSize) % usizeBound) (pa + pageSize) next
            (mapPage_small low small first) rest
          rw [vpn_next] at later
          rw [Answer.bind, Answer.bind, if_pos fits]
          exact later
      | refused =>
          refine ⟨rfl, ?_⟩
          intro _ isServed
          cases isServed
      | stuck =>
          refine ⟨rfl, ?_⟩
          intro _ isServed
          cases isServed

/-- The loop of `map` ends as the plan says. -/
theorem mapPages_foretold (arch : Riscv σ) (source : PageSource arch.allocate inv halts)
    (supply : ForetoldSupply arch.allocate inv take stock) (r w x u : Bool) (count va pa : Nat)
    (plan : Plan π) (rooted : Rooted inv root s) (inside : va < usizeBound)
    (bounded : pa + count * pageSize < usizeBound) (grid : Grid root plan.pages (memory s))
    (stocked : stock plan.stock s) :
    Foretold (plan.mapRange take count (vpn va)) (arch.mapPages root r w x u count va pa)
      (fun plan' _ s' => Grid root plan'.pages (memory s') ∧ stock plan'.stock s') s := by
  have outlines : Outlines root plan.outline (memory s) := ⟨grid.tables, grid.leaves⟩
  have ends := mapPages_outlined arch source supply r w x u count va pa plan.outline rooted inside
    (by omega) outlines stocked
  have same := mapRange_outline take count va pa plan grid.small bounded
  rw [same.1] at ends
  apply ends.of_map
  intro plan' _ s' isServed drawn
  exact ⟨⟨same.2 plan' isServed, drawn.1.tables, drawn.1.leaves⟩, drawn.2⟩

/-- So does the whole call. -/
theorem map_foretold (arch : Riscv σ) (source : PageSource arch.allocate inv halts)
    (supply : ForetoldSupply arch.allocate inv take stock) (va pa size : Nat) (r w x u : Bool)
    (plan : Plan π) (rooted : Rooted inv root s) (inside : va < usizeBound)
    (aligned : va % pageSize = 0) (whole : size % pageSize = 0) (some_ : size ≠ 0)
    (bounded : pa + size < usizeBound) (grid : Grid root plan.pages (memory s))
    (stocked : stock plan.stock s) :
    Foretold (plan.mapRange take (size / pageSize) (vpn va)) (arch.map root va pa size r w x u)
      (fun plan' _ s' => Grid root plan'.pages (memory s') ∧ stock plan'.stock s') s := by
  have exact_ : size / pageSize * pageSize = size := Nat.div_mul_cancel (Nat.dvd_of_mod_eq_zero whole)
  rw [Riscv.map, if_neg (not_not_intro aligned), if_neg (not_not_intro whole), if_neg some_]
  apply mapPages_foretold arch source supply r w x u _ va pa plan rooted inside _ grid stocked
  rw [exact_]
  exact bounded

theorem Grid.nil {m : Memory} (zero : ∀ x, root ≤ x → x < root + pageSize → m x = 0) :
    Grid root [] m where
  small := fun _ none_ => by cases none_
  tables := by
    intro path _
    cases path with
    | nil => exact iff_of_true ⟨root, rfl⟩ (Or.inl rfl)
    | cons i rest =>
        rw [tableAt_cons_of_zero m root zero]
        constructor
        · rintro ⟨t, impossible⟩
          cases impossible
        · rintro (impossible | ⟨va, none_, -⟩)
          · cases impossible
          · cases none_
  leaves := by
    intro va
    rw [leafAt_of_zero m root zero va]
    constructor
    · rintro ⟨entry, impossible⟩
      cases impossible
    · exact fun none_ => by cases none_

theorem Grid.congr {m : Memory} (grid : Grid root pages m) (m' : Memory)
    (same : ∀ t, TablePage m root t → ∀ x, t ≤ x → x < t + pageSize → m' x = m x) :
    Grid root pages m' where
  small := grid.small
  tables := by
    intro path bound
    rw [tableAt_congr m m' root same path bound]
    exact grid.tables path bound
  leaves := by
    intro va
    rw [leafAt_congr m m' root same va]
    exact grid.leaves va

end Walk

end Jangri
