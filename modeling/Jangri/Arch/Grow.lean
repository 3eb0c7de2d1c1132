import Jangri.Arch.Tables

namespace Jangri

open Lib

section Link

variable {m : Memory} {root t i v : Nat} {q : List Nat} (tables : Tables m root)
  (short : q.length ≤ 2) (at_ : tableAt m root q = some t) (low : i < 512)
  (vacant : (entryAt m t i).isValid = false) (fresh : ¬ TablePage m root v)
  (aligned : v % pageSize = 0) (bounded : v < usizeBound)
  (zero : ∀ x, v ≤ x → x < v + pageSize → m x = 0)

theorem pack_bits_lt (pa low : Nat) (bounded : pa < usizeBound) (small : low < 1024) :
    (PageTableEntry.pack pa low).bits < usizeBound := by
  simp only [PageTableEntry.pack, usizeBound] at *
  omega

include tables short at_ low bounded in
theorem entryAt_link (t' i' : Nat) (aligned' : t' % pageSize = 0) (low' : i' < 512) :
    entryAt (storeEntry m (entryAddress t i) (.pack v 1)) t' i' =
      if t' = t ∧ i' = i then .pack v 1 else entryAt m t' i' :=
  entryAt_store m t i t' i' _ (pack_bits_lt v 1 bounded (by decide))
    (tables.aligned t ⟨q, by omega, at_⟩).1 aligned' low low'

include tables short at_ low vacant fresh aligned bounded zero in
theorem tableAt_link (path : List Nat) (bound : path.length ≤ 3) :
    tableAt (storeEntry m (entryAddress t i) (.pack v 1)) root path =
      if path = q ++ [i] then some v else tableAt m root path := by
  have entry := entryAt_link tables short at_ low bounded
  have different : v ≠ t := by
    rintro rfl
    exact fresh ⟨q, by omega, at_⟩
  have before : tableAt m root (q ++ [i]) = none := by
    rw [tableAt_snoc, at_, Option.bind_some, child, if_neg]
    simp [vacant]
  induction path using List.reverseRecOn with
  | nil => simp
  | append_singleton p j ih =>
      simp only [List.length_append, List.length_singleton] at bound
      rw [tableAt_snoc, ih (by omega)]
      by_cases below : p = q ++ [i]
      · -- The fresh page has no children yet.
        have here : p ++ [j] ≠ q ++ [i] := by
          intro same
          have := congrArg List.length same
          rw [below] at this
          simp at this
        rw [if_pos below, if_neg here, tableAt_snoc, below, before, Option.bind_some]
        apply child_zero
        intro lowJ
        rw [entry v j aligned lowJ, if_neg (fun same => different same.1),
          entryAt_zero m v zero j lowJ]
      · rw [if_neg below, tableAt_snoc]
        cases atP : tableAt m root p with
        | none =>
            have here : p ++ [j] ≠ q ++ [i] := by
              intro same
              obtain ⟨rfl, -⟩ := List.append_inj' same rfl
              rw [at_] at atP
              cases atP
            rw [if_neg here, Option.bind_none, Option.bind_none]
        | some t' =>
            have page : TablePage m root t' := ⟨p, by omega, atP⟩
            rw [Option.bind_some, Option.bind_some]
            by_cases here : p ++ [j] = q ++ [i]
            · obtain ⟨rfl, last⟩ := List.append_inj' here rfl
              obtain rfl : j = i := by simpa using last
              obtain rfl : t' = t := by
                rw [at_] at atP
                exact (Option.some.inj atP).symm
              rw [if_pos here]
              have linked := entry t' j (tables.aligned t' page).1 low
              rw [if_pos ⟨rfl, rfl⟩] at linked
              refine tableAt_child t' j v low ?_ ?_
              · rw [linked, PageTableEntry.isValid_pack]
              · rw [linked, PageTableEntry.getPhysicalAddress_pack v 1 (by decide) bounded]
                simp only [pageSize] at aligned
                omega
            · rw [if_neg here]
              apply child_congr
              intro lowJ
              rw [entry t' j (tables.aligned t' page).1 lowJ, if_neg]
              rintro ⟨rfl, rfl⟩
              have := tables.injective p q t' (by omega) (by omega) atP at_
              exact here (by rw [this])

include tables short at_ low vacant fresh aligned bounded zero in
theorem tablePage_link (x : Nat) :
    TablePage (storeEntry m (entryAddress t i) (.pack v 1)) root x ↔
      TablePage m root x ∨ x = v := by
  have path := tableAt_link tables short at_ low vacant fresh aligned bounded zero
  have before : tableAt m root (q ++ [i]) = none := by
    rw [tableAt_snoc, at_, Option.bind_some, child, if_neg]
    simp [vacant]
  constructor
  · rintro ⟨p, bound, at'⟩
    rw [path p bound] at at'
    split at at'
    · exact Or.inr (Option.some.inj at').symm
    · exact Or.inl ⟨p, bound, at'⟩
  · rintro (⟨p, bound, at'⟩ | rfl)
    · refine ⟨p, bound, ?_⟩
      rw [path p bound, if_neg]
      · exact at'
      · rintro rfl
        rw [before] at at'
        cases at'
    · refine ⟨q ++ [i], by simp; omega, ?_⟩
      rw [path _ (by simp; omega), if_pos rfl]

include tables short at_ low vacant fresh aligned bounded zero in
theorem tables_link : Tables (storeEntry m (entryAddress t i) (.pack v 1)) root := by
  have path := tableAt_link tables short at_ low vacant fresh aligned bounded zero
  have page := tablePage_link tables short at_ low vacant fresh aligned bounded zero
  have entry := entryAt_link tables short at_ low bounded
  have alignedPage : ∀ x, TablePage m root x ∨ x = v → x % pageSize = 0 ∧ x < usizeBound := by
    rintro x (old | rfl)
    · exact tables.aligned x old
    · exact ⟨aligned, bounded⟩
  have different : ∀ p : List Nat, p.length ≤ 3 → tableAt m root p ≠ some v :=
    fun p bound atP => fresh ⟨p, bound, atP⟩
  refine ⟨fun x hx => alignedPage x ((page x).mp hx), ?_, ?_, ?_⟩
  · intro p p' x bound bound' atP atP'
    rw [path p bound] at atP
    rw [path p' bound'] at atP'
    split at atP <;> split at atP'
    next h h' => rw [h, h']
    next h h' =>
      obtain rfl := Option.some.inj atP
      exact absurd atP' (different p' bound')
    next h h' =>
      obtain rfl := Option.some.inj atP'
      exact absurd atP (different p bound)
    next h h' => exact tables.injective p p' x bound bound' atP atP'
  · intro x hx j lowJ
    have known := (page x).mp hx
    rw [entry x j (alignedPage x known).1 lowJ]
    split
    · intro invalid
      have := (PageTableEntry.isValid_pack v 1).mpr rfl
      rw [invalid] at this
      cases this
    · intro invalid
      rcases known with old | rfl
      · exact tables.clear x old j lowJ invalid
      · rw [entryAt_zero m x zero j lowJ]
  · intro p x bound atP j lowJ
    rw [path p (by omega)] at atP
    split at atP
    · obtain rfl := Option.some.inj atP
      rw [entry v j aligned lowJ]
      split
      · intro _
        exact PageTableEntry.flags_pack v 1 (by decide)
      · rw [entryAt_zero m v zero j lowJ]
        intro invalid
        simp [PageTableEntry.isValid] at invalid
    · rw [entry x j (tables.aligned x ⟨p, by omega, atP⟩).1 lowJ]
      split
      · intro _
        exact PageTableEntry.flags_pack v 1 (by decide)
      · exact tables.pointers p x bound atP j lowJ

end Link

section Leaf

variable {m : Memory} {root t i : Nat} {q : List Nat} {entry : PageTableEntry}
  (tables : Tables m root) (deep : q.length = 3) (at_ : tableAt m root q = some t) (low : i < 512)
  (small : entry.bits < usizeBound)

include tables deep at_ low small in
theorem entryAt_leaf (t' i' : Nat) (aligned' : t' % pageSize = 0) (low' : i' < 512) :
    entryAt (storeEntry m (entryAddress t i) entry) t' i' =
      if t' = t ∧ i' = i then entry else entryAt m t' i' :=
  entryAt_store m t i t' i' _ small (tables.aligned t ⟨q, by omega, at_⟩).1 aligned' low low'

include tables deep at_ low small in
theorem tableAt_leaf (path : List Nat) (bound : path.length ≤ 3) :
    tableAt (storeEntry m (entryAddress t i) entry) root path = tableAt m root path := by
  have entries := entryAt_leaf tables deep at_ low small
  induction path using List.reverseRecOn with
  | nil => rw [tableAt_nil, tableAt_nil]
  | append_singleton p j ih =>
      simp only [List.length_append, List.length_singleton] at bound
      rw [tableAt_snoc, tableAt_snoc, ih (by omega)]
      cases atP : tableAt m root p with
      | none => rw [Option.bind_none, Option.bind_none]
      | some t' =>
          rw [Option.bind_some, Option.bind_some]
          apply child_congr
          intro lowJ
          rw [entries t' j (tables.aligned t' ⟨p, by omega, atP⟩).1 lowJ, if_neg]
          rintro ⟨rfl, -⟩
          have := congrArg List.length (tables.injective p q t' (by omega) (by omega) atP at_)
          omega

include tables deep at_ low small in
theorem tablePage_leaf (x : Nat) :
    TablePage (storeEntry m (entryAddress t i) entry) root x ↔ TablePage m root x := by
  have path := tableAt_leaf tables deep at_ low small
  constructor
  · rintro ⟨p, bound, at'⟩
    exact ⟨p, bound, by rw [← path p bound]; exact at'⟩
  · rintro ⟨p, bound, at'⟩
    exact ⟨p, bound, by rw [path p bound]; exact at'⟩

include tables deep at_ low small in
theorem tables_leaf (valid : entry.isValid = true) :
    Tables (storeEntry m (entryAddress t i) entry) root := by
  have path := tableAt_leaf tables deep at_ low small
  have page := tablePage_leaf tables deep at_ low small
  have entries := entryAt_leaf tables deep at_ low small
  refine ⟨fun x hx => tables.aligned x ((page x).mp hx), ?_, ?_, ?_⟩
  · intro p p' x bound bound' atP atP'
    rw [path p bound] at atP
    rw [path p' bound'] at atP'
    exact tables.injective p p' x bound bound' atP atP'
  · intro x hx j lowJ
    have old := (page x).mp hx
    rw [entries x j (tables.aligned x old).1 lowJ]
    split
    · rw [valid]
      intro no
      cases no
    · exact tables.clear x old j lowJ
  · intro p x bound atP j lowJ
    rw [path p (by omega)] at atP
    rw [entries x j (tables.aligned x ⟨p, by omega, atP⟩).1 lowJ, if_neg]
    · exact tables.pointers p x bound atP j lowJ
    · rintro ⟨rfl, -⟩
      have := congrArg List.length (tables.injective p q x (by omega) (by omega) atP at_)
      omega

end Leaf

end Jangri
