import Jangri.Arch.Recorded

namespace Jangri

open Lib

/-- What the loop relies on in its deallocation callback: given address 0, it leaves the tables
alone if it returns. -/
structure NullSink {σ : Type} [HasMemory σ] (deallocate : Nat → Nat → Stateful σ Unit)
    (inv : Set Nat → σ → Prop) : Prop where
  freed : ∀ T s, inv T s →
    wp (deallocate 0 pageSize) (fun _ s' => inv T s' ∧ SameOn T s s') (fun _ => True) s

section Calls

variable (m : Memory) (root : Nat)

def mappedFrames (pages va : Nat) : List (Nat × Nat) := (List.range pages).filterMap fun j =>
  (leafAt m root (va + j * pageSize)).map fun entry => (entry.getPhysicalAddress, pageSize)

def nullCalls : (pages va : Nat) → List (Nat × Nat)
  | 0, _ => []
  | pages + 1, va =>
      (if (tableAt m root (pathOf va)).isSome ∧ leafAt m root va = none then [(0, pageSize)]
        else []) ++ nullCalls pages (va + pageSize)

theorem mappedFrames_eq_nil (pages va : Nat) (vacant : ∀ j < pages,
    leafAt m root (va + j * pageSize) = none) : mappedFrames m root pages va = [] := by
  rw [mappedFrames, List.filterMap_eq_nil_iff]
  intro j member
  rw [vacant j (List.mem_range.mp member)]
  rfl

theorem nullCalls_eq_nil_iff (pages va : Nat) : nullCalls m root pages va = [] ↔
    ∀ j < pages, (tableAt m root (pathOf (va + j * pageSize))).isSome →
      leafAt m root (va + j * pageSize) ≠ none := by
  induction pages generalizing va with
  | zero => simp [nullCalls]
  | succ pages ih =>
      rw [nullCalls, List.append_eq_nil_iff, ih (va + pageSize)]
      constructor
      · intro both j low here vacant
        cases j with
        | zero =>
            rw [Nat.zero_mul, Nat.add_zero] at here vacant
            have empty := both.1
            rw [if_pos ⟨here, vacant⟩] at empty
            cases empty
        | succ j =>
            have shifted : va + (j + 1) * pageSize = va + pageSize + j * pageSize := by ring
            rw [shifted] at here vacant
            exact both.2 j (by omega) here vacant
      · intro all
        constructor
        · apply if_neg
          intro both
          have first := all 0 (Nat.succ_pos _)
          rw [Nat.zero_mul, Nat.add_zero] at first
          exact first both.1 both.2
        · intro j low here vacant
          have shifted : va + pageSize + j * pageSize = va + (j + 1) * pageSize := by ring
          rw [shifted] at here vacant
          exact all (j + 1) (by omega) here vacant

variable {m root}

theorem nullCalls_congr (m' : Memory)
    (same : ∀ t, TablePage m root t → ∀ x, t ≤ x → x < t + pageSize → m' x = m x)
    (pages va : Nat) : nullCalls m' root pages va = nullCalls m root pages va := by
  induction pages generalizing va with
  | zero => rfl
  | succ pages ih =>
      rw [nullCalls, nullCalls, ih (va + pageSize), leafAt_congr m m' root same,
        tableAt_congr m m' root same (pathOf va) (by simp [pathOf])]

end Calls

section Unmapping

variable {σ : Type} [HasMemory σ] {inv : Set Nat → σ → Prop} {root : Nat} {halts : Halt → Prop}
  {arch : Riscv σ}

structure Spared (inv : Set Nat → σ → Prop) (root : Nat) (r : Recorded σ)
    (calls : List (Nat × Nat)) (r' : Recorded σ) : Prop where
  same : SameOn {x | TablePage (memory r.state) root x} r.state r'.state
  held : inv {x | TablePage (memory r.state) root x} r'.state
  freed : r'.freed = r.freed ++ calls

theorem leafAt_of_table {m : Memory} {va t : Nat} (at_ : tableAt m root (pathOf va) = some t) :
    leafAt m root va = ifValid (entryAt m t (levelToIndex 0 va)) := by
  rw [leafAt, at_, Option.bind_some]

theorem storeEntry_of_zero {m : Memory} {addr : Nat} (zero : (loadEntry m addr).bits = 0) :
    storeEntry m addr ⟨0⟩ = m := by
  have whole := Memory.write_self m addr 8
  have nothing : m.read addr 8 = 0 := zero
  rw [nothing] at whole
  exact whole

theorem Spared.refl {r : Recorded σ} (rooted : Rooted inv root r.state) : Spared inv root r [] r :=
  ⟨fun _ _ _ _ _ => rfl, rooted.2, (List.append_nil r.freed).symm⟩

theorem Spared.rooted {r r' : Recorded σ} {calls : List (Nat × Nat)}
    (spared : Spared inv root r calls r') (rooted : Rooted inv root r.state) :
    Rooted inv root r'.state := by
  have page := tablePage_congr (memory r.state) (memory r'.state) root spared.same
  have pages : {x | TablePage (memory r'.state) root x} = {x | TablePage (memory r.state) root x} :=
    Set.ext page
  refine ⟨rooted.1.congr _ spared.same, ?_⟩
  rw [pages]
  exact spared.held

theorem Spared.trans {r r' r'' : Recorded σ} {calls calls' : List (Nat × Nat)}
    (first : Spared inv root r calls r') (second : Spared inv root r' calls' r'') :
    Spared inv root r (calls ++ calls') r'' := by
  have page := tablePage_congr (memory r.state) (memory r'.state) root first.same
  have pages : {x | TablePage (memory r'.state) root x} = {x | TablePage (memory r.state) root x} :=
    Set.ext page
  refine ⟨?_, ?_, ?_⟩
  · intro t known x low high
    rw [second.same t ((page t).mpr known) x low high]
    exact first.same t known x low high
  · rw [← pages]
    exact second.held
  · rw [second.freed, first.freed, List.append_assoc]

theorem Spared.clears (source : PageSource arch.allocate inv halts) {r r' : Recorded σ}
    {calls : List (Nat × Nat)} (spared : Spared inv root r calls r')
    (rooted : Rooted inv root r.state) {t i : Nat} (known : TablePage (memory r.state) root t)
    (low : i < 512) (vacant : (entryAt (memory r.state) t i).isValid = false) :
    Spared inv root r calls
      (setMemory r' (storeEntry (memory r') (entryAddress t i) ⟨0⟩)) := by
  have entry : entryAt (memory r'.state) t i = entryAt (memory r.state) t i :=
    entryAt_congr _ _ t (spared.same t known) i low
  have zero : (entryAt (memory r'.state) t i).bits = 0 := by
    rw [entry]
    exact rooted.1.clear t known i low vacant
  have whole : storeEntry (memory r') (entryAddress t i) ⟨0⟩ = memory r'.state :=
    storeEntry_of_zero zero
  refine ⟨?_, ?_, spared.freed⟩
  · intro t' known' x first last
    rw [state_setMemory, memory_setMemory, whole]
    exact spared.same t' known' x first last
  · rw [state_setMemory]
    exact source.written _ r'.state t i _ spared.held known low

theorem wp_unmapPages (source : PageSource arch.allocate inv halts)
    (sink : NullSink arch.deallocate inv) (deallocate : Bool) (pages va : Nat) (r : Recorded σ)
    (fits : va + pages * pageSize ≤ usizeBound) (rooted : Rooted inv root r.state) :
    wp (arch.recorded.unmapPages root deallocate pages va)
      (fun _ r' => Spared inv root r
        (if deallocate then nullCalls (memory r.state) root pages va else []) r')
      (fun _ => True) r := by
  induction pages generalizing va r with
  | zero =>
      rw [Riscv.unmapPages, wp_pure, nullCalls, ite_self]
      exact Spared.refl rooted
  | succ pages ih =>
      have small : ¬ va > maxVa := by
        simp only [maxVa, usizeBound, pageSize] at *
        omega
      have rest : va + pageSize + pages * pageSize ≤ usizeBound := by
        rw [show va + pageSize + pages * pageSize = va + (pages + 1) * pageSize by ring]
        exact fits
      -- the pages behind this one, once it has been dealt with
      have next : ∀ r₁, Spared inv root r (if deallocate ∧
            (tableAt (memory r.state) root (pathOf va)).isSome ∧ leafAt (memory r.state) root va = none
            then [(0, pageSize)] else []) r₁ →
          wp (arch.recorded.unmapPages root deallocate pages (va + pageSize))
            (fun _ r' => Spared inv root r (if deallocate then
              nullCalls (memory r.state) root (pages + 1) va else []) r') (fun _ => True) r₁ := by
        intro r₁ spared
        apply wp_weaken (ih (va + pageSize) r₁ rest (spared.rooted rooted))
        intro _ r' further
        have both := spared.trans further
        rw [nullCalls_congr _ spared.same] at both
        cases deallocate with
        | false => simpa using both
        | true => simpa [nullCalls] using both
      rcases walk_reads arch.recorded.allocate va 3 root r with ⟨result, ran, found⟩
      rw [below_three] at found
      have walked : (walk arch.recorded.allocate va false (numberOfLevels - 1) root).run r =
          .ok (result, r) := ran
      rw [Riscv.unmapPages, getPageTableEntryAddress, if_neg small, wp_bind, wp_def, walked]
      cases result with
      | error e =>
          have missing : tableAt (memory r.state) root (pathOf va) = none := by
            cases at_ : tableAt (memory r.state) root (pathOf va) with
            | none => rfl
            | some t => cases (found _).mpr ⟨t, at_, rfl⟩
          change wp (arch.recorded.unmapPages root deallocate pages (va + pageSize)) _ _ r
          apply next
          rw [missing, if_neg (by simp)]
          exact Spared.refl rooted
      | ok address =>
          rcases (found address).mp rfl with ⟨t, at_, rfl⟩
          have known : TablePage (memory r.state) root t := tablePage_path at_
          have at' : tableAt (memory r.state) root (pathOf va) = some t := at_
          have low := levelToIndex_lt 0 va
          have read : loadEntry (memory r) (entryAddress t (levelToIndex 0 va)) =
              entryAt (memory r.state) t (levelToIndex 0 va) := rfl
          simp only [wp_bind, wp_readEntry, read]
          by_cases valid : (entryAt (memory r.state) t (levelToIndex 0 va)).isValid = true
          · have leaf : leafAt (memory r.state) root va ≠ none := by
              rw [leafAt_of_table at', ifValid, if_pos valid]
              simp
            rw [if_pos valid]
            apply next
            rw [if_neg fun all => leaf all.2.2]
            exact Spared.refl rooted
          · have vacant := Bool.eq_false_iff.mpr valid
            have leaf : leafAt (memory r.state) root va = none := by
              rw [leafAt_of_table at', ifValid, if_neg valid]
            have zero := rooted.1.zero_entry known low vacant
            have here : (tableAt (memory r.state) root (pathOf va)).isSome ∧
                leafAt (memory r.state) root va = none := by
              rw [at']
              exact ⟨rfl, leaf⟩
            rw [if_neg valid, zero]
            by_cases gives : deallocate = true
            · rw [if_pos gives, wp_bind]
              apply wp_recorded_deallocate
              apply wp_weaken (sink.freed _ r.state rooted.2)
              intro _ s₁ kept
              rw [wp_bind, wp_writeEntry]
              apply next
              rw [if_pos ⟨gives, here⟩]
              apply Spared.clears source ?_ rooted known low vacant
              exact ⟨kept.2, kept.1, rfl⟩
            · rw [if_neg gives, wp_bind, wp_writeEntry]
              apply next
              rw [if_neg fun all => gives all.1]
              exact Spared.clears source (Spared.refl rooted) rooted known low vacant

theorem wpr_unmap (source : PageSource arch.allocate inv halts)
    (sink : NullSink arch.deallocate inv) (deallocate : Bool) (pages va : Nat) (r : Recorded σ)
    (fits : va + pages * pageSize < usizeBound) (rooted : Rooted inv root r.state) :
    wpr (arch.recorded.unmap root va pages deallocate)
      (fun _ r' => Spared inv root r
        (if deallocate then nullCalls (memory r.state) root pages va else []) r')
      (fun _ _ => False) (fun _ => True) r := by
  have whole : usizeMul pages pageSize = .ok (pages * pageSize) := if_pos (by omega)
  have behind : usizeAdd va (pages * pageSize) = .ok (va + pages * pageSize) := if_pos fits
  rw [Riscv.unmap, wpr_bind, wpr_lift, wp_liftRust, whole]
  simp only
  rw [wpr_bind, wpr_lift, wp_liftRust, behind]
  simp only
  rw [wpr_lift]
  exact wp_unmapPages source sink deallocate pages va r (le_of_lt fits) rooted

end Unmapping

structure Unmapped {σ : Type} [HasMemory σ] (arch : Riscv σ) (root va pages : Nat)
    (deallocate : Bool) (s : σ) (t : Recorded σ) : Prop where
  inside : ∀ a, va ≤ a → a < va + pages * pageSize →
    ∃ e, (arch.va2pa root a).run t.state = .ok (.error e, t.state)
  outside : ∀ a < usizeBound, (∀ j < pages, vpn a ≠ vpn (va + j * pageSize)) →
    ∃ before after, (arch.va2pa root a).run s = .ok (before, s) ∧
      (arch.va2pa root a).run t.state = .ok (after, t.state) ∧
      ∀ pa, before = .ok pa ↔ after = .ok pa
  freed : deallocate = true → t.freed.Perm (mappedFrames (memory s) root pages va)

section Ranges

variable {σ : Type} [HasMemory σ] {arch : Riscv σ} {root va pages : Nat} {deallocate : Bool}
  {s : σ} {t : Recorded σ}

theorem Unmapped.vacant (unmapped : Unmapped arch root va pages deallocate s t)
    (fits : va + pages * pageSize < usizeBound) {j : Nat} (low : j < pages) :
    leafAt (memory t.state) root (va + j * pageSize) = none := by
  have inside : va + j * pageSize < va + pages * pageSize := by
    simp only [pageSize]
    omega
  rcases unmapped.inside _ (Nat.le_add_right _ _) inside with ⟨e, failed⟩
  rcases va2pa_reads arch root (va + j * pageSize) (by omega) t.state with ⟨r, ran, found⟩
  cases known : leafAt (memory t.state) root (va + j * pageSize) with
  | none => rfl
  | some entry =>
      have mapped := (found _).mpr ⟨entry, known, rfl⟩
      rw [ran, mapped] at failed
      cases failed

end Ranges

section Results

variable {σ : Type} [HasMemory σ] {inv : Set Nat → σ → Prop} {root : Nat} {halts : Halt → Prop}
  {arch : Riscv σ}

/-- `unmap` undoes `map` exactly where there is nothing to undo: no page of the range is mapped
and, if frames are to be given back, none has its tables. -/
theorem unmap_undoes_iff (source : PageSource arch.allocate inv halts)
    (sink : NullSink arch.deallocate inv) (aligned : root % pageSize = 0)
    (bounded : root < usizeBound) (start s : σ)
    (zero : ∀ x, root ≤ x → x < root + pageSize → memory start x = 0) (held : inv {root} start)
    (trace : List (σ × MapCall)) (run : Run (arch.MapSteps root) start trace s)
    (va pages : Nat) (deallocate : Bool) (vaAligned : va % pageSize = 0)
    (fits : va + pages * pageSize < usizeBound) (t : Recorded σ)
    (returned : (arch.recorded.unmap root va pages deallocate).run ⟨s, [], []⟩ = .ok (.ok (), t)) :
    Unmapped arch root va pages deallocate s t ↔
      (∀ j < pages, leafAt (memory s) root (va + j * pageSize) = none) ∧
      (deallocate = true →
        ∀ j < pages, tableAt (memory s) root (pathOf (va + j * pageSize)) = none) := by
  have rooted := rooted_run source start s trace (rooted_of_zero aligned bounded start zero held) run
  have spec := wpr_unmap source sink deallocate pages va ⟨s, [], []⟩ fits rooted
  unfold wpr at spec
  have post := wp_of_returns spec returned
  have spared : Spared inv root ⟨s, [], []⟩
    (if deallocate then nullCalls (memory s) root pages va else []) t := post
  have leaf : ∀ a, leafAt (memory t.state) root a = leafAt (memory s) root a :=
    leafAt_congr _ _ root spared.same
  have log : t.freed = if deallocate then nullCalls (memory s) root pages va else [] := spared.freed
  constructor
  · intro unmapped
    have vacant : ∀ j < pages, leafAt (memory s) root (va + j * pageSize) = none := by
      intro j low
      rw [← leaf]
      exact unmapped.vacant fits low
    refine ⟨vacant, ?_⟩
    intro gives j low
    have none_ : nullCalls (memory s) root pages va = [] := by
      have same := unmapped.freed gives
      rw [mappedFrames_eq_nil _ _ _ _ vacant, log, if_pos gives] at same
      exact same.eq_nil
    cases at_ : tableAt (memory s) root (pathOf (va + j * pageSize)) with
    | none => rfl
    | some table =>
        have mapped := (nullCalls_eq_nil_iff _ _ pages va).mp none_ j low (by rw [at_]; rfl)
        exact absurd (vacant j low) mapped
  · intro condition
    rcases condition with ⟨vacant, missing⟩
    refine ⟨?_, ?_, ?_⟩
    · intro a low high
      have page : vpn a = vpn (va + (a - va) / pageSize * pageSize) := by
        simp only [vpn, pageSize] at *
        omega
      have inRange : (a - va) / pageSize < pages := by
        rw [Nat.div_lt_iff_lt_mul (by decide)]
        omega
      rcases va2pa_reads arch root a (by omega) t.state with ⟨r, ran, found⟩
      cases r with
      | error e => exact ⟨e, ran⟩
      | ok pa =>
          rcases (found pa).mp rfl with ⟨entry, known, -⟩
          rw [leaf, leafAt_eq_of_vpn _ root a _ page, vacant _ inRange] at known
          cases known
    · intro a small _
      rcases va2pa_reads arch root a small s with ⟨before, ran, found⟩
      rcases va2pa_reads arch root a small t.state with ⟨after, ran', found'⟩
      refine ⟨before, after, ran, ran', ?_⟩
      intro pa
      rw [found pa, found' pa, leaf]
    · intro gives
      rw [log, if_pos gives, mappedFrames_eq_nil _ _ _ _ vacant]
      apply List.Perm.of_eq
      rw [nullCalls_eq_nil_iff]
      intro j low here
      rw [missing gives j low] at here
      cases here

end Results

namespace Pages

theorem nullSink : NullSink arch.deallocate Inv where
  freed := by
    intro T s held
    change wp (pure ()) _ _ s
    rw [wp_pure]
    exact ⟨held, fun _ _ _ _ _ => rfl⟩

theorem inv_fresh : Inv {4096} fresh := by
  refine ⟨by decide, by decide, ?_⟩
  intro t root
  rw [Set.mem_singleton_iff.mp root]
  decide

end Pages

theorem untabled_page_unmapped : ∃ t,
    (Pages.arch.recorded.unmap 4096 0x8000000000 1 true).run ⟨Pages.mapped, [], []⟩ =
      .ok (.ok (), t) ∧ (leafAt (memory t.state) 4096 0x3ffff000).isSome = true ∧
    Unmapped Pages.arch 4096 0x8000000000 1 true Pages.mapped t := by
  rcases ok_of_check (x := Pages.arch.recorded.unmap 4096 0x8000000000 1 true)
    (s := ⟨Pages.mapped, [], []⟩) (fun t => (leafAt (memory t.state) 4096 0x3ffff000).isSome)
    (by decide +kernel) with ⟨_, t, returned, stays⟩
  refine ⟨t, returned, stays, ?_⟩
  apply (unmap_undoes_iff Pages.source Pages.nullSink (by decide) (by decide) Pages.fresh Pages.mapped
    (fun _ _ _ => rfl) Pages.inv_fresh _ (Run.single Pages.mapped_of_fresh) 0x8000000000 1 true
    (by decide) (by decide) t returned).mpr
  have missing : ∀ j < 1,
      tableAt (memory Pages.mapped) 4096 (pathOf (0x8000000000 + j * pageSize)) = none := by
    intro j one
    obtain rfl : j = 0 := Nat.lt_one_iff.mp one
    decide +kernel
  refine ⟨fun j one => ?_, fun _ => missing⟩
  rw [leafAt, missing j one, Option.bind_none]

theorem mapped_pages_stay : ∃ trace s t, Run (Pages.arch.MapSteps 4096) Pages.fresh trace s ∧
    (Pages.arch.recorded.unmap 4096 0x3ffff000 2 true).run ⟨s, [], []⟩ = .ok (.ok (), t) ∧
    ¬ Unmapped Pages.arch 4096 0x3ffff000 2 true s t := by
  rcases Pages.arch.run_of_calls 4096 Pages.fresh [Pages.twoPages] (fun s =>
    ((Pages.arch.recorded.unmap 4096 0x3ffff000 2 true).run ⟨s, [], []⟩).toOption.any fun p =>
      p.1.isOk && (leafAt (memory p.2.state) 4096 0x3ffff000).isSome) (by decide +kernel) with
    ⟨trace, s, run, -, holds⟩
  rcases ok_of_check (x := Pages.arch.recorded.unmap 4096 0x3ffff000 2 true) (s := ⟨s, [], []⟩)
    (fun t => (leafAt (memory t.state) 4096 0x3ffff000).isSome) holds with ⟨_, t, returned, mapped⟩
  refine ⟨trace, s, t, run, returned, ?_⟩
  intro unmapped
  have first := unmapped.vacant (by decide) (j := 0) (by decide)
  rw [Nat.zero_mul, Nat.add_zero] at first
  rw [first] at mapped
  cases mapped

end Jangri
