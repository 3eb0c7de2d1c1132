import Jangri.Arch.Unmapping
import Jangri.Arch.Outline

namespace Jangri

open Lib

def SameTranslations {σ : Type} [HasMemory σ] (arch : Riscv σ) (root : Nat) (s s' : σ) : Prop :=
  ∀ va < usizeBound, ∃ before after, (arch.va2pa root va).run s = .ok (before, s) ∧
    (arch.va2pa root va).run s' = .ok (after, s') ∧ ∀ pa, before = .ok pa ↔ after = .ok pa

namespace Outline

variable {π : Type} (take : π → Answer π)

/-- The first page can be mapped, and a later one stops the call with an error. -/
def Tears (pages va pa : Nat) (outline : Outline π) : Prop :=
  ∃ first, outline.mapPage take va = .served first ∧ pa + pageSize < usizeBound ∧
    first.mapRange take (pages - 1) ((va + pageSize) % usizeBound) (pa + pageSize) = .refused

def of (m : Memory) (root : Nat) (stock : π) : Outline π where
  tables := {path | ∃ t, tableAt m root path = some t}
  pages := {page | ∃ entry, leafAt m root (page * pageSize) = some entry}
  stock

theorem outlines_of (m : Memory) (root : Nat) (stock : π) : Outlines root (of m root stock) m where
  tables := fun _ _ => Iff.rfl
  leaves := by
    intro va
    have page : vpn (vpn va * pageSize) = vpn va := by
      simp only [vpn, pageSize]
      omega
    rw [of, Set.mem_ofPred_eq, leafAt_eq_of_vpn m root _ va page]

theorem vacant_of_served {va : Nat} {outline outline' : Outline π}
    (isServed : outline.mapPage take va = .served outline') : vpn va ∉ outline.pages := by
  intro taken
  rw [mapPage] at isServed
  cases drawn : Answer.times take (lacking outline.tables va 3) outline.stock with
  | served p =>
      rw [drawn, Answer.bind, if_pos taken] at isServed
      cases isServed
  | refused =>
      rw [drawn] at isServed
      cases isServed
  | stuck =>
      rw [drawn] at isServed
      cases isServed

end Outline

section Calls

variable {σ : Type} [HasMemory σ] {π : Type} {inv : Set Nat → σ → Prop} {take : π → Answer π}
  {stock : π → σ → Prop} {halts : Halt → Prop} {root : Nat} {s : σ} {arch : Riscv σ}

theorem same_of_leaves {s' : σ} (leaves : ∀ va entry,
    leafAt (memory s') root va = some entry ↔ leafAt (memory s) root va = some entry) :
    SameTranslations arch root s s' := by
  intro va small
  rcases va2pa_reads arch root va small s with ⟨before, ran, found⟩
  rcases va2pa_reads arch root va small s' with ⟨after, ran', found'⟩
  refine ⟨before, after, ran, ran', ?_⟩
  intro pa
  rw [found pa, found' pa]
  constructor
  · rintro ⟨entry, leaf, value⟩
    exact ⟨entry, (leaves va entry).mpr leaf, value⟩
  · rintro ⟨entry, leaf, value⟩
    exact ⟨entry, (leaves va entry).mp leaf, value⟩

theorem SameTranslations.mapped {s' : σ} (same : SameTranslations arch root s s') {va : Nat}
    (small : va < usizeBound) (mapped : ∃ entry, leafAt (memory s') root va = some entry) :
    ∃ entry, leafAt (memory s) root va = some entry := by
  rcases mapped with ⟨entry, leaf⟩
  rcases same va small with ⟨before, after, ran, ran', agree⟩
  rcases va2pa_reads arch root va small s with ⟨r, reads, found⟩
  rcases va2pa_reads arch root va small s' with ⟨r', reads', found'⟩
  rw [reads] at ran
  rw [reads'] at ran'
  cases ran
  cases ran'
  have value := (found' _).mpr ⟨entry, leaf, rfl⟩
  rcases (found _).mp ((agree _).mpr value) with ⟨old, known, -⟩
  exact ⟨old, known⟩

/-- Where the loop ends with an error, it has either torn the range or mapped nothing. -/
theorem mapPages_torn (source : PageSource arch.allocate inv halts)
    (supply : ForetoldSupply arch.allocate inv take stock) (r w x u : Bool) (pages va pa : Nat)
    (outline : Outline π) (rooted : Rooted inv root s) (some_ : 0 < pages) (inside : va < usizeBound)
    (bounded : pa < usizeBound) (outlines : Outlines root outline (memory s))
    (stocked : stock outline.stock s) :
    wpr (arch.mapPages root r w x u pages va pa)
      (fun _ _ => ¬ outline.Tears take pages va pa)
      (fun _ s' => (outline.Tears take pages va pa →
          (¬ ∃ entry, leafAt (memory s) root va = some entry) ∧
            ∃ entry, leafAt (memory s') root va = some entry) ∧
        (¬ outline.Tears take pages va pa → Grown inv root (fun _ _ => False) s s'))
      (fun _ => ¬ outline.Tears take pages va pa) s := by
  rcases pages with _ | count
  · cases some_
  apply mapPages_step arch source supply r w x u count va pa outline rooted inside bounded outlines
    stocked
  case served =>
    intro first s₁ isServed rooted₁ outlines₁ stocked₁ leaf fits
    have ends := mapPages_outlined arch source supply r w x u count ((va + pageSize) % usizeBound)
      (pa + pageSize) first rooted₁ (Nat.mod_lt _ (by decide)) fits outlines₁ stocked₁
    have grows := mapPages_spec arch source r w x u count ((va + pageSize) % usizeBound)
      (pa + pageSize) fits rooted₁
    have tears : outline.Tears take (count + 1) va pa ↔
        first.mapRange take count ((va + pageSize) % usizeBound) (pa + pageSize) = .refused := by
      rw [Outline.Tears, isServed]
      constructor
      · rintro ⟨first', same, -, refused⟩
        cases same
        exact refused
      · intro refused
        exact ⟨first, rfl, fits, refused⟩
    have vacant : ¬ ∃ entry, leafAt (memory s) root va = some entry := by
      rw [outlines.leaves va]
      exact Outline.vacant_of_served take isServed
    apply wpr_mono (wpr_and ends grows)
    case weaker =>
      intro _ _ both
      rcases both.1 with ⟨_, isServed', -⟩
      rw [tears, isServed']
      exact nofun
    case fails =>
      intro _ t both
      have torn := tears.mpr both.1
      rcases leaf with ⟨entry, known⟩
      exact ⟨fun _ => ⟨vacant, entry, both.2.keeps va entry known⟩, fun whole => absurd torn whole⟩
    case stops =>
      intro _ both
      rw [tears, both.1]
      exact nofun
  case overflows =>
    intro first isServed exceeds torn
    rcases torn with ⟨_, _, fits, _⟩
    exact exceeds fits
  case refused =>
    intro isRefused e s₁ grown
    refine ⟨?_, fun _ => grown⟩
    intro torn
    rcases torn with ⟨_, isServed, _⟩
    rw [isRefused] at isServed
    cases isServed
  case stuck =>
    intro isStuck _ torn
    rcases torn with ⟨_, isServed, _⟩
    rw [isStuck] at isServed
    cases isServed

/-- A call of `map` that fails changes no translation, except where it tears its range: there the
first page stays mapped. -/
theorem failing_map_harmless_iff (source : PageSource arch.allocate inv halts)
    (supply : ForetoldSupply arch.allocate inv take stock) (aligned : root % pageSize = 0)
    (bounded : root < usizeBound) (start s : σ)
    (zero : ∀ x, root ≤ x → x < root + pageSize → memory start x = 0) (held : inv {root} start)
    (trace : List (σ × MapCall)) (run : Run (arch.MapSteps root) start trace s) (p : π)
    (stocked : stock p s) (c : MapCall) (inside : c.va < usizeBound) (low : c.pa < usizeBound) :
    (∀ e s', (arch.call root c).run s = .ok (.error e, s') → SameTranslations arch root s s') ↔
      c.va % pageSize ≠ 0 ∨ c.size % pageSize ≠ 0 ∨ c.size = 0 ∨
        ¬ (Outline.of (memory s) root p).Tears take (c.size / pageSize) c.va c.pa := by
  have rooted := rooted_run source start s trace (rooted_of_zero aligned bounded start zero held) run
  have unchanged : ∀ error e s', (throw error : Fallible σ Unit).run s = .ok (.error e, s') →
      SameTranslations arch root s s' := by
    intro error e s' returned
    cases returned
    exact same_of_leaves fun _ _ => Iff.rfl
  rw [Riscv.call, Riscv.map]
  by_cases misaligned : c.va % pageSize ≠ 0
  · rw [if_pos misaligned]
    exact iff_of_true (unchanged _) (Or.inl misaligned)
  by_cases partial_ : c.size % pageSize ≠ 0
  · rw [if_neg misaligned, if_pos partial_]
    exact iff_of_true (unchanged _) (Or.inr (Or.inl partial_))
  by_cases nothing : c.size = 0
  · rw [if_neg misaligned, if_neg partial_, if_pos nothing]
    exact iff_of_true (unchanged _) (Or.inr (Or.inr (Or.inl nothing)))
  have some_ : 0 < c.size / pageSize := by
    simp only [pageSize] at *
    omega
  have spec := mapPages_torn source supply c.read c.write c.execute c.user (c.size / pageSize) c.va
    c.pa (.of (memory s) root p) rooted some_ inside low (Outline.outlines_of _ _ _) stocked
  rw [if_neg misaligned, if_neg partial_, if_neg nothing, or_iff_right misaligned,
    or_iff_right partial_, or_iff_right nothing]
  constructor
  · intro harmless torn
    have fails : wpr (arch.mapPages root c.read c.write c.execute c.user (c.size / pageSize) c.va c.pa)
        (fun _ _ => False) (fun _ s' => (¬ ∃ entry, leafAt (memory s) root c.va = some entry) ∧
          ∃ entry, leafAt (memory s') root c.va = some entry) (fun _ => False) s := by
      apply wpr_mono spec
      · exact fun _ _ whole => whole torn
      · exact fun _ _ both => both.1 torn
      · exact fun _ whole => whole torn
    rcases failed_of_wpr fails with ⟨e, s', returned, vacant, mapped⟩
    exact vacant ((harmless e s' returned).mapped inside mapped)
  · intro whole e s' returned
    unfold wpr at spec
    have post := wp_of_returns spec returned
    have grown : Grown inv root (fun _ _ => False) s s' := post.2 whole
    apply same_of_leaves
    intro va entry
    constructor
    · intro leaf
      rcases grown.only va entry leaf with old | new
      · exact old
      · exact new.elim
    · exact grown.keeps va entry

end Calls

theorem error_of_check {σ α : Type} {x : Fallible σ α} {s : σ} (check : σ → Bool)
    (passed : (x.run s).toOption.any (fun p => ! p.1.isOk && check p.2) = true) :
    ∃ e t, x.run s = .ok (.error e, t) ∧ check t = true := by
  cases ran : x.run s with
  | error e =>
      rw [ran] at passed
      cases passed
  | ok p =>
      rw [ran] at passed
      rcases p with ⟨result, t⟩
      cases result with
      | ok a => cases passed
      | error e => exact ⟨e, t, rfl, passed⟩

namespace Pages

def take (region : Nat × Nat) : Answer (Nat × Nat) :=
  if region.1 + pageSize < region.2 then .served (region.1 + pageSize, region.2) else .refused

theorem supply : ForetoldSupply allocate Inv take fun region s => region = (s.next, s.stop) where
  allocated := by
    intro region T s held stocked
    have unfolded : (allocate pageSize).run s = if s.next + pageSize < s.stop then
        .ok (.ok s.next,
          { s with memory := s.memory.fill s.next pageSize 0, next := s.next + pageSize })
        else .ok (.error .memoryNotAvailable, s) := rfl
    rw [Foretold]
    unfold wpr
    rw [wp_def, unfolded, stocked, take]
    by_cases enough : s.next + pageSize < s.stop
    · rw [if_pos enough, if_pos enough]
      exact ⟨_, rfl, rfl⟩
    · rw [if_neg enough, if_neg enough]
  written := fun _ _ _ _ _ _ _ stocked _ _ => stocked

def secondPage : MapCall := ⟨0x40000000, 0x90000000, 4096, true, true, false, true⟩

end Pages

theorem taken_range_is_kept : ∃ trace s e s', Run (Pages.arch.MapSteps 4096) Pages.fresh trace s ∧
    (Pages.arch.call 4096 Pages.twoPages).run s = .ok (.error e, s') ∧
    SameTranslations Pages.arch 4096 s s' := by
  rcases Pages.arch.run_of_calls 4096 Pages.fresh [Pages.twoPages] (fun s =>
    ((Pages.arch.call 4096 Pages.twoPages).run s).toOption.any (fun p => ! p.1.isOk && true) &&
      (leafAt (memory s) 4096 0x3ffff000).isSome) (by decide +kernel) with ⟨trace, s, run, -, holds⟩
  rcases (Bool.and_eq_true _ _).mp holds with ⟨fails, mapped⟩
  rcases error_of_check (fun _ => true) fails with ⟨e, s', returned, -⟩
  refine ⟨trace, s, e, s', run, returned, ?_⟩
  apply (failing_map_harmless_iff Pages.source Pages.supply (by decide) (by decide) Pages.fresh s
    (fun _ _ _ => rfl) Pages.inv_fresh trace run (s.next, s.stop) rfl Pages.twoPages (by decide)
    (by decide)).mpr _ e s' returned
  refine Or.inr (Or.inr (Or.inr ?_))
  rintro ⟨first, isServed, -⟩
  have vacant := Outline.vacant_of_served Pages.take isServed
  rw [← (Outline.outlines_of (memory s) 4096 (s.next, s.stop)).leaves] at vacant
  exact vacant (Option.isSome_iff_exists.mp mapped)

theorem first_page_stays : ∃ trace s e s', Run (Pages.arch.MapSteps 4096) Pages.fresh trace s ∧
    (Pages.arch.call 4096 Pages.twoPages).run s = .ok (.error e, s') ∧
    ¬ SameTranslations Pages.arch 4096 s s' := by
  rcases Pages.arch.run_of_calls 4096 Pages.fresh [Pages.secondPage] (fun s =>
    ((Pages.arch.call 4096 Pages.twoPages).run s).toOption.any (fun p => ! p.1.isOk &&
        (leafAt (memory p.2) 4096 0x3ffff000).isSome) &&
      (leafAt (memory s) 4096 0x3ffff000).isNone) (by decide +kernel) with ⟨trace, s, run, -, holds⟩
  rcases (Bool.and_eq_true _ _).mp holds with ⟨fails, vacant⟩
  rcases error_of_check (fun t => (leafAt (memory t) 4096 0x3ffff000).isSome) fails with
    ⟨e, s', returned, mapped⟩
  refine ⟨trace, s, e, s', run, returned, ?_⟩
  intro same
  rcases same.mapped (by decide) (Option.isSome_iff_exists.mp mapped) with ⟨entry, known⟩
  rw [known] at vacant
  cases vacant

end Jangri
