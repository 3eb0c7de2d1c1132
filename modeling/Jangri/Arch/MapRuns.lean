import Jangri.Arch.Mapping

namespace Jangri

open Lib

structure MapCall where
  va : Nat
  pa : Nat
  size : Nat
  read : Bool
  write : Bool
  execute : Bool
  user : Bool

namespace Riscv

variable {σ : Type} [HasMemory σ]

def call (arch : Riscv σ) (root : Nat) (c : MapCall) : Fallible σ Unit :=
  arch.map root c.va c.pa c.size c.read c.write c.execute c.user

def MapSteps (arch : Riscv σ) (root : Nat) (s : σ) (c : MapCall) (s' : σ) : Prop :=
  c.va < usizeBound ∧ c.pa < usizeBound ∧ ∃ result, (arch.call root c).run s = .ok (result, s')

def called (arch : Riscv σ) (root : Nat) (s : σ) (c : MapCall) : Option σ :=
  if c.va < usizeBound ∧ c.pa < usizeBound then
    ((arch.call root c).run s).toOption.map Prod.snd
  else none

theorem mapSteps_of_called (arch : Riscv σ) (root : Nat) (s : σ) (c : MapCall) (s' : σ)
    (known : arch.called root s c = some s') : arch.MapSteps root s c s' := by
  rw [called] at known
  split at known
  next small =>
    refine ⟨small.1, small.2, ?_⟩
    cases ran : (arch.call root c).run s with
    | error e =>
        rw [ran] at known
        cases known
    | ok r =>
        rw [ran] at known
        cases known
        exact ⟨r.1, rfl⟩
  next => cases known

/-- A run that a list of calls makes, with what a check on its last state found. -/
theorem run_of_calls (arch : Riscv σ) (root : Nat) (s : σ) (calls : List MapCall)
    (check : σ → Bool) (passed : (Run.follow (arch.called root) s calls).map check = some true) :
    ∃ trace s', Run (arch.MapSteps root) s trace s' ∧ trace.map Prod.snd = calls ∧
      check s' = true := by
  rcases Option.map_eq_some_iff.mp passed with ⟨s', followed, holds⟩
  rcases Run.of_follow (arch.mapSteps_of_called root) calls followed with ⟨trace, run, labels⟩
  exact ⟨trace, s', run, labels, holds⟩

end Riscv

section Runs

variable {σ : Type} [HasMemory σ] {inv : Set Nat → σ → Prop} {root : Nat} {halts : Halt → Prop}
  {arch : Riscv σ}

theorem rooted_of_zero (aligned : root % pageSize = 0) (bounded : root < usizeBound) (s : σ)
    (zero : ∀ x, root ≤ x → x < root + pageSize → memory s x = 0) (held : inv {root} s) :
    Rooted inv root s := by
  have tables := Tables.of_zero_root aligned bounded zero
  have pages : {x | TablePage (memory s) root x} = {root} := by
    ext x
    constructor
    · rintro ⟨p, short, at_⟩
      cases p with
      | nil => exact (Option.some.inj at_).symm
      | cons i rest =>
          rw [tableAt_cons_of_zero (memory s) root zero] at at_
          cases at_
    · rintro rfl
      exact tablePage_root
  refine ⟨tables, ?_⟩
  rw [pages]
  exact held

theorem map_grown (source : PageSource arch.allocate inv halts) (s s' : σ) (c : MapCall)
    (rooted : Rooted inv root s) (taken : arch.MapSteps root s c s') :
    Grown inv root (Leaves c.va c.pa (c.size / pageSize)
      (PageTableEntry.flags c.read c.write c.execute c.user)) s s' := by
  obtain ⟨-, bounded, result, returned⟩ := taken
  have spec := map_spec arch source c.va c.pa c.size c.read c.write c.execute c.user bounded rooted
  unfold wpr at spec
  have post := wp_of_returns spec returned
  cases result with
  | ok _ => exact post.2.2.1
  | error _ => exact post

theorem rooted_run (source : PageSource arch.allocate inv halts) (s s' : σ)
    (trace : List (σ × MapCall)) (rooted : Rooted inv root s)
    (run : Run (arch.MapSteps root) s trace s') : Rooted inv root s' :=
  run.invariant_last (Rooted inv root) rooted fun t c u known taken =>
    (map_grown source t u c known taken).rooted

theorem leaf_of_run (source : PageSource arch.allocate inv halts) (s s' : σ)
    (trace : List (σ × MapCall)) (rooted : Rooted inv root s)
    (empty : ∀ va, leafAt (memory s) root va = none) (run : Run (arch.MapSteps root) s trace s')
    (va : Nat) (entry : PageTableEntry) (found : leafAt (memory s') root va = some entry) :
    ∃ p ∈ trace, Leaves p.2.va p.2.pa (p.2.size / pageSize)
      (PageTableEntry.flags p.2.read p.2.write p.2.execute p.2.user) (vpn va) entry := by
  induction run with
  | nil =>
      rw [empty va] at found
      cases found
  | @snoc trace t u c run taken ih =>
      have grown := map_grown source t u c (rooted_run source s t trace rooted run) taken
      rcases grown.only va entry found with old | new
      · rcases ih old with ⟨p, member, leaves⟩
        exact ⟨p, List.mem_append_left _ member, leaves⟩
      · exact ⟨(t, c), by simp, new⟩

/-- What `map` has done when it returns `Ok`, seen through `va2pa` and the leaf entries. -/
structure Translated (arch : Riscv σ) (root : Nat) (s : σ) (c : MapCall) (s' : σ) : Prop where
  inside : ∀ i < c.size,
    (arch.va2pa root ((c.va + i) % usizeBound)).run s' = .ok (.ok (c.pa + i), s')
  leaf : ∀ i < c.size, ∃ entry,
    leafAt (memory s') root ((c.va + i) % usizeBound) = some entry ∧
    entry.bits % 1024 = PageTableEntry.flags c.read c.write c.execute c.user
  outside : ∀ va < usizeBound, (∀ i < c.size, vpn va ≠ vpn ((c.va + i) % usizeBound)) →
    ∃ before after, (arch.va2pa root va).run s = .ok (before, s) ∧
      (arch.va2pa root va).run s' = .ok (after, s') ∧ ∀ pa, before = .ok pa ↔ after = .ok pa
  kept : ∀ va entry, leafAt (memory s) root va = some entry →
    leafAt (memory s') root va = some entry

theorem page_of_offset (va i : Nat) (aligned : va % pageSize = 0) :
    vpn ((va + i) % usizeBound) = vpn (va + i / pageSize * pageSize) ∧
      (va + i) % usizeBound % pageSize = i % pageSize := by
  simp only [vpn, usizeBound, pageSize] at *
  omega

theorem leaf_of_offset (pa i flags : Nat) (aligned : pa % pageSize = 0) (small : flags < 1024)
    (bounded : pa + i / pageSize * pageSize < usizeBound) :
    (PageTableEntry.pack (pa + i / pageSize * pageSize) flags).getPhysicalAddress + i % pageSize =
      pa + i := by
  rw [PageTableEntry.getPhysicalAddress_pack _ _ small bounded]
  simp only [pageSize] at *
  omega

/-- `map` and `va2pa` implement one translation function, on every table that calls of `map` can
build from a zeroed root. -/
theorem map_translates (source : PageSource arch.allocate inv halts)
    (aligned : root % pageSize = 0) (bounded : root < usizeBound) (start s s' : σ)
    (zero : ∀ x, root ≤ x → x < root + pageSize → memory start x = 0) (held : inv {root} start)
    (trace : List (σ × MapCall)) (run : Run (arch.MapSteps root) start trace s) (c : MapCall)
    (paAligned : c.pa % pageSize = 0) (fits : c.pa + c.size < usizeBound)
    (returned : (arch.call root c).run s = .ok (.ok (), s')) : Translated arch root s c s' := by
  have rooted := rooted_run source start s trace (rooted_of_zero aligned bounded start zero held) run
  have flagsSmall : PageTableEntry.flags c.read c.write c.execute c.user < 1024 :=
    lt_trans (PageTableEntry.flags_lt _ _ _ _) (by decide)
  have spec := map_spec arch source c.va c.pa c.size c.read c.write c.execute c.user
    (by omega) rooted
  unfold wpr at spec
  obtain ⟨vaAligned, sizeAligned, grown, leaves⟩ := wp_of_returns spec returned
  have low : ∀ i < c.size, i / pageSize < c.size / pageSize := by
    intro i inside
    simp only [pageSize] at *
    omega
  have leaf : ∀ i < c.size, leafAt (memory s') root ((c.va + i) % usizeBound) =
      some (.pack (c.pa + i / pageSize * pageSize)
        (PageTableEntry.flags c.read c.write c.execute c.user)) := by
    intro i inside
    rw [leafAt_eq_of_vpn _ root _ _ (page_of_offset c.va i vaAligned).1]
    exact leaves _ (low i inside)
  refine ⟨?_, ?_, ?_, grown.keeps⟩
  · intro i inside
    obtain ⟨r, ran, exact_⟩ :=
      va2pa_reads arch root ((c.va + i) % usizeBound) (Nat.mod_lt _ (Nat.two_pow_pos 64)) s'
    have value : r = .ok (c.pa + i) := by
      refine (exact_ _).mpr ⟨_, leaf i inside, ?_⟩
      rw [(page_of_offset c.va i vaAligned).2]
      refine (leaf_of_offset c.pa i _ paAligned flagsSmall ?_).symm
      simp only [pageSize] at *
      omega
    rw [ran, value]
  · intro i inside
    exact ⟨_, leaf i inside, PageTableEntry.flags_pack _ _ flagsSmall⟩
  · intro va small apart
    obtain ⟨before, ran, exact_⟩ := va2pa_reads arch root va small s
    obtain ⟨after, ran', exact'⟩ := va2pa_reads arch root va small s'
    refine ⟨before, after, ran, ran', fun pa => ?_⟩
    rw [exact_ pa, exact' pa]
    constructor
    · rintro ⟨entry, found, value⟩
      exact ⟨entry, grown.keeps va entry found, value⟩
    · rintro ⟨entry, found, value⟩
      rcases grown.only va entry found with old | ⟨j, inside, page, -⟩
      · exact ⟨entry, old, value⟩
      · have offset : j * pageSize < c.size := by
          simp only [pageSize] at *
          omega
        refine absurd (page.trans ?_) (apart _ offset)
        rw [vpn_wrap]

end Runs

/-- Memory with a region that pages are handed out from in order, as the allocator's own bump
region is. -/
structure Pages where
  memory : Memory
  next : Nat
  stop : Nat

instance : HasMemory Pages where
  memory := Pages.memory
  setMemory := fun s m => { s with memory := m }
  memory_setMemory := fun _ _ => rfl

namespace Pages

def allocate (size : Nat) : Fallible Pages Nat := ExceptT.mk fun s =>
  if s.next + size < s.stop then
    .ok (.ok s.next, { s with memory := s.memory.fill s.next size 0, next := s.next + size })
  else .ok (.error .memoryNotAvailable, s)

def Inv (T : Set Nat) (s : Pages) : Prop :=
  s.next % pageSize = 0 ∧ s.stop < usizeBound ∧ ∀ t ∈ T, t + pageSize ≤ s.next

theorem source : PageSource allocate Inv fun _ => True where
  allocated := by
    rintro T s ⟨aligned, bounded, under⟩
    have unfolded : (allocate pageSize).run s = if s.next + pageSize < s.stop then
        .ok (.ok s.next,
          { s with memory := s.memory.fill s.next pageSize 0, next := s.next + pageSize })
        else .ok (.error .memoryNotAvailable, s) := rfl
    unfold wpr
    rw [wp_def, unfolded]
    by_cases enough : s.next + pageSize < s.stop
    · rw [if_pos enough]
      refine ⟨aligned, by omega, ?_, ?_, ?_, ?_, bounded, ?_⟩
      · intro known
        have := under _ known
        simp only [pageSize] at this
        omega
      · intro x low high
        exact if_pos ⟨low, high⟩
      · intro t known x low high
        have := under t known
        exact if_neg (by omega)
      · simp only [pageSize] at *
        omega
      · rintro t (rfl | known)
        · exact le_refl _
        · exact le_trans (under t known) (Nat.le_add_right _ _)
    · rw [if_neg enough]
      exact ⟨fun _ _ _ _ _ => rfl, aligned, bounded, under⟩
  written := fun _ _ _ _ _ held _ _ => held
  overflow := trivial

def arch : Riscv Pages := ⟨allocate, fun _ _ => pure (), 0⟩

def fresh : Pages := ⟨fun _ => 0, 8192, 65536⟩

def twoPages : MapCall := ⟨0x3ffff000, 0x80000000, 8192, true, true, false, true⟩

end Pages

theorem ok_of_check {σ α : Type} {x : Fallible σ α} {s : σ} (check : σ → Bool)
    (passed : (x.run s).toOption.any (fun p => p.1.isOk && check p.2) = true) :
    ∃ a t, x.run s = .ok (.ok a, t) ∧ check t = true := by
  cases ran : x.run s with
  | error e =>
      rw [ran] at passed
      cases passed
  | ok p =>
      rw [ran] at passed
      rcases p with ⟨result, t⟩
      cases result with
      | ok a => exact ⟨a, t, rfl, passed⟩
      | error e => cases passed

namespace Pages

def mapped : Pages :=
  match (arch.call 4096 twoPages).run fresh with
  | .ok (_, s) => s
  | .error _ => fresh

theorem mapped_of_fresh : arch.MapSteps 4096 fresh twoPages mapped := by
  refine ⟨by decide, by decide, ?_⟩
  have ends : ((arch.call 4096 twoPages).run fresh).isOk = true := by decide +kernel
  unfold mapped
  cases ran : (arch.call 4096 twoPages).run fresh with
  | ok r => exact ⟨r.1, rfl⟩
  | error e =>
      rw [ran] at ends
      cases ends

end Pages

theorem twoPages_translated : ∃ s', (Pages.arch.call 4096 Pages.twoPages).run Pages.fresh =
    .ok (.ok (), s') ∧ Translated Pages.arch 4096 Pages.fresh Pages.twoPages s' := by
  rcases ok_of_check (x := Pages.arch.call 4096 Pages.twoPages) (s := Pages.fresh) (fun _ => true)
    (by decide +kernel) with ⟨_, s', returned, -⟩
  refine ⟨s', returned, map_translates Pages.source (by decide) (by decide) Pages.fresh _ s'
    (fun _ _ _ => rfl) ⟨by decide, by decide, ?_⟩ [] Run.nil _ (by decide) (by decide) returned⟩
  rintro t rfl
  decide

end Jangri
