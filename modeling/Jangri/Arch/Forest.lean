import Jangri.Lib.Forest
import Jangri.Arch.Recorded

namespace Jangri

open Lib

section Others

variable {σ : Type} [HasMemory σ] {inv : Set Nat → σ → Prop} {halts : Halt → Prop}
  {T U : Set Nat} {s s' s'' : σ}

theorem SameOn.refl (T : Set Nat) (s : σ) : SameOn T s s := fun _ _ _ _ _ => rfl

theorem SameOn.trans (first : SameOn T s s') (second : SameOn T s' s'') : SameOn T s s'' := by
  intro t member x low high
  rw [second t member x low high, first t member x low high]

theorem SameOn.mono (same : SameOn U s s') (fewer : T ⊆ U) : SameOn T s s' :=
  fun t member => same t (fewer member)

theorem sameOn_store {t i : Nat} (entry : PageTableEntry) (alignedT : t % pageSize = 0)
    (low : i < 512) (aligned : ∀ u ∈ U, u % pageSize = 0) (apart : t ∉ U) :
    SameOn U s (setMemory s (storeEntry (memory s) (entryAddress t i) entry)) := by
  intro u member x above below_
  have different : u ≠ t := fun same => apart (same ▸ member)
  have alignedU := aligned u member
  rw [memory_setMemory, storeEntry, Memory.write]
  apply if_neg
  simp only [entryAddress, pageSize] at *
  omega

structure Beside (inv : Set Nat → σ → Prop) (others : Set Nat) (start : σ) (T : Set Nat) (s : σ) :
    Prop where
  held : inv (T ∪ others) s
  same : SameOn others start s
  aligned : ∀ t ∈ T, t % pageSize = 0
  apart : ∀ t ∈ T, t ∉ others

theorem beside_source {allocate : Nat → Fallible σ Nat} (source : PageSource allocate inv halts)
    {others : Set Nat} (aligned : ∀ t ∈ others, t % pageSize = 0) (start : σ) :
    PageSource allocate (Beside inv others start) halts where
  allocated := by
    intro T s beside
    apply wpr_weaken (source.allocated (T ∪ others) s beside.held)
    · intro v s' done
      rcases done with ⟨alignedV, bounded, fresh, zero, same, held⟩
      have kept : SameOn others s s' := same.mono Set.subset_union_right
      refine ⟨alignedV, bounded, fun known => fresh (Or.inl known), zero,
        same.mono Set.subset_union_left, ?_, beside.same.trans kept, ?_, ?_⟩
      · rw [Set.insert_union]
        exact held
      · intro t member
        rcases member with rfl | old
        · exact alignedV
        · exact beside.aligned t old
      · intro t member
        rcases member with rfl | old
        · exact fun known => fresh (Or.inr known)
        · exact beside.apart t old
    · intro e s' done
      exact ⟨done.1.mono Set.subset_union_left, done.2,
        beside.same.trans (done.1.mono Set.subset_union_right), beside.aligned, beside.apart⟩
  written := by
    intro T s t i entry beside present low
    have kept := sameOn_store (s := s) entry (beside.aligned t present) low aligned
      (beside.apart t present)
    exact ⟨source.written _ s t i entry beside.held (Or.inl present) low, beside.same.trans kept,
      beside.aligned, beside.apart⟩
  overflow := source.overflow

end Others

section Planted

variable {σ : Type} [HasMemory σ] {inv : Set Nat → σ → Prop} {halts : Halt → Prop}
  {arch : Riscv σ} {roots : Set Nat} {root : Nat} {s s' : σ} {c : MapCall}

def Grove (m : Memory) (roots : Set Nat) : Set Nat := {t | ∃ root ∈ roots, TablePage m root t}

def OtherPages (m : Memory) (roots : Set Nat) (root : Nat) : Set Nat :=
  {t | ∃ other ∈ roots, other ≠ root ∧ TablePage m other t}

structure Planted (inv : Set Nat → σ → Prop) (roots : Set Nat) (s : σ) : Prop where
  tables : ∀ root ∈ roots, Tables (memory s) root
  apart : ∀ root ∈ roots, ∀ root' ∈ roots, ∀ t, TablePage (memory s) root t →
    TablePage (memory s) root' t → root = root'
  held : inv (Grove (memory s) roots) s

theorem grove_split (m : Memory) (member : root ∈ roots) :
    {t | TablePage m root t} ∪ OtherPages m roots root = Grove m roots := by
  ext t
  constructor
  · intro h
    rcases h with own | ⟨other, member', -, page⟩
    · exact ⟨root, member, own⟩
    · exact ⟨other, member', page⟩
  · intro h
    rcases h with ⟨other, member', page⟩
    by_cases same : other = root
    · left
      rw [← same]
      exact page
    · exact Or.inr ⟨other, member', same, page⟩

theorem Planted.rooted (planted : Planted inv roots s) (member : root ∈ roots) :
    Rooted (Beside inv (OtherPages (memory s) roots root) s) root s := by
  constructor
  · exact planted.tables root member
  · constructor
    · rw [grove_split (memory s) member]
      exact planted.held
    · exact SameOn.refl _ s
    · exact fun t page => ((planted.tables root member).aligned t page).1
    · intro t page known
      rcases known with ⟨other, member', different, page'⟩
      exact different (planted.apart other member' root member t page' page)

theorem Planted.aligned_others (planted : Planted inv roots s) (root : Nat) :
    ∀ t ∈ OtherPages (memory s) roots root, t % pageSize = 0 := by
  intro t known
  rcases known with ⟨other, member, -, page⟩
  exact ((planted.tables other member).aligned t page).1

/-- A call on one root. -/
theorem Planted.grown (source : PageSource arch.allocate inv halts) (planted : Planted inv roots s)
    (member : root ∈ roots) (taken : arch.MapSteps root s c s') :
    Grown (Beside inv (OtherPages (memory s) roots root) s) root
      (Leaves c.va c.pa (c.size / pageSize)
        (PageTableEntry.flags c.read c.write c.execute c.user)) s s' :=
  map_grown (beside_source source (planted.aligned_others root) s) s s' c (planted.rooted member)
    taken

theorem Planted.others (source : PageSource arch.allocate inv halts) (planted : Planted inv roots s)
    (member : root ∈ roots) (taken : arch.MapSteps root s c s') {other : Nat}
    (member' : other ∈ roots) (different : other ≠ root) :
    SameOn {t | TablePage (memory s) other t} s s' := by
  have same := (planted.grown source member taken).rooted.2.same
  exact same.mono fun t page => ⟨other, member', different, page⟩

theorem Planted.step (source : PageSource arch.allocate inv halts) (planted : Planted inv roots s)
    (member : root ∈ roots) (taken : arch.MapSteps root s c s') : Planted inv roots s' := by
  have rooted := (planted.grown source member taken).rooted
  have page : ∀ other ∈ roots, other ≠ root → ∀ t,
      TablePage (memory s') other t ↔ TablePage (memory s) other t :=
    fun other member' different =>
      tablePage_congr _ _ other (planted.others source member taken member' different)
  have foreign : OtherPages (memory s') roots root = OtherPages (memory s) roots root := by
    ext t
    constructor
    · intro h
      rcases h with ⟨other, member', different, at_⟩
      exact ⟨other, member', different, (page other member' different t).mp at_⟩
    · intro h
      rcases h with ⟨other, member', different, at_⟩
      exact ⟨other, member', different, (page other member' different t).mpr at_⟩
  have beside : ∀ t, TablePage (memory s') root t → ∀ other ∈ roots, other ≠ root →
      ¬ TablePage (memory s') other t := by
    intro t own other member' different at_
    apply rooted.2.apart t own
    exact ⟨other, member', different, (page other member' different t).mp at_⟩
  constructor
  · intro other member'
    by_cases same : other = root
    · rw [same]
      exact rooted.1
    · exact (planted.tables other member').congr _
        (planted.others source member taken member' same)
  · intro first member₁ second member₂ t at₁ at₂
    by_cases own₁ : first = root
    · by_cases own₂ : second = root
      · rw [own₁, own₂]
      · exact absurd at₂ (beside t (own₁ ▸ at₁) second member₂ own₂)
    · by_cases own₂ : second = root
      · exact absurd at₁ (beside t (own₂ ▸ at₂) first member₁ own₁)
      · exact planted.apart first member₁ second member₂ t ((page first member₁ own₁ t).mp at₁)
          ((page second member₂ own₂ t).mp at₂)
  · rw [← grove_split (memory s') member, foreign]
    exact rooted.2.held

end Planted

section Runs

variable {σ : Type} [HasMemory σ] {inv : Set Nat → σ → Prop} {halts : Halt → Prop}
  {arch : Riscv σ} {roots : Set Nat} {start s s' : σ} {trace : List (σ × Nat × MapCall)}

def Riscv.ForestSteps (arch : Riscv σ) (roots : Set Nat) (s : σ) (call : Nat × MapCall) (s' : σ) :
    Prop :=
  call.1 ∈ roots ∧ arch.MapSteps call.1 s call.2 s'

def Riscv.forestCalled (arch : Riscv σ) (roots : List Nat) (s : σ) (call : Nat × MapCall) :
    Option σ :=
  if call.1 ∈ roots then arch.called call.1 s call.2 else none

theorem forestSteps_of_called (roots : List Nat) (s : σ) (call : Nat × MapCall) (s' : σ)
    (known : arch.forestCalled roots s call = some s') :
    arch.ForestSteps {root | root ∈ roots} s call s' := by
  rw [Riscv.forestCalled] at known
  by_cases member : call.1 ∈ roots
  · rw [if_pos member] at known
    exact ⟨member, arch.mapSteps_of_called call.1 s call.2 s' known⟩
  · rw [if_neg member] at known
    cases known

/-- A run that a list of calls makes, with what a check on its last state found. -/
theorem run_of_forest_calls (arch : Riscv σ) (roots : List Nat) (start : σ)
    (calls : List (Nat × MapCall)) (check : σ → Bool)
    (passed : (Run.follow (arch.forestCalled roots) start calls).map check = some true) :
    ∃ trace s, Run (arch.ForestSteps {root | root ∈ roots}) start trace s ∧ check s = true := by
  rcases Option.map_eq_some_iff.mp passed with ⟨s, followed, holds⟩
  rcases Run.of_follow (forestSteps_of_called roots) calls followed with ⟨trace, run, -⟩
  exact ⟨trace, s, run, holds⟩

theorem planted_of_zero (aligned : ∀ root ∈ roots, root % pageSize = 0)
    (bounded : ∀ root ∈ roots, root < usizeBound)
    (zero : ∀ root ∈ roots, ∀ x, root ≤ x → x < root + pageSize → memory s x = 0)
    (held : inv roots s) : Planted inv roots s := by
  have single : ∀ root ∈ roots, Rooted (fun T (_ : σ) => T = {root}) root s :=
    fun root member =>
      rooted_of_zero (aligned root member) (bounded root member) s (zero root member) rfl
  have only : ∀ root ∈ roots, ∀ t, TablePage (memory s) root t → t = root := by
    intro root member t page
    have inside : t ∈ {x | TablePage (memory s) root x} := page
    rw [(single root member).2] at inside
    exact inside
  have pages : Grove (memory s) roots = roots := by
    ext t
    constructor
    · intro h
      rcases h with ⟨root, member, page⟩
      rw [only root member t page]
      exact member
    · exact fun member => ⟨t, member, tablePage_root⟩
  constructor
  · exact fun root member => (single root member).1
  · intro root member root' member' t page page'
    rw [← only root member t page, only root' member' t page']
  · rw [pages]
    exact held

theorem planted_run (source : PageSource arch.allocate inv halts) (planted : Planted inv roots start)
    (run : Run (arch.ForestSteps roots) start trace s) : Planted inv roots s :=
  run.invariant_last (Planted inv roots) planted fun _ _ _ known taken =>
    known.step source taken.1 taken.2

def AskedFor (root page : Nat) (entry : PageTableEntry) (call : Nat × MapCall) : Prop :=
  call.1 = root ∧ Leaves call.2.va call.2.pa (call.2.size / pageSize)
    (PageTableEntry.flags call.2.read call.2.write call.2.execute call.2.user) page entry

theorem leaf_asked (source : PageSource arch.allocate inv halts) (planted : Planted inv roots start)
    (empty : ∀ root ∈ roots, ∀ va, leafAt (memory start) root va = none)
    (run : Run (arch.ForestSteps roots) start trace s) {root va : Nat} {entry : PageTableEntry}
    (member : root ∈ roots) (found : leafAt (memory s) root va = some entry) :
    ∃ p ∈ trace, AskedFor root (vpn va) entry p.2 := by
  induction run with
  | nil =>
      rw [empty root member va] at found
      cases found
  | @snoc trace t u call run taken ih =>
      have before := planted_run source planted run
      have earlier : leafAt (memory t) root va = some entry →
          ∃ p ∈ trace ++ [(t, call)], AskedFor root (vpn va) entry p.2 := by
        intro old
        rcases ih old with ⟨p, inside, asked⟩
        exact ⟨p, List.mem_append_left _ inside, asked⟩
      by_cases same : root = call.1
      · rw [same] at found earlier ⊢
        rcases (before.grown source taken.1 taken.2).only va entry found with old | new
        · exact earlier old
        · exact ⟨(t, call), by simp, rfl, new⟩
      · have kept := before.others source taken.1 taken.2 member same
        rw [leafAt_congr _ _ root kept va] at found
        exact earlier found

end Runs

section Logging

variable {σ : Type} [HasMemory σ] {arch : Riscv σ} {halts : Halt → Prop}

structure Logged (inv : Set Nat → σ → Prop) (roots T : Set Nat) (r : Recorded σ) : Prop where
  held : inv T r.state
  pages : ∀ x, x ∈ T ↔ x ∈ roots ∨ x ∈ r.allocated
  fresh : ∀ x ∈ r.allocated, x ∉ roots

theorem logged_source {inv : Set Nat → σ → Prop} (source : PageSource arch.allocate inv halts)
    (roots : Set Nat) : PageSource arch.recorded.allocate (Logged inv roots) halts where
  allocated := by
    intro T r logged
    apply wpr_recorded_allocate
    apply wpr_weaken (source.allocated T r.state logged.held)
    · intro page s done
      rcases done with ⟨aligned, bounded, fresh, zero, same, held⟩
      refine ⟨aligned, bounded, fresh, zero, same, held, ?_, ?_⟩
      · intro x
        simp only [Set.mem_insert_iff, List.mem_append, List.mem_singleton, logged.pages x]
        rw [or_comm, or_assoc]
      · intro x member
        rcases List.mem_append.mp member with old | new
        · exact logged.fresh x old
        · rw [List.mem_singleton.mp new]
          exact fun root => fresh ((logged.pages page).mpr (Or.inl root))
    · intro e s done
      exact ⟨done.1, done.2, logged.pages, logged.fresh⟩
  written := by
    intro T r t i entry logged present low
    exact ⟨source.written T r.state t i entry logged.held present low, logged.pages, logged.fresh⟩
  overflow := source.overflow

end Logging

section Levels

variable {m : Memory} {roots : Set Nat}

def AtLevel (m : Memory) (roots : Set Nat) (level t : Nat) : Prop :=
  ∃ root ∈ roots, ∃ path : List Nat, path.length + level = 3 ∧ tableAt m root path = some t

/-- The valid entry of a table at level 3, 2 or 1 that holds the address of the page. -/
structure Refers (m : Memory) (roots : Set Nat) (page : Nat) (place : Nat × Nat) : Prop where
  level : ∃ level, AtLevel m roots (level + 1) place.1
  low : place.2 < 512
  valid : (entryAt m place.1 place.2).isValid = true
  points : (entryAt m place.1 place.2).getPhysicalAddress = page

/-- The tables are those of a forest of depth three: the roots and the pages that were handed out,
each at one level of one tree. -/
structure PageForest (m : Memory) (roots : Set Nat) (allocated : List Nat) : Prop where
  pages : ∀ t, (∃ level, AtLevel m roots level t) ↔ t ∈ roots ∨ t ∈ allocated
  root : ∀ root ∈ roots, AtLevel m roots 3 root
  level : ∀ t level level', AtLevel m roots level t → AtLevel m roots level' t → level = level'
  links : ∀ level t i, AtLevel m roots (level + 1) t → i < 512 → (entryAt m t i).isValid = true →
    (entryAt m t i).getPhysicalAddress ∈ allocated ∧
    AtLevel m roots level (entryAt m t i).getPhysicalAddress ∧ ¬ (entryAt m t i).HasRights
  referenced : ∀ page, page ∈ allocated ↔ page ∉ roots ∧ ∃! place, Refers m roots page place
  apart : ∀ root ∈ roots, ∀ root' ∈ roots, ∀ t, TablePage m root t → TablePage m root' t →
    root = root'

theorem atDepth_of_level {level t : Nat} (at_ : AtLevel m roots level t) :
    level ≤ 3 ∧ AtDepth (child m) roots (3 - level) t := by
  rcases at_ with ⟨root, member, path, length, reaches⟩
  exact ⟨by omega, root, member, path, by omega, reaches⟩

theorem level_of_atDepth {length t : Nat} (short : length ≤ 3)
    (at_ : AtDepth (child m) roots length t) : AtLevel m roots (3 - length) t := by
  rcases at_ with ⟨root, member, path, long, reaches⟩
  exact ⟨root, member, path, by omega, reaches⟩

theorem child_eq_some (t i page : Nat) : child m t i = some page ↔
    i < 512 ∧ (entryAt m t i).isValid = true ∧ (entryAt m t i).getPhysicalAddress = page := by
  change (if i < 512 ∧ (entryAt m t i).isValid = true then _ else _) = _ ↔ _
  by_cases both : i < 512 ∧ (entryAt m t i).isValid = true
  · rw [if_pos both, Option.some.injEq, ← and_assoc, and_iff_right both]
  · rw [if_neg both, ← and_assoc]
    exact iff_of_false nofun fun h => both h.1

theorem refers_iff (page : Nat) (place : Nat × Nat) : Refers m roots page place ↔
    (∃ length < 3, AtDepth (child m) roots length place.1) ∧
      child m place.1 place.2 = some page := by
  rw [child_eq_some]
  constructor
  · intro refers
    rcases refers.level with ⟨level, at_⟩
    rcases atDepth_of_level at_ with ⟨high, deep⟩
    exact ⟨⟨3 - (level + 1), by omega, deep⟩, refers.low, refers.valid, refers.points⟩
  · intro h
    rcases h with ⟨⟨length, short, deep⟩, low, valid, points⟩
    have at_ := level_of_atDepth (Nat.le_of_lt short) deep
    have level : 3 - length = 2 - length + 1 := by omega
    rw [level] at at_
    exact ⟨⟨_, at_⟩, low, valid, points⟩

theorem mem_grove_iff (t : Nat) :
    t ∈ Grove m roots ↔ ∃ level, AtLevel m roots level t := by
  constructor
  · intro h
    rcases h with ⟨root, member, path, short, reaches⟩
    exact ⟨3 - path.length, root, member, path, by omega, reaches⟩
  · intro h
    rcases h with ⟨level, root, member, path, length, reaches⟩
    exact ⟨root, member, path, by omega, reaches⟩

theorem below_root {t : Nat} (known : t ∈ Grove m roots) (other : t ∉ roots) :
    ∃ length < 3, AtDepth (child m) roots (length + 1) t := by
  rcases known with ⟨root, member, path, short, reaches⟩
  cases path with
  | nil => exact absurd (Option.some.inj reaches ▸ member) other
  | cons i rest =>
      rw [List.length_cons] at short
      exact ⟨rest.length, by omega, root, member, i :: rest, rfl, reaches⟩

end Levels

section Shape

variable {σ : Type} [HasMemory σ] {inv : Set Nat → σ → Prop} {roots : Set Nat} {s : σ}

theorem Planted.forest (planted : Planted inv roots s) : Forest (child (memory s)) roots 3 where
  unique := by
    intro root member root' member' p q t shortP shortQ reachesP reachesQ
    have same : root = root' :=
      planted.apart root member root' member' t ⟨p, shortP, reachesP⟩ ⟨q, shortQ, reachesQ⟩
    rw [← same] at reachesQ
    exact ⟨same, (planted.tables root member).injective p q t shortP shortQ reachesP reachesQ⟩

theorem Planted.links (planted : Planted inv roots s) {level t i : Nat}
    (at_ : AtLevel (memory s) roots (level + 1) t) (low : i < 512)
    (valid : (entryAt (memory s) t i).isValid = true) :
    AtLevel (memory s) roots level (entryAt (memory s) t i).getPhysicalAddress ∧
      (entryAt (memory s) t i).getPhysicalAddress ∉ roots ∧
      ¬ (entryAt (memory s) t i).HasRights := by
  rcases atDepth_of_level at_ with ⟨high, deep⟩
  have edge : child (memory s) t i = some (entryAt (memory s) t i).getPhysicalAddress :=
    (child_eq_some t i _).mpr ⟨low, valid, rfl⟩
  have next := deep.next edge
  have level_ : 3 - (level + 1) + 1 = 3 - level := by omega
  rw [level_] at next
  have back : 3 - (3 - level) = level := by omega
  constructor
  · have reached := level_of_atDepth (by omega) next
    rw [back] at reached
    exact reached
  · constructor
    · intro isRoot
      have top := planted.forest.root_depth (by omega) isRoot next
      omega
    · rcases at_ with ⟨root, member, path, length, reaches⟩
      apply PageTableEntry.no_rights
      exact (planted.tables root member).pointers path t (by omega) reaches i low valid

end Shape

section Logs

variable {σ : Type} [HasMemory σ] {inv : Set Nat → σ → Prop} {roots : Set Nat} {r : Recorded σ}

theorem Planted.pageForest (planted : Planted (Logged inv roots) roots r) :
    PageForest (memory r) roots r.allocated where
  pages := by
    intro t
    rw [← mem_grove_iff]
    exact planted.held.pages t
  root := fun root member => ⟨root, member, [], rfl, rfl⟩
  level := by
    intro t level level' at_ at'
    rcases atDepth_of_level at_ with ⟨high, deep⟩
    rcases atDepth_of_level at' with ⟨high', deep'⟩
    have same := planted.forest.depth_unique (by omega) (by omega) deep deep'
    omega
  links := by
    intro level t i at_ low valid
    rcases planted.links at_ low valid with ⟨next, notRoot, rights⟩
    have known := (planted.held.pages _).mp ((mem_grove_iff _).mpr ⟨level, next⟩)
    exact ⟨known.resolve_left notRoot, next, rights⟩
  referenced := by
    intro page
    constructor
    · intro member
      have other := planted.held.fresh page member
      constructor
      · exact other
      · have known := (planted.held.pages page).mpr (Or.inr member)
        rcases below_root known other with ⟨length, short, deep⟩
        simp only [refers_iff]
        exact planted.forest.edge_unique short deep
    · intro h
      rcases h with ⟨other, place, refers, -⟩
      rcases refers.level with ⟨level, at_⟩
      have next := (planted.links at_ refers.low refers.valid).1
      rw [refers.points] at next
      have known := (planted.held.pages page).mp ((mem_grove_iff _).mpr ⟨level, next⟩)
      exact known.resolve_left other
  apart := planted.apart

end Logs

section Lookup

variable {σ : Type} [HasMemory σ]

theorem lookup_reads (allocate : Nat → Fallible σ Nat) (pageTable va : Nat) (s : σ) :
    ∃ result, (getPageTableEntryAddress allocate pageTable va false).run s = .ok (result, s) := by
  rw [getPageTableEntryAddress]
  by_cases large : va > maxVa
  · rw [if_pos large]
    exact ⟨_, rfl⟩
  · rw [if_neg large]
    rcases walk_reads allocate va 3 pageTable s with ⟨result, ran, -⟩
    exact ⟨result, ran⟩

end Lookup

section Results

variable {σ : Type} [HasMemory σ] {inv : Set Nat → σ → Prop} {halts : Halt → Prop}
  {arch : Riscv σ}

/-- Page tables form a forest of fixed depth, whatever calls of `map` have built them: a page that
was handed out is referenced by one entry above the last level, and in the last level by the leaves
that a call has asked for. -/
theorem page_tables_are_forest (source : PageSource arch.allocate inv halts) (roots : Set Nat)
    (aligned : ∀ root ∈ roots, root % pageSize = 0) (bounded : ∀ root ∈ roots, root < usizeBound)
    (start s : Recorded σ)
    (zero : ∀ root ∈ roots, ∀ x, root ≤ x → x < root + pageSize → memory start x = 0)
    (nothing : start.allocated = []) (held : inv roots start.state)
    (trace : List (Recorded σ × Nat × MapCall))
    (run : Run (arch.recorded.ForestSteps roots) start trace s) :
    PageForest (memory s) roots s.allocated ∧
    (∀ t i, AtLevel (memory s) roots 0 t → i < 512 → (entryAt (memory s) t i).isValid = true →
      ∃ p ∈ trace, ∃ root page, AskedFor root page (entryAt (memory s) t i) p.2) ∧
    ∀ pageTable va, ∃ result,
      (getPageTableEntryAddress arch.recorded.allocate pageTable va false).run s =
        .ok (result, s) := by
  have logged : Logged inv roots roots start := by
    constructor
    · exact held
    · intro x
      simp [nothing]
    · simp [nothing]
  have planted := planted_of_zero aligned bounded zero logged
  have known := planted_run (logged_source source roots) planted run
  constructor
  · exact known.pageForest
  constructor
  · intro t i at_ low valid
    rcases at_ with ⟨root, member, path, length, reaches⟩
    rcases exists_leafAt (by omega) reaches low valid with ⟨va, leaf⟩
    have empty : ∀ root ∈ roots, ∀ va, leafAt (memory start) root va = none :=
      fun root member => leafAt_of_zero _ root (zero root member)
    rcases leaf_asked (logged_source source roots) planted empty run member leaf with
      ⟨p, inside, asked⟩
    exact ⟨p, inside, root, vpn va, asked⟩
  · exact fun pageTable va => lookup_reads _ pageTable va s

end Results

namespace Pages

def twoRoots : Recorded Pages := ⟨⟨fun _ => 0, 12288, 28673⟩, [], []⟩

def twoCalls : List (Nat × MapCall) :=
  [(4096, ⟨0, 0x80000000, 4096, true, true, false, true⟩),
    (8192, ⟨0, 0x80000000, 4096, true, true, false, true⟩)]

def selfMap : List (Nat × MapCall) := [(4096, ⟨0, 8192, 4096, true, true, false, false⟩)]

end Pages

def sharesTable (s : Recorded Pages) : Bool :=
  decide (s.allocated = [8192, 12288, 16384]) &&
    decide (tableAt (memory s) 4096 [0, 0, 0] = some 16384) &&
    (entryAt (memory s) 4096 0).isValid &&
    decide ((entryAt (memory s) 4096 0).getPhysicalAddress = 8192) &&
    (entryAt (memory s) 16384 0).isValid &&
    decide ((entryAt (memory s) 16384 0).getPhysicalAddress = 8192)

theorem two_trees_apart : ∃ trace s,
    Run (Pages.arch.recorded.ForestSteps {root | root ∈ [4096, 8192]}) Pages.twoRoots trace s ∧
    s.allocated = [12288, 16384, 20480, 24576] ∧
    PageForest (memory s) {root | root ∈ [4096, 8192]} s.allocated := by
  rcases run_of_forest_calls Pages.arch.recorded [4096, 8192] Pages.twoRoots Pages.twoCalls
    (fun s => decide (s.allocated = [12288, 16384, 20480, 24576])) (by decide +kernel) with
    ⟨trace, s, run, handed⟩
  have aligned : ∀ root ∈ [4096, 8192], root % pageSize = 0 := by decide
  have bounded : ∀ root ∈ [4096, 8192], root < usizeBound := by decide
  have under : ∀ root ∈ [4096, 8192], root + pageSize ≤ Pages.twoRoots.state.next := by decide
  have formed := page_tables_are_forest Pages.source {root | root ∈ [4096, 8192]} aligned bounded
    Pages.twoRoots s (fun _ _ _ _ _ => rfl) rfl ⟨by decide, by decide, under⟩ trace run
  exact ⟨trace, s, run, of_decide_eq_true handed, formed.1⟩

structure HoldsAddress (m : Memory) (roots : Set Nat) (page : Nat) (place : Nat × Nat) : Prop where
  level : ∃ level, AtLevel m roots level place.1
  low : place.2 < 512
  valid : (entryAt m place.1 place.2).isValid = true
  points : (entryAt m place.1 place.2).getPhysicalAddress = page

/-- A leaf may hold the address of a table. -/
theorem table_mapped_by_leaf : ∃ trace s,
    Run (Pages.arch.recorded.ForestSteps {root | root ∈ [4096]}) ⟨Pages.fresh, [], []⟩ trace s ∧
    8192 ∈ s.allocated ∧ ¬ ∃! place, HoldsAddress (memory s) {root | root ∈ [4096]} 8192 place := by
  rcases run_of_forest_calls Pages.arch.recorded [4096] ⟨Pages.fresh, [], []⟩ Pages.selfMap
    sharesTable (by decide +kernel) with ⟨trace, s, run, shares⟩
  simp only [sharesTable, Bool.and_eq_true, decide_eq_true_eq] at shares
  rcases shares with ⟨⟨⟨⟨⟨handed, deep⟩, validTop⟩, top⟩, validLeaf⟩, leaf⟩
  have first : HoldsAddress (memory s) {root | root ∈ [4096]} 8192 (4096, 0) :=
    ⟨⟨3, 4096, List.mem_cons_self, [], rfl, rfl⟩, by decide, validTop, top⟩
  have second : HoldsAddress (memory s) {root | root ∈ [4096]} 8192 (16384, 0) :=
    ⟨⟨0, 4096, List.mem_cons_self, [0, 0, 0], rfl, deep⟩, by decide, validLeaf, leaf⟩
  refine ⟨trace, s, run, ?_, ?_⟩
  · rw [handed]
    decide
  · intro one
    have same := one.unique first second
    revert same
    decide

end Jangri
