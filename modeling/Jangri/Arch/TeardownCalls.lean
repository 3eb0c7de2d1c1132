import Jangri.Arch.Unmapping

namespace Jangri

open Lib

section Returning

variable {σ : Type} [HasMemory σ] {inv : Set Nat → σ → Prop} {halts : Halt → Prop}
  {arch : Riscv σ}

def Recorded.pages {σ : Type} (r : Recorded σ) : List Nat := r.freed.map Prod.fst

structure Returned (inv : Set Nat → σ → Prop) (all : List Nat) (T : Set Nat) (r : Recorded σ) :
    Prop where
  held : inv T r.state
  nodup : r.pages.Nodup
  size : ∀ p ∈ r.freed, p.2 = pageSize
  split : ∀ x, x ∈ all ↔ x ∈ T ∨ x ∈ r.pages
  apart : ∀ x ∈ T, x ∉ r.pages

theorem returned_sink (sink : PageSink arch.deallocate inv halts) (all : List Nat) :
    PageSink arch.recorded.deallocate (Returned inv all) halts where
  freed := by
    intro T r t returned present
    apply wp_recorded_deallocate
    apply wp_weaken (sink.freed T r.state t returned.held present)
    intro _ s done
    have pages : (r.freed ++ [(t, pageSize)]).map Prod.fst = r.pages ++ [t] := by
      rw [List.map_append]
      rfl
    refine ⟨⟨done.1, ?_, ?_, ?_, ?_⟩, done.2⟩
    · change ((r.freed ++ [(t, pageSize)]).map Prod.fst).Nodup
      rw [pages]
      have turned : ([t] ++ r.pages).Nodup :=
        List.nodup_cons.mpr ⟨returned.apart t present, returned.nodup⟩
      exact List.nodup_append_comm.mp turned
    · intro p member
      rcases List.mem_append.mp member with old | new
      · exact returned.size p old
      · rw [List.mem_singleton.mp new]
    · intro x
      change x ∈ all ↔ x ∈ T \ {t} ∨ x ∈ (r.freed ++ [(t, pageSize)]).map Prod.fst
      rw [pages, List.mem_append, List.mem_singleton, returned.split x]
      by_cases same : x = t
      · subst same
        exact iff_of_true (Or.inl present) (Or.inr (Or.inr rfl))
      · rw [Set.mem_sdiff, Set.mem_singleton_iff]
        tauto
    · intro x remains
      change x ∉ (r.freed ++ [(t, pageSize)]).map Prod.fst
      rw [pages, List.mem_append, List.mem_singleton]
      rintro (old | new)
      · exact returned.apart x remains.1 old
      · exact remains.2 new
  written := by
    intro T r t i entry returned present low
    exact ⟨sink.written T r.state t i entry returned.held present low, returned.nodup,
      returned.size, returned.split, returned.apart⟩

omit [HasMemory σ] in
theorem Returned.perm {all : List Nat} {r : Recorded σ} (returned : Returned inv all ∅ r)
    (distinct : all.Nodup) : r.freed.Perm (all.map fun page => (page, pageSize)) := by
  have pages : r.pages.Perm all := by
    apply (List.perm_ext_iff_of_nodup returned.nodup distinct).mpr
    intro x
    rw [returned.split x]
    simp
  have whole : r.freed = r.pages.map fun page => (page, pageSize) := by
    rw [Recorded.pages, List.map_map]
    symm
    apply (List.map_congr_left _).trans (List.map_id r.freed)
    intro p member
    exact Prod.ext rfl (returned.size p member).symm
  rw [whole]
  exact pages.map _

end Returning

section Counting

variable {σ : Type} {T : Set Nat} {r r' : Recorded σ} {new : List (Nat × Nat)}

structure Lawful (T : Set Nat) (r : Recorded σ) : Prop where
  nodup : r.pages.Nodup
  inside : ∀ x ∈ r.pages, x ∈ T

def Remaining (T : Set Nat) (r : Recorded σ) : Set Nat := {x | x ∈ T ∧ x ∉ r.pages}

theorem pages_append (longer : r'.freed = r.freed ++ new) :
    r'.pages = r.pages ++ new.map Prod.fst := by
  rw [Recorded.pages, longer, List.map_append]
  rfl

theorem Lawful.earlier (lawful : Lawful T r') (longer : r'.freed = r.freed ++ new) :
    Lawful T r := by
  have nodup := lawful.nodup
  rw [pages_append longer] at nodup
  refine ⟨nodup.of_append_left, ?_⟩
  intro x member
  apply lawful.inside
  rw [pages_append longer]
  exact List.mem_append_left _ member

theorem remaining_subset (longer : r'.freed = r.freed ++ new) : Remaining T r' ⊆ Remaining T r := by
  intro x remains
  refine ⟨remains.1, ?_⟩
  intro old
  apply remains.2
  rw [pages_append longer]
  exact List.mem_append_left _ old

structure Points (m : Memory) (f : Nat) (place : Nat × Nat) : Prop where
  low : place.2 < 512
  valid : (entryAt m place.1 place.2).isValid = true
  bare : ¬ (entryAt m place.1 place.2).HasRights
  address : (entryAt m place.1 place.2).getPhysicalAddress = f

variable [HasMemory σ] (inv : Set Nat → σ → Prop) (T) (f : Nat)

/-- What a call for `page` does while all calls of the callback are lawful: it gives back as many
`f` as there are entries that point to it in the tables that it gives back, besides itself. -/
structure Swept (page : Nat) (r r' : Recorded σ) : Prop where
  held : inv (Remaining T r') r'.state
  same : SameOn (Remaining T r') r.state r'.state
  counts : ∀ places : Finset (Nat × Nat), (∀ place ∈ places, Points (memory r.state) f place ∧
    place.1 ∈ Remaining T r ∧ place.1 ∉ Remaining T r') →
    places.card + (if page = f then 1 else 0) + r.pages.count f ≤ r'.pages.count f

structure SweptFrom (page index : Nat) (r r' : Recorded σ) : Prop where
  held : inv (Remaining T r') r'.state
  same : SameOn (Remaining T r' \ {page}) r.state r'.state
  counts : ∀ places : Finset (Nat × Nat), (∀ place ∈ places, Points (memory r.state) f place ∧
    place.1 ∈ Remaining T r ∧ (place.1 ∉ Remaining T r' ∨ place.1 = page ∧ index ≤ place.2)) →
    places.card + r.pages.count f ≤ r'.pages.count f

variable {inv T f} {m : Memory} {place : Nat × Nat} {page index : Nat}

theorem Points.congr (points : Points m f place) (m' : Memory)
    (same : ∀ x, place.1 ≤ x → x < place.1 + pageSize → m' x = m x) : Points m' f place := by
  have entry := entryAt_congr m m' place.1 same place.2 points.low
  refine ⟨points.low, ?_, ?_, ?_⟩
  · rw [entry]
    exact points.valid
  · rw [entry]
    exact points.bare
  · rw [entry]
    exact points.address

theorem Points.clear (points : Points m f place) (low : index < 512) (aligned : page % pageSize = 0)
    (aligned' : place.1 % pageSize = 0) (other : place ≠ (page, index)) :
    Points (storeEntry m (entryAddress page index) ⟨0⟩) f place := by
  have entry := entryAt_store m page index place.1 place.2 ⟨0⟩ (Nat.two_pow_pos 64) aligned
    aligned' low points.low
  rw [if_neg fun both => other (Prod.ext both.1 both.2)] at entry
  refine ⟨points.low, ?_, ?_, ?_⟩
  · rw [entry]
    exact points.valid
  · rw [entry]
    exact points.bare
  · rw [entry]
    exact points.address

/-- One entry after another: what was done for `index`, which gave back `extra` more of `f` if the
entry points there, then the entry cleared, then the entries behind it. -/
theorem SweptFrom.step {r₁ : Recorded σ} {extra : Nat}
    (aligned : ∀ x ∈ T, x % pageSize = 0) (low : index < 512)
    (longer : r'.freed = r₁.freed ++ new)
    (present : page ∈ Remaining T r') (same : SameOn (Remaining T r₁) r.state r₁.state)
    (counts : ∀ places : Finset (Nat × Nat), (∀ place ∈ places, Points (memory r.state) f place ∧
      place.1 ∈ Remaining T r ∧ place.1 ∉ Remaining T r₁) →
      places.card + extra + r.pages.count f ≤ r₁.pages.count f)
    (pays : Points (memory r.state) f (page, index) → 1 ≤ extra)
    (rest : SweptFrom T inv f page (index + 1)
      (setMemory r₁ (storeEntry (memory r₁) (entryAddress page index) ⟨0⟩)) r') :
    SweptFrom T inv f page index r r' where
  held := rest.held
  same := by
    intro x remains y first last
    have there := remaining_subset longer remains.1
    rw [rest.same x remains y first last, state_setMemory, memory_setMemory]
    calc
      storeEntry (memory r₁) (entryAddress page index) ⟨0⟩ y = memory r₁ y :=
        storeEntry_apart (memory r₁) x index ⟨0⟩ (aligned page present.1) (aligned x there.1)
          remains.2 low y first last
      _ = memory r.state y := same x there y first last
  counts := by
    classical
    intro places all
    have earlier := counts (places.filter fun place => place.1 ∉ Remaining T r₁) (by
      intro place member
      rcases Finset.mem_filter.mp member with ⟨inside, gone⟩
      exact ⟨(all place inside).1, (all place inside).2.1, gone⟩)
    have later := rest.counts
      ((places.filter fun place => place.1 ∈ Remaining T r₁).erase (page, index)) (by
      intro place member
      rcases Finset.mem_erase.mp member with ⟨other, kept⟩
      rcases Finset.mem_filter.mp kept with ⟨inside, there⟩
      rcases all place inside with ⟨points, -, left_⟩
      refine ⟨?_, there, ?_⟩
      · rw [state_setMemory, memory_setMemory]
        exact (points.congr (memory r₁.state) (same place.1 there)).clear low
          (aligned page present.1) (aligned place.1 there.1) other
      · rcases left_ with gone | ⟨here, behind⟩
        · exact Or.inl gone
        · refine Or.inr ⟨here, ?_⟩
          rcases Nat.eq_or_lt_of_le behind with equal | above
          · exact absurd (Prod.ext here equal.symm) other
          · exact above)
    have whole := Finset.card_filter_add_card_filter_not (s := places)
      fun place => place.1 ∈ Remaining T r₁
    have counted : (setMemory r₁ (storeEntry (memory r₁) (entryAddress page index) ⟨0⟩)).pages =
        r₁.pages := rfl
    rw [counted] at later
    by_cases here : (page, index) ∈ places.filter fun place => place.1 ∈ Remaining T r₁
    · have paid := pays (all _ (Finset.mem_filter.mp here).1).1
      have one := Finset.card_erase_add_one here
      omega
    · rw [Finset.erase_eq_of_notMem here] at later
      omega

/-- An entry that is not valid points nowhere. -/
theorem SweptFrom.skip (rest : SweptFrom T inv f page (index + 1) r r')
    (invalid : ¬ (entryAt (memory r.state) page index).isValid = true) :
    SweptFrom T inv f page index r r' where
  held := rest.held
  same := rest.same
  counts := by
    intro places all
    apply rest.counts places
    intro place member
    rcases all place member with ⟨points, there, left_⟩
    refine ⟨points, there, ?_⟩
    rcases left_ with gone | ⟨self, behind⟩
    · exact Or.inl gone
    · refine Or.inr ⟨self, ?_⟩
      rcases Nat.eq_or_lt_of_le behind with equal | above
      · have known := points.valid
        rw [self, ← equal] at known
        exact absurd known invalid
      · exact above

theorem SweptFrom.last (held : inv (Remaining T r) r.state) : SweptFrom T inv f page 512 r r where
  held := held
  same := fun _ _ _ _ _ => rfl
  counts := by
    intro places all
    have empty : places = ∅ := by
      apply Finset.eq_empty_of_forall_notMem
      intro place member
      rcases all place member with ⟨points, there, gone | ⟨-, behind⟩⟩
      · exact gone there
      · exact absurd points.low (Nat.not_lt.mpr behind)
    rw [empty, Finset.card_empty, Nat.zero_add]

theorem readEntry_returns_iff {s t : σ} {addr : Nat} {entry : PageTableEntry} :
    readEntry addr s = .ok (entry, t) ↔ loadEntry (memory s) addr = entry ∧ s = t := by
  rw [readEntry, Except.ok.injEq, Prod.mk.injEq]

theorem writeEntry_returns_iff {s t : σ} {addr : Nat} {entry : PageTableEntry} {u : Unit} :
    writeEntry addr entry s = .ok (u, t) ↔
      setMemory s (storeEntry (memory s) addr entry) = t := by
  rw [writeEntry, Except.ok.injEq, Prod.mk.injEq]
  exact and_iff_right rfl

def Sweeps (T : Set Nat) (inv : Set Nat → σ → Prop) (f : Nat)
    (clean : Nat → Stateful (Recorded σ) Unit) : Prop :=
  ∀ page r r', clean page r = .ok ((), r') → (∃ new, r'.freed = r.freed ++ new) ∧
    (Lawful T r' → inv (Remaining T r) r.state → Swept T inv f page r r')

variable {arch : Riscv σ} {halts : Halt → Prop}

theorem sweptFrom_of_entries (sink : PageSink arch.deallocate inv halts)
    (aligned : ∀ x ∈ T, x % pageSize = 0) (recurse : Nat → Stateful (Recorded σ) Unit)
    (recursive : Sweeps T inv f recurse) (entries index : Nat) (all : index + entries = 512)
    (r r' : Recorded σ)
    (returned : Riscv.cleanEntries recurse page entries index r = .ok ((), r')) :
    (∃ new, r'.freed = r.freed ++ new) ∧
    (Lawful T r' → page ∈ Remaining T r' → inv (Remaining T r) r.state →
      SweptFrom T inv f page index r r') := by
  induction entries generalizing index r with
  | zero =>
      cases returned
      have last : index = 512 := all
      refine ⟨⟨[], (List.append_nil _).symm⟩, ?_⟩
      intro _ _ held
      rw [last]
      exact SweptFrom.last held
  | succ entries ih =>
      have low : index < 512 := by omega
      rw [Riscv.cleanEntries, bind_returns_iff] at returned
      rcases returned with ⟨entry, u, read, returned⟩
      rcases readEntry_returns_iff.mp read with ⟨rfl, rfl⟩
      have here : loadEntry (memory r) (entryAddress page index) = entryAt (memory r.state) page index :=
        rfl
      simp only [here] at returned
      -- the rest of the loop, once the entry has been cleared
      have rest : ∀ r₁ extra new₁, r₁.freed = r.freed ++ new₁ →
          (do
            let entry ← (readEntry (entryAddress page index) : Stateful (Recorded σ) PageTableEntry)
            writeEntry (entryAddress page index) entry.clearBits
            Riscv.cleanEntries recurse page entries (index + 1)) r₁ = .ok ((), r') →
          (∃ new, r'.freed = r.freed ++ new) ∧
          (Lawful T r' → page ∈ Remaining T r' → inv (Remaining T r) r.state →
            (Lawful T r₁ → inv (Remaining T r₁) r₁.state ∧
              SameOn (Remaining T r₁) r.state r₁.state ∧
              (∀ places : Finset (Nat × Nat), (∀ place ∈ places, Points (memory r.state) f place ∧
                place.1 ∈ Remaining T r ∧ place.1 ∉ Remaining T r₁) →
                places.card + extra + r.pages.count f ≤ r₁.pages.count f) ∧
              (Points (memory r.state) f (page, index) → 1 ≤ extra)) →
            SweptFrom T inv f page index r r') := by
        intro r₁ extra new₁ longer₁ ran
        rw [bind_returns_iff] at ran
        rcases ran with ⟨entry, u, read, ran⟩
        rcases readEntry_returns_iff.mp read with ⟨rfl, rfl⟩
        have zero : (loadEntry (memory r₁) (entryAddress page index)).clearBits = ⟨0⟩ := rfl
        rw [zero, bind_returns_iff] at ran
        rcases ran with ⟨_, v, wrote, ran⟩
        rw [writeEntry_returns_iff] at wrote
        subst wrote
        have further := ih (index + 1) (by omega) _ ran
        rcases further.1 with ⟨new₂, longer₂⟩
        rw [freed_setMemory] at longer₂
        refine ⟨⟨new₁ ++ new₂, by rw [longer₂, longer₁, List.append_assoc]⟩, ?_⟩
        intro lawful present held before
        rcases before (lawful.earlier longer₂) with ⟨held₁, same₁, counts₁, pays⟩
        have there := remaining_subset longer₂ present
        have cleared := sink.written (Remaining T r₁) r₁.state page index ⟨0⟩ held₁ there low
        have behind := further.2 lawful present cleared
        exact SweptFrom.step aligned low longer₂ present same₁ counts₁ pays behind
      by_cases valid : (entryAt (memory r.state) page index).isValid = true
      · rw [if_pos valid] at returned
        by_cases pointer : ¬ (entryAt (memory r.state) page index).readable ∧
            ¬ (entryAt (memory r.state) page index).writeable ∧
            ¬ (entryAt (memory r.state) page index).executable
        · rw [if_pos pointer, bind_returns_iff] at returned
          rcases returned with ⟨_, r₁, called, ran⟩
          have swept := recursive _ r r₁ called
          rcases swept.1 with ⟨new₁, longer₁⟩
          have whole := rest r₁ (if (entryAt (memory r.state) page index).getPhysicalAddress = f
            then 1 else 0) new₁ longer₁ ran
          refine ⟨whole.1, fun lawful present held => whole.2 lawful present held ?_⟩
          intro lawful₁
          have done := swept.2 lawful₁ held
          refine ⟨done.held, done.same, done.counts, ?_⟩
          intro points
          rw [if_pos points.address]
        · rw [if_neg pointer] at returned
          have whole := rest r 0 [] (List.append_nil _).symm returned
          refine ⟨whole.1, fun lawful present held => whole.2 lawful present held ?_⟩
          intro _
          refine ⟨held, fun _ _ _ _ _ => rfl, ?_, ?_⟩
          · intro places none_
            have empty : places = ∅ := by
              apply Finset.eq_empty_of_forall_notMem
              intro place member
              exact (none_ place member).2.2 (none_ place member).2.1
            rw [empty, Finset.card_empty, Nat.zero_add]
          · intro points
            exact absurd (PageTableEntry.hasRights_iff.mp pointer) points.bare
      · rw [if_neg valid] at returned
        have further := ih (index + 1) (by omega) r returned
        exact ⟨further.1, fun lawful present held => (further.2 lawful present held).skip valid⟩

theorem sweeps_recursiveClean (sink : PageSink arch.deallocate inv halts)
    (aligned : ∀ x ∈ T, x % pageSize = 0) (depth : Nat) :
    Sweeps T inv f (arch.recorded.recursiveClean depth) := by
  induction depth with
  | zero =>
      intro page r r' returned
      cases returned
  | succ depth ih =>
      intro page r r' returned
      rw [Riscv.recursiveClean, bind_returns_iff] at returned
      rcases returned with ⟨_, r₁, looped, returned⟩
      have loop := sweptFrom_of_entries sink aligned _ ih 512 0 rfl r r₁ looped
      rcases loop.1 with ⟨new₁, longer₁⟩
      have given : wp (arch.recorded.deallocate page pageSize) (fun _ t =>
          t.freed = r₁.freed ++ [(page, pageSize)] ∧ (inv (Remaining T r₁) r₁.state →
            page ∈ Remaining T r₁ → inv (Remaining T r₁ \ {page}) t.state ∧
              SameOn (Remaining T r₁ \ {page}) r₁.state t.state)) (fun _ => True) r₁ := by
        apply wp_recorded_deallocate
        by_cases legal : inv (Remaining T r₁) r₁.state ∧ page ∈ Remaining T r₁
        · apply wp_mono (sink.freed _ _ _ legal.1 legal.2)
          · exact fun _ s done => ⟨rfl, fun _ _ => done⟩
          · exact fun _ _ => trivial
        · rw [wp_def]
          split
          next => exact ⟨rfl, fun held present => absurd ⟨held, present⟩ legal⟩
          next => trivial
      rcases wp_of_returns given returned with ⟨longer, frees⟩
      have pages := pages_append longer
      refine ⟨⟨new₁ ++ [(page, pageSize)], by rw [longer, longer₁, List.append_assoc]⟩, ?_⟩
      intro lawful held
      have apart : page ∉ r₁.pages := by
        have nodup := lawful.nodup
        rw [pages, List.nodup_append_comm] at nodup
        exact (List.nodup_cons.mp nodup).1
      have present : page ∈ Remaining T r₁ := by
        refine ⟨lawful.inside page ?_, apart⟩
        rw [pages]
        simp
      have rest : Remaining T r' = Remaining T r₁ \ {page} := by
        ext x
        simp only [Remaining, pages, List.map_cons, List.map_nil, List.mem_append, List.mem_singleton,
          Set.mem_sdiff, Set.mem_ofPred_eq, Set.mem_singleton_iff]
        tauto
      have done := loop.2 (lawful.earlier longer) present held
      rcases frees done.held present with ⟨held', same'⟩
      rw [← rest] at held' same'
      refine ⟨held', ?_, ?_⟩
      · intro x remains y first last
        have other := remains
        rw [rest] at other
        rw [same' x remains y first last]
        exact done.same x other y first last
      · intro places all
        have counted := done.counts places (by
          intro place member
          rcases all place member with ⟨points, there, gone⟩
          refine ⟨points, there, ?_⟩
          rw [rest] at gone
          by_cases self : place.1 = page
          · exact Or.inr ⟨self, Nat.zero_le _⟩
          · exact Or.inl fun remains => gone ⟨remains, self⟩)
        rw [pages, List.count_append]
        have last : ([(page, pageSize)].map Prod.fst).count f = if page = f then 1 else 0 := by
          simp [List.count_singleton]
        rw [last]
        omega

end Counting

section Exact

variable {σ : Type} [HasMemory σ] {inv : Set Nat → σ → Prop} {root : Nat} {halts : Halt → Prop}
  {arch : Riscv σ} {r : Recorded σ}

/-- The teardown returns, and has given back the root and the pages that were handed out, each of
them once, and nothing else. -/
def TornDown (arch : Riscv σ) (root : Nat) (r : Recorded σ) : Prop :=
  ∃ r', (arch.recorded.cleanUpPageTable root).run r = .ok (.ok (), r') ∧
    r'.freed.Perm ((root :: r.allocated).map fun page => (page, pageSize))

theorem tornDown_of_rights (sink : PageSink arch.deallocate inv fun _ => False)
    (rooted : Rooted (Noted inv root) root r)
    (rights : ∀ va entry, leafAt (memory r) root va = some entry → entry.HasRights) :
    TornDown arch root r := by
  have noted := rooted.2
  have nothing : r.pages = [] := by
    rw [Recorded.pages, noted.nothing]
    rfl
  have held : Returned inv (root :: r.allocated) {x | TablePage (memory r) root x} r := by
    refine ⟨noted.held, ?_, ?_, ?_, ?_⟩
    · rw [nothing]
      exact List.nodup_nil
    · rw [noted.nothing]
      exact fun _ none_ => absurd none_ List.not_mem_nil
    · intro x
      rw [← noted.pages x, nothing]
      simp
    · rw [nothing]
      exact fun _ _ => List.not_mem_nil
  have spec := cleanUpPageTable_spec arch.recorded (returned_sink sink (root :: r.allocated)) rooted.1
    (rights_of_leaves rights) held
  unfold wpr at spec
  rcases returned_of_wp spec with ⟨result, r', ran, done⟩
  cases result with
  | error e => exact done.elim
  | ok u => exact ⟨r', ran, done.perm noted.nodup⟩

/-- A second entry that points to `f` is the pointer in the table above it. -/
theorem exists_parent {m : Memory} {f : Nat} (tables : Tables m root) (page : TablePage m root f)
    (notRoot : f ≠ root) : ∃ q t i, q.length ≤ 2 ∧ tableAt m root q = some t ∧
      Points m f (t, i) := by
  rcases page with ⟨path, short, at_⟩
  rcases List.eq_nil_or_concat path with rfl | ⟨q, i, rfl⟩
  · exact absurd (Option.some.inj at_).symm notRoot
  · rw [List.concat_eq_append] at at_ short
    simp only [List.length_append, List.length_singleton] at short
    rw [tableAt_snoc] at at_
    rcases Option.bind_eq_some_iff.mp at_ with ⟨t, atQ, next⟩
    rw [child] at next
    split at next
    next both =>
      have bits := tables.pointers q t (by omega) atQ i both.1 both.2
      exact ⟨q, t, i, by omega, atQ, both.1, both.2, PageTableEntry.no_rights bits,
        Option.some.inj next⟩
    next => cases next

/-- If the teardown gives back exactly the pages of the tree, at most one entry points to a page of
the tree, none to the root, and none to any other address. -/
theorem entries_of_tornDown (sink : PageSink arch.deallocate inv halts)
    (rooted : Rooted (Noted inv root) root r) (torn : TornDown arch root r) (f : Nat)
    (places : Finset (Nat × Nat)) (all : ∀ place ∈ places,
      Points (memory r) f place ∧ TablePage (memory r) root place.1) :
    places.card + (if root = f then 1 else 0) ≤ 1 ∧
      (¬ TablePage (memory r) root f → places.card = 0) := by
  rcases torn with ⟨r', ran, exact_⟩
  have noted := rooted.2
  let T := {x | TablePage (memory r) root x}
  have nothing : r.pages = [] := by
    rw [Recorded.pages, noted.nothing]
    rfl
  have pages : r'.pages.Perm (root :: r.allocated) := by
    have mapped := exact_.map Prod.fst
    rw [List.map_map] at mapped
    exact mapped.trans (List.Perm.of_eq (List.map_id _))
  have lawful : Lawful T r' :=
    ⟨pages.nodup_iff.mpr noted.nodup, fun x member => (noted.pages x).mpr (pages.subset member)⟩
  have start : Remaining T r = T := by
    ext x
    simp [Remaining, nothing]
  have returned : arch.recorded.recursiveClean usizeBound root r = .ok ((), r') := by
    have lifted : (arch.recorded.recursiveClean usizeBound root >>=
        fun a => pure (Except.ok a : Except Error Unit)) r = .ok (.ok (), r') := ran
    rw [bind_returns_iff] at lifted
    rcases lifted with ⟨_, u, cleaned, same⟩
    cases same
    exact cleaned
  have sweeps : Sweeps T inv f (arch.recorded.recursiveClean usizeBound) :=
    sweeps_recursiveClean sink (fun x page => (rooted.1.aligned x page).1) usizeBound
  have swept := (sweeps root r r' returned).2 lawful (by
    rw [start]
    exact noted.held)
  have counted := swept.counts places (by
    intro place member
    rcases all place member with ⟨points, page⟩
    refine ⟨points, ?_, ?_⟩
    · rw [start]
      exact page
    · intro remains
      exact remains.2 (pages.mem_iff.mpr ((noted.pages place.1).mp page)))
  rw [nothing, List.count_nil, Nat.add_zero] at counted
  constructor
  · exact counted.trans (List.nodup_iff_count_le_one.mp lawful.nodup f)
  · intro other
    have never : r'.pages.count f = 0 :=
      List.count_eq_zero.mpr fun member => other (lawful.inside f member)
    omega

theorem rights_of_tornDown (sink : PageSink arch.deallocate inv halts)
    (rooted : Rooted (Noted inv root) root r) (torn : TornDown arch root r) (va : Nat)
    (entry : PageTableEntry) (leaf : leafAt (memory r) root va = some entry) : entry.HasRights := by
  rcases Option.bind_eq_some_iff.mp leaf with ⟨t, at_, found⟩
  have pageT : TablePage (memory r) root t := tablePage_path at_
  by_contra bare
  have points : Points (memory r) entry.getPhysicalAddress (t, levelToIndex 0 va) := by
    rw [ifValid] at found
    split at found
    next valid =>
      have same := Option.some.inj found
      refine ⟨levelToIndex_lt 0 va, valid, ?_, ?_⟩
      · rw [same]
        exact bare
      · rw [same]
    next => cases found
  have alone := entries_of_tornDown sink rooted torn entry.getPhysicalAddress
    {(t, levelToIndex 0 va)} (by
      intro place member
      rw [Finset.mem_singleton.mp member]
      exact ⟨points, pageT⟩)
  rw [Finset.card_singleton] at alone
  have page : TablePage (memory r) root entry.getPhysicalAddress := by
    by_contra other
    exact absurd (alone.2 other) (by decide)
  have notRoot : entry.getPhysicalAddress ≠ root := by
    intro top
    rw [if_pos top.symm] at alone
    exact absurd alone.1 (by decide)
  rcases exists_parent rooted.1 page notRoot with ⟨q, t', i, short, atQ, points'⟩
  have differs : ((t, levelToIndex 0 va) : Nat × Nat) ≠ (t', i) := by
    intro equal
    have tables := congrArg Prod.fst equal
    subst tables
    have paths := rooted.1.injective _ q t (by simp [pathOf]) (by omega) at_ atQ
    rw [← paths] at short
    simp [pathOf] at short
  have both := entries_of_tornDown sink rooted torn entry.getPhysicalAddress
    {(t, levelToIndex 0 va), (t', i)} (by
      intro place member
      rcases Finset.mem_insert.mp member with first | second
      · rw [first]
        exact ⟨points, pageT⟩
      · rw [Finset.mem_singleton.mp second]
        exact ⟨points', q, by omega, atQ⟩)
  rw [Finset.card_pair differs] at both
  omega

end Exact

section Results

variable {σ : Type} [HasMemory σ] {inv : Set Nat → σ → Prop} {root : Nat} {halts : Halt → Prop}
  {arch : Riscv σ}

theorem rooted_of_recorded_run (source : PageSource arch.allocate inv halts)
    (aligned : root % pageSize = 0) (bounded : root < usizeBound) (start : σ)
    (zero : ∀ x, root ≤ x → x < root + pageSize → memory start x = 0) (held : inv {root} start)
    (trace : List (Recorded σ × MapCall)) (r : Recorded σ)
    (run : Run (arch.recorded.MapSteps root) ⟨start, [], []⟩ trace r) :
    Rooted (Noted inv root) root r := by
  have first : Noted inv root {root} ⟨start, [], []⟩ := by
    refine ⟨held, List.nodup_singleton root, ?_, rfl⟩
    intro x
    rw [Set.mem_singleton_iff, List.mem_singleton]
  exact rooted_run (noted_source source root) _ r trace
    (rooted_of_zero aligned bounded _ zero first) run

/-- The teardown of a table that calls of `map` have built gives back exactly its pages if and only
if each mapped page has a permission. -/
theorem teardown_exact_iff (source : PageSource arch.allocate inv halts)
    (sink : PageSink arch.deallocate inv fun _ => False) (aligned : root % pageSize = 0)
    (bounded : root < usizeBound) (start : σ)
    (zero : ∀ x, root ≤ x → x < root + pageSize → memory start x = 0) (held : inv {root} start)
    (trace : List (Recorded σ × MapCall)) (r : Recorded σ)
    (run : Run (arch.recorded.MapSteps root) ⟨start, [], []⟩ trace r) :
    TornDown arch root r ↔
      ∀ va entry, leafAt (memory r) root va = some entry → entry.HasRights := by
  have rooted := rooted_of_recorded_run source aligned bounded start zero held trace r run
  constructor
  · exact rights_of_tornDown sink rooted
  · exact tornDown_of_rights sink rooted

end Results

namespace Pages

theorem sink : PageSink arch.deallocate Inv fun _ => False where
  freed := by
    intro T s t held _
    change wp (pure ()) _ _ s
    rw [wp_pure]
    exact ⟨⟨held.1, held.2.1, fun x remains => held.2.2 x remains.1⟩, fun _ _ _ _ _ => rfl⟩
  written := fun _ _ _ _ _ held _ _ => held

def bare : MapCall := ⟨0x1000, 0x80000000, 4096, false, false, false, true⟩

end Pages

theorem twoPages_tornDown : ∃ trace r,
    Run (Pages.arch.recorded.MapSteps 4096) ⟨Pages.fresh, [], []⟩ trace r ∧
    trace.map Prod.snd = [Pages.twoPages] ∧ TornDown Pages.arch 4096 r := by
  rcases Pages.arch.recorded.run_of_calls 4096 ⟨Pages.fresh, [], []⟩ [Pages.twoPages]
    (fun _ => true) (by decide +kernel) with ⟨trace, r, run, labels, -⟩
  refine ⟨trace, r, run, labels, ?_⟩
  apply (teardown_exact_iff Pages.source Pages.sink (by decide) (by decide) Pages.fresh
    (fun _ _ _ => rfl) Pages.inv_fresh trace r run).mpr
  intro va entry leaf
  have source : PageSource Pages.arch.allocate Pages.Inv fun _ => True := Pages.source
  have rooted : Rooted (Noted Pages.Inv 4096) 4096 ⟨Pages.fresh, [], []⟩ :=
    rooted_of_recorded_run source (by decide) (by decide) Pages.fresh (fun _ _ _ => rfl)
      Pages.inv_fresh [] _ Run.nil
  rcases leaf_of_run (noted_source Pages.source 4096) _ r trace rooted
    (leafAt_of_zero _ 4096 fun _ _ _ => rfl) run va entry leaf with ⟨p, member, j, -, -, rfl⟩
  have call : p.2 = Pages.twoPages := by
    have label := List.mem_map_of_mem (f := Prod.snd) member
    rw [labels] at label
    exact List.mem_singleton.mp label
  rw [call]
  exact Or.inl (PageTableEntry.permissions_pack _ true true false true).1

/-- A page without permissions is taken for a table. -/
theorem bare_page_misleads : ∃ trace r,
    Run (Pages.arch.recorded.MapSteps 4096) ⟨Pages.fresh, [], []⟩ trace r ∧
    trace.map Prod.snd = [Pages.bare] ∧ ¬ TornDown Pages.arch 4096 r := by
  rcases Pages.arch.recorded.run_of_calls 4096 ⟨Pages.fresh, [], []⟩ [Pages.bare]
    (fun r => (leafAt (memory r) 4096 0x1000).any fun entry =>
      !(entry.readable || entry.writeable || entry.executable)) (by decide +kernel) with
    ⟨trace, r, run, labels, holds⟩
  refine ⟨trace, r, run, labels, ?_⟩
  intro torn
  have rooted := rooted_of_recorded_run Pages.source (by decide) (by decide) Pages.fresh
    (fun _ _ _ => rfl) Pages.inv_fresh trace r run
  cases leaf : leafAt (memory r) 4096 0x1000 with
  | none =>
      rw [leaf] at holds
      cases holds
  | some entry =>
      rw [leaf, Option.any_some] at holds
      rcases rights_of_tornDown Pages.sink rooted torn 0x1000 entry leaf with right | right | right
      · simp [right] at holds
      · simp [right] at holds
      · simp [right] at holds

end Jangri
