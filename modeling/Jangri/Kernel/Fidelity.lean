import Jangri.Arch.Hardware
import Jangri.Kernel.Confinement
import Jangri.Kernel.Image

namespace Jangri

open Lib

def ProgramHeader.pageSet (segment : ProgramHeader) : Set Nat :=
  {n | ∃ i < segment.pMemsz, n = (segment.pVaddr + i) / pageSize}

/-- The segments have their file contents in the image and fit in their memory, and no two of them
share a page. -/
structure WellPlaced (image : List UInt8) (segments : List ProgramHeader) : Prop where
  fits : ∀ segment ∈ loadable segments, segment.pFilesz ≤ segment.pMemsz
  inside : ∀ segment ∈ loadable segments, segment.pOffset + segment.pFilesz ≤ image.length
  disjoint : (loadable segments).Pairwise fun a b => Disjoint a.pageSet b.pageSet

def Reads (m : Memory) (root va : Nat) (r w x : Bool) (byte : UInt8) : Prop :=
  ∃ entry, leafAt m root va = some entry ∧ entry.userModeAccessible = true ∧
    entry.readable = r ∧ entry.writeable = w ∧ entry.executable = x ∧
    m (entry.getPhysicalAddress + va % pageSize) = byte

structure Placed.Byte (m : Memory) (root : Nat) (image : List UInt8) (segment : ProgramHeader)
    (i : Nat) : Prop where
  canonical : Sv48.Canonical (segment.pVaddr + i)
  reads : Reads m root (segment.pVaddr + i) (segment.pFlags &&& pfR != 0) (segment.pFlags &&& pfW != 0)
    (segment.pFlags &&& pfX != 0) (segment.byte image i)

/-- User mode finds all bytes of all segments where the image asks for them. -/
def Faithful (m : Memory) (root : Nat) (image : List UInt8) (segments : List ProgramHeader) : Prop :=
  ∀ segment ∈ loadable segments, ∀ i < segment.pMemsz, Placed.Byte m root image segment i

/-- A segment of zeroes that starts in the last page of the stack or in the KUCOM page, both of which
are zeroed, readable and writable themselves. -/
structure Unnoticed (image : List UInt8) (segment : ProgramHeader) : Prop where
  place : segment.pVaddr / pageSize = stackStart / pageSize + 7 ∨
    segment.pVaddr / pageSize = kucomPage / pageSize
  readable : (segment.pFlags &&& pfR != 0) = true
  writeable : (segment.pFlags &&& pfW != 0) = true
  data : (segment.pFlags &&& pfX != 0) = false
  zero : ∀ i < segment.pMemsz, segment.byte image i = 0

/-- The segment has addresses that the hardware translates, and starts with a page. -/
structure Loadworthy (image : List UInt8) (segment : ProgramHeader) : Prop where
  canonical : ∀ i < segment.pMemsz, Sv48.Canonical (segment.pVaddr + i)
  start : segment.pVaddr % pageSize = 0 ∨ Unnoticed image segment

theorem Reads.unique {m : Memory} {root va : Nat} {r w x r' w' x' : Bool} {byte byte' : UInt8}
    (first : Reads m root va r w x byte) (second : Reads m root va r' w' x' byte') :
    r = r' ∧ w = w' ∧ x = x' ∧ byte = byte' := by
  rcases first with ⟨entry, leaf, -, rfl, rfl, rfl, rfl⟩
  rcases second with ⟨entry', leaf', -, rfl, rfl, rfl, rfl⟩
  cases Option.some.inj (leaf.symm.trans leaf')
  exact ⟨rfl, rfl, rfl, rfl⟩

theorem start_of_aligned {segment : ProgramHeader} (aligned : segment.pVaddr % pageSize = 0) :
    segment.start = segment.pVaddr := by
  simp only [ProgramHeader.start, wholePages, pageSize] at *
  omega

theorem start_of_unaligned {segment : ProgramHeader} (unaligned : segment.pVaddr % pageSize ≠ 0) :
    segment.start = (segment.pVaddr / pageSize + 1) * pageSize := by
  simp only [ProgramHeader.start, wholePages, pageSize] at *
  omega

theorem page_of_vpn {a b : Nat} (first : Sv48.Canonical a) (second : Sv48.Canonical b)
    (same : vpn a = vpn b) : a / pageSize = b / pageSize := by
  unfold Sv48.Canonical at *
  simp only [vpn, pageSize] at *
  omega

section Found

variable {plat : Platform} {scene : Scene} {U : Set Nat} {areas : List Area} {s : GlobalState}
  {image : List UInt8} {segments : List ProgramHeader}

theorem Drawn.reads (drawn : Drawn plat scene U areas s) {area : Area} (present : area ∈ areas)
    (user : area.call.user = true) {k : Nat} (low : k < area.call.size) :
    Reads s.memory scene.root (area.call.va + k) area.call.read area.call.write area.call.execute
      (area.byte k) := by
  have member : area.call ∈ areas.map Area.call := List.mem_map_of_mem present
  have sound := drawn.charted.sound _ member
  have page := sound.page_of low
  have rights := area.call.entry_rights (k / pageSize)
  refine ⟨_, drawn.charted.leaf member low, rights.2.2.2.trans user, rights.1, rights.2.1,
    rights.2.2.1, ?_⟩
  rw [sound.entry_address (drawn.frames _ member user) page.1, ← drawn.shown area present user k low]
  congr 1
  have aligned := sound.aligned
  simp only [pageSize] at *
  omega

theorem Drawn.found (drawn : Drawn plat scene U areas s) {va : Nat} {r w x : Bool} {byte : UInt8}
    (reads : Reads s.memory scene.root va r w x byte) :
    ∃ area ∈ areas, ∃ j < area.call.pages, vpn va = area.call.page j ∧ area.call.user = true := by
  rcases reads with ⟨entry, leaf, user, -⟩
  rcases drawn.charted.only va entry leaf with ⟨c, member, j, low, here, rfl⟩
  rcases List.mem_map.mp member with ⟨area, present, rfl⟩
  refine ⟨area, present, j, low, here, ?_⟩
  rw [← user]
  exact (area.call.entry_rights j).2.2.2.symm

end Found

section Outfitted

variable {plat : Platform} {scene : Scene} {U : Set Nat} {s : GlobalState} {image : List UInt8}
  {segments : List ProgramHeader} {own : List Area} {stack errorPage trapframe : Nat}

theorem byte_of_aligned {areas : List Area} (drawn : Drawn plat scene U areas s)
    {segment : ProgramHeader} {pt : Nat} (present : segment.area image pt ∈ areas)
    (aligned : segment.pVaddr % pageSize = 0) {i : Nat} (low : i < segment.pMemsz)
    (canonical : Sv48.Canonical (segment.pVaddr + i)) :
    Placed.Byte s.memory scene.root image segment i := by
  have size := le_wholePages segment.pMemsz
  have reads := drawn.reads present rfl (Nat.lt_of_lt_of_le low size)
  refine ⟨canonical, ?_⟩
  change Reads _ _ (segment.start + i) _ _ _ _ at reads
  rw [start_of_aligned aligned] at reads
  exact reads

def ProgramHeader.shift (segment : ProgramHeader) : Nat := segment.start - segment.pVaddr

theorem shift_of_unaligned {segment : ProgramHeader} (unaligned : segment.pVaddr % pageSize ≠ 0) :
    0 < segment.shift ∧ segment.pVaddr + segment.shift = segment.start ∧
      segment.pVaddr % pageSize + segment.shift = pageSize := by
  rw [ProgramHeader.shift, start_of_unaligned unaligned]
  simp only [pageSize] at *
  omega

/-- From its block on, an unaligned segment reads as if it began there. -/
theorem reads_behind {areas : List Area} (drawn : Drawn plat scene U areas s)
    {segment : ProgramHeader} {pt : Nat} (present : segment.area image pt ∈ areas)
    (unaligned : segment.pVaddr % pageSize ≠ 0) {i : Nat} (low : i < segment.pMemsz)
    (behind : segment.shift ≤ i) :
    Reads s.memory scene.root (segment.pVaddr + i) (segment.pFlags &&& pfR != 0)
      (segment.pFlags &&& pfW != 0) (segment.pFlags &&& pfX != 0)
      (segment.byte image (i - segment.shift)) := by
  have size := le_wholePages segment.pMemsz
  have begins := (shift_of_unaligned unaligned).2.1
  have inside : i - segment.shift < wholePages segment.pMemsz := by omega
  have reads := drawn.reads present rfl inside
  have here : segment.pVaddr + i = segment.start + (i - segment.shift) := by omega
  rw [here]
  exact reads

theorem reads_zero {areas : List Area} (drawn : Drawn plat scene U areas s)
    (isStack : stackArea stack ∈ areas) (isKucom : kucomArea errorPage ∈ areas) {va : Nat}
    (here : va / pageSize = stackStart / pageSize + 7 ∨ va / pageSize = kucomPage / pageSize) :
    Reads s.memory scene.root va true true false 0 := by
  rcases here with inStack | inKucom
  · have offset : va = stackStart + (va - stackStart) ∧ va - stackStart < stackPages * pageSize := by
      simp only [stackStart, kucomPage, trapframeVa, trampoline, stackPages, pageSize] at *
      omega
    have reads := drawn.reads isStack rfl offset.2
    change Reads _ _ (stackStart + (va - stackStart)) _ _ _ _ at reads
    rw [← offset.1] at reads
    exact reads
  · have offset : va = kucomPage + (va - kucomPage) ∧ va - kucomPage < pageSize := by
      simp only [kucomPage, trapframeVa, trampoline, pageSize] at *
      omega
    have reads := drawn.reads isKucom rfl offset.2
    change Reads _ _ (kucomPage + (va - kucomPage)) _ _ _ _ at reads
    rw [← offset.1] at reads
    exact reads

theorem byte_of_unnoticed {areas : List Area} (drawn : Drawn plat scene U areas s)
    (isStack : stackArea stack ∈ areas) (isKucom : kucomArea errorPage ∈ areas)
    {segment : ProgramHeader} {pt : Nat} (present : segment.area image pt ∈ areas)
    (unaligned : segment.pVaddr % pageSize ≠ 0) (unnoticed : Unnoticed image segment) {i : Nat}
    (low : i < segment.pMemsz) (canonical : Sv48.Canonical (segment.pVaddr + i)) :
    Placed.Byte s.memory scene.root image segment i := by
  refine ⟨canonical, ?_⟩
  rw [unnoticed.zero i low]
  by_cases behind : segment.shift ≤ i
  · have reads := reads_behind drawn present unaligned low behind
    rw [unnoticed.zero _ (by omega)] at reads
    exact reads
  · have samePage : (segment.pVaddr + i) / pageSize = segment.pVaddr / pageSize := by
      have begins := (shift_of_unaligned unaligned).2.2
      simp only [pageSize] at *
      omega
    have here := unnoticed.place
    rw [← samePage] at here
    rw [unnoticed.readable, unnoticed.writeable, unnoticed.data]
    exact reads_zero drawn isStack isKucom here

/-- An unaligned segment that is found, and starts in a page of zeroes, consists of them. -/
theorem unnoticed_of_found {areas : List Area} (drawn : Drawn plat scene U areas s)
    (isStack : stackArea stack ∈ areas) (isKucom : kucomArea errorPage ∈ areas)
    {segment : ProgramHeader} {pt : Nat} (present : segment.area image pt ∈ areas)
    (unaligned : segment.pVaddr % pageSize ≠ 0) (some_ : 0 < segment.pMemsz)
    (found : ∀ i < segment.pMemsz, Placed.Byte s.memory scene.root image segment i)
    (place : segment.pVaddr / pageSize = stackStart / pageSize + 7 ∨
      segment.pVaddr / pageSize = kucomPage / pageSize) : Unnoticed image segment := by
  have begins := shift_of_unaligned unaligned
  have zero : ∀ i < segment.shift, Reads s.memory scene.root (segment.pVaddr + i) true true false 0 := by
    intro i below
    apply reads_zero drawn isStack isKucom
    have samePage : (segment.pVaddr + i) / pageSize = segment.pVaddr / pageSize := by
      simp only [pageSize] at *
      omega
    rw [samePage]
    exact place
  rcases (found 0 some_).reads.unique (zero 0 begins.1) with ⟨readable, writeable, data, -⟩
  refine ⟨place, readable, writeable, data, ?_⟩
  intro i
  induction i using Nat.strong_induction_on with
  | _ i ih =>
      intro low
      by_cases behind : segment.shift ≤ i
      · have reads := reads_behind drawn present unaligned low behind
        rw [((found i low).reads.unique reads).2.2.2]
        exact ih (i - segment.shift) (by omega) (by omega)
      · exact ((found i low).reads.unique (zero i (by omega))).2.2.2

theorem page_of_unaligned {segment : ProgramHeader} (unaligned : segment.pVaddr % pageSize ≠ 0)
    (pt j : Nat) :
    (segment.area image pt).call.page j = (vpn segment.pVaddr + 1 + j) % 2 ^ 36 := by
  change vpn (segment.start + j * pageSize) = _
  rw [start_of_unaligned unaligned]
  simp only [vpn, pageSize]
  omega

structure Around (plat : Platform) (stack errorPage trapframe : Nat) (own : List Area) : Prop where
  kucom : ∀ area ∈ own, (kucomArea errorPage).call.Apart area.call
  trapframe : ∀ area ∈ own, (trapframeArea trapframe).call.Apart area.call
  trampoline : ∀ area ∈ own, (trampolineArea plat).call.Apart area.call
  stack : ∀ area ∈ own, (stackArea stack).call.Apart area.call

theorem Drawn.around (drawn : Drawn plat scene U (kucomArea errorPage :: trapframeArea trapframe ::
    trampolineArea plat :: stackArea stack :: own) s) :
    Around plat stack errorPage trapframe own := by
  have apart := drawn.charted.apart
  simp only [List.map_cons, List.pairwise_cons] at apart
  rcases apart with ⟨kucom, trapframe, trampoline, stack, -⟩
  refine ⟨?_, ?_, ?_, ?_⟩
  all_goals
    intro area present
    have member : area.call ∈ own.map Area.call := List.mem_map_of_mem present
  · exact kucom _ (by simp only [List.mem_cons, member, or_true])
  · exact trapframe _ (by simp only [List.mem_cons, member, or_true])
  · exact trampoline _ (by simp only [List.mem_cons, member, or_true])
  · exact stack _ member

theorem page_zero (c : MapCall) : c.page 0 = vpn c.va := by
  rw [MapCall.page, Nat.zero_mul, Nat.add_zero]

theorem stack_pages (stack : Nat) : (stackArea stack).call.pages = 8 := by
  change stackPages * pageSize / pageSize = 8
  decide

theorem stack_page (stack j : Nat) (low : j < 8) :
    (stackArea stack).call.page j = 2 ^ 36 - 14 + j := by
  change vpn (stackStart + j * pageSize) = _
  simp only [stackStart, kucomPage, trapframeVa, trampoline, vpn, pageSize]
  omega

theorem page_numbers : vpn trampoline = 2 ^ 36 - 1 ∧ vpn trapframeVa = 2 ^ 36 - 3 ∧
    vpn kucomPage = 2 ^ 36 - 5 := by
  simp only [kucomPage, trapframeVa, trampoline, vpn, pageSize]
  omega

/-- The block of an unaligned segment stays below the trampoline and clear of the pages that
`map_other_pages` maps. -/
theorem Around.pages (around : Around plat stack errorPage trapframe own) {segment : ProgramHeader}
    {pt : Nat} (present : segment.area image pt ∈ own) (unaligned : segment.pVaddr % pageSize ≠ 0)
    (below : vpn segment.pVaddr ≠ 2 ^ 36 - 1) {j : Nat}
    (low : j < (segment.area image pt).call.pages) :
    (segment.area image pt).call.page j = vpn segment.pVaddr + 1 + j ∧
      vpn segment.pVaddr + 1 + j < 2 ^ 36 - 1 ∧ vpn segment.pVaddr + 1 + j ≠ 2 ^ 36 - 3 ∧
      vpn segment.pVaddr + 1 + j ≠ 2 ^ 36 - 5 ∧
      ∀ l < 8, vpn segment.pVaddr + 1 + j ≠ 2 ^ 36 - 14 + l := by
  rcases page_numbers with ⟨top, frame, error⟩
  have single : 0 < pageSize / pageSize := by decide
  have small : vpn segment.pVaddr < 2 ^ 36 := Nat.mod_lt _ (Nat.two_pow_pos 36)
  have apart := around.trampoline _ present 0 single
  have isTop : (trampolineArea plat).call.page 0 = 2 ^ 36 - 1 := (page_zero _).trans top
  have stops : vpn segment.pVaddr + 1 + j < 2 ^ 36 - 1 := by
    by_contra wraps
    have crossing : 2 ^ 36 - 2 - vpn segment.pVaddr < (segment.area image pt).call.pages := by omega
    apply apart _ crossing
    rw [page_of_unaligned unaligned, isTop]
    omega
  have page : (segment.area image pt).call.page j = vpn segment.pVaddr + 1 + j := by
    rw [page_of_unaligned unaligned]
    omega
  refine ⟨page, stops, ?_, ?_, ?_⟩
  · intro same
    apply around.trapframe _ present 0 single j low
    rw [page, same, page_zero]
    exact frame
  · intro same
    apply around.kucom _ present 0 single j low
    rw [page, same, page_zero]
    exact error
  · intro l few same
    apply around.stack _ present l (by rw [stack_pages]; exact few) j low
    rw [page, same, stack_page stack l few]

/-- The page that an unaligned segment starts in is the last of the stack, the KUCOM page, or one
of the block of some segment. -/
theorem covered_of_found (drawn : Drawn plat scene U (kucomArea errorPage ::
      trapframeArea trapframe :: trampolineArea plat :: stackArea stack :: own) s)
    (laid : Laid image (loadable segments) own) {segment : ProgramHeader} {pt : Nat}
    (present : segment.area image pt ∈ own) (some_ : 0 < (segment.area image pt).call.pages)
    (unaligned : segment.pVaddr % pageSize ≠ 0)
    (found : Placed.Byte s.memory scene.root image segment 0) :
    vpn segment.pVaddr ≠ 2 ^ 36 - 1 ∧ (vpn segment.pVaddr = 2 ^ 36 - 5 ∨
      vpn segment.pVaddr = 2 ^ 36 - 7 ∨ ∃ other ∈ loadable segments, ∃ pt',
        other.area image pt' ∈ own ∧ ∃ j < (other.area image pt').call.pages,
          vpn segment.pVaddr = (other.area image pt').call.page j) := by
  rcases page_numbers with ⟨top, frame, error⟩
  have reads := found.reads
  rw [Nat.add_zero] at reads
  have below : vpn segment.pVaddr ≠ 2 ^ 36 - 1 := by
    intro isTop
    rcases reads with ⟨entry, leaf, user, -⟩
    have single : 0 < (trampolineArea plat).call.pages := by
      change 0 < pageSize / pageSize
      decide
    have mapped := drawn.charted.mapped (trampolineArea plat).call (by simp) 0 single
    rw [leafAt_eq_of_vpn _ _ _ _ (isTop.trans top.symm)] at leaf
    rw [Nat.zero_mul, Nat.add_zero] at mapped
    cases Option.some.inj (leaf.symm.trans mapped)
    rw [((trampolineArea plat).call.entry_rights 0).2.2.2] at user
    cases user
  have pages := drawn.around.pages present unaligned below some_
  refine ⟨below, ?_⟩
  rcases drawn.found reads with ⟨area, member, j, low, here, user⟩
  simp only [List.mem_cons] at member
  rcases member with rfl | rfl | rfl | rfl | member
  · left
    have first : j = 0 := by
      change j < pageSize / pageSize at low
      simp only [pageSize] at low
      omega
    rw [here, first, page_zero]
    exact error
  · cases user
  · cases user
  · right
    left
    rw [stack_pages] at low
    rw [stack_page stack j low] at here
    have next := pages.2.2.2.2 (j + 1)
    omega
  · right
    right
    rcases laid.only area member with ⟨other, known, pt', rfl⟩
    exact ⟨other, known, pt', member, j, low, here⟩

/-- A segment that is found at its address is aligned, or goes unnoticed. The page of an unaligned
one is mapped by something else: by the stack, by the KUCOM page, or by the block of an unaligned
segment below. -/
theorem start_of_faithful (drawn : Drawn plat scene U (kucomArea errorPage ::
      trapframeArea trapframe :: trampolineArea plat :: stackArea stack :: own) s)
    (laid : Laid image (loadable segments) own)
    (disjoint : (loadable segments).Pairwise fun a b => Disjoint a.pageSet b.pageSet)
    (faithful : Faithful s.memory scene.root image segments) (n : Nat) :
    ∀ segment ∈ loadable segments, vpn segment.pVaddr = n →
      segment.pVaddr % pageSize = 0 ∨ Unnoticed image segment := by
  rcases page_numbers with ⟨top, frame, error⟩
  have isStack : stackArea stack ∈ kucomArea errorPage :: trapframeArea trapframe ::
      trampolineArea plat :: stackArea stack :: own := by simp
  have isKucom : kucomArea errorPage ∈ kucomArea errorPage :: trapframeArea trapframe ::
      trampolineArea plat :: stackArea stack :: own := by simp
  have positive : ∀ segment : ProgramHeader, ∀ pt, segment.area image pt ∈ own →
      0 < segment.pMemsz ∧ 0 < (segment.area image pt).call.pages := by
    intro segment pt present
    have member : (segment.area image pt).call ∈ List.map Area.call (kucomArea errorPage ::
        trapframeArea trapframe :: trampolineArea plat :: stackArea stack :: own) := by
      simp only [List.map_cons, List.mem_cons, List.mem_map_of_mem present, or_true]
    have sound := drawn.charted.sound _ member
    refine ⟨?_, sound.pages_pos⟩
    rw [Nat.pos_iff_ne_zero]
    intro none_
    apply sound.positive
    change wholePages segment.pMemsz = 0
    rw [none_]
    rfl
  induction n using Nat.strong_induction_on with
  | _ n ih =>
      intro segment known isN
      by_cases unaligned : segment.pVaddr % pageSize = 0
      · exact Or.inl unaligned
      right
      rcases laid.each segment known with ⟨pt, present⟩
      have some_ := positive segment pt present
      have first := faithful segment known 0 some_.1
      have canonical := first.canonical
      rw [Nat.add_zero] at canonical
      rcases covered_of_found drawn laid present some_.2 unaligned first with ⟨below, covered⟩
      have pages := drawn.around.pages present unaligned below some_.2
      have inAreas : segment.area image pt ∈ kucomArea errorPage :: trapframeArea trapframe ::
          trampolineArea plat :: stackArea stack :: own := by
        simp only [List.mem_cons, present, or_true]
      apply unnoticed_of_found drawn isStack isKucom inAreas unaligned some_.1 (faithful segment known)
      rcases covered with inKucom | inStack | ⟨other, known', pt', present', j, low, here⟩
      · right
        apply page_of_vpn canonical (by decide)
        rw [inKucom, error]
      · left
        have page := page_of_vpn canonical (show Sv48.Canonical (stackStart + 7 * pageSize) by decide)
          (by rw [inStack]; decide)
        rw [page]
        decide
      · exfalso
        by_cases aligned' : other.pVaddr % pageSize = 0
        · -- the pages of an aligned segment are its own
          have inside : j * pageSize < other.pMemsz := by
            change j < wholePages other.pMemsz / pageSize at low
            simp only [wholePages, pageSize] at *
            omega
          have page : (other.area image pt').call.page j = vpn (other.pVaddr + j * pageSize) := by
            rw [← start_of_aligned aligned']
            rfl
          rw [page] at here
          have samePage := page_of_vpn canonical (faithful other known' _ inside).canonical here
          have different : segment ≠ other := by
            rintro rfl
            exact unaligned aligned'
          have symmetric : Std.Symm fun a b : ProgramHeader => Disjoint a.pageSet b.pageSet :=
            ⟨fun _ _ => fun apart => apart.symm⟩
          have apart := disjoint.forall known known' different
          rw [Set.disjoint_left] at apart
          apply apart ⟨0, some_.1, rfl⟩
          exact ⟨j * pageSize, inside, samePage⟩
        · have some' := positive other pt' present'
          have first' := faithful other known' 0 some'.1
          rcases covered_of_found drawn laid present' some'.2 aligned' first' with ⟨below', -⟩
          have pages' := drawn.around.pages present' aligned' below' low
          rw [pages'.1] at here
          rcases ih (vpn other.pVaddr) (by omega) other known' rfl with yes | unnoticed
          · exact aligned' yes
          · have single : j = 0 := by
              by_contra more
              have second := drawn.around.pages present' aligned' below' (show 1 < _ by omega)
              have page := unnoticed.place
              simp only [vpn, stackStart, kucomPage, trapframeVa, trampoline, pageSize] at *
              omega
            have page := unnoticed.place
            rw [single] at here
            simp only [vpn, stackStart, kucomPage, trapframeVa, trampoline, pageSize] at *
            omega

end Outfitted

/-- After `assign_process` has returned `Ok`, user mode finds all segments where the image asks for
them if and only if their addresses are those of pages, which the hardware translates. -/
theorem segments_faithful_iff (plat : Platform) (placed : Placed plat) (name image : List UInt8)
    (segments : List ProgramHeader)
    (headers : (plat.minimalParse image).bind ElfFile.segments = some segments)
    (wellPlaced : WellPlaced image segments) (s t : GlobalState) (intact : AllocatorIntact plat s)
    (child : Nat) (created : (assignProcess plat name image).run s = .ok (.ok child, t)) :
    Faithful t.memory (t.object child).pageTable image segments ↔
      ∀ segment ∈ loadable segments, Loadworthy image segment := by
  rcases Option.bind_eq_some_iff.mp headers with ⟨elf, parsed, isSegments⟩
  have spec := wpr_assignProcess_drawn placed intact name parsed isSegments wellPlaced.fits
  unfold wpr at spec
  have outcome := wp_of_returns spec created
  rcases outcome with ⟨trapframe, U, areas, drawn, outfit⟩
  rcases outfit.shape with ⟨stack, errorPage, own, rfl, laid⟩
  constructor
  · intro faithful segment known
    refine ⟨fun i low => (faithful segment known i low).canonical, ?_⟩
    exact start_of_faithful drawn laid wellPlaced.disjoint faithful _ segment known rfl
  · intro worthy segment known i low
    rcases laid.each segment known with ⟨pt, present⟩
    have inAreas : segment.area image pt ∈ kucomArea errorPage :: trapframeArea trapframe ::
        trampolineArea plat :: stackArea stack :: own := by
      simp only [List.mem_cons, present, or_true]
    have canonical := (worthy segment known).canonical i low
    rcases (worthy segment known).start with aligned | unnoticed
    · exact byte_of_aligned drawn inAreas aligned low canonical
    · by_cases aligned : segment.pVaddr % pageSize = 0
      · exact byte_of_aligned drawn inAreas aligned low canonical
      · have isStack : stackArea stack ∈ kucomArea errorPage :: trapframeArea trapframe ::
            trampolineArea plat :: stackArea stack :: own := by simp
        have isKucom : kucomArea errorPage ∈ kucomArea errorPage :: trapframeArea trapframe ::
            trampolineArea plat :: stackArea stack :: own := by simp
        exact byte_of_unnoticed drawn isStack isKucom inAreas aligned unnoticed low canonical

theorem Machine.allocatorIntact_of_run {plat : Platform} {m m' : Machine}
    {trace : List (Machine × Event)} (booted : m.Booted plat)
    (run : Run (Machine.Steps plat) m trace m')
    (good : ∀ step ∈ trace, ∀ image, step.1.Loads plat step.2 image → GoodImage plat image) :
    ∀ u ∈ Run.visited trace m', AllocatorIntact plat u.kernel := by
  intro u visited
  exact (Machine.separated_of_run booted run good u visited).2.allocatorIntact

namespace Board

theorem boot_intact : AllocatorIntact plat boot.kernel := by
  apply Machine.allocatorIntact_of_run boot_booted Run.nil
  · intro step none_
    cases none_
  · exact List.mem_singleton.mpr rfl

def shifted : List UInt8 := program.set 81 0x18

theorem wellPlaced_single {image : List UInt8} {segment : ProgramHeader}
    (fits : segment.pFilesz ≤ segment.pMemsz)
    (inside : segment.pOffset + segment.pFilesz ≤ image.length) : WellPlaced image [segment] := by
  have only : ∀ other ∈ loadable [segment], other = segment := by
    intro other known
    exact List.mem_singleton.mp (List.mem_filter.mp known).1
  refine ⟨?_, ?_, ?_⟩
  · intro other known
    rw [only other known]
    exact fits
  · intro other known
    rw [only other known]
    exact inside
  · exact (List.pairwise_singleton _ segment).sublist List.filter_sublist

end Board

theorem program_is_faithful : ∃ child t, Board.created Board.program = .ok (.ok child, t) ∧
    Faithful t.memory (t.object child).pageTable Board.program [⟨1, 7, 0, 4096, 120, 4096⟩] := by
  rcases Board.of_creates Board.program (fun _ _ => true) (by decide +kernel) with
    ⟨child, t, created, -⟩
  refine ⟨child, t, created, ?_⟩
  have headers : (Board.plat.minimalParse Board.program).bind ElfFile.segments =
      some [⟨1, 7, 0, 4096, 120, 4096⟩] := by decide +kernel
  have wellPlaced : WellPlaced Board.program [⟨1, 7, 0, 4096, 120, 4096⟩] :=
    Board.wellPlaced_single (by decide) (by decide)
  apply (segments_faithful_iff Board.plat Board.boot_booted.placed [] _ _ headers wellPlaced _ t
    Board.boot_intact child created).mpr
  intro segment known
  rw [List.mem_singleton.mp (List.mem_filter.mp known).1]
  refine ⟨?_, Or.inl rfl⟩
  intro i low
  left
  change i < 4096 at low
  change (4096 + i) / 2 ^ 47 = 0
  exact Nat.div_eq_of_lt (by omega)

theorem shifted_program_unmapped :
    (Board.plat.minimalParse Board.shifted).bind ElfFile.segments =
      some [⟨1, 7, 0, 0x1800, 120, 4096⟩] ∧
    WellPlaced Board.shifted [⟨1, 7, 0, 0x1800, 120, 4096⟩] ∧
    AllocatorIntact Board.plat Board.boot.kernel ∧
    ∃ child t, Board.created Board.shifted = .ok (.ok child, t) ∧
      ¬ Faithful t.memory (t.object child).pageTable Board.shifted
        [⟨1, 7, 0, 0x1800, 120, 4096⟩] := by
  refine ⟨by decide +kernel, Board.wellPlaced_single (by decide) (by decide), Board.boot_intact, ?_⟩
  rcases Board.of_creates Board.shifted
    (fun child t => (leafAt t.memory (t.object child).pageTable 0x1800).isNone) (by decide +kernel) with
    ⟨child, t, created, unmapped⟩
  refine ⟨child, t, created, ?_⟩
  intro faithful
  rcases (faithful _ List.mem_cons_self 0 (by decide)).reads with ⟨entry, leaf, -⟩
  rw [leaf] at unmapped
  cases unmapped

end Jangri
