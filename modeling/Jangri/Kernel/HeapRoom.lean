import Jangri.Kernel.Fidelity

/-! The heap of a new process against the pages of its segments.

A page table does not look at bits 48 and up of an address, so a heap that is far above the segments
may still meet their entries. -/

namespace Jangri

open Lib

/-- The page table has an entry for `va`, and it is that of a page of a segment. -/
def MappedBySegment (m : Memory) (root : Nat) (segments : List ProgramHeader) (va : Nat) : Prop :=
  (∃ entry, leafAt m root va = some entry) ∧ ∃ segment ∈ loadable segments, ∃ page,
    segment.start ≤ page ∧ page < segment.stop ∧ vpn va = vpn page

structure HeapAbove (segments : List ProgramHeader) (s : GlobalState) (child heapEnd : Nat) : Prop where
  aligned : (s.object child).heapStart % pageSize = 0
  above : ∀ segment ∈ loadable segments, segment.stop ≤ (s.object child).heapStart
  apart : ∀ va, (s.object child).heapStart ≤ va → va < heapEnd →
    ¬ MappedBySegment s.memory (s.object child).pageTable segments va

/-- The peaks of the segments add up to what is above each segment, and no page from there up to
`heapEnd` has the number of a page of a segment. -/
def Clears (segments : List ProgramHeader) (heapEnd : Nat) : Prop :=
  ∀ segment ∈ loadable segments, segment.stop ≤ peakSum segments ∧
    ∀ page, segment.start ≤ page → page < segment.stop →
      ∀ va, peakSum segments ≤ va → va < heapEnd → vpn va ≠ vpn page

section Rooms

variable {plat : Platform} {scene : Scene} {U : Set Nat} {s : GlobalState} {image : List UInt8}
  {segments : List ProgramHeader} {areas : List Area}

theorem mappedBySegment_of_outfit (drawn : Drawn plat scene U areas s) {trapframe : Nat}
    (outfit : Outfit plat image (loadable segments) trapframe areas) {segment : ProgramHeader}
    (known : segment ∈ loadable segments) {page va : Nat} (low : segment.start ≤ page)
    (high : page < segment.stop) (same : vpn va = vpn page) :
    MappedBySegment s.memory scene.root segments va := by
  rcases outfit.shape with ⟨stack, errorPage, own, rfl, laid⟩
  rcases laid.each segment known with ⟨pt, present⟩
  have member : (segment.area image pt).call ∈ List.map Area.call (kucomArea errorPage ::
      trapframeArea trapframe :: trampolineArea plat :: stackArea stack :: own) := by
    simp only [List.map_cons, List.mem_cons, List.mem_map_of_mem present, or_true]
  have inside : page - segment.start < wholePages segment.pMemsz := by
    unfold ProgramHeader.stop at high
    omega
  have leaf := drawn.charted.leaf member inside
  change leafAt s.memory scene.root (segment.start + (page - segment.start)) = _ at leaf
  rw [Nat.add_sub_cancel' low, ← leafAt_eq_of_vpn _ _ _ _ same] at leaf
  exact ⟨⟨_, leaf⟩, segment, known, page, low, high, same⟩

end Rooms

section Results

variable (plat : Platform) (name image : List UInt8) (segments : List ProgramHeader)
  (s t : GlobalState) (child heapEnd : Nat)

/-- The heap of a new process lies above its segments, however far it will grow, if and only if the
peaks of the segments add up to that much. For an image with less memory than file contents somewhere
that is enough. -/
theorem heap_starts_above_iff
    (headers : (plat.minimalParse image).bind ElfFile.segments = some segments)
    (created : (assignProcess plat name image).run s = .ok (.ok child, t)) :
    (Clears segments heapEnd → HeapAbove segments t child heapEnd) ∧
      (Placed plat → AllocatorIntact plat s →
        (∀ segment ∈ loadable segments, segment.pFilesz ≤ segment.pMemsz) →
        HeapAbove segments t child heapEnd → Clears segments heapEnd) := by
  rcases Option.bind_eq_some_iff.mp headers with ⟨elf, parsed, found⟩
  have start := heapStart_of_assignProcess parsed found created
  constructor
  · intro clears
    refine ⟨?_, ?_, ?_⟩
    · rw [start]
      exact peakSum_aligned segments
    · intro segment known
      rw [start]
      exact (clears segment known).1
    · rintro va low high ⟨-, segment, known, page, first, last, same⟩
      rw [start] at low
      exact (clears segment known).2 page first last va low high same
  · intro placed intact fits heap segment known
    have spec := wpr_assignProcess_drawn placed intact name parsed found fits
    unfold wpr at spec
    rcases wp_of_returns spec created with ⟨trapframe, U, areas, drawn, outfit⟩
    rw [← start]
    refine ⟨heap.above segment known, ?_⟩
    intro page first last va low high same
    exact heap.apart va low high (mappedBySegment_of_outfit drawn outfit known first last same)

end Results

namespace Board

def twoPages : List UInt8 := program.set 105 0x20

end Board

/-- The heap of the program may grow by `2 ^ 47` bytes, but not once around the page table. -/
theorem program_below_heap : ∃ child t, Board.created Board.program = .ok (.ok child, t) ∧
    HeapAbove [⟨1, 7, 0, 4096, 120, 4096⟩] t child (8192 + 2 ^ 47) ∧
    ¬ HeapAbove [⟨1, 7, 0, 4096, 120, 4096⟩] t child (8192 + 2 ^ 48) := by
  rcases Board.of_creates Board.program (fun _ _ => true) (by decide +kernel) with
    ⟨child, t, created, -⟩
  have headers : (Board.plat.minimalParse Board.program).bind ElfFile.segments =
      some [⟨1, 7, 0, 4096, 120, 4096⟩] := by decide +kernel
  refine ⟨child, t, created, ?_, ?_⟩
  · apply (heap_starts_above_iff Board.plat [] _ _ _ t child _ headers created).1
    intro segment known
    rw [List.mem_singleton.mp (List.mem_filter.mp known).1]
    refine ⟨by decide, ?_⟩
    intro page low high va above below
    have isStart : ProgramHeader.start ⟨1, 7, 0, 4096, 120, 4096⟩ = 4096 := rfl
    have isStop : ProgramHeader.stop ⟨1, 7, 0, 4096, 120, 4096⟩ = 8192 := rfl
    have isSum : peakSum [⟨1, 7, 0, 4096, 120, 4096⟩] = 8192 := rfl
    rw [isStart] at low
    rw [isStop] at high
    rw [isSum] at above
    simp only [vpn]
    omega
  · intro heap
    have clears := (heap_starts_above_iff Board.plat [] _ _ _ t child _ headers created).2
      Board.boot_booted.placed Board.boot_intact (by decide) heap
    exact (clears _ List.mem_cons_self).2 4096 (by decide) (by decide) (4096 + 2 ^ 48) (by decide)
      (by decide) (by decide)

theorem second_page_in_heap :
    (Board.plat.minimalParse Board.twoPages).bind ElfFile.segments =
      some [⟨1, 7, 0, 4096, 120, 8192⟩] ∧
    ∃ child t, Board.created Board.twoPages = .ok (.ok child, t) ∧
      (t.object child).heapStart = 8192 ∧
      ¬ HeapAbove [⟨1, 7, 0, 4096, 120, 8192⟩] t child 12288 := by
  refine ⟨by decide +kernel, ?_⟩
  rcases Board.of_creates Board.twoPages (fun child t => decide ((t.object child).heapStart = 8192))
    (by decide +kernel) with ⟨child, t, created, low⟩
  refine ⟨child, t, created, of_decide_eq_true low, ?_⟩
  intro heap
  have bound := heap.above _ List.mem_cons_self
  rw [of_decide_eq_true low] at bound
  revert bound
  decide

end Jangri
