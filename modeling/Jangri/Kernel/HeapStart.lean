import Jangri.Kernel.Records

/-! Where the heap of a new process starts.

`assign_process` moves `heap_start` as it goes through the segments. What it arrives at is a sum
over the addresses of some of them, and has nothing to do with their sizes. -/

namespace Jangri

open Lib

def wholePages (size : Nat) : Nat := (size + (pageSize - 1)) / pageSize * pageSize

theorem wholePages_aligned (size : Nat) : wholePages size % pageSize = 0 := Nat.mul_mod_left _ _

theorem le_wholePages (size : Nat) : size ≤ wholePages size := by
  simp only [wholePages, pageSize]
  omega

theorem alignToPageSize_wholePages {size aligned : Nat} (returned : alignToPageSize size = .ok aligned) :
    aligned = wholePages size := by
  rcases alignToPageSize_spec _ _ returned with ⟨above, near, whole, -⟩
  simp only [wholePages, pageSize] at *
  omega

namespace ProgramHeader

def start (segment : ProgramHeader) : Nat := wholePages segment.pVaddr

def stop (segment : ProgramHeader) : Nat := segment.start + wholePages segment.pMemsz

end ProgramHeader

def loadable (segments : List ProgramHeader) : List ProgramHeader :=
  segments.filter (·.pType = ptLoad)

/-- The addresses that are no lower than `reached` and all of them before it together, where each
one counts with a page on top. -/
def peaks (reached : Nat) : List Nat → List Nat
  | [] => []
  | start :: rest =>
      if reached ≤ start then start :: peaks (reached + (start + pageSize)) rest else peaks reached rest

def peakSum (segments : List ProgramHeader) : Nat :=
  ((peaks 0 ((loadable segments).map (·.start))).map (· + pageSize)).sum

/-! What the loop makes of the start of the heap. -/

def raised (heapStart start : Nat) : Nat :=
  if heapStart ≤ start then heapStart + (start + pageSize) else heapStart

theorem raiseHeap_raised {heapStart start next : Nat} (returned : raiseHeap heapStart start = .ok next) :
    next = raised heapStart start := by
  unfold raiseHeap at returned
  unfold raised
  split at returned
  next low =>
    rw [if_pos low]
    rcases (bind_eq_ok _ _ _).mp returned with ⟨sum, added, checked⟩
    rcases (usizeAdd_eq_ok _ _ _).mp added with ⟨-, rfl⟩
    rw [unwrap_eq_ok] at checked
    split at checked
    · exact (Option.some.inj checked).symm
    · cases checked
  next high =>
    rw [if_neg high]
    exact (Except.ok.inj returned).symm

theorem foldl_raised (heapStart : Nat) (starts : List Nat) :
    starts.foldl raised heapStart = heapStart + ((peaks heapStart starts).map (· + pageSize)).sum := by
  induction starts generalizing heapStart with
  | nil => rfl
  | cons start rest ih =>
      rw [List.foldl_cons, ih, raised, peaks]
      split
      · simp only [List.map_cons, List.sum_cons, Nat.add_assoc]
      · rfl

theorem foldl_raised_aligned (heapStart : Nat) (starts : List Nat) (aligned : heapStart % pageSize = 0)
    (all : ∀ start ∈ starts, start % pageSize = 0) : starts.foldl raised heapStart % pageSize = 0 := by
  induction starts generalizing heapStart with
  | nil => exact aligned
  | cons start rest ih =>
      rw [List.foldl_cons]
      apply ih _ _ fun other present => all other (List.mem_cons_of_mem _ present)
      have whole := all start List.mem_cons_self
      unfold raised
      split
      · simp only [pageSize] at *
        omega
      · exact aligned

def heapAfter (heapStart : Nat) (segments : List ProgramHeader) : Nat :=
  ((loadable segments).map (·.start)).foldl raised heapStart

theorem heapAfter_cons (heapStart : Nat) (segment : ProgramHeader) (rest : List ProgramHeader) :
    heapAfter heapStart (segment :: rest) =
      heapAfter (if segment.pType = ptLoad then raised heapStart segment.start else heapStart) rest := by
  unfold heapAfter loadable
  rw [List.filter_cons]
  by_cases load : segment.pType = ptLoad
  · simp only [load, decide_true, if_true, List.map_cons, List.foldl_cons]
  · simp only [load, decide_false, if_false, Bool.false_eq_true]

theorem heapAfter_zero (segments : List ProgramHeader) : heapAfter 0 segments = peakSum segments := by
  rw [heapAfter, foldl_raised, Nat.zero_add, peakSum]

section Loading

variable {plat : Platform} {pid : Nat} {s : GlobalState}

def HeapAt (pid heapStart : Nat) (s : GlobalState) : Prop := (s.object pid).heapStart = heapStart

theorem heapAt_tabular (pid heapStart : Nat) : Tabular (HeapAt pid heapStart) := by
  intro s t object _ _ found
  unfold HeapAt at *
  rw [object]
  exact found

theorem preserves_modifyHeapAt (heapStart : Nat) (f : Process → Process)
    (same : ∀ process, (f process).heapStart = process.heapStart) :
    Preserves (HeapAt pid heapStart) (modifyObject pid f) := by
  intro s found
  rw [wp_modifyObject]
  unfold HeapAt
  simp only [Function.update_self]
  rw [same]
  exact found

theorem wpr_loadSegment_heap (pageTable heapStart : Nat) (image : List UInt8) (segment : ProgramHeader)
    (found : HeapAt pid heapStart s) :
    wpr (loadSegment plat pid pageTable image segment)
      (fun _ t => HeapAt pid (raised heapStart segment.start) t) (fun _ _ => True) Any s := by
  have tabular := heapAt_tabular pid heapStart
  rw [loadSegment]
  simp only [wpr_bind, wpr_lift]
  apply wp_liftRust_any
  intro codePageStart rounded
  apply wp_liftRust_any
  intro memsz _
  apply wpr_weaken ((preserves_allocated tabular.robust memsz).to_wpr found)
  case fails => exact fun _ _ _ => trivial
  intro pt s₁ found₁
  apply wpr_weaken ((preserves_mapped tabular.robust _ _ _ _ _ _ _ _).to_wpr found₁)
  case fails => exact fun _ _ _ => trivial
  intro _ s₂ found₂
  apply wp_weaken (preserves_segmentCopied tabular.robust image segment pt s₂ found₂)
  intro _ s₃ found₃
  rw [wp_getObject]
  apply wp_liftRust_any
  intro next moved
  rw [wp_modifyObject]
  unfold HeapAt at *
  simp only [Function.update_self]
  rw [raiseHeap_raised moved, found₃, alignToPageSize_wholePages rounded]
  rfl

theorem wpr_loadSegments_heap (pageTable : Nat) (image : List UInt8) (segments : List ProgramHeader)
    {heapStart : Nat} (found : HeapAt pid heapStart s) :
    wpr (loadSegments plat pid pageTable image segments)
      (fun _ t => HeapAt pid (heapAfter heapStart segments) t) (fun _ _ => True) Any s := by
  induction segments generalizing s heapStart with
  | nil =>
      rw [loadSegments, wpr_pure]
      exact found
  | cons segment rest ih =>
      have loads : wpr (loadIfLoadable plat pid pageTable image segment)
          (fun _ t => HeapAt pid
            (if segment.pType = ptLoad then raised heapStart segment.start else heapStart) t)
          (fun _ _ => True) Any s := by
        unfold loadIfLoadable
        by_cases load : segment.pType = ptLoad
        · simp only [if_pos load]
          exact wpr_loadSegment_heap pageTable heapStart image segment found
        · simp only [if_neg load]
          rw [wpr_pure]
          exact found
      rw [loadSegments, wpr_bind, heapAfter_cons]
      apply wpr_weaken loads
      case fails => exact fun _ _ _ => trivial
      intro _ t loaded
      rw [wpr_bind, wpr_lift]
      apply wp_weaken (preserves_modifyHeapAt _ resetHeapEnd (fun _ => rfl) t loaded)
      exact fun _ u reset => ih reset

theorem preserves_mapOtherPages_heap (pageTable heapStart : Nat) :
    Preserves (HeapAt pid heapStart) (mapOtherPages plat pageTable pid).run := by
  have tabular := heapAt_tabular pid heapStart
  apply (preserves_unwrapResult (preserves_allocated tabular.robust _)).run_lift.run_bind
  intro stack
  apply (preserves_mapped tabular.robust _ _ _ _ _ _ _ _).run_bind
  intro _
  apply (preserves_liftRust _).run_lift.run_bind
  intro kernelStack
  have placed : Preserves (HeapAt pid heapStart) (modifyObject pid ({ · with kernelStack })) :=
    preserves_modifyHeapAt _ _ fun _ => rfl
  apply placed.run_lift.run_bind
  intro _
  apply (preserves_getObject pid).run_lift.run_bind
  intro process
  apply (preserves_storedWord tabular.robust _ _).run_lift.run_bind
  intro _
  apply (preserves_mapped tabular.robust _ _ _ _ _ _ _ _).run_bind
  intro _
  apply (preserves_mapped tabular.robust _ _ _ _ _ _ _ _).run_bind
  intro _
  apply (preserves_allocated tabular.robust _).run_bind
  intro errorPage
  apply (preserves_mapped tabular.robust _ _ _ _ _ _ _ _).run_bind
  intro _
  apply (preserves_storedWord tabular.robust _ _).run_lift.run_bind
  intro _
  exact (preserves_storedWord tabular.robust _ _).run_lift

theorem wpr_loadImage_heap (pageTable trapframe : Nat) {image : List UInt8} {elf : ElfFile}
    {segments : List ProgramHeader} (parsed : plat.minimalParse image = some elf)
    (headers : elf.segments = some segments) {heapStart : Nat} (found : HeapAt pid heapStart s) :
    wpr (loadImage plat pid pageTable trapframe image)
      (fun _ t => HeapAt pid (heapAfter heapStart segments) t) (fun _ _ => True) Any s := by
  have tabular := heapAt_tabular pid
  rw [loadImage, parsed, wpr_bind, wpr_lift]
  apply wp_weaken (preserves_trapframeInitialised (tabular _).robust _ _ s found)
  intro _ s₁ found₁
  rw [wpr_bind, okOr, wpr_pure, headers, wpr_bind, okOr, wpr_pure, wpr_bind]
  apply wpr_weaken (wpr_loadSegments_heap pageTable image segments found₁)
  case fails => exact fun _ _ _ => trivial
  intro _ s₂ found₂
  rw [wpr_bind, wpr_lift]
  apply wp_weaken (preserves_storedWord (tabular _).robust _ _ s₂ found₂)
  intro _ s₃ found₃
  rw [wpr_lift]
  exact preserves_expectResult _ (preserves_mapOtherPages_heap pageTable _) s₃ found₃

/-- The heap of a new process starts at the sum of the peaks. -/
theorem wpr_assignProcess_heap (name : List UInt8) {image : List UInt8} {elf : ElfFile}
    {segments : List ProgramHeader} (parsed : plat.minimalParse image = some elf)
    (headers : elf.segments = some segments) :
    wpr (assignProcess plat name image) (fun child t => HeapAt child (heapAfter 0 segments) t)
      (fun _ _ => True) Any s := by
  have anything : Tabular fun _ => True := fun _ _ _ _ _ _ => trivial
  rw [assignProcess]
  simp only [wpr_bind, wpr_lift]
  apply wp_unwrapResult_any
  apply wpr_weaken ((preserves_allocated anything.robust _).to_wpr trivial)
  case fails => exact fun _ _ _ => trivial
  intro root s₁ _
  apply wp_unwrapResult_any
  apply wpr_weaken ((preserves_allocated anything.robust _).to_wpr trivial)
  case fails => exact fun _ _ _ => trivial
  intro trapframe s₂ _
  apply wp_nextPid fun _ _ => trivial
  rw [wp_modifyObject]
  apply wp_addProcess_any
  intro pids held
  apply wpr_guarded_any
  rw [buildProcess, wpr_bind, wpr_lift, wp_modifyObject]
  apply wpr_mono (wpr_loadImage_heap root trapframe parsed headers ?empty)
  case empty =>
    unfold HeapAt
    simp only [Function.update_self]
    rfl
  · intro _ t loaded
    rw [wpr_pure]
    exact heapAt_tabular _ _ t _ rfl rfl rfl loaded
  · exact fun _ _ _ => trivial
  · exact fun _ h => h

theorem heapStart_of_assignProcess {name image : List UInt8} {elf : ElfFile}
    {segments : List ProgramHeader} (parsed : plat.minimalParse image = some elf)
    (headers : elf.segments = some segments) {child : Nat} {t : GlobalState}
    (created : (assignProcess plat name image).run s = .ok (.ok child, t)) :
    (t.object child).heapStart = peakSum segments := by
  have spec := @wpr_assignProcess_heap plat s name image elf segments parsed headers
  unfold wpr at spec
  have found := wp_of_returns spec created
  rw [heapAfter_zero] at found
  exact found

end Loading

theorem peakSum_aligned (segments : List ProgramHeader) : peakSum segments % pageSize = 0 := by
  rw [← heapAfter_zero]
  apply foldl_raised_aligned 0 _ rfl
  intro start present
  rcases List.mem_map.mp present with ⟨segment, -, rfl⟩
  exact wholePages_aligned _

namespace Board

def created (image : List UInt8) : Rust (Except Error Nat × GlobalState) :=
  (assignProcess plat [] image).run boot.kernel

def creates (found : Nat → GlobalState → Bool) : Rust (Except Error Nat × GlobalState) → Bool
  | .ok (.ok child, t) => found child t
  | _ => false

theorem of_creates (image : List UInt8) (found : Nat → GlobalState → Bool)
    (passed : creates found (created image) = true) :
    ∃ child t, created image = .ok (.ok child, t) ∧ found child t = true := by
  unfold creates at passed
  split at passed
  next child t ran => exact ⟨child, t, ran, passed⟩
  next => cases passed

end Board

end Jangri
