import Jangri.Allocator.Runs

namespace Jangri

open Lib

namespace PageAllocator

variable {alloc alloc' : PageAllocator} {m m' : Memory} {free free' : Nat → List Nat}
  {live : List Block}

/-- A request is refused where no class from its own on is marked and the bump region has no more
bytes than asked for. -/
theorem refused_iff (wf : alloc.WellFormed m free live) (nodeId size : Nat) (big : pageSize ≤ size)
    (whole : size % pageSize = 0) :
    (∃ alloc' store', alloc.allocate ⟨m, nodeId⟩ size = .ok (none, alloc', store')) ↔
      (∀ k, size / pageSize ≤ k → ¬ alloc.bitmaps.Member k) ∧ alloc.currentSize ≤ size := by
  rcases alloc.bitmaps.firstAvailable_spec (size / pageSize) (multiple_pos size big) with
    ⟨answer, found, onSome, onNone⟩
  cases answer with
  | some v =>
      have marked := onSome v rfl
      constructor
      · intro refused
        rcases refused with ⟨alloc', store', returned⟩
        rw [allocate_of_available _ size big whole v found] at returned
        rcases (bind_eq_ok _ _ _).mp returned with ⟨served, _, impossible⟩
        cases impossible
      · intro unmarked
        exact absurd marked.2.1 (unmarked.1 v marked.1)
  | none =>
      rw [allocate_of_unavailable _ size big whole found wf]
      constructor
      · intro refused
        refine ⟨onNone rfl, ?_⟩
        by_contra fits
        rcases refused with ⟨alloc', store', returned⟩
        rw [if_pos (by omega)] at returned
        cases returned
      · intro full
        rw [if_neg (by omega)]
        exact ⟨_, _, rfl⟩

/-- A class that has a block and is marked serves a request for exactly its size. -/
theorem allocate_exact (wf : alloc.WellFormed m free live) (nodeId size : Nat) (big : pageSize ≤ size)
    (whole : size % pageSize = 0) (marked : alloc.bitmaps.Member (size / pageSize))
    (nonempty : free (size / pageSize - 1) ≠ []) :
    ∃ p alloc' store', alloc.allocate ⟨m, nodeId⟩ size = .ok (some p, alloc', store') := by
  rcases alloc.bitmaps.firstAvailable_spec (size / pageSize) (multiple_pos size big) with
    ⟨answer, found, onSome, onNone⟩
  cases answer with
  | none => exact absurd marked (onNone rfl _ (le_refl _))
  | some v =>
      rcases onSome v rfl with ⟨enough, -, least⟩
      have same : v = size / pageSize := by
        by_contra different
        exact least _ (le_refl _) (by omega) marked
      rw [same] at found
      rcases List.exists_cons_of_ne_nil nonempty with ⟨a, rest, first⟩
      rcases allocate_reuse wf nodeId size _ a rest big whole found (le_refl _)
        (Bitmap.Member.le _ _ marked) (fun different => absurd rfl different) first with
        ⟨alloc', store', served, -⟩
      exact ⟨a, alloc', store', served⟩

theorem not_unused_of_outside (wf : alloc.WellFormed m free live) (x : Nat)
    (outside : x < alloc.memoryStart ∨ alloc.memoryEnd ≤ x) : ¬ alloc.Unused free x := by
  intro unused
  have inside := (wf.tiles.mem_iff x).mpr
  rcases unused with listed | bump
  · rcases (cover_pos_iff _ x).mp listed with ⟨b, present, contains⟩
    have within := inside ⟨b, by simp [present], contains⟩
    omega
  · have within := inside ⟨alloc.bumpRegion, by simp, bump⟩
    omega

end PageAllocator

namespace System

variable {start stop : Nat} {sys sys' : System} {trace : List (System × Call)}

/-- No list has a block of `size` bytes or more, and the bump region is smaller than that. -/
def OutOfMemory (sys : System) (size : Nat) : Prop :=
  (∀ i : Fin numMultiples, size ≤ classSize i → (sys.alloc.list i).head = none) ∧
    sys.alloc.memoryEnd - sys.alloc.currentStart < size

def FailsOnlyIfMust (sys : System) (size : Nat) : Prop :=
  ∀ alloc store, sys.alloc.allocate sys.store size = .ok (none, alloc, store) → sys.OutOfMemory size

theorem fails_only_iff (inv : Inv start stop sys) (size : Nat) (big : pageSize ≤ size)
    (whole : size % pageSize = 0) :
    sys.FailsOnlyIfMust size ↔ sys.alloc.memoryEnd - sys.alloc.currentStart ≠ size ∨
      ∃ k, size / pageSize ≤ k ∧ sys.alloc.bitmaps.Member k := by
  rcases inv with ⟨free, wf, marked, -, -⟩
  have refused := PageAllocator.refused_iff wf sys.store.nodeId size big whole
  rw [wf.size] at refused
  constructor
  · intro fails
    by_contra neither
    rw [not_or, not_not, not_exists] at neither
    have none_ : ∀ k, size / pageSize ≤ k → ¬ sys.alloc.bitmaps.Member k :=
      fun k above member => neither.2 k ⟨above, member⟩
    rcases refused.mpr ⟨none_, le_of_eq neither.1⟩ with ⟨alloc, store, returned⟩
    have small := (fails alloc store returned).2
    omega
  · intro condition alloc store returned
    rcases refused.mp ⟨alloc, store, returned⟩ with ⟨unmarked, full⟩
    have different : sys.alloc.memoryEnd - sys.alloc.currentStart ≠ size := by
      rcases condition with different | ⟨k, above, member⟩
      · exact different
      · exact absurd member (unmarked k above)
    constructor
    · intro i enough
      rw [(wf.chains i).head_eq_none_iff]
      by_contra nonempty
      apply unmarked (i + 1) _ (marked i i.isLt nonempty)
      rw [classSize] at enough
      calc
        size / pageSize ≤ (i + 1) * pageSize / pageSize := Nat.div_le_div_right enough
        _ = i + 1 := Nat.mul_div_cancel _ (by decide)
    · omega

theorem room_step (inv : Inv start stop sys) (left : sys.alloc.currentStart < stop) {call : Call}
    (steps : Steps sys call sys') : sys'.alloc.currentStart < stop := by
  rcases inv with ⟨free, wf, -, -, e⟩
  rcases steps with ⟨valid, taken⟩
  have sized := wf.size
  cases call with
  | allocate size =>
      rcases step_allocate _ _ _ taken with ⟨result, alloc', store', called, rfl⟩
      rcases PageAllocator.allocate_spec wf _ size result alloc' store' called with
        ⟨-, rfl, -⟩ | ⟨p, free', -, -, current⟩
      · exact left
      · change alloc'.currentStart < stop
        omega
  | deallocate addr size =>
      rcases step_deallocate _ _ _ _ taken with ⟨small, alloc', store', called, rfl⟩
      rcases PageAllocator.deallocate_spec wf sys.store.nodeId ⟨addr, size⟩ valid small with
        ⟨alloc'', store'', called', -, -, current⟩
      rw [called] at called'
      cases called'
      change alloc'.currentStart < stop
      rw [current]
      exact left
  | write addr byte =>
      cases taken
      exact left

theorem currentStart_of_initial (initial : Initial start stop sys) :
    sys.alloc.currentStart = start := by
  have created := initial.1
  by_cases notNull : start = 0
  · simp [PageAllocator.new, notNull, panic] at created
  · by_cases ordered : start ≤ stop
    · simp only [PageAllocator.new, if_neg notNull, if_pos ordered, expect] at created
      rw [← Except.ok.inj created]
    · simp [PageAllocator.new, notNull, ordered, expect, panic] at created

theorem room_of_run (notNull : start ≠ 0) (bounded : stop < usizeBound) (some_ : start < stop)
    (initial : Initial start stop sys) (run : Run Steps sys trace sys') :
    sys'.alloc.currentStart < stop := by
  have inv := inv_initial start stop notNull some_.le bounded sys initial
  have first : sys.alloc.currentStart < stop := by
    rw [currentStart_of_initial initial]
    exact some_
  have both := run.invariant_last (fun u => Inv start stop u ∧ u.alloc.currentStart < stop)
    ⟨inv, first⟩ fun t call u holds steps =>
      ⟨inv_step start stop t call u holds.1 steps, room_step holds.1 holds.2 steps⟩
  exact both.2

theorem of_refused {x : Rust (Option Nat × PageAllocator × Store)}
    (answered : x.toOption.any (fun r => r.1.isNone) = true) :
    ∃ alloc store, x = .ok (none, alloc, store) := by
  cases x with
  | error e => cases answered
  | ok r =>
      rcases r with ⟨result, alloc, store⟩
      cases result with
      | none => exact ⟨alloc, store, rfl⟩
      | some p => cases answered

/-- A request is refused although it could be served exactly where it asks for the whole of the bump
region and no class of its size or more is marked. The bump region is never used up, so that never
all of the memory is handed out. -/
theorem refusals_are_needed_iff (start stop : Nat) (notNull : start ≠ 0) (ordered : start ≤ stop)
    (bounded : stop < usizeBound) (sys sys' : System) (trace : List (System × Call))
    (initial : Initial start stop sys) (run : Run Steps sys trace sys') :
    (∀ size, 0 < size → size % pageSize = 0 →
      (sys'.FailsOnlyIfMust size ↔ sys'.alloc.memoryEnd - sys'.alloc.currentStart ≠ size ∨
        ∃ k, size / pageSize ≤ k ∧ sys'.alloc.bitmaps.Member k)) ∧
    (start < stop → ∃ x, start ≤ x ∧ x < stop ∧ ∀ b ∈ sys'.live, ¬ b.Contains x) := by
  have inv := run.invariant_last (Inv start stop)
    (inv_initial start stop notNull ordered bounded sys initial) (inv_step start stop)
  constructor
  · intro size positive whole
    apply fails_only_iff inv size _ whole
    simp only [pageSize] at *
    omega
  · intro some_
    have left := room_of_run notNull bounded some_ initial run
    rcases inv with ⟨free, wf, -, s, e⟩
    have low := wf.bump.1
    refine ⟨sys'.alloc.currentStart, by omega, left, ?_⟩
    intro b present contains
    have held := (cover_pos_iff sys'.live _).mpr ⟨b, present, contains⟩
    apply wf.not_unused_of_live _ held
    right
    simp only [Block.Contains, PageAllocator.bumpRegion]
    omega

theorem fourteen_pages_refused : ∃ sys', fifteenPages.runCalls splitCalls = some sys' ∧
    (∃ alloc store, sys'.alloc.allocate sys'.store 57344 = .ok (none, alloc, store)) ∧
    sys'.OutOfMemory 57344 := by
  have ends : (fifteenPages.runCalls splitCalls).any (fun s =>
      s.alloc.memoryEnd - s.alloc.currentStart = 53248 &&
        (s.alloc.allocate s.store 57344).toOption.any fun r => r.1.isNone) = true := by
    decide +kernel
  rcases (Option.any_eq_true _ _).mp ends with ⟨sys', ran, found⟩
  rcases (Bool.and_eq_true _ _).mp found with ⟨room, answered⟩
  rcases run_of_runCalls splitCalls _ _ ran with ⟨trace, run⟩
  have fails := ((refusals_are_needed_iff 4096 65536 (by decide) (by decide) (by decide) fifteenPages
    sys' trace ⟨rfl, rfl⟩ run).1 57344 (by decide) (by decide)).mpr (Or.inl (by
      rw [of_decide_eq_true room]
      decide))
  rcases of_refused answered with ⟨alloc, store, refused⟩
  exact ⟨sys', ran, ⟨alloc, store, refused⟩, fails alloc store refused⟩

theorem all_pages_are_refused : Initial 4096 65536 fifteenPages ∧
    ¬ fifteenPages.FailsOnlyIfMust 61440 := by
  refine ⟨⟨rfl, rfl⟩, ?_⟩
  intro fails
  rcases of_refused (x := fifteenPages.alloc.allocate fifteenPages.store 61440)
    (by decide +kernel) with ⟨alloc, store, returned⟩
  have small := (fails alloc store returned).2
  revert small
  decide

/-- A block can be given back, and then there is a block of its size again. -/
def Returnable (alloc : PageAllocator) (store : Store) (p size : Nat) : Prop :=
  ∃ alloc' store', alloc.deallocate store p size = .ok (alloc', store') ∧
    ∃ q alloc'' store'', alloc'.allocate store' size = .ok (some q, alloc'', store'')

theorem returnable_of_small (inv : Inv start stop sys) (size p : Nat) (small : size ≤ maxAlloc)
    (alloc : PageAllocator) (store : Store)
    (served : sys.alloc.allocate sys.store size = .ok (some p, alloc, store)) :
    Returnable alloc store p size := by
  rcases inv with ⟨free, wf, -, -, -⟩
  rcases PageAllocator.allocate_small _ _ _ _ served with ⟨big, whole⟩
  rcases PageAllocator.allocate_spec wf _ size _ alloc store served with
    ⟨impossible, -, -⟩ | ⟨p', free', isBlock, done, -⟩
  · cases impossible
  · cases isBlock
    rcases PageAllocator.deallocate_spec done.wellFormed store.nodeId ⟨p, size⟩ List.mem_cons_self
      small with ⟨alloc', store', freed, after, bits, -⟩
    refine ⟨alloc', store', freed, ?_⟩
    apply PageAllocator.allocate_exact after.wellFormed store'.nodeId size big whole
    · exact (bits _).mpr (Or.inl rfl)
    · simp

/-- What `allocate` hands out can be given back, and had again, exactly where it is at most ten
megabytes long. -/
theorem returnable_iff (start stop : Nat) (notNull : start ≠ 0) (ordered : start ≤ stop)
    (bounded : stop < usizeBound) (sys sys' : System) (trace : List (System × Call))
    (initial : Initial start stop sys) (run : Run Steps sys trace sys') (size p : Nat)
    (alloc : PageAllocator) (store : Store)
    (served : sys'.alloc.allocate sys'.store size = .ok (some p, alloc, store)) :
    Returnable alloc store p size ↔ size ≤ maxAlloc := by
  have inv := run.invariant_last (Inv start stop)
    (inv_initial start stop notNull ordered bounded sys initial) (inv_step start stop)
  constructor
  · intro given
    rcases given with ⟨alloc', store', freed, -⟩
    exact PageAllocator.deallocate_small _ _ _ _ _ freed
  · exact fun small => returnable_of_small inv size p small alloc store served

theorem of_served {x : Rust (Option Nat × PageAllocator × Store)} {p : Nat}
    (answered : (x.toOption.bind fun r => r.1) = some p) : ∃ alloc store, x = .ok (some p, alloc, store) := by
  cases x with
  | error e => cases answered
  | ok r =>
      rcases r with ⟨result, alloc, store⟩
      cases result with
      | none => cases answered
      | some q =>
          cases answered
          exact ⟨alloc, store, rfl⟩

theorem two_pages_are_returnable : ∃ alloc store,
    fifteenPages.alloc.allocate fifteenPages.store 8192 = .ok (some 4096, alloc, store) ∧
      Returnable alloc store 4096 8192 := by
  rcases of_served (x := fifteenPages.alloc.allocate fifteenPages.store 8192)
    (by decide +kernel : _ = some 4096) with ⟨alloc, store, served⟩
  refine ⟨alloc, store, served, ?_⟩
  exact (returnable_iff 4096 65536 (by decide) (by decide) (by decide) fifteenPages fifteenPages []
    ⟨rfl, rfl⟩ Run.nil 8192 4096 alloc store served).mpr (by decide)

def manyPages : System where
  alloc := {
    bitmaps := Bitmap.new
    memoryStart := 4096
    memoryEnd := 10653696
    currentSize := 10649600
    currentStart := 4096
    list := fun _ => { head := none } }
  store := ⟨fun _ => 0, 0⟩
  live := []

/-- A block of 2561 pages is handed out and cannot be given back. -/
theorem large_block_stays : Initial 4096 10653696 manyPages ∧ ∃ alloc store,
    manyPages.alloc.allocate manyPages.store 10489856 = .ok (some 4096, alloc, store) ∧
      ¬ Returnable alloc store 4096 10489856 := by
  rcases of_served (x := manyPages.alloc.allocate manyPages.store 10489856)
    (by decide +kernel : _ = some 4096) with ⟨alloc, store, served⟩
  refine ⟨⟨rfl, rfl⟩, alloc, store, served, ?_⟩
  intro given
  rcases given with ⟨alloc', store', freed, -⟩
  have small := PageAllocator.deallocate_small _ _ _ _ _ freed
  revert small
  decide

def OthersHold (sys : System) (b : Block) (x : Nat) : Prop :=
  ∃ c ∈ sys.live, c ≠ b ∧ c.Contains x

def Outside (sys : System) (x : Nat) : Prop :=
  x < sys.alloc.memoryStart ∨ sys.alloc.memoryEnd ≤ x

/-- `allocate` zeroes the block that it hands out, and changes no byte of a live block and none outside
of the managed interval. -/
def AllocatesCleanly (sys : System) (size : Nat) : Prop :=
  ∀ result alloc store, sys.alloc.allocate sys.store size = .ok (result, alloc, store) →
    (∀ p, result = some p → ∀ x, p ≤ x → x < p + size → store.memory x = 0) ∧
    ∀ x, (∃ b ∈ sys.live, b.Contains x) ∨ sys.Outside x → store.memory x = sys.store.memory x

def FreesCleanly (sys : System) (b : Block) : Prop :=
  ∀ alloc store, sys.alloc.deallocate sys.store b.addr b.size = .ok (alloc, store) →
    ∀ x, sys.OthersHold b x ∨ sys.Outside x → store.memory x = sys.store.memory x

theorem allocates_cleanly (inv : Inv start stop sys) (size : Nat) : sys.AllocatesCleanly size := by
  intro result alloc store returned
  rcases inv with ⟨free, wf, -, -, -⟩
  rcases PageAllocator.allocate_spec wf _ size result alloc store returned with
    ⟨rfl, rfl, rfl⟩ | ⟨p, free', rfl, done, -⟩
  · constructor
    · intro p impossible
      cases impossible
    · exact fun x _ => rfl
  · constructor
    · intro q isBlock
      cases isBlock
      exact done.zeroed
    · intro x kept
      apply done.frame
      rcases kept with held | outside
      · exact wf.not_unused_of_live x ((cover_pos_iff _ x).mpr held)
      · exact PageAllocator.not_unused_of_outside wf x outside

theorem frees_cleanly (inv : Inv start stop sys) (b : Block) (present : b ∈ sys.live) :
    sys.FreesCleanly b := by
  intro alloc store returned
  rcases inv with ⟨free, wf, -, -, -⟩
  have small := PageAllocator.deallocate_small _ _ _ _ _ returned
  rcases PageAllocator.deallocate_spec wf sys.store.nodeId b present small with
    ⟨alloc', store', freed, done, -⟩
  rw [returned] at freed
  cases freed
  intro x kept
  rcases kept with ⟨c, known, different, contains⟩ | outside
  · apply done.frame x (wf.not_unused_of_live x ((cover_pos_iff _ x).mpr ⟨c, known, contains⟩))
    intro inside
    exact different (wf.live_eq_of_contains c b known present x contains inside)
  · apply done.frame x (PageAllocator.not_unused_of_outside wf x outside)
    intro inside
    have within := wf.live_inside b present
    simp only [Outside, Block.Contains] at *
    omega

/-- In every state of a run, whatever is asked for and whichever live block is given back. -/
theorem calls_are_clean (start stop : Nat) (notNull : start ≠ 0) (ordered : start ≤ stop)
    (bounded : stop < usizeBound) (sys sys' : System) (trace : List (System × Call))
    (initial : Initial start stop sys) (run : Run Steps sys trace sys') :
    (∀ size, sys'.AllocatesCleanly size) ∧ ∀ b ∈ sys'.live, sys'.FreesCleanly b := by
  have inv := run.invariant_last (Inv start stop)
    (inv_initial start stop notNull ordered bounded sys initial) (inv_step start stop)
  exact ⟨allocates_cleanly inv, frees_cleanly inv⟩

theorem split_pages_are_clean : ∃ sys', fifteenPages.runCalls splitCalls = some sys' ∧
    sys'.AllocatesCleanly 4096 ∧ sys'.FreesCleanly ⟨4096, 4096⟩ := by
  have ends : (fifteenPages.runCalls splitCalls).map (fun s => s.live) = some [⟨4096, 4096⟩] := by
    decide +kernel
  rcases Option.map_eq_some_iff.mp ends with ⟨sys', ran, live⟩
  rcases run_of_runCalls splitCalls _ _ ran with ⟨trace, run⟩
  have clean := calls_are_clean 4096 65536 (by decide) (by decide) (by decide) fifteenPages sys' trace
    ⟨rfl, rfl⟩ run
  exact ⟨sys', ran, clean.1 4096, clean.2 _ (by rw [live]; exact List.mem_cons_self)⟩

end System

end Jangri
