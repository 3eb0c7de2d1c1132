import Jangri.Kernel.Answering
import Jangri.Lib.Tiling

namespace Jangri

open Lib

def GlobalState.WantsMemory (s : GlobalState) (call : Nat × Except Error (Nat × Nat)) (t : GlobalState) :
    Prop :=
  call.1 % pageSize = 0 ∧ call.1 < usizeBound ∧ (wantMemory call.1).run s = .ok (call.2, t)

/-- `Err`, and the heap ends where it did; or a grant that starts at the old end and lies inside of
`[heap_start, STACK_GUARD)`. -/
inductive GrantedBelow (before after : Process) (size : Nat) : Except Error (Nat × Nat) → Prop
  | refused (e : Error) (same : after.heapEnd = before.heapEnd) :
      GrantedBelow before after size (.error e)
  | granted (low : before.heapStart ≤ before.heapEnd) (high : before.heapEnd + size ≤ stackGuard)
      (grown : after.heapEnd = before.heapEnd + size) :
      GrantedBelow before after size (.ok (before.heapEnd, size))

def GlobalState.GrantsBelow (s : GlobalState) (p size : Nat) : Prop :=
  ∃ r t, (wantMemory size).run s = .ok (r, t) ∧ GrantedBelow (s.object p) (t.object p) size r

def grantedRanges {σ : Type} (trace : List (σ × Nat × Except Error (Nat × Nat))) : List Block :=
  trace.filterMap fun step =>
    match step.2.2 with
    | .ok granted => some ⟨granted.1, granted.2⟩
    | .error _ => none

/-- A process that is about to ask for memory. Its heap starts below its end: every live process of a
booted machine has it so. -/
structure GlobalState.Requesting (s : GlobalState) (p : Nat) : Prop where
  idle : s.held = []
  current : s.currentProcess = some p
  ordered : (s.object p).heapStart ≤ (s.object p).heapEnd
  guarded : (s.object p).heapEnd < stackGuard

section Grants

variable {p : Nat} {s t : GlobalState}

theorem answer_of_returned (idle : s.held = []) (current : s.currentProcess = some p) {size : Nat}
    {r : Except Error (Nat × Nat)} (returned : (wantMemory size).run s = .ok (r, t)) :
    HeapAnswer s p size r t := by
  have spec := wp_wantMemory_exact idle current size
  rw [wp_def, returned] at spec
  exact spec.2

theorem GrantedBelow.of_answer {size : Nat} {r : Except Error (Nat × Nat)}
    (ordered : (s.object p).heapStart ≤ (s.object p).heapEnd) (answer : HeapAnswer s p size r t) :
    GrantedBelow (s.object p) (t.object p) size r := by
  rcases answer with ⟨isRefusal, -, same⟩ | ⟨isGrant, room, same⟩
  · rw [isRefusal, same]
    exact .refused _ rfl
  · rw [isGrant, same]
    apply GrantedBelow.granted ordered room.le
    simp [extended]

theorem grantsBelow_iff (idle : s.held = []) (current : s.currentProcess = some p)
    (ordered : (s.object p).heapStart ≤ (s.object p).heapEnd) {size : Nat} (whole : size % pageSize = 0) :
    s.GrantsBelow p size ↔ (s.object p).heapEnd + size < usizeBound := by
  have spec := wp_wantMemory_exact idle current size
  constructor
  · intro grants
    rcases grants with ⟨r, t, returned, -⟩
    rw [wp_def, returned] at spec
    exact spec.1.2
  · intro fits
    rw [wp_def] at spec
    split at spec
    next r t returned => exact ⟨r, t, returned, GrantedBelow.of_answer ordered spec.2⟩
    next e stopped => exact absurd ⟨whole, fits⟩ spec

/-- A request below the guard page is granted. -/
theorem wantsMemory_below (idle : s.held = []) (current : s.currentProcess = some p) {size : Nat}
    (whole : size % pageSize = 0) (room : (s.object p).heapEnd + size < stackGuard) :
    s.WantsMemory (size, .ok ((s.object p).heapEnd, size)) (extended s p size) := by
  have bounded : stackGuard < usizeBound := by decide
  have spec := wp_wantMemory_exact idle current size
  rw [wp_def] at spec
  split at spec
  next r t returned =>
    rcases spec.2 with ⟨-, full, -⟩ | ⟨isGrant, -, same⟩
    · omega
    · rw [isGrant, same] at returned
      exact ⟨whole, by omega, returned⟩
  next e stopped => exact absurd ⟨whole, by omega⟩ spec

theorem GlobalState.Requesting.step (requesting : s.Requesting p)
    {call : Nat × Except Error (Nat × Nat)} (taken : s.WantsMemory call t) : t.Requesting p := by
  have ordered := requesting.ordered
  rcases answer_of_returned requesting.idle requesting.current taken.2.2 with
    ⟨-, -, same⟩ | ⟨-, room, same⟩
  · rw [same]
    exact requesting
  · rw [same]
    refine ⟨requesting.idle, requesting.current, ?_, ?_⟩
    · simp only [extended, Function.update_self]
      omega
    · simp only [extended, Function.update_self]
      exact room

theorem grantedRanges_snoc (trace : List (GlobalState × Nat × Except Error (Nat × Nat)))
    (step : GlobalState × Nat × Except Error (Nat × Nat)) :
    grantedRanges (trace ++ [step]) = grantedRanges trace ++ grantedRanges [step] :=
  List.filterMap_append

theorem ranges_of_run (requesting : s.Requesting p)
    {trace : List (GlobalState × Nat × Except Error (Nat × Nat))}
    (run : Run GlobalState.WantsMemory s trace t) :
    t.Requesting p ∧ (∀ b ∈ grantedRanges trace, b.addr + b.size ≤ (t.object p).heapEnd) ∧
      (grantedRanges trace).Pairwise Block.Disjoint := by
  induction run with
  | nil =>
      refine ⟨requesting, ?_, List.Pairwise.nil⟩
      intro b impossible
      cases impossible
  | @snoc trace t u call run taken ih =>
      rcases ih with ⟨before, below, apart⟩
      refine ⟨before.step taken, ?_⟩
      rw [grantedRanges_snoc]
      rcases answer_of_returned before.idle before.current taken.2.2 with
        ⟨refused, -, same⟩ | ⟨granted, -, same⟩
      · have none_ : grantedRanges [(t, call)] = [] := by simp [grantedRanges, refused]
        rw [none_, List.append_nil, same]
        exact ⟨below, apart⟩
      · have range : grantedRanges [(t, call)] = [⟨(t.object p).heapEnd, call.1⟩] := by
          simp [grantedRanges, granted]
        have grown : (u.object p).heapEnd = (t.object p).heapEnd + call.1 := by
          simp [same, extended]
        rw [range]
        constructor
        · intro b member
          rw [grown]
          rcases List.mem_append.mp member with old | new
          · have low := below b old
            omega
          · rw [List.mem_singleton.mp new]
        · apply List.pairwise_append.mpr
          refine ⟨apart, List.pairwise_singleton _ _, ?_⟩
          intro b old c new x inB inC
          rw [List.mem_singleton.mp new] at inC
          have low := below b old
          simp only [Block.Contains] at inB inC
          omega

/-- Every call that returns answers as it should, and no two grants overlap, whatever is asked for. A
call returns exactly where the end of the heap and the size do not sum up to 2^64 or more. -/
theorem heap_grants_iff (p : Nat) (s t : GlobalState)
    (trace : List (GlobalState × Nat × Except Error (Nat × Nat))) (requesting : s.Requesting p)
    (run : Run GlobalState.WantsMemory s trace t) :
    (∀ step ∈ trace, ∀ u, step.1.WantsMemory step.2 u →
      GrantedBelow (step.1.object p) (u.object p) step.2.1 step.2.2) ∧
    (grantedRanges trace).Pairwise Block.Disjoint ∧
    ∀ size, size % pageSize = 0 → size < usizeBound →
      (t.GrantsBelow p size ↔ (t.object p).heapEnd + size < usizeBound) := by
  have after := ranges_of_run requesting run
  refine ⟨?_, after.2.2, ?_⟩
  · intro step member u taken
    rcases List.append_of_mem member with ⟨front, rest, whole⟩
    rw [whole] at run
    rcases run.split with ⟨_, -, early, -⟩
    have before := (ranges_of_run requesting early).1
    exact .of_answer before.ordered (answer_of_returned before.idle before.current taken.2.2)
  · intro size whole _
    exact grantsBelow_iff after.1.idle after.1.current after.1.ordered whole

end Grants

namespace Board

def asking : GlobalState :=
  { boot.kernel with
    currentProcess := some 1
    object := fun _ => { Process.default 1 with heapStart := 8192, heapEnd := 8192 } }

theorem asking_requests : asking.Requesting 1 := ⟨rfl, rfl, by decide, by decide⟩

end Board

theorem pages_granted : (extended Board.asking 1 4096).GrantsBelow 1 4096 := by
  have taken := wantsMemory_below Board.asking_requests.idle Board.asking_requests.current
    (by decide : 4096 % pageSize = 0) (by decide)
  exact ((heap_grants_iff 1 Board.asking _ _ Board.asking_requests (Run.single taken)).2.2 4096
    (by decide) (by decide)).mpr (by decide)

theorem huge_size_panics : Board.asking.Requesting 1 ∧ (2 ^ 64 - 4096) % pageSize = 0 ∧
    2 ^ 64 - 4096 < usizeBound ∧ ¬ Board.asking.GrantsBelow 1 (2 ^ 64 - 4096) ∧
    ∃ e, (wantMemory (2 ^ 64 - 4096)).run Board.asking = .error e := by
  have asks := Board.asking_requests
  have stops : ¬ (Board.asking.object 1).heapEnd + (2 ^ 64 - 4096) < usizeBound := by decide
  refine ⟨asks, by decide, by decide, ?_, ?_⟩
  · rw [grantsBelow_iff asks.idle asks.current asks.ordered (by decide)]
    exact stops
  · have spec := wp_wantMemory_exact asks.idle asks.current (2 ^ 64 - 4096)
    rw [wp_def] at spec
    split at spec
    next r t returned => exact absurd spec.1.2 stops
    next e stopped => exact ⟨e, stopped⟩

end Jangri
