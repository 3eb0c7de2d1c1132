import Jangri.Kernel.Separation

namespace Jangri

open Lib

def GlobalState.UserReaches (s : GlobalState) (p x : Nat) : Prop :=
  ∃ va entry, leafAt s.memory (s.object p).pageTable va = some entry ∧
    entry.userModeAccessible = true ∧ entry.getPhysicalAddress ≤ x ∧
    x < entry.getPhysicalAddress + pageSize

theorem Follows.unique {m : Memory} {node : Option Nat} {nodes nodes' : List Nat}
    (first : Follows m node nodes) (second : Follows m node nodes') : nodes = nodes' := by
  induction nodes generalizing node nodes' with
  | nil =>
      cases nodes' with
      | nil => rfl
      | cons a rest =>
          rw [show node = none from first] at second
          cases second.1
  | cons a rest ih =>
      cases nodes' with
      | nil =>
          rw [show node = none from second] at first
          cases first.1
      | cons b rest' =>
          have same : a = b := Option.some.inj (first.1.symm.trans second.1)
          subst same
          rw [ih first.2 second.2]

section Isolated

variable {plat : Platform} {processes : List Nat} {object : Nat → Process} {alloc : PageAllocator}
  {m : Memory} {free : Nat → List Nat} {live : List Block} {owner : Nat → Owner} {x : Nat}

theorem Isolated.not_table (isolated : Isolated plat processes object alloc m free live owner)
    {o : Owner} (held : Held live owner o x) (different : ∀ q, o ≠ .table q) {q t : Nat}
    (present : q ∈ processes) (alive : Alive (object q))
    (page : TablePage m (object q).pageTable t) : ¬ (⟨t, pageSize⟩ : Block).Contains x := by
  intro inside
  have known := (isolated.spaces q present alive).pages t page
  exact different q (held_unique isolated.wf held ⟨_, known.1, known.2, inside⟩)

theorem Isolated.not_listed (isolated : Isolated plat processes object alloc m free live owner)
    {o : Owner} (held : Held live owner o x) (i : Fin numMultiples) (nodes : List Nat)
    (follows : Follows m (alloc.list i).head nodes) :
    ∀ b ∈ listBlocks m nodes, ¬ b.Contains x := by
  have chain := isolated.wf.chains i
  have same := follows.unique chain.follows
  subst same
  intro b listed inside
  rw [chain.listBlocks_eq] at listed
  apply not_unused_of_held isolated.wf held
  left
  rw [cover_pos_iff]
  refine ⟨b, ?_, inside⟩
  exact List.mem_flatMap.mpr ⟨i, List.mem_range.mpr i.isLt, listed⟩

end Isolated

section Results

variable (plat : Platform) (m m' : Machine) (trace : List (Machine × Event))

/-- What user mode of a live process reaches is reached by no other live process, and is no page
table page, no trap frame, not the trampoline, in no free list and not in the bump region. -/
theorem address_spaces_isolated (booted : m.Booted plat) (run : Run (Machine.Steps plat) m trace m')
    (good : ∀ step ∈ trace, ∀ image, step.1.Loads plat step.2 image → GoodImage plat image) :
    ∀ u ∈ Run.visited trace m', ∀ p ∈ u.kernel.processes, Alive (u.kernel.object p) →
      ∀ x, u.kernel.UserReaches p x →
        (∀ q ∈ u.kernel.processes, Alive (u.kernel.object q) → u.kernel.UserReaches q x → q = p) ∧
        (∀ q ∈ u.kernel.processes, Alive (u.kernel.object q) →
          ∀ t, TablePage u.kernel.memory (u.kernel.object q).pageTable t →
            ¬ (⟨t, pageSize⟩ : Block).Contains x) ∧
        (∀ q ∈ u.kernel.processes,
          ¬ (⟨(u.kernel.object q).trapframe, pageSize⟩ : Block).Contains x) ∧
        ¬ (⟨plat.trampolineCodeAddress, pageSize⟩ : Block).Contains x ∧
        (∀ i nodes, Follows u.kernel.memory (u.kernel.allocator.list i).head nodes →
          ∀ b ∈ listBlocks u.kernel.memory nodes, ¬ b.Contains x) ∧
        ¬ u.kernel.allocator.bumpRegion.Contains x := by
  intro u visited p present alive x reaches
  have separated := (Machine.separated_of_run booted run good u visited).2
  rcases separated.isolated with ⟨free, live, owner, isolated⟩
  have owned : ∀ q ∈ u.kernel.processes, Alive (u.kernel.object q) → u.kernel.UserReaches q x →
      Held live owner (.user q) x := by
    intro q presentQ aliveQ reachesQ
    rcases reachesQ with ⟨va, entry, leaf, accessible, low, high⟩
    exact (isolated.spaces q presentQ aliveQ).users va entry leaf accessible x low high
  have held := owned p present alive reaches
  refine ⟨?_, ?_, ?_, ?_, isolated.not_listed held, ?_⟩
  · intro q presentQ aliveQ reachesQ
    exact Owner.user.inj (held_unique isolated.wf (owned q presentQ aliveQ reachesQ) held)
  · intro q presentQ aliveQ t page
    exact isolated.not_table held (by simp) presentQ aliveQ page
  · intro q presentQ inside
    have framed := isolated.frames q presentQ x inside.1 inside.2
    cases held_unique isolated.wf held framed
  · intro inside
    rcases held with ⟨b, block, -, within⟩
    have region := isolated.wf.live_inside b block
    have start := isolated.start
    have below := booted.placed.trampoline
    have last := inside.2
    have first := within.1
    simp only at last
    omega
  · intro inside
    exact not_unused_of_held isolated.wf held (Or.inr inside)

end Results

theorem Board.boot_booted : Board.boot.Booted Board.plat where
  fresh := Board.boot_fresh
  placed := ⟨by decide, by decide⟩
  allocator := by
    refine ⟨4259840, ⟨Board.boot.kernel.allocator, ⟨Board.boot.kernel.memory, 0⟩, []⟩, _, [],
      by decide, by decide, by decide, ⟨?_, rfl⟩, Run.nil, rfl, rfl⟩
    rfl

theorem Board.program_good : GoodImage Board.plat Board.program := by
  intro elf segments parsed found segment member loads
  have only : (Board.plat.minimalParse Board.program).bind ElfFile.segments =
      some [⟨1, 7, 0, 4096, 120, 4096⟩] := by
    decide +kernel
  rw [parsed, Option.bind_some, found] at only
  rw [Option.some.inj only, List.mem_singleton] at member
  rw [member]
  exact ⟨by decide, by decide⟩

def spawnImage (plat : Platform) (s : GlobalState) : Option (List UInt8) := do
  let p ← s.currentProcess
  let (_, s₁) ← (handleSyscall (s.object p).trapframe s).toOption
  let (request, s₂) ← (readRequest plat (s.object p).pageTable s₁).toOption
  match request with
  | .syscall (.spawn nameStart nameLen start len _) =>
      let (_, s₃) ← (UserMemorySlice.read ⟨nameStart, (s.object p).pageTable, nameLen⟩
        plat (translate plat) s₂).toOption
      let (image, _) ← (UserMemorySlice.read ⟨start, (s.object p).pageTable, len⟩
        plat (translate plat) s₃).toOption
      pure image
  | _ => none

theorem spawnImage_of_reads {plat : Platform} {s : GlobalState} {image : List UInt8}
    (reads : ReadsImage plat s image) : spawnImage plat s = some image := by
  rcases reads with ⟨p, nameStart, nameLen, start, len, wait, name, s₁, s₂, s₃, s₄, current, advanced,
    request, readName, readImage⟩
  simp [spawnImage, current, advanced, request, readName, readImage, Except.toOption]

namespace Board

def harmless (m : Machine) : Event → Bool
  | .assign _ image => image = program
  | .trap info => !info.isSyscall || spawnImage plat m.kernel ∈ [none, some program]
  | _ => true

theorem good_of_harmless {m : Machine} {event : Event} (safe : harmless m event = true) :
    ∀ image, m.Loads plat event image → GoodImage plat image := by
  intro image loads
  rcases loads with ⟨-, name, rfl⟩ | ⟨-, info, rfl, isCall, reads⟩
  · have same : image = program := of_decide_eq_true safe
    rw [same]
    exact program_good
  · have found := spawnImage_of_reads reads
    simp only [harmless, isCall, found, Bool.not_true, Bool.false_or, List.mem_cons, reduceCtorEq,
      Option.some.injEq, List.not_mem_nil, or_false, false_or, decide_eq_true_eq] at safe
    rw [safe]
    exact program_good

/-- A run that loads nothing but the program, with what a check on its last state found. -/
theorem good_run_of_check (events : List Event) (check : Machine → Bool)
    (passed : (Machine.followIf plat harmless boot events).map check = some true) :
    ∃ u trace, Run (Machine.Steps plat) boot trace u ∧ trace.map Prod.snd = events ∧
      (∀ step ∈ trace, ∀ image, step.1.Loads plat step.2 image → GoodImage plat image) ∧
      check u = true := by
  rcases run_of_checks harmless events check passed with ⟨u, trace, run, labels, safe, holds⟩
  exact ⟨u, trace, run, labels, fun step member => good_of_harmless (safe step member), holds⟩

theorem good_run_of_checks (also : Machine → Event → Bool) (events : List Event)
    (check : Machine → Bool)
    (passed : (Machine.followIf plat (fun m event => harmless m event && also m event) boot
      events).map check = some true) :
    ∃ u trace, Run (Machine.Steps plat) boot trace u ∧ trace.map Prod.snd = events ∧
      (∀ step ∈ trace, ∀ image, step.1.Loads plat step.2 image → GoodImage plat image) ∧
      (∀ step ∈ trace, also step.1 step.2 = true) ∧ check u = true := by
  rcases run_of_checks _ events check passed with ⟨u, trace, run, labels, safe, holds⟩
  have both : ∀ step ∈ trace, harmless step.1 step.2 = true ∧ also step.1 step.2 = true :=
    fun step member => Bool.and_eq_true_iff.mp (safe step member)
  exact ⟨u, trace, run, labels, fun step member => good_of_harmless (both step member).1,
    fun step member => (both step member).2, holds⟩

end Board

theorem two_processes_isolated : ∃ u trace x,
    Run (Machine.Steps Board.plat) Board.boot trace u ∧ u.kernel.UserReaches 1 x ∧
      ¬ u.kernel.UserReaches 2 x := by
  rcases Board.good_run_of_check [.assign [] Board.program, .assign [] Board.program]
    (fun u => decide (1 ∈ u.kernel.processes ∧ 2 ∈ u.kernel.processes ∧ u.stateOf 1 = .ready ∧
      u.stateOf 2 = .ready ∧
      ((leafAt u.kernel.memory (u.kernel.object 1).pageTable 4096).map
        PageTableEntry.userModeAccessible) = some true)) (by decide +kernel) with
    ⟨u, trace, run, -, good, holds⟩
  rcases of_decide_eq_true holds with ⟨present₁, present₂, ready₁, ready₂, mapped⟩
  rcases Option.map_eq_some_iff.mp mapped with ⟨entry, leaf, accessible⟩
  have reaches : u.kernel.UserReaches 1 entry.getPhysicalAddress :=
    ⟨4096, entry, leaf, accessible, le_refl _, Nat.lt_add_of_pos_right (by decide)⟩
  have alive : ∀ p, u.stateOf p = .ready → Alive (u.kernel.object p) := by
    intro p ready r terminated
    cases terminated.symm.trans ready
  have isolated := address_spaces_isolated Board.plat _ u trace Board.boot_booted run good u
    (Run.last_mem_visited trace u) 1 present₁ (alive 1 ready₁) _ reaches
  refine ⟨u, trace, _, run, reaches, ?_⟩
  intro reaches₂
  have same := isolated.1 2 present₂ (alive 2 ready₂) reaches₂
  cases same

end Jangri
