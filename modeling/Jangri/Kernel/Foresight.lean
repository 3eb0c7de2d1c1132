import Jangri.Allocator.Pool
import Jangri.Arch.Plan
import Jangri.Kernel.Image

namespace Jangri

open Lib

def Plan.allocate (multiple : Nat) (plan : Plan Pool) : Answer (Plan Pool) :=
  (plan.stock.take multiple).bind fun stock => .served { plan with stock }

def Plan.map (count va : Nat) (plan : Plan Pool) : Answer (Plan Pool) :=
  plan.mapRange (Pool.take 1) count (vpn va)

section Requests

variable {plat : Platform} {scene : Scene} {U F : Set Nat} {s : GlobalState} {pool : Pool}

theorem foretold_guarded {π α : Type} {answer : Answer π} {mutex : Lock} {x : KernelResult α}
    {ok : π → α → GlobalState → Prop} (available : mutex ∉ s.held)
    (body : Foretold answer x (fun p a t => ok p a { t with held := t.held.erase mutex })
      { s with held := mutex :: s.held }) : Foretold answer (guarded mutex x) ok s := by
  rw [Foretold, wpr_guarded _ _ _ _ available]
  exact body

theorem foretold_allocatorAllocate (known : pool.Of s.allocator s.memory) {size : Nat}
    (big : pageSize ≤ size) (whole : size % pageSize = 0) :
    Foretold (pool.take (size / pageSize)) (allocatorAllocate size)
      (fun pool' _ t => pool'.Of t.allocator t.memory ∧ t.held = s.held) s := by
  rcases known with ⟨free, live, wf, counts⟩
  have spec := counts.allocate wf s.nodeId big whole
  unfold Foretold wpr
  rw [wp_def, allocatorAllocate, ExceptT.run_mk]
  cases called : s.allocator.allocate ⟨s.memory, s.nodeId⟩ size with
  | error e =>
      rw [called] at spec
      exact spec
  | ok result =>
      rcases result with ⟨_ | a, alloc', store'⟩
      · rw [called] at spec
        exact spec
      · rw [called] at spec
        rcases spec with ⟨pool', isServed, known'⟩
        exact ⟨pool', isServed, known', rfl⟩

theorem foretold_globalAllocate (known : pool.Of s.allocator s.memory) (unlocked : .allocator ∉ s.held)
    {size : Nat} (big : pageSize ≤ size) (whole : size % pageSize = 0) :
    Foretold (pool.take (size / pageSize)) (GlobalState.allocate size)
      (fun pool' _ t => pool'.Of t.allocator t.memory ∧ t.held = s.held) s := by
  apply foretold_guarded unlocked
  apply (foretold_allocatorAllocate (s := { s with held := .allocator :: s.held }) known big whole).mono
  rintro pool' _ t ⟨known', same⟩
  exact ⟨known', by simp only [same, List.erase_cons_head]⟩

theorem poolSupply (plat : Platform) (scene : Scene) (U F : Set Nat) (origin : GlobalState)
    {held : List Lock} (unlocked : .allocator ∉ held) :
    ForetoldSupply (arch plat).allocate
      (fun T s => Accounted plat scene U F T s ∧ Steady (U ∪ F) origin s) (Pool.take 1)
      (fun pool s => pool.Of s.allocator s.memory ∧ s.held = held) where
  allocated := by
    intro pool T s _ stocked
    have available : .allocator ∉ s.held := by
      rw [stocked.2]
      exact unlocked
    apply foretold_guarded available
    rw [Foretold, wpr_bind, wpr_lift, wp_liftRust, assert_of_true _ _ (le_refl pageSize)]
    apply Foretold.mono (foretold_allocatorAllocate (s := { s with held := .allocator :: s.held })
      stocked.1 (le_refl pageSize) (Nat.mod_self pageSize))
    rintro pool' _ t ⟨known, same⟩
    refine ⟨known, ?_⟩
    simp only [same, List.erase_cons_head]
    exact stocked.2
  written := by
    intro pool T s t i entry known stocked member low
    rcases known.1 with ⟨free, live, owner, ledger⟩
    refine ⟨?_, stocked.2⟩
    apply stocked.1.write ledger.wf
    intro x different
    have page := ledger.pages t member
    exact (cover_pos_iff live x).mpr ⟨_, page.1, storeEntry_inside low different⟩

end Requests

structure Planned (plat : Platform) (scene : Scene) (held : List Lock) (U : Set Nat) (areas : List Area)
    (plan : Plan Pool) (heapStart : Nat) (s : GlobalState) : Prop where
  drawn : Drawn plat scene U areas s
  grid : Grid scene.root plan.pages s.memory
  stock : plan.stock.Of s.allocator s.memory
  heap : (s.object scene.pid).heapStart = heapStart
  held : s.held = held

section Steps

variable {plat : Platform} {scene : Scene} {held : List Lock} {U : Set Nat} {areas areas' : List Area}
  {plan : Plan Pool} {heapStart : Nat} {s : GlobalState}

theorem Planned.write (planned : Planned plat scene held U areas plan heapStart s) {m : Memory}
    (changed : ∀ x, m x ≠ s.memory x → x ∈ U ∨ x ∈ scene.frame)
    (drawn : Drawn plat scene U areas' { s with memory := m }) :
    Planned plat scene held U areas' plan heapStart { s with memory := m } := by
  rcases planned.drawn.rooted.2 with ⟨free, live, owner, ledger⟩
  refine ⟨drawn, ?_, ?_, planned.heap, planned.held⟩
  · exact planned.grid.congr m (planned.drawn.tables_same m changed)
  · apply planned.stock.write ledger.wf
    intro x different
    have owned : ∃ o, Held live owner o x := by
      rcases changed x different with user | frame
      · exact ⟨_, ledger.granted x user⟩
      · exact ⟨_, ledger.framed x frame⟩
    rcases owned with ⟨o, b, present, -, inside⟩
    exact (cover_pos_iff live x).mpr ⟨b, present, inside⟩

theorem Planned.restage (planned : Planned plat scene held U areas plan heapStart s)
    (f : Process → Process) (heapStart' : Nat)
    (same : ∀ process, (f process).pageTable = process.pageTable ∧
      (f process).trapframe = process.trapframe)
    (heap : (f (s.object scene.pid)).heapStart = heapStart') :
    Planned plat scene held U areas plan heapStart'
      { s with object := Function.update s.object scene.pid (f (s.object scene.pid)) } := by
  refine ⟨planned.drawn.restage f same scene.pid, planned.grid, planned.stock, ?_, planned.held⟩
  simp only [Function.update_self]
  exact heap

theorem foretold_allocate (placed : Placed plat)
    (planned : Planned plat scene held U areas plan heapStart s) (unlocked : .allocator ∉ held)
    {size : Nat} (big : pageSize ≤ size) (whole : size % pageSize = 0) :
    Foretold (plan.allocate (size / pageSize)) (GlobalState.allocate size)
      (fun plan' a t => Planned plat scene held (U ∪ Set.Ico a (a + size)) areas plan' heapStart t ∧
        a ≠ 0 ∧ a % pageSize = 0 ∧ a + size < usizeBound ∧ Disjoint (Set.Ico a (a + size)) U ∧
        ∀ x, a ≤ x → x < a + size → t.memory x = 0) s := by
  rcases planned.drawn.rooted.2 with ⟨free, live, owner, ledger⟩
  have available : .allocator ∉ s.held := by
    rw [planned.held]
    exact unlocked
  have foretold := foretold_globalAllocate planned.stock available big whole
  apply ((foretold.and (wpr_allocate_drawn placed planned.drawn size)).and
    (wpr_allocateBlock ledger.wf size)).map
  rintro pool' a t ⟨⟨⟨stock, same⟩, drawn, aligned, bounded, fresh, zero⟩, ⟨free', allocated⟩, rest⟩
  have inside := allocated.wellFormed.live_inside ⟨a, size⟩ List.mem_cons_self
  have notNull := allocated.wellFormed.notNull
  refine ⟨⟨drawn, ?_, stock, ?_, same.trans planned.held⟩, ?_, aligned, bounded, fresh, zero⟩
  · apply planned.grid.congr
    intro x page y low high
    have known := ledger.pages x page
    exact allocated.frame y (not_unused_of_held ledger.wf ⟨_, known.1, known.2, low, high⟩)
  · rw [rest]
    exact planned.heap
  · simp only at inside
    omega

theorem foretold_map (placed : Placed plat)
    (planned : Planned plat scene held U areas plan heapStart s) (area : Area)
    (archFree : .arch ∉ held) (allocatorFree : .allocator ∉ held)
    (sound : area.call.Sound) (inside : area.call.va < usizeBound)
    (drawn : wpr (GlobalState.map plat scene.root area.call.va area.call.pa area.call.size
        area.call.read area.call.write area.call.execute area.call.user)
      (fun _ t => Drawn plat scene U (area :: areas) t) (fun _ _ => True) Any s) :
    Foretold (plan.map area.call.pages area.call.va)
      (GlobalState.map plat scene.root area.call.va area.call.pa area.call.size area.call.read
        area.call.write area.call.execute area.call.user)
      (fun plan' _ t => Planned plat scene held U (area :: areas) plan' heapStart t) s := by
  have available : .arch ∉ s.held := by
    rw [planned.held]
    exact archFree
  have unlocked : .allocator ∉ Lock.arch :: held := by simp [allocatorFree]
  have locked : Rooted (fun T t => Accounted plat scene U scene.frame T t ∧
      Steady (U ∪ scene.frame) s t) scene.root { s with held := .arch :: s.held } :=
    ⟨planned.drawn.rooted.1, planned.drawn.rooted.2, rfl, fun _ _ => rfl⟩
  have source := accountedSource placed scene U scene.frame s
  have held' : (.arch :: s.held) = .arch :: held := by rw [planned.held]
  have foretold : Foretold (plan.map area.call.pages area.call.va)
      (GlobalState.map plat scene.root area.call.va area.call.pa area.call.size area.call.read
        area.call.write area.call.execute area.call.user)
      (fun plan' _ t => Grid scene.root plan'.pages t.memory ∧ plan'.stock.Of t.allocator t.memory ∧
        t.held = held ∧ t.object = s.object) s := by
    apply foretold_guarded available
    have spec := map_foretold (arch plat) source (poolSupply plat scene U scene.frame s unlocked)
      area.call.va area.call.pa area.call.size area.call.read area.call.write area.call.execute
      area.call.user plan locked inside sound.aligned sound.whole sound.positive sound.bounded
      planned.grid ⟨planned.stock, held'⟩
    have chart : Charted scene.root (areas.map Area.call)
        (memory { s with held := .arch :: s.held }) := planned.drawn.charted
    have small : area.call.pa < usizeBound := by
      have bounded := sound.bounded
      omega
    apply (spec.and (call_charted (arch plat) source area.call small locked chart)).mono
    rintro plan' _ t ⟨⟨grid, stock, same⟩, rooted, -⟩
    refine ⟨grid, stock, ?_, rooted.2.2.object⟩
    simp only [same, List.erase_cons_head]
  apply (foretold.and drawn).mono
  rintro plan' _ t ⟨⟨grid, stock, same, object⟩, drawn'⟩
  refine ⟨drawn', grid, stock, ?_, same⟩
  rw [object]
  exact planned.heap

theorem Drawn.frame_bounded (drawn : Drawn plat scene U areas s) :
    scene.trapframe + pageSize < usizeBound := by
  rcases drawn.rooted.2 with ⟨free, live, owner, ledger⟩
  have last : scene.trapframe + (pageSize - 1) ∈ scene.frame :=
    ⟨Nat.le_add_right _ _, Nat.add_lt_add_left (by decide) _⟩
  rcases ledger.framed _ last with ⟨b, present, -, inside⟩
  have block := ledger.wf.live_inside b present
  have bounded := ledger.wf.bounded
  have high := inside.2
  simp only [pageSize] at *
  omega

theorem foretold_map_zeroed (placed : Placed plat) {size block : Nat}
    (planned : Planned plat scene held (U ∪ Set.Ico block (block + size)) areas plan heapStart s)
    (less : ∀ c ∈ areas.map Area.call, c.block ⊆ U) (archFree : .arch ∉ held)
    (allocatorFree : .allocator ∉ held) (aligned : block % pageSize = 0)
    (bounded : block + size < usizeBound) (fresh : Disjoint (Set.Ico block (block + size)) U)
    (zero : ∀ x, block ≤ x → x < block + size → s.memory x = 0) {va : Nat}
    (inside : va < usizeBound) (start : va % pageSize = 0) (whole : size % pageSize = 0)
    (some_ : size ≠ 0) (r w x : Bool) :
    Foretold (plan.map (size / pageSize) va)
      (GlobalState.map plat scene.root va block size r w x true)
      (fun plan' _ t => Planned plat scene held (U ∪ Set.Ico block (block + size))
        (zeroed ⟨va, block, size, r, w, x, true⟩ :: areas) plan' heapStart t) s :=
  foretold_map placed planned (zeroed ⟨va, block, size, r, w, x, true⟩) archFree allocatorFree
    ⟨start, whole, some_, bounded⟩ inside
    (wpr_map_zeroed placed planned.drawn less aligned bounded fresh zero va r w x)

theorem foretold_map_supervisor (placed : Placed plat)
    (planned : Planned plat scene held U areas plan heapStart s) (archFree : .arch ∉ held)
    (allocatorFree : .allocator ∉ held) {va pa : Nat} (inside : va < usizeBound)
    (start : va % pageSize = 0) (bounded : pa + pageSize < usizeBound) (r w x : Bool) :
    Foretold (plan.map (pageSize / pageSize) va)
      (GlobalState.map plat scene.root va pa pageSize r w x false)
      (fun plan' _ t => Planned plat scene held U (zeroed ⟨va, pa, pageSize, r, w, x, false⟩ :: areas)
        plan' heapStart t) s :=
  foretold_map placed planned (zeroed ⟨va, pa, pageSize, r, w, x, false⟩) archFree allocatorFree
    ⟨start, Nat.mod_self pageSize, Nat.succ_ne_zero _, bounded⟩ inside
    (wpr_map_supervisor placed planned.drawn _ (by change pa < usizeBound; omega) rfl)

end Steps

end Jangri
