import Jangri.Kernel.Fidelity
import Jangri.Kernel.Stock
import Jangri.Kernel.Survival
import Jangri.Kernel.Vm

namespace Jangri

open Lib

structure Furnished (plat : Platform) (scene : Scene) (held : List Lock) (U : Set Nat)
    (areas : List Area) (pages : Nat) (s : GlobalState) : Prop where
  drawn : Drawn plat scene U areas s
  roomy : s.Roomy pages
  held : s.held = held

section Steps

variable {plat : Platform} {scene : Scene} {held : List Lock} {U : Set Nat} {areas : List Area}
  {pages : Nat} {s : GlobalState}

theorem Furnished.less {fewer : Nat} (furnished : Furnished plat scene held U areas pages s)
    (less : fewer ≤ pages) : Furnished plat scene held U areas fewer s :=
  ⟨furnished.drawn, furnished.roomy.less less, furnished.held⟩

theorem Furnished.restage (furnished : Furnished plat scene held U areas pages s)
    (f : Process → Process)
    (same : ∀ process, (f process).pageTable = process.pageTable ∧
      (f process).trapframe = process.trapframe) (pid : Nat) :
    Furnished plat scene held U areas pages
      { s with object := Function.update s.object pid (f (s.object pid)) } :=
  ⟨furnished.drawn.restage f same pid, furnished.roomy, furnished.held⟩

theorem wpr_allocate_furnished (placed : Placed plat) (pages : Nat) {size : Nat}
    (furnished : Furnished plat scene held U areas (pages + size / pageSize) s)
    (unlocked : .allocator ∉ held) (big : pageSize ≤ size) (whole : size % pageSize = 0) :
    wpr (GlobalState.allocate size)
      (fun a t => Furnished plat scene held (U ∪ Set.Ico a (a + size)) areas pages t ∧
        a % pageSize = 0 ∧ a + size < usizeBound ∧ Disjoint (Set.Ico a (a + size)) U ∧
        ∀ x, a ≤ x → x < a + size → t.memory x = 0)
      (fun _ _ => False) (fun _ => False) s := by
  rcases furnished.drawn.rooted.2 with ⟨free, live, owner, ledger⟩
  have available : .allocator ∉ s.held := by
    rw [furnished.held]
    exact unlocked
  apply wpr_mono (wpr_and (wpr_allocate_drawn placed furnished.drawn size)
    (wpr_allocate_roomy ledger.wf available big whole furnished.roomy))
  · rintro a t ⟨⟨drawn, block⟩, -, rest, roomy⟩
    refine ⟨⟨drawn, roomy, ?_⟩, block⟩
    rw [rest]
    exact furnished.held
  · exact fun _ _ failed => failed.2
  · exact fun _ stopped => stopped.2

theorem wpr_map_furnished (placed : Placed plat) (area : Area)
    (furnished : Furnished plat scene held U areas
      (pages + 3 * tablesFor area.call.va area.call.pages) s)
    (archFree : .arch ∉ held) (allocatorFree : .allocator ∉ held) (sound : area.call.Sound)
    (inside : area.call.va < usizeBound) (few : area.call.pages ≤ 2 ^ 36)
    (off : ∀ d ∈ areas.map Area.call, area.call.Apart d)
    (drawn : wpr (GlobalState.map plat scene.root area.call.va area.call.pa area.call.size
        area.call.read area.call.write area.call.execute area.call.user)
      (fun _ t => Drawn plat scene U (area :: areas) t) (fun _ _ => True) Any s) :
    wpr (GlobalState.map plat scene.root area.call.va area.call.pa area.call.size area.call.read
        area.call.write area.call.execute area.call.user)
      (fun _ t => Furnished plat scene held U (area :: areas) pages t)
      (fun _ _ => False) (fun _ => False) s := by
  have archAvailable : .arch ∉ s.held := by
    rw [furnished.held]
    exact archFree
  have allocatorAvailable : .allocator ∉ s.held := by
    rw [furnished.held]
    exact allocatorFree
  apply wpr_mono (wpr_and drawn (wpr_map_roomy placed furnished.drawn.rooted furnished.drawn.charted
    archAvailable allocatorAvailable area.call sound inside few off furnished.roomy))
  · rintro _ t ⟨drawn', -, -, roomy, same, -⟩
    exact ⟨drawn', roomy, same.trans furnished.held⟩
  · exact fun _ _ failed => failed.2
  · exact fun _ stopped => stopped.2

theorem wpr_map_zeroed_furnished (placed : Placed plat) (pages : Nat) {size block va : Nat}
    (r w x : Bool)
    (furnished : Furnished plat scene held (U ∪ Set.Ico block (block + size)) areas
      (pages + 3 * tablesFor va (size / pageSize)) s)
    (archFree : .arch ∉ held) (allocatorFree : .allocator ∉ held)
    (less : ∀ c ∈ areas.map Area.call, c.block ⊆ U) (aligned : block % pageSize = 0)
    (bounded : block + size < usizeBound) (fresh : Disjoint (Set.Ico block (block + size)) U)
    (zero : ∀ x, block ≤ x → x < block + size → s.memory x = 0) (inside : va < usizeBound)
    (start : va % pageSize = 0) (whole : size % pageSize = 0) (some_ : size ≠ 0)
    (few : size / pageSize ≤ 2 ^ 36)
    (off : ∀ d ∈ areas.map Area.call,
      (zeroed ⟨va, block, size, r, w, x, true⟩).call.Apart d) :
    wpr (GlobalState.map plat scene.root va block size r w x true)
      (fun _ t => Furnished plat scene held (U ∪ Set.Ico block (block + size))
        (zeroed ⟨va, block, size, r, w, x, true⟩ :: areas) pages t)
      (fun _ _ => False) (fun _ => False) s :=
  wpr_map_furnished placed (zeroed ⟨va, block, size, r, w, x, true⟩) furnished archFree
    allocatorFree ⟨start, whole, some_, bounded⟩ inside few off
    (wpr_map_zeroed placed furnished.drawn less aligned bounded fresh zero va r w x)

theorem wpr_map_supervisor_furnished (placed : Placed plat) (pages : Nat) {va pa : Nat}
    (r w x : Bool)
    (furnished : Furnished plat scene held U areas
      (pages + 3 * tablesFor va (pageSize / pageSize)) s)
    (archFree : .arch ∉ held) (allocatorFree : .allocator ∉ held) (inside : va < usizeBound)
    (start : va % pageSize = 0) (bounded : pa + pageSize < usizeBound)
    (off : ∀ d ∈ areas.map Area.call,
      (zeroed ⟨va, pa, pageSize, r, w, x, false⟩).call.Apart d) :
    wpr (GlobalState.map plat scene.root va pa pageSize r w x false)
      (fun _ t => Furnished plat scene held U
        (zeroed ⟨va, pa, pageSize, r, w, x, false⟩ :: areas) pages t)
      (fun _ _ => False) (fun _ => False) s :=
  wpr_map_furnished placed (zeroed ⟨va, pa, pageSize, r, w, x, false⟩) furnished archFree
    allocatorFree ⟨start, Nat.mod_self pageSize, Nat.succ_ne_zero _, bounded⟩ inside
    (by change pageSize / pageSize ≤ _; decide) off
    (wpr_map_supervisor placed furnished.drawn _ (by change pa < usizeBound; omega) rfl)

theorem Furnished.reframed {t : GlobalState} (furnished : Furnished plat scene held U areas pages s)
    (reframed : scene.Reframed s t) : Furnished plat scene held U areas pages t := by
  refine ⟨furnished.drawn.reframed reframed, ?_, ?_⟩
  all_goals rcases reframed with ⟨m, rfl, -⟩
  · exact furnished.roomy
  · exact furnished.held

theorem wp_storeField_furnished {halts : Halt → Prop}
    (furnished : Furnished plat scene held U areas pages s) (offset value : Nat)
    (low : offset + 8 ≤ pageSize) :
    wp (storeWord (scene.trapframe + offset) value)
      (fun _ t => Furnished plat scene held U areas pages t) halts s :=
  wp_weaken (wp_storeField_reframed offset value low s) (fun _ _ => furnished.reframed)

/-- The calls for single pages have nothing in common with each other, nor with that for the stack. -/
theorem single_apart {va va' pa pa' : Nat} (r w x u r' w' x' u' : Bool)
    (other : vpn va ≠ vpn va') :
    MapCall.Apart ⟨va, pa, pageSize, r, w, x, u⟩ ⟨va', pa', pageSize, r', w', x', u'⟩ := by
  have single : pageSize / pageSize = 1 := by decide
  intro j low l low'
  change j < pageSize / pageSize at low
  change l < pageSize / pageSize at low'
  rw [single, Nat.lt_one_iff] at low low'
  rw [low, low', page_zero, page_zero]
  exact other

theorem single_apart_stack {va pa : Nat} (r w x u : Bool) (stack : Nat)
    (above : 2 ^ 36 - 6 ≤ vpn va) :
    MapCall.Apart ⟨va, pa, pageSize, r, w, x, u⟩ (stackArea stack).call := by
  have single : pageSize / pageSize = 1 := by decide
  intro j low l low'
  change j < pageSize / pageSize at low
  rw [stack_pages] at low'
  rw [single, Nat.lt_one_iff] at low
  rw [low, page_zero, stack_page stack l low']
  simp only
  omega

theorem wpr_mapOtherPages_furnished (placed : Placed plat)
    (furnished : Furnished plat scene held U [] (pages + 21) s) (archFree : .arch ∉ held)
    (allocatorFree : .allocator ∉ held) {address : Nat}
    (known : kernelStackAddress scene.pid = .ok address) :
    wpr (mapOtherPages plat scene.root scene.pid)
      (fun _ t => ∃ U' areas', Furnished plat scene held U' areas' pages t)
      (fun _ _ => False) (fun _ => False) s := by
  have code : plat.trampolineCodeAddress + pageSize < usizeBound :=
    Nat.lt_of_le_of_lt placed.trampoline furnished.drawn.bounded.1
  have stackTables : tablesFor stackStart (stackPages * pageSize / pageSize) = 1 := by decide
  have oneTable : ∀ va ∈ [trampoline, trapframeVa, kucomPage],
      tablesFor va (pageSize / pageSize) = 1 := by decide
  have codeTables := oneTable trampoline (by simp)
  have frameTables := oneTable trapframeVa (by simp)
  have kucomTables := oneTable kucomPage (by simp)
  rcases page_numbers with ⟨top, frame, error⟩
  rw [mapOtherPages]
  simp only [wpr_bind, wpr_lift]
  apply wp_unwrapResult
  apply wpr_weaken (wpr_allocate_furnished placed (pages + 13) furnished allocatorFree
    (by decide : pageSize ≤ stackPages * pageSize) (by decide))
  case fails => exact fun _ _ failed => failed.elim
  rintro stack s₁ ⟨furnished₁, aligned₁, bounded₁, fresh₁, zero₁⟩
  apply wpr_weaken (wpr_map_zeroed_furnished placed (pages + 10) true true false
    (furnished₁.less (by rw [stackTables])) archFree allocatorFree furnished.drawn.blocks aligned₁
    bounded₁ fresh₁ zero₁ (by decide) (by decide) (by decide) (by decide) (by decide)
    (fun _ none_ => by cases none_))
  case fails => exact fun _ _ failed => failed.elim
  intro _ s₂ furnished₂
  rw [wp_liftRust, known]
  change wp _ _ _ _
  rw [wp_modifyObject, wp_getObject]
  have furnished₃ := furnished₂.restage (fun process => { process with kernelStack := address })
    (fun _ => ⟨rfl, rfl⟩) scene.pid
  rw [furnished₃.drawn.trapframe]
  apply wp_weaken (wp_storeField_furnished furnished₃ TrapFrame.sp _ (by decide))
  intro _ s₄ furnished₄
  apply wpr_weaken (wpr_map_supervisor_furnished placed (pages + 7) true false true
    (furnished₄.less (by rw [codeTables])) archFree allocatorFree (by decide) (by decide) code ?codeOff)
  case fails => exact fun _ _ failed => failed.elim
  case codeOff =>
    exact List.forall_mem_singleton.mpr (single_apart_stack _ _ _ _ stack (by rw [top]; decide))
  intro _ s₅ furnished₅
  apply wpr_weaken (wpr_map_supervisor_furnished placed (pages + 4) true true false
    (furnished₅.less (by rw [frameTables])) archFree allocatorFree (by decide) (by decide)
    furnished₅.drawn.frame_bounded ?frameOff)
  case fails => exact fun _ _ failed => failed.elim
  case frameOff =>
    exact List.forall_mem_cons.mpr ⟨single_apart _ _ _ _ _ _ _ _ (by rw [frame, top]; decide),
      List.forall_mem_singleton.mpr (single_apart_stack _ _ _ _ stack (by rw [frame]; decide))⟩
  intro _ s₆ furnished₆
  apply wpr_weaken (wpr_allocate_furnished placed (pages + 3) furnished₆ allocatorFree
    (le_refl pageSize) (Nat.mod_self pageSize))
  case fails => exact fun _ _ failed => failed.elim
  rintro errorPage s₇ ⟨furnished₇, aligned₇, bounded₇, fresh₇, zero₇⟩
  apply wpr_weaken (wpr_map_zeroed_furnished placed pages true true false
    (furnished₇.less (by rw [kucomTables])) archFree allocatorFree furnished₆.drawn.blocks aligned₇
    bounded₇ fresh₇ zero₇ (by decide) (by decide) (by decide) (by decide) (by decide) ?kucomOff)
  case fails => exact fun _ _ failed => failed.elim
  case kucomOff =>
    exact List.forall_mem_cons.mpr ⟨single_apart _ _ _ _ _ _ _ _ (by rw [error, frame]; decide),
      List.forall_mem_cons.mpr ⟨single_apart _ _ _ _ _ _ _ _ (by rw [error, top]; decide),
        List.forall_mem_singleton.mpr (single_apart_stack _ _ _ _ stack (by rw [error]; decide))⟩⟩
  intro _ s₈ furnished₈
  apply wp_weaken (wp_storeField_furnished furnished₈ TrapFrame.kernelPageTable _ (by decide))
  intro _ s₉ furnished₉
  apply wp_weaken (wp_storeField_furnished furnished₉ TrapFrame.kernelStack _ (by decide))
  exact fun _ _ furnished₁₀ => ⟨_, _, furnished₁₀⟩

theorem wpr_loadImage_furnished (placed : Placed plat) {image : List UInt8} {elf : ElfFile}
    (parsed : plat.minimalParse image = some elf) (headers : elf.segments = some [])
    (furnished : Furnished plat scene held U [] (pages + 21) s) (archFree : .arch ∉ held)
    (allocatorFree : .allocator ∉ held) {address : Nat}
    (known : kernelStackAddress scene.pid = .ok address) :
    wpr (loadImage plat scene.pid scene.root scene.trapframe image)
      (fun _ t => ∃ U' areas', Furnished plat scene held U' areas' pages t)
      (fun _ _ => False) (fun _ => False) s := by
  rw [loadImage, parsed, wpr_bind, wpr_lift]
  apply wp_weaken (wp_initialiseTrapframe_reframed plat scene.root s)
  intro _ s₁ reframed
  rw [wpr_bind, okOr, wpr_pure, headers, wpr_bind, okOr, wpr_pure, wpr_bind, loadSegments, wpr_pure,
    wpr_bind, wpr_lift]
  apply wp_weaken (wp_storeField_furnished (furnished.reframed reframed) TrapFrame.sepc _ (by decide))
  intro _ s₂ furnished₂
  rw [wpr_lift]
  apply wp_expectResult
  exact wpr_mapOtherPages_furnished placed furnished₂ archFree allocatorFree known

end Steps

theorem Drawn.intact {plat : Platform} {scene : Scene} {U : Set Nat} {areas : List Area}
    {s : GlobalState} (drawn : Drawn plat scene U areas s) : AllocatorIntact plat s := by
  rcases drawn.rooted.2 with ⟨free, live, owner, ledger⟩
  exact ⟨⟨free, live, ledger.wf⟩, ledger.start⟩

structure Provisioned (plat : Platform) (pages : Nat) (s : GlobalState) : Prop where
  idle : s.Idle
  intact : AllocatorIntact plat s
  roomy : s.Roomy pages

section Creation

variable {plat : Platform} {pages : Nat} {s : GlobalState}

theorem wpr_assignProcess_roomy (placed : Placed plat) (provisioned : Provisioned plat (pages + 23) s)
    (name : List UInt8) {image : List UInt8} {elf : ElfFile}
    (parsed : plat.minimalParse image = some elf) (headers : elf.segments = some [])
    (small : s.pid + 1 < usizeBound) {address : Nat}
    (known : kernelStackAddress (s.pid + 1) = .ok address) :
    wpr (assignProcess plat name image) (fun _ t => AllocatorIntact plat t ∧ t.Roomy pages)
      (fun _ _ => False) (fun _ => False) s := by
  rcases provisioned.intact with ⟨⟨free, live, wf⟩, start⟩
  have idle := provisioned.idle
  have unlocked : .allocator ∉ s.held := by simp [idle.held]
  rw [assignProcess]
  simp only [wpr_bind, wpr_lift]
  apply wp_unwrapResult
  have roomy : s.Roomy (pages + 22 + pageSize / pageSize) := provisioned.roomy
  apply wpr_weaken (wpr_allocate_roomy wf unlocked (le_refl pageSize) (Nat.mod_self pageSize) roomy)
  case fails => exact fun _ _ failed => failed.elim
  rintro root s₁ ⟨⟨free₁, first⟩, rest₁, roomy₁⟩
  have unlocked₁ : .allocator ∉ s₁.held := by
    rw [rest₁]
    exact unlocked
  apply wp_unwrapResult
  replace roomy₁ : s₁.Roomy (pages + 21 + pageSize / pageSize) := roomy₁
  apply wpr_weaken (wpr_allocate_roomy first.wellFormed unlocked₁ (le_refl pageSize)
    (Nat.mod_self pageSize) roomy₁)
  case fails => exact fun _ _ failed => failed.elim
  rintro trapframe s₂ ⟨⟨free₂, second⟩, rest₂, roomy₂⟩
  have pid : s₂.pid = s.pid := by rw [rest₂, rest₁]
  have idle₂ : s₂.Idle := by
    rw [rest₂, rest₁]
    exact ⟨idle.held, idle.numReaders⟩
  apply wp_nextPid_of
  case overflows => exact fun large => large (pid ▸ small)
  intro _
  rw [wp_modifyObject]
  refine wp_weaken (wp_addProcess_idle (s₂.pid + 1) ?idle) ?weaker
  case idle => exact ⟨idle₂.held, idle₂.numReaders⟩
  rintro _ s₃ rfl
  rw [wpr_guarded _ _ _ _ (by simp [idle₂.held]), buildProcess, wpr_bind, wpr_lift,
    wp_modifyObject]
  have loads := @wpr_loadImage_furnished plat (Scene.solitary (s₂.pid + 1) root trapframe)
    [.process (s₂.pid + 1)] ∅ pages
  refine wpr_mono (loads placed parsed headers ?furnished (by simp) (by simp) (pid ▸ known)) ?_
    (fun _ _ failed => failed) fun _ stopped => stopped
  case furnished =>
    refine ⟨drawn_nil placed wf start first second rfl rfl ?_ ?_, roomy₂, ?_⟩
    · simp only [Function.update_self]
      rfl
    · simp only [Function.update_self]
      rfl
    · simp only [idle₂.held]
  rintro _ t ⟨U, areas, furnished⟩
  rw [wpr_pure]
  exact ⟨furnished.drawn.intact, furnished.roomy⟩

theorem wpr_assignProcess_provisioned (placed : Placed plat)
    (provisioned : Provisioned plat (pages + 23) s) (name : List UInt8) {image : List UInt8}
    {elf : ElfFile} (parsed : plat.minimalParse image = some elf) (headers : elf.segments = some [])
    (small : s.pid + 1 < usizeBound) {address : Nat}
    (known : kernelStackAddress (s.pid + 1) = .ok address) :
    wpr (assignProcess plat name image)
      (fun child t => child = s.pid + 1 ∧ t.pid = s.pid + 1 ∧ Provisioned plat pages t)
      (fun _ _ => False) (fun _ => False) s := by
  have tolerant : Tolerant fun _ => True := fun _ _ => trivial
  apply wpr_mono (wpr_and (wpr_assignProcess_roomy placed provisioned name parsed headers small known)
    (wp_assignProcess tolerant plat name image provisioned.idle.held))
  · rintro child t ⟨⟨intact, roomy⟩, isNext, created⟩
    have held : t.held = s.held := congrArg View.held created
    have numReaders : t.numReaders = s.numReaders := congrArg View.numReaders created
    refine ⟨isNext, congrArg View.pid created, ⟨?_, ?_⟩, intact, roomy⟩
    · exact held.trans provisioned.idle.held
    · exact numReaders.trans provisioned.idle.numReaders
  · exact fun _ _ failed => failed.1
  · exact fun _ stopped => stopped.1

/-- `n` processes in a row, all of which are created. -/
theorem run_of_provisioned (placed : Placed plat) (name : List UInt8) {image : List UInt8}
    {elf : ElfFile} (parsed : plat.minimalParse image = some elf) (headers : elf.segments = some [])
    (n : Nat) (provisioned : Provisioned plat (pages + 23 * n) s) (few : s.pid + n < 2 ^ 32) :
    ∃ t trace, Run (Machine.Steps plat) ⟨s, .scheduler⟩ trace ⟨t, .scheduler⟩ ∧
      trace.map Prod.snd = List.replicate n (.assign name image) ∧
      (∀ step ∈ trace, ∃ child u, (assignProcess plat name image).run step.1.kernel =
        .ok (.ok child, u)) ∧
      t.pid = s.pid + n ∧ Provisioned plat pages t := by
  induction n generalizing s with
  | zero => exact ⟨s, [], .nil, rfl, List.forall_mem_nil _, rfl, provisioned⟩
  | succ n ih =>
      have now : Provisioned plat (pages + 23 * n + 23) s := by
        rw [Nat.add_assoc]
        exact provisioned
      have spec := wpr_assignProcess_provisioned placed now name parsed headers
        (by simp only [usizeBound]; omega) (kernelStackAddress_eq (by omega))
      rcases succeeded_of_wpr spec with ⟨child, u, created, -, pid, provisioned'⟩
      rcases ih provisioned' (by omega) with ⟨t, trace, run, events, all, counted, left⟩
      have step : Machine.Steps plat ⟨s, .scheduler⟩ (.assign name image) ⟨u, .scheduler⟩ := by
        refine ⟨_, rfl, ?_⟩
        change ((assignProcess plat name image).run s >>=
          fun r => (pure Mode.scheduler : Kernel Mode) r.2) = _
        rw [created]
        rfl
      refine ⟨t, _, (Run.single step).append run, ?_, ?_, ?_, left⟩
      · rw [List.map_append, events]
        rfl
      · exact List.forall_mem_cons.mpr ⟨⟨child, u, created⟩, all⟩
      · omega

end Creation

end Jangri
