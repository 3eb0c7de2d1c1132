import Jangri.Kernel.HeapStart
import Jangri.Kernel.Stock
import Mathlib.Order.CompletePartialOrder

namespace Jangri

open Lib

/-- A call of `map` together with the bytes in the frames. What is in frames that user mode cannot
reach is left open. -/
structure Area where
  call : MapCall
  byte : Nat → UInt8

def MapCall.block (c : MapCall) : Set Nat := {x | c.user = true ∧ c.pa ≤ x ∧ x < c.pa + c.size}

theorem MapCall.block_of_user {c : MapCall} (user : c.user = true) :
    c.block = Set.Ico c.pa (c.pa + c.size) := by
  ext x
  exact ⟨fun inside => inside.2, fun inside => ⟨user, inside⟩⟩

def Area.Shown (area : Area) (m : Memory) : Prop :=
  ∀ k < area.call.size, m (area.call.pa + k) = area.byte k

structure Drawn (plat : Platform) (scene : Scene) (U : Set Nat) (areas : List Area) (s : GlobalState) :
    Prop where
  rooted : Rooted (Accounted plat scene U scene.frame) scene.root s
  charted : Charted scene.root (areas.map Area.call) s.memory
  blocks : ∀ c ∈ areas.map Area.call, c.block ⊆ U
  frames : ∀ c ∈ areas.map Area.call, c.user = true → c.pa % pageSize = 0
  disjoint : (areas.map Area.call).Pairwise fun c d => Disjoint c.block d.block
  shown : ∀ area ∈ areas, area.call.user = true → area.Shown s.memory
  root : (s.object scene.pid).pageTable = scene.root
  trapframe : (s.object scene.pid).trapframe = scene.trapframe

section Steps

variable {plat : Platform} {scene : Scene} {U : Set Nat} {areas : List Area} {s : GlobalState}

theorem Drawn.inside (drawn : Drawn plat scene U areas s) {area : Area} (present : area ∈ areas)
    (user : area.call.user = true) {k : Nat} (low : k < area.call.size) : area.call.pa + k ∈ U :=
  drawn.blocks _ (List.mem_map_of_mem present) ⟨user, by omega, by omega⟩

/-- Memory outside of the tree and of the areas may change. -/
theorem Drawn.same (drawn : Drawn plat scene U areas s) {t : GlobalState} {U' : Set Nat}
    (more : U ⊆ U') (same : SameOn {x | TablePage s.memory scene.root x} s t)
    (kept : ∀ x ∈ U, t.memory x = s.memory x)
    (accounted : Accounted plat scene U' scene.frame {x | TablePage s.memory scene.root x} t)
    (object : t.object scene.pid = s.object scene.pid) : Drawn plat scene U' areas t := by
  have page : {x | TablePage t.memory scene.root x} = {x | TablePage s.memory scene.root x} :=
    Set.ext (tablePage_congr _ _ scene.root same)
  refine ⟨⟨drawn.rooted.1.congr _ same, ?_⟩, ?_, ?_, drawn.frames, drawn.disjoint, ?_, ?_, ?_⟩
  · rw [← page] at accounted
    exact accounted
  · exact drawn.charted.congr _ (leafAt_congr _ _ scene.root same)
  · exact fun c present => (drawn.blocks c present).trans more
  · intro area present user k low
    rw [kept _ (drawn.inside present user low)]
    exact drawn.shown area present user k low
  · rw [object]
    exact drawn.root
  · rw [object]
    exact drawn.trapframe

theorem Drawn.tables_same (drawn : Drawn plat scene U areas s) (m : Memory)
    (changed : ∀ x, m x ≠ s.memory x → x ∈ U ∨ x ∈ scene.frame) :
    SameOn {x | TablePage s.memory scene.root x} s { s with memory := m } := by
  rcases drawn.rooted.2 with ⟨free, live, owner, ledger⟩
  intro t page x low high
  by_contra different
  have known := ledger.pages t page
  have table : Held live owner (.table scene.pid) x := ⟨_, known.1, known.2, low, high⟩
  rcases changed x different with user | frame
  · cases held_unique ledger.wf (ledger.granted x user) table
  · cases held_unique ledger.wf (ledger.framed x frame) table

theorem Drawn.write (drawn : Drawn plat scene U areas s) (m : Memory)
    (changed : ∀ x, m x ≠ s.memory x → x ∈ U ∨ x ∈ scene.frame) (areas' : List Area)
    (calls : areas'.map Area.call = areas.map Area.call)
    (shown : ∀ area ∈ areas', area.call.user = true → area.Shown m) :
    Drawn plat scene U areas' { s with memory := m } := by
  rcases drawn.rooted.2 with ⟨free, live, owner, ledger⟩
  have same := drawn.tables_same m changed
  have page : {x | TablePage m scene.root x} = {x | TablePage s.memory scene.root x} :=
    Set.ext (tablePage_congr _ _ scene.root same)
  have accounted : Accounted plat scene U scene.frame {x | TablePage s.memory scene.root x}
      { s with memory := m } := by
    refine ⟨free, live, owner, ledger.write ?_⟩
    intro x different
    rcases changed x different with user | frame
    · exact ⟨_, ledger.granted x user, rfl⟩
    · exact ⟨_, ledger.framed x frame, rfl⟩
  have charted := drawn.charted.congr _ (leafAt_congr _ m scene.root same)
  have blocks := drawn.blocks
  have frames := drawn.frames
  have disjoint := drawn.disjoint
  rw [← calls] at charted blocks frames disjoint
  refine ⟨⟨drawn.rooted.1.congr _ same, ?_⟩, charted, blocks, frames, disjoint, shown, drawn.root,
    drawn.trapframe⟩
  rw [← page] at accounted
  exact accounted

theorem Drawn.congr (drawn : Drawn plat scene U areas s) {t : GlobalState}
    (allocator : t.allocator = s.allocator) (memory_ : t.memory = s.memory)
    (root : (t.object scene.pid).pageTable = (s.object scene.pid).pageTable)
    (trapframe : (t.object scene.pid).trapframe = (s.object scene.pid).trapframe) :
    Drawn plat scene U areas t := by
  refine ⟨?_, ?_, drawn.blocks, drawn.frames, drawn.disjoint, ?_, root.trans drawn.root,
    trapframe.trans drawn.trapframe⟩
  · have rooted := drawn.rooted
    unfold Rooted Accounted at *
    rw [show memory t = memory s from memory_, memory_, allocator]
    exact rooted
  · rw [memory_]
    exact drawn.charted
  · rw [memory_]
    exact drawn.shown

theorem Drawn.not_frame (drawn : Drawn plat scene U areas s) {x : Nat} (inside : x ∈ U) :
    x ∉ scene.frame := by
  rcases drawn.rooted.2 with ⟨free, live, owner, ledger⟩
  intro frame
  cases held_unique ledger.wf (ledger.granted x inside) (ledger.framed x frame)

theorem wpr_allocate_drawn (placed : Placed plat) (drawn : Drawn plat scene U areas s) (size : Nat) :
    wpr (GlobalState.allocate size)
      (fun a t => Drawn plat scene (U ∪ Set.Ico a (a + size)) areas t ∧ a % pageSize = 0 ∧
        a + size < usizeBound ∧ Disjoint (Set.Ico a (a + size)) U ∧
        ∀ x, a ≤ x → x < a + size → t.memory x = 0)
      (fun _ _ => True) Any s := by
  rcases drawn.rooted.2 with ⟨free, live, owner, ledger⟩
  apply wpr_weaken (wpr_allocateBlock ledger.wf size)
  case fails => exact fun _ _ _ => trivial
  rintro a t ⟨⟨free', allocated⟩, rest⟩
  have block := allocated.wellFormed.live_inside ⟨a, size⟩ List.mem_cons_self
  have bounded := allocated.wellFormed.bounded
  have aligned := allocated.wellFormed.aligned ⟨a, size⟩ (by simp)
  have start := allocated.memoryStart.trans ledger.start
  refine ⟨?_, ?_, ?_, ?_, allocated.zeroed⟩
  · apply drawn.same Set.subset_union_left
    · intro x page y low high
      have known := ledger.pages x page
      exact allocated.frame y (not_unused_of_held ledger.wf ⟨_, known.1, known.2, low, high⟩)
    · intro x inside
      exact allocated.frame x (not_unused_of_held ledger.wf (ledger.granted x inside))
    · exact ⟨free', _, _, ledger.allocateUser allocated⟩
    · rw [rest]
  · rw [start, placed.aligned] at aligned
    exact aligned
  · simp only at block
    omega
  · rw [Set.disjoint_left]
    intro x new old
    rcases ledger.granted x old with ⟨b, present, -, inside⟩
    exact Ledger.fresh_block allocated b present x inside new

theorem wpr_map_drawn (placed : Placed plat) (drawn : Drawn plat scene U areas s) (area : Area)
    (small : area.call.pa < usizeBound) (inside : area.call.block ⊆ U)
    (fresh : ∀ c ∈ areas.map Area.call, Disjoint area.call.block c.block)
    (frames : area.call.user = true → area.call.pa % pageSize = 0)
    (shown : area.call.user = true → area.Shown s.memory) :
    wpr (GlobalState.map plat scene.root area.call.va area.call.pa area.call.size area.call.read
        area.call.write area.call.execute area.call.user)
      (fun _ t => Drawn plat scene U (area :: areas) t) (fun _ _ => True) Any s := by
  have locked : Rooted (fun T t => Accounted plat scene U scene.frame T t ∧
      Steady (U ∪ scene.frame) s t) scene.root { s with held := .arch :: s.held } := by
    refine ⟨drawn.rooted.1, drawn.rooted.2, rfl, fun _ _ => rfl⟩
  have charted : Charted scene.root (areas.map Area.call)
      (memory { s with held := .arch :: s.held }) := drawn.charted
  apply wpr_guarded_any
  apply wpr_weaken (call_charted (arch plat) (accountedSource placed scene U scene.frame s) area.call
    small locked charted)
  case fails => exact fun _ _ _ => trivial
  rintro - t ⟨rooted, chart, -⟩
  have steady := rooted.2.2
  refine ⟨⟨rooted.1, rooted.2.1⟩, chart, ?_, ?_, ?_, ?_, ?_, ?_⟩
  · intro c present
    rcases List.mem_cons.mp present with rfl | before
    · exact inside
    · exact drawn.blocks c before
  · intro c present
    rcases List.mem_cons.mp present with rfl | before
    · exact frames
    · exact drawn.frames c before
  · exact List.pairwise_cons.mpr ⟨fresh, drawn.disjoint⟩
  · intro other present user k low
    rcases List.mem_cons.mp present with rfl | before
    · rw [steady.memory _ (Or.inl (inside ⟨user, by omega, by omega⟩))]
      exact shown user k low
    · rw [steady.memory _ (Or.inl (drawn.inside before user low))]
      exact drawn.shown other before user k low
  · change (t.object scene.pid).pageTable = _
    rw [steady.object]
    exact drawn.root
  · change (t.object scene.pid).trapframe = _
    rw [steady.object]
    exact drawn.trapframe

theorem Drawn.refill {area : Area} (drawn : Drawn plat scene U (area :: areas) s) (m : Memory)
    (byte : Nat → UInt8) (changed : ∀ x, m x ≠ s.memory x → x ∈ area.call.block)
    (shown : ∀ k < area.call.size, m (area.call.pa + k) = byte k) :
    Drawn plat scene U (⟨area.call, byte⟩ :: areas) { s with memory := m } := by
  have inside := drawn.blocks area.call List.mem_cons_self
  have apart := (List.pairwise_cons.mp drawn.disjoint).1
  apply drawn.write m (fun x different => Or.inl (inside (changed x different)))
    (⟨area.call, byte⟩ :: areas) rfl
  intro other present user k low
  rcases List.mem_cons.mp present with rfl | before
  · exact shown k low
  · have same : m (other.call.pa + k) = s.memory (other.call.pa + k) := by
      by_contra different
      have both := Set.disjoint_left.mp (apart _ (List.mem_map_of_mem before)) (changed _ different)
      exact both ⟨user, by omega, by omega⟩
    rw [same]
    exact drawn.shown other (List.mem_cons_of_mem _ before) user k low

theorem Drawn.writeFrame (drawn : Drawn plat scene U areas s) (m : Memory)
    (changed : ∀ x, m x ≠ s.memory x → x ∈ scene.frame) :
    Drawn plat scene U areas { s with memory := m } := by
  apply drawn.write m (fun x different => Or.inr (changed x different)) _ rfl
  intro area present user k low
  have same : m (area.call.pa + k) = s.memory (area.call.pa + k) := by
    by_contra different
    exact drawn.not_frame (drawn.inside present user low) (changed _ different)
  rw [same]
  exact drawn.shown area present user k low

end Steps

def ProgramHeader.byte (segment : ProgramHeader) (image : List UInt8) (k : Nat) : UInt8 :=
  if k < segment.pFilesz then image.getD (segment.pOffset + k) 0 else 0

def ProgramHeader.area (segment : ProgramHeader) (image : List UInt8) (pt : Nat) : Area where
  call :=
    { va := segment.start
      pa := pt
      size := wholePages segment.pMemsz
      read := segment.pFlags &&& pfR != 0
      write := segment.pFlags &&& pfW != 0
      execute := segment.pFlags &&& pfX != 0
      user := true }
  byte := segment.byte image

def zeroed (call : MapCall) : Area := ⟨call, fun _ => 0⟩

def stackArea (stack : Nat) : Area :=
  zeroed ⟨stackStart, stack, stackPages * pageSize, true, true, false, true⟩

def trampolineArea (plat : Platform) : Area :=
  zeroed ⟨trampoline, plat.trampolineCodeAddress, pageSize, true, false, true, false⟩

def trapframeArea (trapframe : Nat) : Area :=
  zeroed ⟨trapframeVa, trapframe, pageSize, true, true, false, false⟩

def kucomArea (errorPage : Nat) : Area :=
  zeroed ⟨kucomPage, errorPage, pageSize, true, true, false, true⟩

structure Laid (image : List UInt8) (segments : List ProgramHeader) (areas : List Area) : Prop where
  each : ∀ segment ∈ segments, ∃ pt, segment.area image pt ∈ areas
  only : ∀ area ∈ areas, ∃ segment ∈ segments, ∃ pt, area = segment.area image pt

theorem Laid.nil (image : List UInt8) : Laid image [] [] where
  each := fun _ none_ => by cases none_
  only := fun _ none_ => by cases none_

theorem Laid.cons {image : List UInt8} {segment : ProgramHeader} {segments : List ProgramHeader}
    {areas : List Area} {pt : Nat} (laid : Laid image segments areas) :
    Laid image (segment :: segments) (segment.area image pt :: areas) where
  each := by
    intro other present
    rcases List.mem_cons.mp present with rfl | before
    · exact ⟨pt, List.mem_cons_self⟩
    · rcases laid.each other before with ⟨pt', known⟩
      exact ⟨pt', List.mem_cons_of_mem _ known⟩
  only := by
    intro area present
    rcases List.mem_cons.mp present with rfl | before
    · exact ⟨segment, List.mem_cons_self, pt, rfl⟩
    · rcases laid.only area before with ⟨other, known, pt', same⟩
      exact ⟨other, List.mem_cons_of_mem _ known, pt', same⟩

section Loading

variable {plat : Platform} {scene : Scene} {U : Set Nat} {areas : List Area} {s : GlobalState}

theorem Drawn.restage (drawn : Drawn plat scene U areas s) (f : Process → Process)
    (same : ∀ process, (f process).pageTable = process.pageTable ∧
      (f process).trapframe = process.trapframe) (pid : Nat) :
    Drawn plat scene U areas
      { s with object := Function.update s.object pid (f (s.object pid)) } := by
  apply drawn.congr
  · rfl
  · rfl
  all_goals
    simp only [Function.update_apply]
    split
    next here =>
      rw [here]
      first | exact (same _).1 | exact (same _).2
    next => rfl

theorem getD_take_drop (image : List UInt8) (offset count k : Nat) (low : k < count) :
    ((image.drop offset).take count).getD k 0 = image.getD (offset + k) 0 := by
  simp only [List.getD_eq_getElem?_getD]
  rw [List.getElem?_take_of_lt low, List.getElem?_drop]

/-- Copying the file contents of a segment into its block. -/
theorem wp_copySegment_drawn {image : List UInt8} {segment : ProgramHeader} {pt : Nat}
    (fits : segment.pFilesz ≤ wholePages segment.pMemsz)
    (drawn : Drawn plat scene U (⟨(segment.area image pt).call, fun _ => 0⟩ :: areas) s) :
    wp (copySegment image segment pt)
      (fun _ t => Drawn plat scene U (segment.area image pt :: areas) t) Any s := by
  rw [copySegment]
  simp only [wp_bind]
  apply wp_liftRust_any
  intro _ _
  apply wp_liftRust_any
  intro stop added
  apply wp_liftRust_any
  intro bytes sliced
  rcases (usizeAdd_eq_ok _ _ _).mp added with ⟨-, rfl⟩
  unfold sliceImage at sliced
  split at sliced
  next inside =>
    have taken := (Except.ok.inj sliced).symm
    rw [Nat.add_sub_cancel_left] at taken
    have length : bytes.length = segment.pFilesz := by
      rw [taken, List.length_take, List.length_drop]
      omega
    have zero := drawn.shown _ List.mem_cons_self rfl
    rw [wp_def]
    apply drawn.refill (s.memory.store pt bytes) (segment.byte image)
    · intro x different
      have within : pt ≤ x ∧ x < pt + bytes.length := by
        by_contra outside
        exact different (if_neg outside)
      rw [MapCall.block_of_user rfl]
      change pt ≤ x ∧ x < pt + wholePages segment.pMemsz
      omega
    · intro k low
      change s.memory.store pt bytes (pt + k) = _
      by_cases file : k < segment.pFilesz
      · have here : s.memory.store pt bytes (pt + k) = bytes.getD (pt + k - pt) 0 :=
          if_pos ⟨by omega, by omega⟩
        rw [here, Nat.add_sub_cancel_left, taken, getD_take_drop _ _ _ _ file,
          ProgramHeader.byte, if_pos file]
      · have here : s.memory.store pt bytes (pt + k) = s.memory (pt + k) := if_neg (by omega)
        rw [here, ProgramHeader.byte, if_neg file]
        exact zero k low
  next => cases sliced

theorem wpr_loadSegment_drawn (placed : Placed plat) {image : List UInt8} {segment : ProgramHeader}
    (fits : segment.pFilesz ≤ segment.pMemsz) (drawn : Drawn plat scene U areas s) :
    wpr (loadSegment plat scene.pid scene.root image segment)
      (fun _ t => ∃ U' pt, Drawn plat scene U' (segment.area image pt :: areas) t) (fun _ _ => True)
      Any s := by
  rw [loadSegment]
  simp only [wpr_bind, wpr_lift]
  apply wp_liftRust_any
  intro codePageStart rounded
  apply wp_liftRust_any
  intro memsz roundedSize
  rw [alignToPageSize_wholePages rounded, alignToPageSize_wholePages roundedSize]
  apply wpr_weaken (wpr_allocate_drawn placed drawn (wholePages segment.pMemsz))
  case fails => exact fun _ _ _ => trivial
  rintro pt s₁ ⟨drawn₁, aligned, bounded, fresh, zero⟩
  have block : (segment.area image pt).call.block = Set.Ico pt (pt + wholePages segment.pMemsz) :=
    MapCall.block_of_user rfl
  apply wpr_weaken (wpr_map_drawn placed drawn₁ ⟨(segment.area image pt).call, fun _ => 0⟩
    (by change pt < usizeBound; omega) ?inside ?disjoint (fun _ => aligned) ?shown)
  case fails => exact fun _ _ _ => trivial
  case inside =>
    rw [block]
    exact Set.subset_union_right
  case disjoint =>
    intro c present
    rw [block]
    exact fresh.mono_right (drawn.blocks c present)
  case shown => exact fun _ k low => zero _ (Nat.le_add_right _ _) (Nat.add_lt_add_left low _)
  intro _ s₂ drawn₂
  apply wp_weaken (wp_copySegment_drawn (fits.trans (le_wholePages segment.pMemsz)) drawn₂)
  intro _ s₃ drawn₃
  rw [wp_getObject]
  apply wp_liftRust_any
  intro heapStart _
  rw [wp_modifyObject]
  exact ⟨_, pt, drawn₃.restage (fun process => { process with heapStart }) (fun _ => ⟨rfl, rfl⟩) _⟩

theorem wpr_loadSegments_drawn (placed : Placed plat) {image : List UInt8}
    (segments : List ProgramHeader)
    (fits : ∀ segment ∈ loadable segments, segment.pFilesz ≤ segment.pMemsz) {done : List ProgramHeader}
    (laid : Laid image done areas) (drawn : Drawn plat scene U areas s) :
    wpr (loadSegments plat scene.pid scene.root image segments)
      (fun _ t => ∃ U' areas' done', Drawn plat scene U' areas' t ∧ Laid image done' areas' ∧
        ∀ segment, segment ∈ done' ↔ segment ∈ done ∨ segment ∈ loadable segments)
      (fun _ _ => True) Any s := by
  induction segments generalizing s U areas done with
  | nil =>
      rw [loadSegments, wpr_pure]
      exact ⟨U, areas, done, drawn, laid, fun segment => by simp [loadable]⟩
  | cons segment rest ih =>
      have loads : wpr (loadIfLoadable plat scene.pid scene.root image segment)
          (fun _ t => ∃ U' areas' done', Drawn plat scene U' areas' t ∧ Laid image done' areas' ∧
            ∀ other, other ∈ done' ↔ other ∈ done ∨ other = segment ∧ segment.pType = ptLoad)
          (fun _ _ => True) Any s := by
        unfold loadIfLoadable
        by_cases load : segment.pType = ptLoad
        · rw [if_pos load]
          have member : segment ∈ loadable (segment :: rest) := by
            simp [loadable, load]
          apply wpr_weaken (wpr_loadSegment_drawn placed (fits segment member) drawn)
          · rintro - t ⟨U', pt, drawn'⟩
            refine ⟨U', _, _, drawn', laid.cons, ?_⟩
            intro other
            simp only [List.mem_cons, load, and_true]
            exact or_comm
          · exact fun _ _ h => h
        · rw [if_neg load, wpr_pure]
          refine ⟨U, areas, done, drawn, laid, ?_⟩
          intro other
          simp only [load, and_false, or_false]
      rw [loadSegments, wpr_bind]
      apply wpr_weaken loads
      case fails => exact fun _ _ _ => trivial
      rintro - t ⟨U₁, areas₁, done₁, drawn₁, laid₁, now⟩
      rw [wpr_bind, wpr_lift, wp_modifyObject]
      have reset := drawn₁.restage resetHeapEnd (fun _ => ⟨rfl, rfl⟩) scene.pid
      apply wpr_weaken (ih (fun other present => fits other ?later) laid₁ reset)
      case fails => exact fun _ _ _ => trivial
      case later =>
        rw [loadable, List.mem_filter] at present ⊢
        exact ⟨List.mem_cons_of_mem _ present.1, present.2⟩
      rintro - u ⟨U₂, areas₂, done₂, drawn₂, laid₂, all⟩
      refine ⟨U₂, areas₂, done₂, drawn₂, laid₂, ?_⟩
      intro other
      rw [all, now]
      simp only [loadable, List.mem_filter, List.mem_cons, decide_eq_true_eq]
      constructor
      · rintro ((before | ⟨rfl, load⟩) | ⟨later, load⟩)
        · exact Or.inl before
        · exact Or.inr ⟨Or.inl rfl, load⟩
        · exact Or.inr ⟨Or.inr later, load⟩
      · rintro (before | ⟨rfl | later, load⟩)
        · exact Or.inl (Or.inl before)
        · exact Or.inl (Or.inr ⟨rfl, load⟩)
        · exact Or.inr ⟨later, load⟩

def Scene.Reframed (scene : Scene) (s t : GlobalState) : Prop :=
  ∃ m, t = { s with memory := m } ∧ ∀ x, m x ≠ s.memory x → x ∈ scene.frame

theorem Scene.Reframed.trans {t u : GlobalState} (first : scene.Reframed s t)
    (second : scene.Reframed t u) : scene.Reframed s u := by
  rcases first with ⟨m, rfl, inside⟩
  rcases second with ⟨m', rfl, inside'⟩
  refine ⟨m', rfl, fun x different => ?_⟩
  by_cases before : m x = s.memory x
  · exact inside' x fun same => different (same.trans before)
  · exact inside x before

theorem Drawn.reframed {t : GlobalState} (drawn : Drawn plat scene U areas s)
    (reframed : scene.Reframed s t) : Drawn plat scene U areas t := by
  rcases reframed with ⟨m, rfl, inside⟩
  exact drawn.writeFrame m inside

theorem wp_storeField_reframed {halts : Halt → Prop} (offset value : Nat)
    (low : offset + 8 ≤ pageSize) (s : GlobalState) :
    wp (storeWord (scene.trapframe + offset) value) (fun _ t => scene.Reframed s t) halts s := by
  rw [wp_def]
  refine ⟨_, rfl, fun x different => ?_⟩
  have within : scene.trapframe + offset ≤ x ∧ x < scene.trapframe + offset + 8 := by
    by_contra outside
    exact different (if_neg outside)
  exact ⟨by omega, by omega⟩

theorem wp_initialiseTrapframe_reframed {halts : Halt → Prop} (plat : Platform) (pageTable : Nat)
    (s : GlobalState) :
    wp (initialiseTrapframe plat scene.trapframe pageTable) (fun _ t => scene.Reframed s t) halts s := by
  rw [initialiseTrapframe, wp_bind, wp_def]
  have reframed₁ : scene.Reframed s
      { s with memory := s.memory.store scene.trapframe (List.replicate TrapFrame.bytes 0) } := by
    refine ⟨_, rfl, fun x different => ?_⟩
    have within : scene.trapframe ≤ x ∧
        x < scene.trapframe + (List.replicate TrapFrame.bytes (0 : UInt8)).length := by
      by_contra outside
      exact different (if_neg outside)
    rw [List.length_replicate, TrapFrame.bytes] at within
    exact ⟨within.1, by simp only [pageSize]; omega⟩
  change wp _ _ _ _
  rw [wp_bind]
  apply wp_weaken (wp_storeField_reframed TrapFrame.pageTable _ (by decide) _)
  intro _ s₂ reframed₂
  rw [wp_bind]
  apply wp_weaken (wp_storeField_reframed TrapFrame.satp _ (by decide) s₂)
  intro _ s₃ reframed₃
  rw [wp_bind]
  apply wp_weaken (wp_storeField_reframed TrapFrame.kernelPageTable _ (by decide) s₃)
  intro _ s₄ reframed₄
  apply wp_weaken (wp_storeField_reframed TrapFrame.userTrapAddress _ (by decide) s₄)
  intro _ s₅ reframed₅
  exact (((reframed₁.trans reframed₂).trans reframed₃).trans reframed₄).trans reframed₅

theorem wp_storeField_drawn {halts : Halt → Prop} (drawn : Drawn plat scene U areas s)
    (offset value : Nat) (low : offset + 8 ≤ pageSize) :
    wp (storeWord (scene.trapframe + offset) value) (fun _ t => Drawn plat scene U areas t) halts s :=
  wp_weaken (wp_storeField_reframed offset value low s) (fun _ _ => drawn.reframed)

theorem wp_initialiseTrapframe_drawn (drawn : Drawn plat scene U areas s) :
    wp (initialiseTrapframe plat scene.trapframe scene.root)
      (fun _ t => Drawn plat scene U areas t) Any s :=
  wp_mono (wp_initialiseTrapframe_reframed plat scene.root s) (fun _ _ => drawn.reframed)
    fun _ h => h

theorem Drawn.bounded (drawn : Drawn plat scene U areas s) :
    plat.kernelEnd < usizeBound ∧ scene.trapframe < usizeBound := by
  rcases drawn.rooted.2 with ⟨free, live, owner, ledger⟩
  rcases ledger.framed scene.trapframe ⟨le_refl _, Nat.lt_add_of_pos_right (by decide)⟩ with
    ⟨b, present, -, inside⟩
  have block := ledger.wf.live_inside b present
  have bounded := ledger.wf.bounded
  have bump := ledger.wf.bump
  have start := ledger.start
  have low := inside.1
  have high := inside.2
  exact ⟨by omega, by omega⟩

theorem wpr_map_supervisor (placed : Placed plat) (drawn : Drawn plat scene U areas s) (area : Area)
    (small : area.call.pa < usizeBound) (restricted : area.call.user = false) :
    wpr (GlobalState.map plat scene.root area.call.va area.call.pa area.call.size area.call.read
        area.call.write area.call.execute area.call.user)
      (fun _ t => Drawn plat scene U (area :: areas) t) (fun _ _ => True) Any s := by
  have none_ : area.call.block = ∅ := by
    ext x
    simp [MapCall.block, restricted]
  have noUser : area.call.user ≠ true := by simp [restricted]
  apply wpr_map_drawn placed drawn area small
  · rw [none_]
    exact Set.empty_subset _
  · intro c _
    rw [none_]
    exact Set.empty_disjoint _
  · exact fun user => absurd user noUser
  · exact fun user => absurd user noUser

theorem wpr_map_zeroed (placed : Placed plat) {size : Nat} {block : Nat}
    (drawn : Drawn plat scene (U ∪ Set.Ico block (block + size)) areas s)
    (less : ∀ c ∈ areas.map Area.call, c.block ⊆ U) (aligned : block % pageSize = 0)
    (bounded : block + size < usizeBound) (fresh : Disjoint (Set.Ico block (block + size)) U)
    (zero : ∀ x, block ≤ x → x < block + size → s.memory x = 0) (va : Nat) (r w x : Bool) :
    wpr (GlobalState.map plat scene.root va block size r w x true)
      (fun _ t => Drawn plat scene (U ∪ Set.Ico block (block + size))
        (zeroed ⟨va, block, size, r, w, x, true⟩ :: areas) t) (fun _ _ => True) Any s := by
  have isBlock : (zeroed ⟨va, block, size, r, w, x, true⟩).call.block =
      Set.Ico block (block + size) := MapCall.block_of_user rfl
  apply wpr_map_drawn placed drawn (zeroed ⟨va, block, size, r, w, x, true⟩)
    (by change block < usizeBound; omega)
  · rw [isBlock]
    exact Set.subset_union_right
  · intro c present
    rw [isBlock]
    exact fresh.mono_right (less c present)
  · exact fun _ => aligned
  · exact fun _ k low => zero _ (Nat.le_add_right _ _) (Nat.add_lt_add_left low _)

theorem wpr_mapOtherPages_drawn (placed : Placed plat) (drawn : Drawn plat scene U areas s) :
    wpr (mapOtherPages plat scene.root scene.pid)
      (fun _ t => ∃ U' stack errorPage, Drawn plat scene U' (kucomArea errorPage ::
        trapframeArea scene.trapframe :: trampolineArea plat :: stackArea stack :: areas) t)
      (fun _ _ => True) Any s := by
  have code := placed.trampoline
  rw [mapOtherPages]
  simp only [wpr_bind, wpr_lift]
  apply wp_unwrapResult_any
  apply wpr_weaken (wpr_allocate_drawn placed drawn _)
  case fails => exact fun _ _ _ => trivial
  rintro stack s₁ ⟨drawn₁, aligned₁, bounded₁, fresh₁, zero₁⟩
  apply wpr_weaken (wpr_map_zeroed placed drawn₁ drawn.blocks aligned₁ bounded₁ fresh₁ zero₁ stackStart
    true true false)
  case fails => exact fun _ _ _ => trivial
  intro _ s₂ drawn₂
  apply wp_liftRust_any
  intro kernelStack _
  rw [wp_modifyObject, wp_getObject]
  have drawn₃ := drawn₂.restage (fun process => { process with kernelStack }) (fun _ => ⟨rfl, rfl⟩)
    scene.pid
  rw [drawn₃.trapframe]
  apply wp_weaken (wp_storeField_drawn drawn₃ TrapFrame.sp _ (by decide))
  intro _ s₄ drawn₄
  apply wpr_weaken (wpr_map_supervisor placed drawn₄ (trampolineArea plat) ?code rfl)
  case fails => exact fun _ _ _ => trivial
  case code =>
    have bounded := drawn₄.bounded.1
    change plat.trampolineCodeAddress < usizeBound
    omega
  intro _ s₅ drawn₅
  apply wpr_weaken (wpr_map_supervisor placed drawn₅ (trapframeArea scene.trapframe) drawn₅.bounded.2 rfl)
  case fails => exact fun _ _ _ => trivial
  intro _ s₆ drawn₆
  apply wpr_weaken (wpr_allocate_drawn placed drawn₆ _)
  case fails => exact fun _ _ _ => trivial
  rintro errorPage s₇ ⟨drawn₇, aligned₇, bounded₇, fresh₇, zero₇⟩
  apply wpr_weaken (wpr_map_zeroed placed drawn₇ drawn₆.blocks aligned₇ bounded₇ fresh₇ zero₇ kucomPage
    true true false)
  case fails => exact fun _ _ _ => trivial
  intro _ s₈ drawn₈
  apply wp_weaken (wp_storeField_drawn drawn₈ TrapFrame.kernelPageTable _ (by decide))
  intro _ s₉ drawn₉
  apply wp_weaken (wp_storeField_drawn drawn₉ TrapFrame.kernelStack _ (by decide))
  exact fun _ _ drawn₁₀ => ⟨_, stack, errorPage, drawn₁₀⟩

/-- The areas of a process that has been created from an image. -/
structure Outfit (plat : Platform) (image : List UInt8) (segments : List ProgramHeader)
    (trapframe : Nat) (areas : List Area) : Prop where
  shape : ∃ stack errorPage own, areas = kucomArea errorPage :: trapframeArea trapframe ::
    trampolineArea plat :: stackArea stack :: own ∧ Laid image segments own

theorem wpr_loadImage_drawn (placed : Placed plat) {image : List UInt8} {elf : ElfFile}
    {segments : List ProgramHeader} (parsed : plat.minimalParse image = some elf)
    (headers : elf.segments = some segments)
    (fits : ∀ segment ∈ loadable segments, segment.pFilesz ≤ segment.pMemsz)
    (drawn : Drawn plat scene U [] s) :
    wpr (loadImage plat scene.pid scene.root scene.trapframe image)
      (fun _ t => ∃ U' areas', Drawn plat scene U' areas' t ∧
        Outfit plat image (loadable segments) scene.trapframe areas')
      (fun _ _ => True) Any s := by
  rw [loadImage, parsed, wpr_bind, wpr_lift]
  apply wp_weaken (wp_initialiseTrapframe_drawn drawn)
  intro _ s₁ drawn₁
  rw [wpr_bind, okOr, wpr_pure, headers, wpr_bind, okOr, wpr_pure, wpr_bind]
  apply wpr_weaken (wpr_loadSegments_drawn placed segments fits (Laid.nil image) drawn₁)
  case fails => exact fun _ _ _ => trivial
  rintro - s₂ ⟨U₂, areas₂, done, drawn₂, laid, all⟩
  have same : ∀ segment, segment ∈ done ↔ segment ∈ loadable segments := by
    intro segment
    rw [all]
    simp
  have outfit : Laid image (loadable segments) areas₂ :=
    ⟨fun segment present => laid.each segment ((same segment).mpr present), by
      intro area present
      rcases laid.only area present with ⟨segment, known, pt, isArea⟩
      exact ⟨segment, (same segment).mp known, pt, isArea⟩⟩
  rw [wpr_bind, wpr_lift]
  apply wp_weaken (wp_storeField_drawn drawn₂ TrapFrame.sepc _ (by decide))
  intro _ s₃ drawn₃
  rw [wpr_lift]
  apply wp_expectResult
  apply wpr_weaken (wpr_mapOtherPages_drawn placed drawn₃)
  case fails => exact fun _ _ _ => trivial
  rintro - t ⟨U', stack, errorPage, drawn'⟩
  exact ⟨U', _, drawn', stack, errorPage, areas₂, rfl, outfit⟩

end Loading

def AllocatorIntact (plat : Platform) (s : GlobalState) : Prop :=
  (∃ free live, s.allocator.WellFormed s.memory free live) ∧
    s.allocator.memoryStart = plat.kernelEnd

theorem Separated.allocatorIntact {plat : Platform} {s : GlobalState} (separated : Separated plat s) :
    AllocatorIntact plat s := by
  rcases separated.isolated with ⟨free, live, owner, isolated⟩
  exact ⟨⟨free, live, isolated.wf⟩, isolated.start⟩

section Creation

variable {plat : Platform} {s : GlobalState}

theorem root_zeroed {free free₁ free₂ : Nat → List Nat} {live : List Block}
    {alloc alloc₁ alloc₂ : PageAllocator} {m m₁ m₂ : Memory} {root trapframe : Nat}
    (first : PageAllocator.Allocated alloc alloc₁ m m₁ free free₁ live pageSize root)
    (second : PageAllocator.Allocated alloc₁ alloc₂ m₁ m₂ free₁ free₂
      (⟨root, pageSize⟩ :: live) pageSize trapframe) :
    ∀ x, root ≤ x → x < root + pageSize → m₂ x = 0 := by
  intro x low high
  have held : 0 < cover (⟨root, pageSize⟩ :: live) x :=
    (cover_pos_iff _ x).mpr ⟨⟨root, pageSize⟩, List.mem_cons_self, low, high⟩
  rw [second.frame x (first.wellFormed.not_unused_of_live x held)]
  exact first.zeroed x low high

theorem drawn_nil (placed : Placed plat) {free free₁ free₂ : Nat → List Nat} {live : List Block}
    {alloc₁ alloc₂ : PageAllocator} {m₁ m₂ : Memory} {root trapframe pid : Nat} {t : GlobalState}
    (wf : s.allocator.WellFormed s.memory free live) (start : s.allocator.memoryStart = plat.kernelEnd)
    (first : PageAllocator.Allocated s.allocator alloc₁ s.memory m₁ free free₁ live pageSize root)
    (second : PageAllocator.Allocated alloc₁ alloc₂ m₁ m₂ free₁ free₂
      (⟨root, pageSize⟩ :: live) pageSize trapframe)
    (allocator : t.allocator = alloc₂) (memory_ : t.memory = m₂)
    (isRoot : (t.object pid).pageTable = root) (isFrame : (t.object pid).trapframe = trapframe) :
    Drawn plat (Scene.solitary pid root trapframe) ∅ [] t := by
  subst allocator memory_
  have ledger : Ledger plat (Scene.solitary pid root trapframe) ∅ ∅ ∅ s.allocator s.memory free live
      fun _ => .kernel :=
    { wf := wf
      start := start
      pages := fun _ member => member.elim
      granted := fun _ member => member.elim
      framed := fun _ member => member.elim
      frames := fun _ known => by cases known
      spaces := fun _ known => by cases known
      foreign := fun _ far => far.elim
      untouched := fun _ far => far.elim }
  have ledger₁ := ledger.allocatePage first
  have ledger₂ := ledger₁.allocateFrame second
  rw [Set.empty_union, insert_empty_eq] at ledger₂
  have zero : ∀ x, root ≤ x → x < root + pageSize → t.memory x = 0 := root_zeroed first second
  have aligned : root % pageSize = 0 := by
    have block := first.wellFormed.aligned ⟨root, pageSize⟩ (by simp)
    rw [first.memoryStart.trans start, placed.aligned] at block
    exact block
  have bounded : root < usizeBound := by
    have block := first.wellFormed.live_inside ⟨root, pageSize⟩ List.mem_cons_self
    have high := first.wellFormed.bounded
    simp only [pageSize] at block
    omega
  refine ⟨rooted_of_zero aligned bounded t zero ⟨free₂, _, _, ledger₂⟩,
    Charted.nil fun va => leafAt_of_zero t.memory root zero va, ?_, ?_, List.Pairwise.nil, ?_, isRoot,
    isFrame⟩
  · exact fun _ none_ => by cases none_
  · exact fun _ none_ => by cases none_
  · exact fun _ none_ => by cases none_

/-- The address space of a process that has been created from an image. -/
theorem wpr_assignProcess_drawn (placed : Placed plat) (intact : AllocatorIntact plat s) (name : List UInt8)
    {image : List UInt8} {elf : ElfFile} {segments : List ProgramHeader}
    (parsed : plat.minimalParse image = some elf) (headers : elf.segments = some segments)
    (fits : ∀ segment ∈ loadable segments, segment.pFilesz ≤ segment.pMemsz) :
    wpr (assignProcess plat name image)
      (fun child t => ∃ trapframe U areas,
        Drawn plat (Scene.solitary child (t.object child).pageTable trapframe) U areas t ∧
        Outfit plat image (loadable segments) trapframe areas)
      (fun _ _ => True) Any s := by
  rcases intact with ⟨⟨free, live, wf⟩, start⟩
  rw [assignProcess]
  simp only [wpr_bind, wpr_lift]
  apply wp_unwrapResult_any
  apply wpr_weaken (wpr_allocateBlock wf pageSize)
  case fails => exact fun _ _ _ => trivial
  rintro root s₁ ⟨⟨free₁, first⟩, rest₁⟩
  apply wp_unwrapResult_any
  apply wpr_weaken (wpr_allocateBlock first.wellFormed pageSize)
  case fails => exact fun _ _ _ => trivial
  rintro trapframe s₂ ⟨⟨free₂, second⟩, rest₂⟩
  apply wp_nextPid fun _ _ => trivial
  rw [wp_modifyObject]
  apply wp_addProcess_any
  intro pids held
  apply wpr_guarded_any
  rw [buildProcess, wpr_bind, wpr_lift, wp_modifyObject]
  have loads := @wpr_loadImage_drawn plat (Scene.solitary (s₂.pid + 1) root trapframe)
  apply wpr_mono (loads placed parsed headers fits (drawn_nil placed wf start first second ?_ ?_ ?_ ?_))
  · rintro - t ⟨U, areas, drawn, outfit⟩
    rw [wpr_pure]
    refine ⟨trapframe, U, areas, ?_, outfit⟩
    have isRoot : (t.object (s₂.pid + 1)).pageTable = root := drawn.root
    rw [isRoot]
    exact drawn.congr rfl rfl rfl rfl
  · exact fun _ _ _ => trivial
  · exact fun _ h => h
  · rfl
  · rfl
  · simp only [Function.update_self]
    rfl
  · simp only [Function.update_self]
    rfl

end Creation

end Jangri
