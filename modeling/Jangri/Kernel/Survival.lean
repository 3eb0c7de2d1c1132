import Jangri.Kernel.Fidelity
import Jangri.Kernel.Foresight
import Jangri.Kernel.Queue

namespace Jangri

open Lib

def loadSegmentWith (copy : ProgramHeader → Nat → Nat → Kernel Unit) (plat : Platform)
    (pid pageTable : Nat) (segment : ProgramHeader) : KernelResult Unit := do
  let codePageStart ← (liftRust (alignToPageSize segment.pVaddr) : Kernel Nat)
  let memsz ← (liftRust (alignToPageSize segment.pMemsz) : Kernel Nat)
  let pt ← GlobalState.allocate memsz
  GlobalState.map plat pageTable codePageStart pt memsz (segment.pFlags &&& pfR != 0)
    (segment.pFlags &&& pfW != 0) (segment.pFlags &&& pfX != 0) true
  (copy segment pt memsz : Kernel Unit)
  let process ← (getObject pid : Kernel Process)
  let heapStart ← (liftRust (raiseHeap process.heapStart codePageStart) : Kernel Nat)
  (modifyObject pid ({ · with heapStart }) : Kernel Unit)

def loadIfLoadableWith (copy : ProgramHeader → Nat → Nat → Kernel Unit) (plat : Platform)
    (pid pageTable : Nat) (segment : ProgramHeader) : KernelResult Unit :=
  if segment.pType = ptLoad then loadSegmentWith copy plat pid pageTable segment else pure ()

def loadSegmentsWith (copy : ProgramHeader → Nat → Nat → Kernel Unit) (plat : Platform)
    (pid pageTable : Nat) : (segments : List ProgramHeader) → KernelResult Unit
  | [] => pure ()
  | segment :: rest => do
      loadIfLoadableWith copy plat pid pageTable segment
      (modifyObject pid resetHeapEnd : Kernel Unit)
      loadSegmentsWith copy plat pid pageTable rest

def loadImageWith (copy : ProgramHeader → Nat → Nat → Kernel Unit) (plat : Platform)
    (pid pageTable trapframe : Nat) (image : List UInt8) : KernelResult Unit := do
  (initialiseTrapframe plat trapframe pageTable : Kernel Unit)
  let elf ← okOr (plat.minimalParse image) .elfError
  let segments ← okOr elf.segments .elfError
  loadSegmentsWith copy plat pid pageTable segments
  (storeWord (trapframe + TrapFrame.sepc) elf.entry : Kernel Unit)
  (expectResult "PROCESS CREATION FAILED - ERROR WHILE MAPPING PAGES"
    (mapOtherPages plat pageTable pid) : Kernel Unit)

def buildProcessWith (copy : ProgramHeader → Nat → Nat → Kernel Unit) (plat : Platform)
    (pid pageTable trapframe : Nat) (name image : List UInt8) : KernelResult Unit := do
  (modifyObject pid (prepared name pageTable trapframe) : Kernel Unit)
  loadImageWith copy plat pid pageTable trapframe image

def assignProcessWith (copy : ProgramHeader → Nat → Nat → Kernel Unit) (plat : Platform)
    (name image : List UInt8) : KernelResult Nat := do
  let pageTable ← (unwrapResult (GlobalState.allocate pageSize) : Kernel Nat)
  let trapframe ← (unwrapResult (GlobalState.allocate pageSize) : Kernel Nat)
  let pid ← (nextPid : Kernel Nat)
  (modifyObject pid (fun _ => Process.default pid) : Kernel Unit)
  (GlobalState.addProcess pid : Kernel Unit)
  guarded (.process pid) (buildProcessWith copy plat pid pageTable trapframe name image)
  pure pid

def plainCopy (image : List UInt8) (segment : ProgramHeader) (pt _memsz : Nat) : Kernel Unit :=
  copySegment image segment pt

def checkedCopy (image : List UInt8) (segment : ProgramHeader) (pt memsz : Nat) : Kernel Unit := do
  liftRust (assert (segment.pFilesz ≤ memsz) "copy outside of the block")
  copySegment image segment pt

theorem loadSegmentsWith_plainCopy (plat : Platform) (pid pageTable : Nat) (image : List UInt8)
    (segments : List ProgramHeader) :
    loadSegmentsWith (plainCopy image) plat pid pageTable segments =
      loadSegments plat pid pageTable image segments := by
  induction segments with
  | nil => rfl
  | cons segment rest ih =>
      rw [loadSegmentsWith, loadSegments, ih]
      rfl

theorem assignProcessWith_plainCopy (plat : Platform) (name image : List UInt8) :
    assignProcessWith (plainCopy image) plat name image = assignProcess plat name image := by
  unfold assignProcessWith assignProcess buildProcessWith buildProcess loadImageWith loadImage
  simp only [loadSegmentsWith_plainCopy]

section Checking

variable {copy copy' : ProgramHeader → Nat → Nat → Kernel Unit} {plat : Platform} {pid pageTable : Nat}

theorem mirrors_loadSegment (mirrors : ∀ segment pt memsz,
      Mirrors (copy' segment pt memsz) (copy segment pt memsz)) (segment : ProgramHeader) :
    Mirrors (loadSegmentWith copy' plat pid pageTable segment).run
      (loadSegmentWith copy plat pid pageTable segment).run := by
  apply Mirrors.run_bind (Mirrors.refl _)
  intro codePageStart
  apply Mirrors.run_bind (Mirrors.refl _)
  intro memsz
  apply Mirrors.run_bind (Mirrors.refl _)
  intro pt
  apply Mirrors.run_bind (Mirrors.refl _)
  intro _
  apply Mirrors.run_bind (mirrors segment pt memsz).run_lift
  intro _
  exact Mirrors.refl _

theorem mirrors_loadSegments (mirrors : ∀ segment pt memsz,
      Mirrors (copy' segment pt memsz) (copy segment pt memsz)) (segments : List ProgramHeader) :
    Mirrors (loadSegmentsWith copy' plat pid pageTable segments).run
      (loadSegmentsWith copy plat pid pageTable segments).run := by
  induction segments with
  | nil => exact Mirrors.refl _
  | cons segment rest ih =>
      have loads : Mirrors (loadIfLoadableWith copy' plat pid pageTable segment).run
          (loadIfLoadableWith copy plat pid pageTable segment).run := by
        unfold loadIfLoadableWith
        split
        · exact mirrors_loadSegment mirrors segment
        · exact Mirrors.refl _
      apply Mirrors.run_bind loads
      intro _
      apply Mirrors.run_bind (Mirrors.refl _)
      intro _
      exact ih

theorem mirrors_assignProcess (mirrors : ∀ segment pt memsz,
      Mirrors (copy' segment pt memsz) (copy segment pt memsz)) (name image : List UInt8) :
    Mirrors (assignProcessWith copy' plat name image).run
      (assignProcessWith copy plat name image).run := by
  apply Mirrors.run_bind (Mirrors.refl _)
  intro root
  apply Mirrors.run_bind (Mirrors.refl _)
  intro trapframe
  apply Mirrors.run_bind (Mirrors.refl _)
  intro pid
  apply Mirrors.run_bind (Mirrors.refl _)
  intro _
  apply Mirrors.run_bind (Mirrors.refl _)
  intro _
  have builds : Mirrors (buildProcessWith copy' plat pid root trapframe name image).run
      (buildProcessWith copy plat pid root trapframe name image).run := by
    apply Mirrors.run_bind (Mirrors.refl _)
    intro _
    apply Mirrors.run_bind (Mirrors.refl _)
    intro _
    apply Mirrors.run_bind (Mirrors.refl _)
    intro elf
    apply Mirrors.run_bind (Mirrors.refl _)
    intro segments
    apply Mirrors.run_bind (mirrors_loadSegments mirrors segments)
    intro _
    exact Mirrors.refl _
  have guards : Mirrors (guarded (.process pid)
        (buildProcessWith copy' plat pid root trapframe name image)).run
      (guarded (.process pid) (buildProcessWith copy plat pid root trapframe name image)).run := by
    apply Mirrors.bind (Mirrors.refl _)
    intro _
    apply builds.bind
    intro _
    exact Mirrors.refl _
  apply Mirrors.run_bind guards
  intro _
  exact Mirrors.refl _

theorem mirrors_checkedCopy (image : List UInt8) (segment : ProgramHeader) (pt memsz : Nat) :
    Mirrors (plainCopy image segment pt memsz) (checkedCopy image segment pt memsz) := by
  apply Mirrors.skip
  intro s r ran
  by_cases inside : segment.pFilesz ≤ memsz
  · rw [assert_of_true _ _ inside] at ran
    exact (Except.ok.inj ran).symm
  · rw [assert, if_neg inside] at ran
    cases ran

end Checking

/-- `assign_process` returns, and every copy that it makes stays inside of the block that was
allocated for its segment. That the source lies inside of the image is what slicing checks. -/
structure LoadsSafely (plat : Platform) (name image : List UInt8) (s : GlobalState) : Prop where
  returns : ∃ result t, (assignProcess plat name image).run s = .ok (result, t)
  inside : ∃ result t, (assignProcessWith (checkedCopy image) plat name image).run s = .ok (result, t)

structure ProgramHeader.InBounds (segment : ProgramHeader) (memsz length : Nat) : Prop where
  block : segment.pFilesz ≤ memsz
  slice : segment.pFilesz ≤ isizeMax
  sum : segment.pOffset + segment.pFilesz < usizeBound
  image : segment.pOffset + segment.pFilesz ≤ length

def Finishes (pid : Nat) (plan : Plan Pool) : Prop :=
  (plan.allocate stackPages).Leads fun plan =>
  (plan.map stackPages stackStart).Leads fun plan =>
  (∃ address, kernelStackAddress pid = .ok address) ∧
  (plan.map 1 trampoline).Leads fun plan =>
  (plan.map 1 trapframeVa).Leads fun plan =>
  (plan.allocate 1).Leads fun plan =>
  (plan.map 1 kucomPage).Leads fun _ => True

/-- The segments are loaded one after the other, up to the first one for which there is no memory or
the pages of which are already mapped: then `assign_process` returns `Err`. -/
def Survives (length pid : Nat) : List ProgramHeader → Plan Pool → (heapStart : Nat) → Prop
  | [], plan, _ => Finishes pid plan
  | segment :: rest, plan, heapStart =>
      if segment.pType = ptLoad then
        ∃ start memsz, alignToPageSize segment.pVaddr = .ok start ∧
          alignToPageSize segment.pMemsz = .ok memsz ∧ 0 < memsz ∧
          (plan.allocate (memsz / pageSize)).Allows fun plan =>
          (plan.map (memsz / pageSize) start).Allows fun plan =>
          segment.InBounds memsz length ∧
          ∃ heapStart', raiseHeap heapStart start = .ok heapStart' ∧
            Survives length pid rest plan heapStart'
      else Survives length pid rest plan heapStart

def Survivable (plat : Platform) (image : List UInt8) (pid : Nat) (pool : Pool) : Prop :=
  (Plan.allocate 1 ⟨[], pool⟩).Leads fun plan =>
  (plan.allocate 1).Leads fun plan =>
  pid + 1 < usizeBound ∧ ∀ elf segments, plat.minimalParse image = some elf →
    elf.segments = some segments →
    Survives image.length (pid + 1) segments plan (Process.default (pid + 1)).heapStart

section Copying

variable {image : List UInt8} {segment : ProgramHeader} {pt memsz : Nat} {s : GlobalState}

def ProgramHeader.contents (segment : ProgramHeader) (image : List UInt8) : List UInt8 :=
  (image.drop segment.pOffset).take segment.pFilesz

theorem copySegment_run (inBounds : segment.InBounds memsz image.length) (notNull : pt ≠ 0) :
    copySegment image segment pt s =
      .ok ((), { s with memory := s.memory.store pt (segment.contents image) }) := by
  have raw : fromRawParts pt segment.pFilesz = .ok () :=
    if_neg (not_or.mpr ⟨notNull, not_lt.mpr inBounds.slice⟩)
  have sum : usizeAdd segment.pOffset segment.pFilesz = .ok (segment.pOffset + segment.pFilesz) :=
    if_pos inBounds.sum
  have sliced : sliceImage image segment.pOffset (segment.pOffset + segment.pFilesz) =
      .ok (segment.contents image) := by
    rw [sliceImage, if_pos ⟨Nat.le_add_right _ _, inBounds.image⟩, Nat.add_sub_cancel_left]
    rfl
  have spec : wp (copySegment image segment pt)
      (fun _ t => t = { s with memory := s.memory.store pt (segment.contents image) })
      (fun _ => False) s := by
    rw [copySegment]
    simp only [wp_bind, wp_liftRust, raw, sum, sliced]
    rw [wp_def]
    rfl
  rcases returned_of_wp spec with ⟨_, t, ran, rfl⟩
  exact ran

/-- The copy is made where it stays in bounds, and stops everywhere else. -/
theorem wp_checkedCopy (notNull : pt ≠ 0) :
    wp (checkedCopy image segment pt memsz)
      (fun _ t => segment.InBounds memsz image.length ∧ copySegment image segment pt s = .ok ((), t))
      (fun _ => ¬ segment.InBounds memsz image.length) s := by
  by_cases inBounds : segment.InBounds memsz image.length
  · rw [checkedCopy, wp_bind, wp_liftRust, assert_of_true _ _ inBounds.block]
    change wp (copySegment image segment pt) _ _ _
    rw [wp_def, copySegment_run inBounds notNull]
    exact ⟨inBounds, rfl⟩
  · have any : (fun _ : Halt => ¬ segment.InBounds memsz image.length) = Any :=
      funext fun _ => eq_true inBounds
    rw [any, checkedCopy, copySegment]
    simp only [wp_bind]
    apply wp_liftRust_any
    intro _ block
    apply wp_liftRust_any
    intro _ raw
    apply wp_liftRust_any
    intro stop sum
    apply wp_liftRust_any
    intro bytes sliced
    exfalso
    apply inBounds
    rcases (usizeAdd_eq_ok _ _ _).mp sum with ⟨bounded, rfl⟩
    refine ⟨?_, ?_, bounded, ?_⟩
    · by_contra outside
      rw [assert, if_neg outside] at block
      cases block
    · by_contra outside
      rw [fromRawParts, if_pos (Or.inr (by omega))] at raw
      cases raw
    · by_contra outside
      rw [sliceImage, if_neg (by omega)] at sliced
      cases sliced

end Copying

section Segments

variable {plat : Platform} {scene : Scene} {held : List Lock} {U : Set Nat} {areas : List Area}
  {plan : Plan Pool} {heapStart : Nat} {s : GlobalState} {image : List UInt8} {length pid : Nat}
  {segment : ProgramHeader} {rest : List ProgramHeader}

theorem survives_loadable (load : segment.pType = ptLoad) {start memsz : Nat}
    (rounded : alignToPageSize segment.pVaddr = .ok start)
    (roundedSize : alignToPageSize segment.pMemsz = .ok memsz) :
    Survives length pid (segment :: rest) plan heapStart ↔ 0 < memsz ∧
      (plan.allocate (memsz / pageSize)).Allows fun plan =>
      (plan.map (memsz / pageSize) start).Allows fun plan =>
      segment.InBounds memsz length ∧
      ∃ heapStart', raiseHeap heapStart start = .ok heapStart' ∧
        Survives length pid rest plan heapStart' := by
  rw [Survives, if_pos load, rounded, roundedSize]
  constructor
  · rintro ⟨start', memsz', isStart, isSize, some_, served⟩
    rw [Except.ok.inj isStart, Except.ok.inj isSize]
    exact ⟨some_, served⟩
  · rintro ⟨some_, served⟩
    exact ⟨start, memsz, rfl, rfl, some_, served⟩

theorem wpr_allocate_zero (halts : Halt → Prop) (stops : ∀ e, halts e) :
    wpr (GlobalState.allocate 0) (fun _ _ => False) (fun _ _ => False) halts s := by
  have any : halts = Any := funext fun e => eq_true (stops e)
  rw [any, GlobalState.allocate]
  apply wpr_guarded_any
  unfold wpr
  rw [wp_def, allocatorAllocate, ExceptT.run_mk]
  have stopped : ∀ store, ∃ e, s.allocator.allocate store 0 = .error e := by
    intro store
    cases called : s.allocator.allocate store 0 with
    | error e => exact ⟨e, rfl⟩
    | ok result =>
        have big := (PageAllocator.allocate_small _ _ _ _ called).1
        simp only [pageSize] at big
        omega
  rcases stopped ⟨s.memory, s.nodeId⟩ with ⟨e, stopped⟩
  simp only [stopped]
  trivial

theorem wpr_fillSegment {U : Set Nat} {pt : Nat}
    (planned : Planned plat scene held (U ∪ Set.Ico pt (pt + wholePages segment.pMemsz))
      (⟨(segment.area image pt).call, fun _ => 0⟩ :: areas) plan heapStart s) (notNull : pt ≠ 0)
    (rest : List ProgramHeader) (pid : Nat) :
    wpr (do
        (checkedCopy image segment pt (wholePages segment.pMemsz) : Kernel Unit)
        let process ← (getObject scene.pid : Kernel Process)
        let heapStart ← (liftRust (raiseHeap process.heapStart segment.start) : Kernel Nat)
        (modifyObject scene.pid ({ · with heapStart }) : Kernel Unit) : KernelResult Unit)
      (fun _ t => ∃ areas' heapStart',
        Planned plat scene held (U ∪ Set.Ico pt (pt + wholePages segment.pMemsz)) areas' plan heapStart'
          t ∧
        (segment.InBounds (wholePages segment.pMemsz) image.length ∧
          (∃ heapStart', raiseHeap heapStart segment.start = .ok heapStart' ∧
            Survives image.length pid rest plan heapStart') ↔
          Survives image.length pid rest plan heapStart'))
      (fun _ _ => False)
      (fun _ => ¬ (segment.InBounds (wholePages segment.pMemsz) image.length ∧
        ∃ heapStart', raiseHeap heapStart segment.start = .ok heapStart' ∧
          Survives image.length pid rest plan heapStart')) s := by
  rw [wpr_bind, wpr_lift]
  apply wp_mono (wp_checkedCopy notNull)
  case stops => exact fun _ outside bounds => outside bounds.1
  rintro - t ⟨inBounds, copied⟩
  have planned' : Planned plat scene held (U ∪ Set.Ico pt (pt + wholePages segment.pMemsz))
      (segment.area image pt :: areas) plan heapStart t := by
    have drawn := wp_of_returns (wp_copySegment_drawn inBounds.block planned.drawn) copied
    rw [copySegment_run inBounds notNull] at copied
    have same := congrArg Prod.snd (Except.ok.inj copied)
    simp only at same
    rw [← same] at drawn ⊢
    apply planned.write _ drawn
    intro x different
    have length : (segment.contents image).length ≤ segment.pFilesz := List.length_take_le _ _
    have file := inBounds.block
    have inside : pt ≤ x ∧ x < pt + (segment.contents image).length := by
      by_contra outside
      exact different (if_neg outside)
    exact Or.inl (Or.inr ⟨inside.1, by omega⟩)
  rw [wpr_bind, wpr_lift, wp_getObject, planned'.heap, wpr_bind, wpr_lift, wp_liftRust]
  cases raised : raiseHeap heapStart segment.start with
  | error e =>
      rintro ⟨-, _, impossible, -⟩
      cases impossible
  | ok next =>
      change wpr (liftM (modifyObject _ _)) _ _ _ _
      rw [wpr_lift, wp_modifyObject]
      refine ⟨_, next, planned'.restage (fun process => { process with heapStart := next }) next
        (fun _ => ⟨rfl, rfl⟩) rfl, ?_⟩
      constructor
      · rintro ⟨-, heapStart', isNext, later⟩
        rw [Except.ok.inj isNext]
        exact later
      · exact fun later => ⟨inBounds, next, rfl, later⟩

theorem wpr_loadSegment_planned (placed : Placed plat)
    (planned : Planned plat scene held U areas plan heapStart s) (archFree : .arch ∉ held)
    (allocatorFree : .allocator ∉ held) (load : segment.pType = ptLoad)
    (rest : List ProgramHeader) (pid : Nat) :
    wpr (loadSegmentWith (checkedCopy image) plat scene.pid scene.root segment)
      (fun _ t => ∃ U' areas' plan' heapStart',
        Planned plat scene held U' areas' plan' heapStart' t ∧
        (Survives image.length pid (segment :: rest) plan heapStart ↔
          Survives image.length pid rest plan' heapStart'))
      (fun _ _ => Survives image.length pid (segment :: rest) plan heapStart)
      (fun _ => ¬ Survives image.length pid (segment :: rest) plan heapStart) s := by
  generalize whole : Survives image.length pid (segment :: rest) plan heapStart = survives
  rw [loadSegmentWith, wpr_bind, wpr_lift, wp_liftRust]
  cases rounded : alignToPageSize segment.pVaddr with
  | error e =>
      rw [← whole, Survives, if_pos load, rounded]
      rintro ⟨_, _, impossible, -⟩
      cases impossible
  | ok start =>
      change wpr (_ >>= _) _ _ _ _
      rw [wpr_bind, wpr_lift, wp_liftRust]
      cases roundedSize : alignToPageSize segment.pMemsz with
      | error e =>
          rw [← whole, Survives, if_pos load, roundedSize]
          rintro ⟨_, _, -, impossible, -⟩
          cases impossible
      | ok memsz =>
          change wpr (_ >>= _) _ _ _ _
          have needs := (Iff.of_eq whole).symm.trans (survives_loadable load rounded roundedSize)
          have size := alignToPageSize_wholePages roundedSize
          have place := alignToPageSize_wholePages rounded
          have startPage := alignToPageSize_spec _ _ rounded
          have sizePages := alignToPageSize_spec _ _ roundedSize
          by_cases empty : memsz = 0
          · have dead : ¬ survives := fun holds => by
              have positive := (needs.mp holds).1
              omega
            rw [empty, wpr_bind]
            apply wpr_weaken (wpr_allocate_zero (fun _ => ¬ survives) fun _ => dead)
            · exact fun _ _ impossible => impossible.elim
            · exact fun _ _ impossible => impossible.elim
          have big : pageSize ≤ memsz := by
            have multiple := sizePages.2.2.1
            simp only [pageSize] at *
            omega
          replace needs := needs.trans (and_iff_right (Nat.pos_of_ne_zero empty))
          refine wpr_mono (x := _ >>= _) (Foretold.allows (foretold_allocate placed planned allocatorFree
            big sizePages.2.2.1) ?placing) (fun _ _ done => done) (fun _ _ => needs.mpr)
            (fun _ => mt needs.mp)
          rintro plan₁ pt s₁ ⟨planned₁, notNull, aligned, bounded, fresh, zero⟩ served₁
          rw [served₁] at needs
          subst size place
          have call : MapCall.Sound (segment.area image pt).call :=
            ⟨startPage.2.2.1, sizePages.2.2.1, empty, bounded⟩
          have block : (segment.area image pt).call.block =
              Set.Ico pt (pt + wholePages segment.pMemsz) := MapCall.block_of_user rfl
          have drawn := wpr_map_drawn placed planned₁.drawn ⟨(segment.area image pt).call, fun _ => 0⟩
            (by change pt < usizeBound; omega) (by rw [block]; exact Set.subset_union_right)
            (fun c present => by rw [block]; exact fresh.mono_right (planned.drawn.blocks c present))
            (fun _ => aligned)
            (fun _ k low => zero _ (Nat.le_add_right _ _) (Nat.add_lt_add_left low _))
          apply Foretold.allows (foretold_map placed planned₁
            ⟨(segment.area image pt).call, fun _ => 0⟩ archFree allocatorFree call startPage.2.2.2 drawn)
          intro plan₂ _ s₂ planned₂ served₂
          change survives ↔ (plan₁.map (segment.area image pt).call.pages
            (segment.area image pt).call.va).Allows _ at needs
          rw [served₂] at needs
          apply wpr_weaken (wpr_fillSegment planned₂ notNull rest pid)
          · rintro - t ⟨areas', heapStart', planned', same⟩
            exact ⟨_, areas', plan₂, heapStart', planned', needs.trans same⟩
          · exact fun _ _ impossible => impossible.elim

theorem wpr_loadSegments_planned (placed : Placed plat)
    (planned : Planned plat scene held U areas plan heapStart s) (archFree : .arch ∉ held)
    (allocatorFree : .allocator ∉ held) (segments : List ProgramHeader) (pid : Nat) :
    wpr (loadSegmentsWith (checkedCopy image) plat scene.pid scene.root segments)
      (fun _ t => ∃ U' areas' plan' heapStart',
        Planned plat scene held U' areas' plan' heapStart' t ∧
        (Survives image.length pid segments plan heapStart ↔ Finishes pid plan'))
      (fun _ _ => Survives image.length pid segments plan heapStart)
      (fun _ => ¬ Survives image.length pid segments plan heapStart) s := by
  induction segments generalizing s U areas plan heapStart with
  | nil =>
      rw [loadSegmentsWith, wpr_pure]
      exact ⟨U, areas, plan, heapStart, planned, Iff.rfl⟩
  | cons segment rest ih =>
      have loads : wpr (loadIfLoadableWith (checkedCopy image) plat scene.pid scene.root segment)
          (fun _ t => ∃ U' areas' plan' heapStart',
            Planned plat scene held U' areas' plan' heapStart' t ∧
            (Survives image.length pid (segment :: rest) plan heapStart ↔
              Survives image.length pid rest plan' heapStart'))
          (fun _ _ => Survives image.length pid (segment :: rest) plan heapStart)
          (fun _ => ¬ Survives image.length pid (segment :: rest) plan heapStart) s := by
        unfold loadIfLoadableWith
        by_cases load : segment.pType = ptLoad
        · rw [if_pos load]
          exact wpr_loadSegment_planned placed planned archFree allocatorFree load rest pid
        · rw [if_neg load, wpr_pure]
          refine ⟨U, areas, plan, heapStart, planned, ?_⟩
          rw [Survives, if_neg load]
      rw [loadSegmentsWith, wpr_bind]
      apply wpr_mono loads
      case fails => exact fun _ _ survives => survives
      case stops => exact fun _ dead => dead
      rintro - t ⟨U₁, areas₁, plan₁, heapStart₁, planned₁, same⟩
      rw [wpr_bind, wpr_lift, wp_modifyObject]
      have reset := planned₁.restage resetHeapEnd heapStart₁ (fun _ => ⟨rfl, rfl⟩) planned₁.heap
      apply wpr_mono (ih reset)
      · rintro - u ⟨U₂, areas₂, plan₂, heapStart₂, planned₂, all⟩
        exact ⟨U₂, areas₂, plan₂, heapStart₂, planned₂, same.trans all⟩
      · exact fun _ _ => same.mpr
      · exact fun _ => mt same.mp

theorem Planned.reframed {t : GlobalState} (planned : Planned plat scene held U areas plan heapStart s)
    (reframed : scene.Reframed s t) : Planned plat scene held U areas plan heapStart t := by
  rcases reframed with ⟨m, rfl, inside⟩
  exact planned.write (fun x different => Or.inr (inside x different))
    (planned.drawn.writeFrame m inside)

theorem wp_storeField_planned {halts : Halt → Prop}
    (planned : Planned plat scene held U areas plan heapStart s) (offset value : Nat)
    (low : offset + 8 ≤ pageSize) :
    wp (storeWord (scene.trapframe + offset) value)
      (fun _ t => Planned plat scene held U areas plan heapStart t) halts s :=
  wp_weaken (wp_storeField_reframed offset value low s) (fun _ _ => planned.reframed)

theorem foretold_unwrap {π α β : Type} {answer : Answer π} {x : KernelResult α}
    {ok : π → α → GlobalState → Prop} (first : Foretold answer x ok s) (fails : Prop → Prop)
    {f : α → KernelResult β} {post : π → Prop}
    (rest : ∀ p a t, ok p a t →
      wpr (f a) (fun _ _ => post p) (fun _ _ => fails (post p)) (fun _ => ¬ post p) t) :
    wpr (liftM (unwrapResult x) >>= f) (fun _ _ => answer.Leads post)
      (fun _ _ => fails (answer.Leads post)) (fun _ => ¬ answer.Leads post) s := by
  rw [wpr_bind, wpr_lift]
  apply wp_unwrapResult
  apply wpr_mono first
  · rintro a t ⟨p, isServed, done⟩
    rw [isServed]
    exact rest p a t done
  · intro e t isRefused
    rw [isRefused]
    exact not_false
  · intro e isStuck
    rw [isStuck]
    exact not_false

theorem wpr_mapOtherPages_planned (placed : Placed plat)
    (planned : Planned plat scene held U areas plan heapStart s) (archFree : .arch ∉ held)
    (allocatorFree : .allocator ∉ held) :
    wpr (mapOtherPages plat scene.root scene.pid) (fun _ _ => Finishes scene.pid plan)
      (fun _ _ => ¬ Finishes scene.pid plan) (fun _ => ¬ Finishes scene.pid plan) s := by
  rw [mapOtherPages, Finishes]
  have stackBlock := foretold_allocate placed planned allocatorFree
    (by decide : pageSize ≤ stackPages * pageSize) (by decide)
  apply foretold_unwrap stackBlock Not
  rintro plan₁ stack s₁ ⟨planned₁, -, aligned₁, bounded₁, fresh₁, zero₁⟩
  apply Foretold.leads (foretold_map_zeroed placed planned₁ planned.drawn.blocks archFree allocatorFree
    aligned₁ bounded₁ fresh₁ zero₁ (by decide) (by decide) (by decide) (by decide) true true false)
  intro plan₂ _ s₂ planned₂
  rw [wpr_bind, wpr_lift, wp_liftRust]
  cases address : kernelStackAddress scene.pid with
  | error e =>
      rintro ⟨⟨_, impossible⟩, -⟩
      cases impossible
  | ok kernelStack =>
      change wpr (_ >>= _) _ _ _ _
      have rest := planned₂.restage (fun process => { process with kernelStack }) heapStart
        (fun _ => ⟨rfl, rfl⟩) planned₂.heap
      rw [wpr_bind, wpr_lift, wp_modifyObject, wpr_bind, wpr_lift, wp_getObject, rest.drawn.trapframe,
        wpr_bind, wpr_lift]
      apply wp_mono (wp_storeField_planned rest TrapFrame.sp _ (by decide))
      case stops => exact fun _ dead => dead
      intro _ s₃ planned₃
      have code : plat.trampolineCodeAddress + pageSize < usizeBound :=
        Nat.lt_of_le_of_lt placed.trampoline planned₃.drawn.bounded.1
      have known : ∃ address, (Except.ok kernelStack : Rust Nat) = .ok address := ⟨_, rfl⟩
      simp only [known, true_and]
      apply Foretold.leads (foretold_map_supervisor placed planned₃ archFree allocatorFree (by decide)
        (by decide) code true false true)
      intro plan₄ _ s₄ planned₄
      apply Foretold.leads (foretold_map_supervisor placed planned₄ archFree allocatorFree (by decide)
        (by decide) planned₄.drawn.frame_bounded true true false)
      intro plan₅ _ s₅ planned₅
      apply Foretold.leads (foretold_allocate placed planned₅ allocatorFree (le_refl pageSize)
        (Nat.mod_self pageSize))
      rintro plan₆ errorPage s₆ ⟨planned₆, -, aligned₆, bounded₆, fresh₆, zero₆⟩
      apply Foretold.leads (foretold_map_zeroed placed planned₆ planned₅.drawn.blocks archFree
        allocatorFree aligned₆ bounded₆ fresh₆ zero₆ (by decide) (by decide) (by decide) (by decide) true
        true false)
      intro plan₇ _ s₇ planned₇
      rw [wpr_bind, wpr_lift]
      apply wp_mono (wp_storeField_planned planned₇ TrapFrame.kernelPageTable _ (by decide))
      case stops => exact fun _ dead => dead
      intro _ s₈ planned₈
      rw [wpr_lift]
      apply wp_mono (wp_storeField_planned planned₈ TrapFrame.kernelStack _ (by decide))
      case stops => exact fun _ dead => dead
      exact fun _ _ _ => trivial

theorem wpr_loadImage_planned (placed : Placed plat)
    (planned : Planned plat scene held U areas plan heapStart s) (archFree : .arch ∉ held)
    (allocatorFree : .allocator ∉ held) :
    wpr (loadImageWith (checkedCopy image) plat scene.pid scene.root scene.trapframe image)
      (fun _ _ => ∀ elf segments, plat.minimalParse image = some elf → elf.segments = some segments →
        Survives image.length scene.pid segments plan heapStart)
      (fun _ _ => ∀ elf segments, plat.minimalParse image = some elf → elf.segments = some segments →
        Survives image.length scene.pid segments plan heapStart)
      (fun _ => ¬ ∀ elf segments, plat.minimalParse image = some elf →
        elf.segments = some segments → Survives image.length scene.pid segments plan heapStart) s := by
  rw [loadImageWith, wpr_bind, wpr_lift]
  apply wp_mono (wp_initialiseTrapframe_reframed plat scene.root s)
  case stops => exact fun _ impossible => impossible
  intro _ s₁ reframed
  have planned₁ := planned.reframed reframed
  cases parsed : plat.minimalParse image with
  | none =>
      rw [wpr_bind, okOr, wpr_throw]
      intro elf segments impossible
      cases impossible
  | some elf =>
      cases headers : elf.segments with
      | none =>
          rw [wpr_bind, okOr, wpr_pure, headers, wpr_bind, okOr, wpr_throw]
          intro elf' segments isElf isSegments
          rw [← Option.some.inj isElf, headers] at isSegments
          cases isSegments
      | some segments =>
          have known : (∀ elf' segments', some elf = some elf' → elf'.segments = some segments' →
              Survives image.length scene.pid segments' plan heapStart) ↔
              Survives image.length scene.pid segments plan heapStart := by
            constructor
            · exact fun all => all elf segments rfl headers
            · intro survives elf' segments' isElf isSegments
              rw [← Option.some.inj isElf, headers] at isSegments
              rw [← Option.some.inj isSegments]
              exact survives
          simp only [known]
          rw [wpr_bind, okOr, wpr_pure, headers, wpr_bind, okOr, wpr_pure, wpr_bind]
          apply wpr_mono (wpr_loadSegments_planned placed planned₁ archFree allocatorFree segments
            scene.pid)
          case fails => exact fun _ _ survives => survives
          case stops => exact fun _ dead => dead
          rintro - s₂ ⟨U₂, areas₂, plan₂, heapStart₂, planned₂, same⟩
          simp only [same]
          rw [wpr_bind, wpr_lift]
          apply wp_mono (wp_storeField_planned planned₂ TrapFrame.sepc _ (by decide))
          case stops => exact fun _ dead => dead
          intro _ s₃ planned₃
          rw [wpr_lift]
          exact wp_expectResult _ _ _
            (wpr_mapOtherPages_planned placed planned₃ archFree allocatorFree)

end Segments

section Creation

variable {plat : Platform} {s : GlobalState} {pool : Pool}

theorem wp_nextPid_of {halts : Halt → Prop} {post : Nat → GlobalState → Prop}
    (next : s.pid + 1 < usizeBound → post (s.pid + 1) { s with pid := s.pid + 1 })
    (overflows : ¬ s.pid + 1 < usizeBound → halts (.panic .overflow)) : wp nextPid post halts s := by
  have unfolded : nextPid s = (usizeAdd s.pid 1).map fun pid => (pid, { s with pid }) := rfl
  rw [wp_def, unfolded, usizeAdd]
  by_cases fits : s.pid + 1 < usizeBound
  · rw [if_pos fits]
    exact next fits
  · rw [if_neg fits]
    exact overflows fits

theorem foretold_allocate_page {plan : Plan Pool} {free : Nat → List Nat} {live : List Block}
    (known : plan.stock.Of s.allocator s.memory) (idle : s.held = [])
    (wf : s.allocator.WellFormed s.memory free live) :
    Foretold (plan.allocate 1) (GlobalState.allocate pageSize)
      (fun plan' a t => plan'.pages = plan.pages ∧ plan'.stock.Of t.allocator t.memory ∧
        (∃ free', PageAllocator.Allocated s.allocator t.allocator s.memory t.memory free free' live
          pageSize a) ∧
        t = { s with allocator := t.allocator, memory := t.memory, nodeId := t.nodeId }) s := by
  have foretold := foretold_globalAllocate known (by simp [idle]) (le_refl pageSize)
    (Nat.mod_self pageSize)
  apply (foretold.and (wpr_allocateBlock wf pageSize)).map
  rintro pool' a t ⟨⟨known', -⟩, allocated, rest⟩
  exact ⟨rfl, known', allocated, rest⟩

theorem wpr_assignProcess_planned (placed : Placed plat) (idle : s.Idle)
    (known : pool.Of s.allocator s.memory) (start : s.allocator.memoryStart = plat.kernelEnd)
    (name image : List UInt8) :
    wpr (assignProcessWith (checkedCopy image) plat name image)
      (fun _ _ => Survivable plat image s.pid pool) (fun _ _ => Survivable plat image s.pid pool)
      (fun _ => ¬ Survivable plat image s.pid pool) s := by
  rcases id known with ⟨free, live, wf, -⟩
  rw [assignProcessWith, Survivable]
  have empty : (Plan.stock ⟨[], pool⟩).Of s.allocator s.memory := known
  apply foretold_unwrap (foretold_allocate_page empty idle.held wf) id
  rintro plan₁ root s₁ ⟨pages₁, known₁, ⟨free₁, first⟩, rest₁⟩
  apply foretold_unwrap (foretold_allocate_page known₁ (by rw [rest₁]; exact idle.held)
    first.wellFormed) id
  rintro plan₂ trapframe s₂ ⟨pages₂, known₂, ⟨free₂, second⟩, rest₂⟩
  have pid : s₂.pid = s.pid := by rw [rest₂, rest₁]
  have idle₂ : s₂.Idle := by
    rw [rest₂, rest₁]
    exact ⟨idle.held, idle.numReaders⟩
  rw [wpr_bind, wpr_lift]
  apply wp_nextPid_of
  case overflows =>
    rw [pid]
    exact fun large holds => large holds.1
  rw [pid]
  intro small
  simp only [small, true_and]
  rw [wpr_bind, wpr_lift, wp_modifyObject, wpr_bind, wpr_lift]
  refine wp_mono (wp_addProcess_idle (s.pid + 1) ?idle) ?weaker fun _ dead => dead
  case idle => exact ⟨idle₂.held, idle₂.numReaders⟩
  rintro _ s₃ rfl
  rw [wpr_bind, wpr_guarded _ _ _ _ (by simp [idle₂.held]), buildProcessWith, wpr_bind, wpr_lift,
    wp_modifyObject]
  have loads := @wpr_loadImage_planned plat (Scene.solitary (s.pid + 1) root trapframe)
    [.process (s.pid + 1)] ∅ [] plan₂ (Process.default (s.pid + 1)).heapStart
  refine wpr_mono (loads placed ?planned (by simp) (by simp)) ?_ (fun _ _ survives => survives)
    fun _ dead => dead
  case planned =>
    refine ⟨drawn_nil placed wf start first second rfl rfl ?_ ?_, ?_, known₂, ?_, ?_⟩
    · simp only [Function.update_self]
      rfl
    · simp only [Function.update_self]
      rfl
    · rw [pages₂, pages₁]
      exact Grid.nil (root_zeroed first second)
    · simp only [Scene.solitary, Function.update_self]
      rfl
    · simp only [idle₂.held]
  intro _ t survives
  rw [wpr_pure]
  exact survives

end Creation

/-- Whether the loader is safe for an image is decided by its program headers and by the free memory
that the allocator knows of. -/
theorem loads_safely_iff (plat : Platform) (placed : Placed plat) (name image : List UInt8)
    (s : GlobalState) (idle : s.Idle) (intact : AllocatorIntact plat s) :
    (∃ pool : Pool, pool.Of s.allocator s.memory) ∧
    ∀ pool : Pool, pool.Of s.allocator s.memory →
      (LoadsSafely plat name image s ↔ Survivable plat image s.pid pool) := by
  rcases intact with ⟨⟨free, live, wf⟩, start⟩
  refine ⟨exists_pool wf, fun pool known => ?_⟩
  have spec := wpr_assignProcess_planned placed idle known start name image
  unfold wpr at spec
  have checked : (∃ result t,
      (assignProcessWith (checkedCopy image) plat name image).run s = .ok (result, t)) ↔
      Survivable plat image s.pid pool := by
    apply returns_iff
    apply wp_mono spec
    case stops => exact fun _ dead => dead
    intro result t survives
    cases result with
    | ok pid => exact survives
    | error e => exact survives
  constructor
  · intro safe
    exact checked.mp safe.inside
  · intro survivable
    rcases checked.mpr survivable with ⟨result, t, ran⟩
    refine ⟨⟨result, t, ?_⟩, ⟨result, t, ran⟩⟩
    rw [← assignProcessWith_plainCopy]
    exact mirrors_assignProcess (mirrors_checkedCopy image) name image s _ ran

namespace Board

def hollow : List UInt8 := program.set 105 0

def answers {α : Type} : Rust α → Bool
  | .ok _ => true
  | .error _ => false

theorem of_answers {α : Type} {x : Rust (α × GlobalState)} (passed : answers x = true) :
    ∃ a t, x = .ok (a, t) := by
  cases x with
  | ok r => exact ⟨r.1, r.2, rfl⟩
  | error e => cases passed

end Board

theorem program_survives : ∃ pool : Pool, pool.Of Board.boot.kernel.allocator Board.boot.kernel.memory ∧
    Survivable Board.plat Board.program 0 pool := by
  rcases loads_safely_iff Board.plat Board.boot_booted.placed [] Board.program Board.boot.kernel
    ⟨rfl, rfl⟩ Board.boot_intact with ⟨⟨pool, known⟩, exactly⟩
  refine ⟨pool, known, (exactly pool known).mp ⟨?_, ?_⟩⟩
  · exact Board.of_answers (by decide +kernel)
  · exact Board.of_answers (by decide +kernel)

/-- The parser accepts a program with an empty segment, and the kernel panics. -/
theorem empty_segment_panics :
    (Board.plat.minimalParse Board.hollow).bind ElfFile.segments =
      some [⟨1, 7, 0, 4096, 120, 0⟩] ∧
    Board.boot.Booted Board.plat ∧
    ¬ LoadsSafely Board.plat [] Board.hollow Board.boot.kernel := by
  refine ⟨by decide +kernel, Board.boot_booted, ?_⟩
  intro safe
  rcases safe.returns with ⟨result, t, ran⟩
  have stopped : Board.answers ((assignProcess Board.plat [] Board.hollow).run Board.boot.kernel) =
      false := by decide +kernel
  rw [ran] at stopped
  cases stopped

end Jangri
