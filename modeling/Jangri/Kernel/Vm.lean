import Jangri.Kernel.Answering
import Jangri.Kernel.Stock

namespace Jangri

open Lib

def plic : Nat := 0xc000000

def plicSize : Nat := 0x600000

def uart0 : Nat := 0x10000000

def ramStop : Nat := 0x80000000 + 0x100000000

/-- What the linker script and `intialise_constants` see to: the text of the kernel lies above the
UART, its other sections behind the text, and free memory behind these. The trampoline is a page of
the text. -/
structure KernelLayout (plat : Platform) : Prop where
  startAligned : plat.kernelStart % pageSize = 0
  textAligned : plat.endOfKernelText % pageSize = 0
  endAligned : plat.kernelEnd % pageSize = 0
  trampolineAligned : plat.trampolineCodeAddress % pageSize = 0
  aboveUart : uart0 + pageSize ≤ plat.kernelStart
  text : plat.kernelStart < plat.endOfKernelText
  ram : plat.kernelEnd < ramStop
  trampolineInText : plat.kernelStart ≤ plat.trampolineCodeAddress ∧
    plat.trampolineCodeAddress < plat.endOfKernelText

def mapKernelStackFrom (plat : Platform) (kernelPageTable : Nat) : (remaining i : Nat) → Kernel Unit
  | 0, _ => pure ()
  | remaining + 1, i => do
      let physicalAddress ← expectResult
        "ERROR - WHILE MAPPING KERNEL STACK - Page Fault: No Free Memory\n"
        (GlobalState.allocate (4 * pageSize))
      let address ← liftRust (kernelStackAddress i)
      unwrapResult (GlobalState.map plat kernelPageTable address physicalAddress (4 * pageSize) true
        true false false)
      mapKernelStackFrom plat kernelPageTable remaining (i + 1)

def mapKernelStack (plat : Platform) (kernelPageTable : Nat) : Kernel Unit :=
  mapKernelStackFrom plat kernelPageTable maximumProcess 0

/-- `initialise_kernel_page_table`. The result is what it leaves in `KERNEL_PAGE_TABLE`. -/
def initialiseKernelPageTable (plat : Platform) : KernelResult Nat := do
  let kernelPageTable ← (unwrapResult (GlobalState.allocate pageSize) : Kernel Nat)
  (mapKernelStack plat kernelPageTable : Kernel Unit)
  GlobalState.map plat kernelPageTable uart0 uart0 pageSize true true false false
  GlobalState.map plat kernelPageTable plic plic plicSize true true false false
  let textSize ← (liftRust (usizeSub plat.endOfKernelText plat.kernelStart) : Kernel Nat)
  GlobalState.map plat kernelPageTable plat.kernelStart plat.kernelStart textSize true false true
    false
  let ramSize ← (liftRust (usizeSub ramStop plat.endOfKernelText) : Kernel Nat)
  GlobalState.map plat kernelPageTable plat.endOfKernelText plat.endOfKernelText ramSize true true
    false false
  GlobalState.map plat kernelPageTable trampoline plat.trampolineCodeAddress pageSize true false true
    false
  pure kernelPageTable

def stackCall (i pa : Nat) : MapCall :=
  ⟨trampoline - 5 * (i + 1) * pageSize, pa, 4 * pageSize, true, true, false, false⟩

def uartCall : MapCall := ⟨uart0, uart0, pageSize, true, true, false, false⟩

def plicCall : MapCall := ⟨plic, plic, plicSize, true, true, false, false⟩

def textCall (plat : Platform) : MapCall :=
  ⟨plat.kernelStart, plat.kernelStart, plat.endOfKernelText - plat.kernelStart, true, false,
    true, false⟩

def ramCall (plat : Platform) : MapCall :=
  ⟨plat.endOfKernelText, plat.endOfKernelText, ramStop - plat.endOfKernelText, true, true, false,
    false⟩

def trampolineCall (plat : Platform) : MapCall :=
  ⟨trampoline, plat.trampolineCodeAddress, pageSize, true, false, true, false⟩

def fixedCalls (plat : Platform) : List MapCall :=
  [trampolineCall plat, ramCall plat, textCall plat, plicCall, uartCall]

namespace KernelLayout

variable {plat : Platform}

section Calls

variable (layout : KernelLayout plat)

include layout

theorem placed : Placed plat where
  aligned := layout.endAligned
  trampoline := by
    have inside := layout.trampolineInText.2
    have code := layout.trampolineAligned
    have text := layout.textAligned
    have rest := plat.rest
    simp only [pageSize] at *
    omega

theorem text_sound : (textCall plat).Sound where
  aligned := layout.startAligned
  whole := by
    have start := layout.startAligned
    have text := layout.textAligned
    simp only [textCall, pageSize] at *
    omega
  positive := by
    have text := layout.text
    simp only [textCall]
    omega
  bounded := by
    have text := layout.text
    have rest := plat.rest
    have ram := layout.ram
    simp only [textCall, ramStop, usizeBound] at *
    omega

theorem ram_sound : (ramCall plat).Sound where
  aligned := layout.textAligned
  whole := by
    have text := layout.textAligned
    simp only [ramCall, ramStop, pageSize] at *
    omega
  positive := by
    have rest := plat.rest
    have ram := layout.ram
    simp only [ramCall]
    omega
  bounded := by
    have rest := plat.rest
    have ram := layout.ram
    simp only [ramCall, ramStop, usizeBound] at *
    omega

end Calls

end KernelLayout

theorem uart_sound : uartCall.Sound := ⟨by decide, by decide, by decide, by decide⟩

theorem plic_sound : plicCall.Sound := ⟨by decide, by decide, by decide, by decide⟩

def MapCall.Within (c : MapCall) (low high : Nat) : Prop :=
  ∀ j < c.pages, low ≤ c.page j ∧ c.page j < high

theorem MapCall.Within.apart {c d : MapCall} {low high low' high' : Nat} (first : c.Within low high)
    (second : d.Within low' high') (aside : high ≤ low' ∨ high' ≤ low) : c.Apart d := by
  intro j inside l inside' same
  have here := first j inside
  have there := second l inside'
  omega

theorem MapCall.Within.weaken {c : MapCall} {low high low' high' : Nat} (within : c.Within low high)
    (lower : low' ≤ low) (higher : high ≤ high') : c.Within low' high' := by
  intro j inside
  have bounds := within j inside
  exact ⟨lower.trans bounds.1, bounds.2.trans_le higher⟩

theorem uart_within : uartCall.Within 0x10000 0x10001 := by
  intro j inside
  simp only [MapCall.pages, MapCall.page, uartCall, uart0, vpn, pageSize] at *
  omega

theorem plic_within : plicCall.Within 0xc000 0xc600 := by
  intro j inside
  simp only [MapCall.pages, MapCall.page, plicCall, plic, plicSize, vpn, pageSize] at *
  omega

theorem trampoline_within (plat : Platform) :
    (trampolineCall plat).Within (2 ^ 36 - 1) (2 ^ 36) := by
  intro j inside
  simp only [MapCall.pages, MapCall.page, trampolineCall, trampoline, vpn, pageSize] at *
  omega

theorem stack_within {i : Nat} (low : i < 64) (pa : Nat) :
    (stackCall i pa).Within (2 ^ 36 - 6 - 5 * i) (2 ^ 36 - 2 - 5 * i) := by
  intro j inside
  simp only [MapCall.pages, MapCall.page, stackCall, trampoline, vpn, pageSize] at *
  omega

namespace KernelLayout

variable {plat : Platform} (layout : KernelLayout plat)

include layout

theorem text_within :
    (textCall plat).Within (plat.kernelStart / 4096) (plat.endOfKernelText / 4096) := by
  have start := layout.startAligned
  have text := layout.text
  have rest := plat.rest
  have ram := layout.ram
  intro j inside
  simp only [MapCall.pages, MapCall.page, textCall, ramStop, vpn, pageSize] at *
  omega

theorem ram_within : (ramCall plat).Within (plat.endOfKernelText / 4096) 0x180000 := by
  have text := layout.textAligned
  have rest := plat.rest
  have ram := layout.ram
  intro j inside
  simp only [MapCall.pages, MapCall.page, ramCall, ramStop, vpn, pageSize] at *
  omega

end KernelLayout

theorem stack_sound {i pa : Nat} (low : i < 64) (bounded : pa + 4 * pageSize < usizeBound) :
    (stackCall i pa).Sound where
  aligned := by
    simp only [stackCall, trampoline, pageSize]
    omega
  whole := Nat.mul_mod_left 4 pageSize
  positive := by
    change 4 * pageSize ≠ 0
    decide
  bounded := bounded

theorem trampoline_sound (plat : Platform) (bounded : plat.trampolineCodeAddress + pageSize < usizeBound) :
    (trampolineCall plat).Sound where
  aligned := by
    change trampoline % pageSize = 0
    decide
  whole := Nat.mod_self pageSize
  positive := by
    change pageSize ≠ 0
    decide
  bounded := bounded

structure StackCalls (plat : Platform) (i : Nat) (calls : List MapCall) : Prop where
  each : ∀ j < i, ∃ pa, stackCall j pa ∈ calls
  only : ∀ c ∈ calls, ∃ j < i, ∃ pa, plat.kernelEnd ≤ pa ∧ pa % pageSize = 0 ∧ c = stackCall j pa

namespace StackCalls

variable {plat : Platform} {i : Nat} {calls : List MapCall}

theorem nil (plat : Platform) : StackCalls plat 0 [] where
  each := fun j low => absurd low (Nat.not_lt_zero j)
  only := fun _ none_ => by cases none_

theorem snoc {pa : Nat} (laid : StackCalls plat i calls) (behind : plat.kernelEnd ≤ pa)
    (aligned : pa % pageSize = 0) : StackCalls plat (i + 1) (stackCall i pa :: calls) where
  each := by
    intro j low
    by_cases here : j = i
    · rw [here]
      exact ⟨pa, List.mem_cons_self⟩
    · rcases laid.each j (by omega) with ⟨pa', present⟩
      exact ⟨pa', List.mem_cons_of_mem _ present⟩
  only := by
    intro c present
    rcases List.mem_cons.mp present with rfl | before
    · exact ⟨i, Nat.lt_succ_self i, pa, behind, aligned, rfl⟩
    · rcases laid.only c before with ⟨j, low, known⟩
      exact ⟨j, Nat.lt_succ_of_lt low, known⟩

theorem next_apart (laid : StackCalls plat i calls) (low : i < 64) (pa : Nat) :
    ∀ d ∈ calls, (stackCall i pa).Apart d := by
  intro d present
  rcases laid.only d present with ⟨j, before, pa', -, -, rfl⟩
  apply (stack_within low pa).apart (stack_within (Nat.lt_trans before low) pa')
  omega

theorem apart (laid : StackCalls plat 64 calls) {c : MapCall} {low high : Nat}
    (within : c.Within low high) (aside : high ≤ 2 ^ 36 - 321 ∨ 2 ^ 36 - 2 ≤ low) :
    ∀ d ∈ calls, c.Apart d := by
  intro d present
  rcases laid.only d present with ⟨j, before, pa, -, -, rfl⟩
  apply within.apart (stack_within before pa)
  omega

end StackCalls

structure Booting (plat : Platform) (root pages : Nat) (calls : List MapCall) (s : GlobalState) :
    Prop where
  rooted : Rooted (Accounted plat (Scene.solitary 0 root 0) ∅ ∅) root s
  charted : Charted root calls s.memory
  roomy : s.Roomy pages
  idle : s.held = []

theorem Booting.less {plat : Platform} {root pages fewer : Nat} {calls : List MapCall}
    {s : GlobalState} (booting : Booting plat root pages calls s) (less : fewer ≤ pages) :
    Booting plat root fewer calls s :=
  ⟨booting.rooted, booting.charted, booting.roomy.less less, booting.idle⟩

section Building

variable {plat : Platform} {root pages : Nat} {calls : List MapCall} {s : GlobalState}

theorem rooted_allocated (placed : Placed plat) {free free' : Nat → List Nat} {live : List Block}
    {owner : Nat → Owner} {size a : Nat} {t : GlobalState} (tables : Tables s.memory root)
    (charted : Charted root calls s.memory)
    (ledger : Ledger plat (Scene.solitary 0 root 0) ∅ ∅ {x | TablePage s.memory root x} s.allocator
      s.memory free live owner)
    (allocated : PageAllocator.Allocated s.allocator t.allocator s.memory t.memory free free' live size
      a) :
    Rooted (Accounted plat (Scene.solitary 0 root 0) ∅ ∅) root t ∧ Charted root calls t.memory ∧
      a % pageSize = 0 ∧ plat.kernelEnd ≤ a ∧ a + size < usizeBound := by
  have block := allocated.wellFormed.live_inside ⟨a, size⟩ List.mem_cons_self
  have bounded := allocated.wellFormed.bounded
  have aligned := allocated.wellFormed.aligned ⟨a, size⟩ (by simp)
  have start := allocated.memoryStart.trans ledger.start
  have same : SameOn {x | TablePage s.memory root x} s t := by
    intro x page y low high
    have known := ledger.pages x page
    exact allocated.frame y (not_unused_of_held ledger.wf ⟨_, known.1, known.2, low, high⟩)
  have page : {x | TablePage t.memory root x} = {x | TablePage s.memory root x} :=
    Set.ext (tablePage_congr _ _ root same)
  simp only at block
  refine ⟨⟨tables.congr _ same, ?_⟩, charted.congr _ (leafAt_congr _ _ root same), ?_, by omega,
    by omega⟩
  · have accounted : Accounted plat (Scene.solitary 0 root 0) ∅ ∅ {x | TablePage s.memory root x} t :=
      ⟨free', _, _, ledger.allocate allocated .kernel⟩
    rw [← page] at accounted
    exact accounted
  · rw [start, placed.aligned] at aligned
    exact aligned

theorem wpr_allocate_booting (placed : Placed plat) {size : Nat} (big : pageSize ≤ size)
    (whole : size % pageSize = 0) (booting : Booting plat root (pages + size / pageSize) calls s) :
    wpr (GlobalState.allocate size)
      (fun a t => Booting plat root pages calls t ∧ a % pageSize = 0 ∧ plat.kernelEnd ≤ a ∧
        a + size < usizeBound)
      (fun _ _ => False) (fun _ => False) s := by
  rcases booting.rooted.2 with ⟨free, live, owner, ledger⟩
  apply wpr_weaken (wpr_allocate_roomy ledger.wf (by simp [booting.idle]) big whole booting.roomy)
  case fails => exact fun _ _ failed => failed
  rintro a t ⟨⟨free', allocated⟩, rest, roomy⟩
  rcases rooted_allocated placed booting.rooted.1 booting.charted ledger allocated with
    ⟨rooted, charted, placed_⟩
  refine ⟨⟨rooted, charted, roomy, ?_⟩, placed_⟩
  rw [rest]
  exact booting.idle

/-- A call for pages that are not mapped yet. -/
theorem wpr_map_booting (placed : Placed plat) (c : MapCall) (sound : c.Sound)
    (inside : c.va < usizeBound) (few : c.pages ≤ 2 ^ 36) (off : ∀ d ∈ calls, c.Apart d)
    (booting : Booting plat root (pages + 3 * tablesFor c.va c.pages) calls s) :
    wpr (GlobalState.map plat root c.va c.pa c.size c.read c.write c.execute c.user)
      (fun _ t => Booting plat root pages (c :: calls) t) (fun _ _ => False) (fun _ => False) s := by
  have maps := @wpr_map_roomy plat (Scene.solitary 0 root 0) ∅ ∅ s placed calls booting.rooted
    booting.charted (by simp [booting.idle]) (by simp [booting.idle]) c sound inside few off pages
    booting.roomy
  apply wpr_weaken maps
  · rintro _ t ⟨rooted, charted, roomy, held, -⟩
    exact ⟨rooted, charted, roomy, held.trans booting.idle⟩
  · exact fun _ _ failed => failed

theorem kernelStackAddress_eq {i : Nat} (low : i < 2 ^ 32) :
    kernelStackAddress i = .ok (trampoline - 5 * (i + 1) * pageSize) := by
  have first : i + 1 < usizeBound := by
    simp only [usizeBound]
    omega
  have second : 5 * (i + 1) < usizeBound := by
    simp only [usizeBound]
    omega
  have third : 5 * (i + 1) * pageSize < usizeBound := by
    simp only [usizeBound, pageSize]
    omega
  have fourth : 5 * (i + 1) * pageSize ≤ trampoline := by
    simp only [trampoline, pageSize]
    omega
  simp only [kernelStackAddress, usizeAdd, if_pos first, usizeMul, if_pos second, if_pos third,
    usizeSub, if_pos fourth, pure_eq_ok, ok_bind]

structure BootSteps (plat : Platform) (Ready : Nat → Nat → List MapCall → GlobalState → Prop)
    (fails : Prop) : Prop where
  allocate : ∀ root pages calls s, Ready root (pages + 4) calls s →
    wpr (GlobalState.allocate (4 * pageSize))
      (fun a t => Ready root pages calls t ∧ a % pageSize = 0 ∧ plat.kernelEnd ≤ a ∧
        a + 4 * pageSize < usizeBound) (fun _ _ => fails) (fun _ => fails) s
  map : ∀ root pages calls s (c : MapCall), c.Sound → c.va < usizeBound → c.pages ≤ 2 ^ 36 →
    (∀ d ∈ calls, c.Apart d) → Ready root (pages + 3 * tablesFor c.va c.pages) calls s →
    wpr (GlobalState.map plat root c.va c.pa c.size c.read c.write c.execute c.user)
      (fun _ t => Ready root pages (c :: calls) t) (fun _ _ => fails) (fun _ => fails) s
  less : ∀ root pages fewer calls s, fewer ≤ pages → Ready root pages calls s →
    Ready root fewer calls s

/-- Ten pages are enough for a stack: four of its own, and those of at most two leaf tables. -/
theorem wp_mapKernelStackFrom {Ready : Nat → Nat → List MapCall → GlobalState → Prop} {fails : Prop}
    (steps : BootSteps plat Ready fails) (remaining i : Nat) (all : i + remaining = 64)
    (laid : StackCalls plat i calls) (ready : Ready root (pages + 10 * remaining) calls s) :
    wp (mapKernelStackFrom plat root remaining i)
      (fun _ t => ∃ calls', StackCalls plat 64 calls' ∧ Ready root pages calls' t)
      (fun _ => fails) s := by
  induction remaining generalizing i s calls with
  | zero =>
      rw [mapKernelStackFrom, wp_pure]
      have last : i = 64 := all
      rw [last] at laid
      exact ⟨calls, laid, ready⟩
  | succ remaining ih =>
      have low : i < 64 := by omega
      have counted : pages + 10 * (remaining + 1) = pages + 10 * remaining + 6 + 4 := by omega
      rw [counted] at ready
      rw [mapKernelStackFrom, wp_bind]
      apply wp_expectResult
      apply wpr_weaken (steps.allocate root _ calls s ready)
      case fails => exact fun _ _ failed => failed
      rintro pa s₁ ⟨ready₁, aligned, behind, bounded⟩
      rw [wp_bind, wp_liftRust, kernelStackAddress_eq (by omega)]
      change wp (_ >>= _) _ _ _
      rw [wp_bind]
      have leaves : 3 * tablesFor (stackCall i pa).va (stackCall i pa).pages ≤ 6 := by
        simp only [tablesFor, MapCall.pages, stackCall, pageSize]
        omega
      have inside : (stackCall i pa).va < usizeBound := by
        simp only [stackCall, trampoline, usizeBound, pageSize]
        omega
      apply wp_unwrapResult
      apply wpr_weaken (steps.map root (pages + 10 * remaining) calls s₁ (stackCall i pa)
        (stack_sound low bounded) inside (by simp only [MapCall.pages, stackCall, pageSize]; omega)
        (laid.next_apart low pa)
        (steps.less root _ _ calls s₁ (Nat.add_le_add_left leaves _) ready₁))
      case fails => exact fun _ _ failed => failed
      intro _ s₂ ready₂
      exact ih (i + 1) (by omega) (laid.snoc behind aligned) ready₂

theorem bootingSteps (placed : Placed plat) : BootSteps plat (Booting plat) False where
  allocate := fun _ _ _ _ booting => wpr_allocate_booting placed (by decide) (by decide) booting
  map := fun _ _ _ _ c sound inside few off booting =>
    wpr_map_booting placed c sound inside few off booting
  less := fun _ _ _ _ _ fewer booting => booting.less fewer

theorem rooted_root (placed : Placed plat) {free' : Nat → List Nat} {t : GlobalState}
    (wf : s.allocator.WellFormed s.memory (fun _ => []) []) (start : s.allocator.memoryStart = plat.kernelEnd)
    (allocated : PageAllocator.Allocated s.allocator t.allocator s.memory t.memory (fun _ => []) free'
      [] pageSize root) :
    Rooted (Accounted plat (Scene.solitary 0 root 0) ∅ ∅) root t ∧ Charted root [] t.memory := by
  have ledger : Ledger plat (Scene.solitary 0 root 0) ∅ ∅ ∅ s.allocator s.memory (fun _ => []) []
      fun _ => .kernel :=
    { wf := wf
      start := start
      pages := fun _ member => member.elim
      granted := fun _ member => member.elim
      framed := fun _ member => member.elim
      frames := fun _ known => by cases known
      spaces := fun _ known => by cases known
      foreign := fun _ far => far.elim
      untouched := fun _ far => far.elim }
  have ledger' := ledger.allocatePage allocated
  rw [insert_empty_eq] at ledger'
  have block := allocated.wellFormed.live_inside ⟨root, pageSize⟩ List.mem_cons_self
  have bounded := allocated.wellFormed.bounded
  have aligned := allocated.wellFormed.aligned ⟨root, pageSize⟩ (by simp)
  rw [allocated.memoryStart.trans start, placed.aligned] at aligned
  have small : root < usizeBound := by
    simp only [pageSize] at block
    omega
  exact ⟨rooted_of_zero aligned small t allocated.zeroed ⟨free', _, _, ledger'⟩,
    Charted.nil fun va => leafAt_of_zero t.memory root allocated.zeroed va⟩

theorem wpr_allocate_root (placed : Placed plat) (idle : s.held = [])
    (wf : s.allocator.WellFormed s.memory (fun _ => []) []) (start : s.allocator.memoryStart = plat.kernelEnd)
    (roomy : s.Roomy (pages + 1)) :
    wpr (GlobalState.allocate pageSize) (fun root t => Booting plat root pages [] t)
      (fun _ _ => False) (fun _ => False) s := by
  apply wpr_weaken (wpr_allocate_roomy wf (by simp [idle]) (le_refl pageSize) (Nat.mod_self pageSize)
    roomy)
  case fails => exact fun _ _ failed => failed
  rintro root t ⟨⟨free', allocated⟩, rest, roomy'⟩
  rcases rooted_root placed wf start allocated with ⟨rooted, charted⟩
  refine ⟨rooted, charted, roomy', ?_⟩
  rw [rest]
  exact idle

end Building

/-- The pages that are certain to be enough: the root, ten for each stack, and the tables of the
five calls that follow, the longest of which asks for at most 1.5 million pages. -/
def bootPages : Nat := 10000

namespace KernelLayout

variable {plat : Platform} (layout : KernelLayout plat)

include layout

theorem fixed_tables :
    0 + 3 * tablesFor (trampolineCall plat).va (trampolineCall plat).pages +
      3 * tablesFor (ramCall plat).va (ramCall plat).pages +
      3 * tablesFor (textCall plat).va (textCall plat).pages +
      3 * tablesFor plicCall.va plicCall.pages + 3 * tablesFor uartCall.va uartCall.pages ≤ 9000 := by
  have aboveUart := layout.aboveUart
  have text := layout.text
  have rest := plat.rest
  have ram := layout.ram
  simp only [tablesFor, MapCall.pages, trampolineCall, ramCall, textCall, plicCall, uartCall, vpn,
    trampoline, uart0, plic, plicSize, ramStop, pageSize] at *
  omega

theorem trampoline_inside : plat.trampolineCodeAddress + pageSize ≤ plat.endOfKernelText := by
  have inside := layout.trampolineInText.2
  have code := layout.trampolineAligned
  have text := layout.textAligned
  simp only [pageSize] at *
  omega

theorem text_inside : (textCall plat).va < usizeBound ∧ (textCall plat).pages ≤ 2 ^ 36 := by
  have text := layout.text
  have rest := plat.rest
  have ram := layout.ram
  simp only [textCall, MapCall.pages, ramStop, pageSize, usizeBound] at *
  omega

theorem ram_inside : (ramCall plat).va < usizeBound ∧ (ramCall plat).pages ≤ 2 ^ 36 := by
  have rest := plat.rest
  have ram := layout.ram
  simp only [ramCall, MapCall.pages, ramStop, pageSize, usizeBound] at *
  omega

theorem wpr_initialise {Ready : Nat → Nat → List MapCall → GlobalState → Prop} {fails : Prop}
    (steps : BootSteps plat Ready fails) {s : GlobalState} {spare : Nat}
    (first : wpr (GlobalState.allocate pageSize)
      (fun root t => Ready root (spare + 9000 + 10 * maximumProcess) [] t) (fun _ _ => fails)
      (fun _ => fails) s) :
    wpr (initialiseKernelPageTable plat)
      (fun root t => ∃ stackCalls, StackCalls plat 64 stackCalls ∧
        Ready root spare (fixedCalls plat ++ stackCalls) t)
      (fun _ _ => fails) (fun _ => fails) s := by
  have aboveUart := layout.aboveUart
  have text := layout.text
  have rest := plat.rest
  have ram := layout.ram
  rw [initialiseKernelPageTable, wpr_bind, wpr_lift]
  apply wp_unwrapResult
  apply wpr_weaken first
  case fails => exact fun _ _ failed => failed
  intro root s₁ ready₁
  rw [wpr_bind, wpr_lift, mapKernelStack]
  apply wp_weaken (wp_mapKernelStackFrom steps maximumProcess 0 rfl (StackCalls.nil plat) ready₁)
  rintro - s₂ ⟨stackCalls, laid, ready₂⟩
  have uartApart := laid.apart uart_within (Or.inl (by decide))
  have plicApart := laid.apart plic_within (Or.inl (by decide))
  have textApart := laid.apart layout.text_within (Or.inl (by simp only [ramStop] at *; omega))
  have ramApart := laid.apart layout.ram_within (Or.inl (by decide))
  have trampolineApart := laid.apart (trampoline_within plat) (Or.inr (by decide))
  have startPage : 0x10001 ≤ plat.kernelStart / 4096 := by
    simp only [uart0, pageSize] at aboveUart
    omega
  have endPage : plat.kernelStart / 4096 ≤ plat.endOfKernelText / 4096 := by omega
  have lastPage : plat.endOfKernelText / 4096 ≤ 0x180000 := by
    simp only [ramStop] at ram
    omega
  have code : plat.trampolineCodeAddress + pageSize < usizeBound := by
    have inside := layout.trampoline_inside
    simp only [ramStop, usizeBound] at *
    omega
  have left : spare + 3 * tablesFor (trampolineCall plat).va (trampolineCall plat).pages +
      3 * tablesFor (ramCall plat).va (ramCall plat).pages +
      3 * tablesFor (textCall plat).va (textCall plat).pages +
      3 * tablesFor plicCall.va plicCall.pages + 3 * tablesFor uartCall.va uartCall.pages ≤
        spare + 9000 := by
    have fixed := layout.fixed_tables
    omega
  rw [wpr_bind]
  apply wpr_weaken (steps.map root _ _ s₂ uartCall uart_sound (by decide) (by decide) uartApart
    (steps.less root _ _ _ s₂ left ready₂))
  case fails => exact fun _ _ failed => failed
  intro _ s₃ ready₃
  have plicOff : ∀ d ∈ uartCall :: stackCalls, plicCall.Apart d :=
    List.forall_mem_cons.mpr ⟨plic_within.apart uart_within (Or.inl (by decide)), plicApart⟩
  rw [wpr_bind]
  apply wpr_weaken (steps.map root _ _ s₃ plicCall plic_sound (by decide) (by decide) plicOff ready₃)
  case fails => exact fun _ _ failed => failed
  intro _ s₄ ready₄
  have textOff : ∀ d ∈ plicCall :: uartCall :: stackCalls, (textCall plat).Apart d :=
    List.forall_mem_cons.mpr ⟨layout.text_within.apart plic_within (Or.inr (by omega)),
      List.forall_mem_cons.mpr ⟨layout.text_within.apart uart_within (Or.inr startPage), textApart⟩⟩
  rw [wpr_bind, wpr_lift, wp_liftRust, usizeSub, if_pos text.le]
  change wpr (_ >>= _) _ _ _ _
  rw [wpr_bind]
  apply wpr_weaken (steps.map root _ _ s₄ (textCall plat) layout.text_sound layout.text_inside.1
    layout.text_inside.2 textOff ready₄)
  case fails => exact fun _ _ failed => failed
  intro _ s₅ ready₅
  have ramOff : ∀ d ∈ textCall plat :: plicCall :: uartCall :: stackCalls,
      (ramCall plat).Apart d :=
    List.forall_mem_cons.mpr ⟨layout.ram_within.apart layout.text_within (Or.inr (le_refl _)),
      List.forall_mem_cons.mpr ⟨layout.ram_within.apart plic_within (Or.inr (by omega)),
        List.forall_mem_cons.mpr ⟨layout.ram_within.apart uart_within (Or.inr (by omega)), ramApart⟩⟩⟩
  rw [wpr_bind, wpr_lift, wp_liftRust, usizeSub, if_pos (by omega)]
  change wpr (_ >>= _) _ _ _ _
  rw [wpr_bind]
  apply wpr_weaken (steps.map root _ _ s₅ (ramCall plat) layout.ram_sound layout.ram_inside.1
    layout.ram_inside.2 ramOff ready₅)
  case fails => exact fun _ _ failed => failed
  intro _ s₆ ready₆
  have trampolineOff : ∀ d ∈ ramCall plat :: textCall plat :: plicCall :: uartCall :: stackCalls,
      (trampolineCall plat).Apart d :=
    List.forall_mem_cons.mpr ⟨(trampoline_within plat).apart layout.ram_within (Or.inr (by decide)),
      List.forall_mem_cons.mpr ⟨(trampoline_within plat).apart layout.text_within (Or.inr (by omega)),
        List.forall_mem_cons.mpr ⟨(trampoline_within plat).apart plic_within (Or.inr (by decide)),
          List.forall_mem_cons.mpr ⟨(trampoline_within plat).apart uart_within (Or.inr (by decide)),
            trampolineApart⟩⟩⟩⟩
  rw [wpr_bind]
  apply wpr_weaken (steps.map root spare _ s₆ (trampolineCall plat) (trampoline_sound plat code)
    (by change trampoline < usizeBound; decide) (by change pageSize / pageSize ≤ 2 ^ 36; decide)
    trampolineOff ready₆)
  case fails => exact fun _ _ failed => failed
  intro _ s₇ ready₇
  rw [wpr_pure]
  exact ⟨stackCalls, laid, ready₇⟩

include layout in
theorem new_allocator {s : GlobalState}
    (new : PageAllocator.new plat.kernelEnd ramStop = .ok s.allocator) :
    s.allocator.WellFormed s.memory (fun _ => []) [] ∧ s.allocator.memoryStart = plat.kernelEnd ∧
      s.allocator.bitmaps = Bitmap.new ∧ s.allocator.currentSize = ramStop - plat.kernelEnd := by
  have aboveUart := layout.aboveUart
  have text := layout.text
  have rest := plat.rest
  have notNull : plat.kernelEnd ≠ 0 := by
    simp only [uart0] at aboveUart
    omega
  rcases PageAllocator.new_spec plat.kernelEnd ramStop notNull layout.ram.le (by decide) s.memory with
    ⟨alloc, built, wf, start, -, bitmaps⟩
  have same : alloc = s.allocator := Except.ok.inj (built.symm.trans new)
  rw [same] at wf start bitmaps
  exact ⟨wf, start, bitmaps, PageAllocator.currentSize_new new⟩

theorem wpr_initialiseKernelPageTable {s : GlobalState}
    (new : PageAllocator.new plat.kernelEnd ramStop = .ok s.allocator) (idle : s.held = [])
    {spare : Nat} (memory : plat.kernelEnd + (spare + bootPages) * pageSize < ramStop) :
    wpr (initialiseKernelPageTable plat)
      (fun root t => ∃ stackCalls, StackCalls plat 64 stackCalls ∧
        Booting plat root spare (fixedCalls plat ++ stackCalls) t)
      (fun _ _ => False) (fun _ => False) s := by
  have placed := layout.placed
  rcases layout.new_allocator new with ⟨wf, start, bitmaps, size⟩
  have roomy : s.Roomy (spare + 9999 + 1) := by
    refine ⟨bitmaps, ?_⟩
    have counted : spare + 9999 + 1 = spare + bootPages := rfl
    rw [size, counted]
    omega
  apply layout.wpr_initialise (bootingSteps placed)
  apply wpr_weaken (wpr_allocate_root placed idle wf start roomy)
  case fails => exact fun _ _ failed => failed
  intro root t booting
  apply booting.less
  simp only [maximumProcess]
  omega

end KernelLayout

theorem Charted.identity {root : Nat} {calls : List MapCall} {m : Memory}
    (charted : Charted root calls m) {c : MapCall} (present : c ∈ calls) (same : c.pa = c.va)
    {va : Nat} (low : c.va ≤ va) (high : va < c.va + c.size) :
    ∃ entry, leafAt m root va = some entry ∧ va = entry.getPhysicalAddress + va % pageSize := by
  have sound := charted.sound c present
  have inside : va - c.va < c.size := by omega
  have leaf := charted.leaf present inside
  rw [Nat.add_sub_cancel' low] at leaf
  have aligned := sound.aligned
  have address := sound.entry_address (same ▸ aligned) (sound.page_of inside).1
  refine ⟨_, leaf, ?_⟩
  rw [address, same]
  simp only [pageSize] at *
  omega

namespace KernelLayout

variable {plat : Platform} (layout : KernelLayout plat)

include layout

def Identical (_ : KernelLayout plat) (va : Nat) : Prop :=
  (uart0 ≤ va ∧ va < uart0 + pageSize) ∨ (plic ≤ va ∧ va < plic + plicSize) ∨
    (plat.kernelStart ≤ va ∧ va < ramStop)

structure Booted (root : Nat) (s : GlobalState) : Prop where
  identity : ∀ va, layout.Identical va → (GlobalState.va2pa plat root va).run s = .ok (.ok va, s)
  exclusive : ∀ va va' entry entry', leafAt s.memory root va = some entry →
    leafAt s.memory root va' = some entry' →
    entry.getPhysicalAddress = entry'.getPhysicalAddress →
    ¬ (entry.writeable = true ∧ entry'.executable = true)
  supervisor : ∀ t, TablePage s.memory root t → ∀ i < 512,
    (entryAt s.memory t i).userModeAccessible = false
  kernelStacks : ∀ i < maximumProcess, ∃ address, kernelStackAddress i = .ok address ∧
    (∀ va, address ≤ va → va < address + 4 * pageSize →
      ∃ entry, leafAt s.memory root va = some entry ∧ entry.writeable = true) ∧
    ∀ va, va < address → address ≤ va + pageSize → leafAt s.memory root va = none

theorem fixed_within : ∀ c ∈ fixedCalls plat, c.Within 0 0x180000 ∨ c.Within (2 ^ 36 - 1) (2 ^ 36) := by
  have ram := layout.ram
  have rest := plat.rest
  have lastPage : plat.endOfKernelText / 4096 ≤ 0x180000 := by
    simp only [ramStop] at ram
    omega
  intro c fixed
  simp only [fixedCalls, List.mem_cons, List.not_mem_nil, or_false] at fixed
  rcases fixed with rfl | rfl | rfl | rfl | rfl
  · exact Or.inr (trampoline_within plat)
  · exact Or.inl (layout.ram_within.weaken (Nat.zero_le _) (le_refl _))
  · exact Or.inl (layout.text_within.weaken (Nat.zero_le _) lastPage)
  · exact Or.inl (plic_within.weaken (Nat.zero_le _) (by decide))
  · exact Or.inl (uart_within.weaken (Nat.zero_le _) (by decide))

theorem call_rights {stackCalls : List MapCall} (laid : StackCalls plat 64 stackCalls) {c : MapCall}
    (present : c ∈ fixedCalls plat ++ stackCalls) :
    c.user = false ∧ c.pa % pageSize = 0 ∧
      (c.write = true → c.pa + c.size ≤ plat.kernelStart ∨ plat.endOfKernelText ≤ c.pa) ∧
      (c.execute = true → plat.kernelStart ≤ c.pa ∧ c.pa + c.size ≤ plat.endOfKernelText) := by
  have aboveUart := layout.aboveUart
  have text := layout.text
  rcases List.mem_append.mp present with fixed | stack
  · simp only [fixedCalls, List.mem_cons, List.not_mem_nil, or_false] at fixed
    rcases fixed with rfl | rfl | rfl | rfl | rfl
    · exact ⟨rfl, layout.trampolineAligned, fun no => (Bool.false_ne_true no).elim,
        fun _ => ⟨layout.trampolineInText.1, layout.trampoline_inside⟩⟩
    · exact ⟨rfl, layout.textAligned, fun _ => Or.inr (le_refl _),
        fun no => (Bool.false_ne_true no).elim⟩
    · refine ⟨rfl, layout.startAligned, fun no => (Bool.false_ne_true no).elim,
        fun _ => ⟨le_refl _, ?_⟩⟩
      simp only [textCall]
      omega
    · refine ⟨rfl, by decide, fun _ => Or.inl ?_, fun no => (Bool.false_ne_true no).elim⟩
      simp only [plicCall, plic, plicSize, uart0, pageSize] at *
      omega
    · exact ⟨rfl, by decide, fun _ => Or.inl aboveUart, fun no => (Bool.false_ne_true no).elim⟩
  · rcases laid.only c stack with ⟨j, -, pa, behind, aligned, rfl⟩
    exact ⟨rfl, aligned, fun _ => Or.inr (plat.rest.trans behind),
      fun no => (Bool.false_ne_true no).elim⟩

section Stacks

variable {stackCalls : List MapCall} {root : Nat} {m : Memory}

omit layout in
theorem stack_leaf (laid : StackCalls plat 64 stackCalls)
    (charted : Charted root (fixedCalls plat ++ stackCalls) m) {i : Nat} (low : i < 64) {va : Nat}
    (from_ : trampoline - 5 * (i + 1) * pageSize ≤ va)
    (to_ : va < trampoline - 5 * (i + 1) * pageSize + 4 * pageSize) :
    ∃ entry, leafAt m root va = some entry ∧ entry.writeable = true ∧
      entry.userModeAccessible = false := by
  rcases laid.each i low with ⟨pa, present⟩
  have leaf := charted.leaf (List.mem_append_right (fixedCalls plat) present)
    (i := va - (stackCall i pa).va) (by simp only [stackCall]; omega)
  rw [Nat.add_sub_cancel' (by simp only [stackCall]; omega)] at leaf
  exact ⟨_, leaf, ((stackCall i pa).entry_rights _).2.1, ((stackCall i pa).entry_rights _).2.2.2⟩

omit layout in
theorem stack_mapped (laid : StackCalls plat 64 stackCalls)
    (charted : Charted root (fixedCalls plat ++ stackCalls) m) {i : Nat} (low : i < 64) {va : Nat}
    (from_ : trampoline - 5 * (i + 1) * pageSize ≤ va)
    (to_ : va < trampoline - 5 * (i + 1) * pageSize + 4 * pageSize) :
    ∃ entry, leafAt m root va = some entry ∧ entry.writeable = true := by
  rcases stack_leaf laid charted low from_ to_ with ⟨entry, leaf, writeable, -⟩
  exact ⟨entry, leaf, writeable⟩

/-- A call of the kernel's own that maps a page from the last stack on maps a page of a stack, or is
that for the trampoline. -/
theorem upper_page (laid : StackCalls plat 64 stackCalls) {c : MapCall}
    (present : c ∈ fixedCalls plat ++ stackCalls) {j : Nat} (inside : j < c.pages)
    (upper : 0x180000 ≤ c.page j) : c.page j = 2 ^ 36 - 1 ∨
      ∃ l < 64, 2 ^ 36 - 6 - 5 * l ≤ c.page j ∧ c.page j < 2 ^ 36 - 2 - 5 * l := by
  rcases List.mem_append.mp present with fixed | stack
  · rcases layout.fixed_within c fixed with within | within
    · have bounds := within j inside
      omega
    · have bounds := within j inside
      omega
  · rcases laid.only c stack with ⟨l, before, pa, -, -, rfl⟩
    exact Or.inr ⟨l, before, stack_within before pa j inside⟩

theorem stack_guarded (laid : StackCalls plat 64 stackCalls)
    (charted : Charted root (fixedCalls plat ++ stackCalls) m) {i : Nat} (low : i < 64) {va : Nat}
    (below : va < trampoline - 5 * (i + 1) * pageSize)
    (guard : trampoline - 5 * (i + 1) * pageSize ≤ va + pageSize) : leafAt m root va = none := by
  have here : vpn va = 2 ^ 36 - 7 - 5 * i := by
    simp only [vpn, trampoline, pageSize] at *
    omega
  apply charted.vacant
  intro c present j inside same
  rcases layout.upper_page laid present inside (by omega) with top | ⟨l, before, bounds⟩
  · omega
  · omega

end Stacks

theorem booted_of_charted {stackCalls : List MapCall} {root : Nat} {s : GlobalState}
    (laid : StackCalls plat 64 stackCalls) (tables : Tables s.memory root)
    (charted : Charted root (fixedCalls plat ++ stackCalls) s.memory) (idle : s.held = []) :
    layout.Booted root s where
  identity := by
    intro va identical
    have mapped : ∃ entry, leafAt s.memory root va = some entry ∧
        va = entry.getPhysicalAddress + va % pageSize := by
      have among : ∀ c ∈ fixedCalls plat, c ∈ fixedCalls plat ++ stackCalls :=
        fun c present => List.mem_append_left stackCalls present
      rcases identical with ⟨low, high⟩ | ⟨low, high⟩ | ⟨low, high⟩
      · exact charted.identity (among uartCall (by simp [fixedCalls])) rfl low high
      · exact charted.identity (among plicCall (by simp [fixedCalls])) rfl low high
      · have text := layout.text
        have ram := layout.ram
        have rest := plat.rest
        by_cases inText : va < plat.endOfKernelText
        · apply charted.identity (among (textCall plat) (by simp [fixedCalls])) rfl low
          simp only [textCall]
          omega
        · apply charted.identity (among (ramCall plat) (by simp [fixedCalls])) rfl (not_lt.mp inText)
          simp only [ramCall]
          omega
    have small : va < usizeBound := by
      simp only [Identical, uart0, pageSize, plic, plicSize, ramStop, usizeBound] at *
      omega
    rcases va2pa_run plat (s := s) (by simp [idle]) root va with ⟨r, ran, found⟩
    have answer := (found va).mpr ⟨small, mapped⟩
    rw [← answer]
    exact ran
  exclusive := by
    intro va va' entry entry' leaf leaf' same both
    rcases charted.only va entry leaf with ⟨c, present, j, inside, -, rfl⟩
    rcases charted.only va' entry' leaf' with ⟨d, present', l, inside', -, rfl⟩
    have rights := layout.call_rights laid present
    have rights' := layout.call_rights laid present'
    have sound := charted.sound c present
    have sound' := charted.sound d present'
    rw [sound.entry_address rights.2.1 inside, sound'.entry_address rights'.2.1 inside'] at same
    have page := sound.page_inside inside
    have page' := sound'.page_inside inside'
    have written := rights.2.2.1 ((c.entry_rights j).2.1.symm.trans both.1)
    have executed := rights'.2.2.2 ((d.entry_rights l).2.2.1.symm.trans both.2)
    simp only [pageSize] at *
    omega
  supervisor := by
    intro t page i low
    exact charted.supervisor tables
      (fun c present => (layout.call_rights laid present).1) page low
  kernelStacks := by
    intro i few
    have low : i < 64 := few
    refine ⟨_, kernelStackAddress_eq (by omega), ?_, ?_⟩
    · exact fun va from_ to_ => stack_mapped laid charted low from_ to_
    · exact fun va below guard => layout.stack_guarded laid charted low below guard

theorem booted {stackCalls : List MapCall} {root : Nat} {s : GlobalState}
    (laid : StackCalls plat 64 stackCalls)
    (booting : Booting plat root 0 (fixedCalls plat ++ stackCalls) s) : layout.Booted root s :=
  layout.booted_of_charted laid booting.rooted.1 booting.charted booting.idle

end KernelLayout

/-- Whatever the layout, `initialise_kernel_page_table` returns `Ok` when there is enough memory, and
its table is as it should be. -/
theorem kernel_page_table {plat : Platform} (layout : KernelLayout plat) {s : GlobalState}
    (new : PageAllocator.new plat.kernelEnd ramStop = .ok s.allocator) (idle : s.held = [])
    (memory : plat.kernelEnd + bootPages * pageSize < ramStop) :
    ∃ root t, (initialiseKernelPageTable plat).run s =
      .ok (.ok root, t) ∧ layout.Booted root t := by
  have enough : plat.kernelEnd + (0 + bootPages) * pageSize < ramStop := by
    rw [Nat.zero_add]
    exact memory
  rcases succeeded_of_wpr (layout.wpr_initialiseKernelPageTable new idle enough) with
    ⟨root, t, ran, stackCalls, laid, booting⟩
  exact ⟨root, t, ran, layout.booted laid booting⟩

namespace Board

def linked : Platform :=
  { plat with
    kernelStart := 0x80200000
    endOfKernelText := 0x80210000
    kernelEnd := 0x82000000
    text := by decide
    rest := by decide
    trampolineCodeAddress := 0x8020f000 }

theorem linkedLayout : KernelLayout linked where
  startAligned := by decide
  textAligned := by decide
  endAligned := by decide
  trampolineAligned := by decide
  aboveUart := by decide
  text := by decide
  ram := by decide
  trampolineInText := by decide

def powered : GlobalState :=
  { boot.kernel with
    allocator :=
      { bitmaps := Bitmap.new
        memoryStart := 0x82000000
        memoryEnd := ramStop
        currentSize := ramStop - 0x82000000
        currentStart := 0x82000000
        list := fun _ => ⟨none⟩ } }

end Board

theorem linked_kernel_boots : ∃ root t, (initialiseKernelPageTable Board.linked).run Board.powered =
      .ok (.ok root, t) ∧ Board.linkedLayout.Booted root t :=
  kernel_page_table Board.linkedLayout rfl rfl (by decide)

end Jangri
