import Jangri.Kernel.Answering
import Jangri.Lib.Utf8

namespace Jangri

open Lib

def GlobalState.Prints (plat : Platform) (s : GlobalState) (p start len : Nat) (out : List UInt8) :
    Prop :=
  ∃ again t, perform plat p (s.object p).trapframe (s.object p).pageTable (.write start len) s =
    .ok (again, t) ∧ t.console = s.console ++ out

/-- Process `p` sees no difference between `s` and `t`: its page table is the same, and so is all
memory that it maps for user mode. The machine has the same RAM, and the kernel holds no lock. -/
structure Indistinguishable (p : Nat) (s t : GlobalState) : Prop where
  root : (t.object p).pageTable = (s.object p).pageTable
  table : ∀ page, TablePage s.memory (s.object p).pageTable page →
    ∀ x, page ≤ x → x < page + pageSize → t.memory x = s.memory x
  user : ∀ x, s.UserReaches p x → t.memory x = s.memory x
  ram : t.allocator.memoryEnd = s.allocator.memoryEnd
  idle : t.held = []

def GlobalState.Visible (s : GlobalState) (p x : Nat) : Prop :=
  (∃ page, TablePage s.memory (s.object p).pageTable page ∧ page ≤ x ∧ x < page + pageSize) ∨
    s.UserReaches p x

section Printing

variable {plat : Platform} {s t : GlobalState} {p start len : Nat} {halts : Halt → Prop}

theorem wp_sliceWrite (available : .arch ∉ s.held) (slice : UserMemorySlice) (bytes : List UInt8)
    {pa : Nat} (spans : slice.Spans plat s pa) (post : Unit → GlobalState → Prop)
    (writes : s.InRam plat.endOfKernelText pa (min slice.size bytes.length) → post () { s with
      memory := s.memory.store pa (bytes.take (min slice.size bytes.length)) })
    (stops : ¬ s.InRam plat.endOfKernelText pa (min slice.size bytes.length) → halts outsideRam) :
    wp (slice.write plat (translate plat) bytes) post halts s := by
  rcases va2pa_run plat available slice.pageTable slice.start with ⟨r, ran, found⟩
  have translated := (found pa).mpr ⟨spans.bounded, spans.mapped⟩
  have fine : ¬ (pa = 0 ∨ min slice.size bytes.length > isizeMax) := by
    have notNull := spans.notNull
    have small := spans.small
    omega
  rw [UserMemorySlice.write, wp_bind, unwrapResult, wp_bind, wp_def, ran, translated]
  simp only
  rw [wp_pure, wp_bind, wp_liftRust, fromRawParts, if_neg fine]
  simp only [pure_eq_ok]
  have length : (bytes.take (min slice.size bytes.length)).length = min slice.size bytes.length := by
    rw [List.length_take, min_eq_left (min_le_right _ _)]
  apply wp_storeMapped plat
  · intro inside
    rw [length] at inside
    rw [wp_def, storeBytes]
    exact writes inside
  · intro outside
    rw [length] at outside
    exact stops outside

/-- The text in the slice, where the slice spans memory that holds one. -/
def GlobalState.Text (plat : Platform) (s : GlobalState) (p start len pa : Nat) : Prop :=
  (⟨start, (s.object p).pageTable, len⟩ : UserMemorySlice).Spans plat s pa ∧
    ByteArray.validateUTF8 ⟨(s.memory.load pa len).toArray⟩ = true

def GlobalState.Repliable (plat : Platform) (s : GlobalState) (frame : Nat) : Prop :=
  s.InRam plat.endOfKernelText frame plat.layout.size

theorem wp_performWrite (idle : s.held = []) {frame : Nat}
    (slot : (⟨kucomPage, (s.object p).pageTable, pageSize⟩ : UserMemorySlice).Spans plat s frame) :
    wp (perform plat p (s.object p).trapframe (s.object p).pageTable (.write start len))
      (fun _ t => s.Repliable plat frame ∧ ∃ pa, s.Text plat p start len pa ∧
        t.console = s.console ++ consoleBytes (s.memory.load pa len))
      (fun _ => s.Repliable plat frame → ∀ pa, ¬ s.Text plat p start len pa) s := by
  rw [perform, wp_bind]
  apply wp_sliceRead_iff (by simp [idle])
  · intro pa spans
    rw [wp_bind, wp_liftRust, fromUtf8]
    by_cases valid : ByteArray.validateUTF8 ⟨(s.memory.load pa len).toArray⟩ = true
    · rw [if_pos valid, unwrap]
      simp only [pure_eq_ok]
      rw [wp_bind, wp_def, consoleWrite]
      simp only
      rw [wp_bind]
      have slot' : (⟨kucomPage, (s.object p).pageTable, pageSize⟩ : UserMemorySlice).Spans plat
          { s with console := s.console ++ consoleBytes (s.memory.load pa len) } frame :=
        ⟨slot.bounded, slot.mapped, slot.notNull, slot.small, slot.inside⟩
      have size : ∀ result, min pageSize (plat.layout.encode (.syscallResult result)).length =
          plat.layout.size := by
        intro result
        rw [plat.layout.length_encode, min_eq_right plat.layout.fits]
      apply wp_sliceWrite (by simp [idle]) _ _ slot'
      · intro room
        rw [size] at room
        rw [wp_pure]
        exact ⟨room, pa, ⟨spans, valid⟩, rfl⟩
      · intro outside room
        rw [size] at outside
        exact absurd room outside
    · rw [if_neg valid, unwrap]
      simp only [panic]
      intro _ pa' text
      rw [text.1.unique spans] at text
      exact valid text.2
  · intro none_ e _ pa text
    exact none_ pa text.1

/-- A write prints the bytes behind the address that its first one translates to. -/
theorem prints_iff (idle : s.held = []) {frame : Nat}
    (slot : (⟨kucomPage, (s.object p).pageTable, pageSize⟩ : UserMemorySlice).Spans plat s frame)
    (out : List UInt8) : s.Prints plat p start len out ↔ s.Repliable plat frame ∧
      ∃ pa, s.Text plat p start len pa ∧ out = consoleBytes (s.memory.load pa len) := by
  have spec := @wp_performWrite plat s p start len idle frame slot
  constructor
  · rintro ⟨again, t, ran, console⟩
    rcases wp_of_returns spec ran with ⟨room, pa, text, written⟩
    exact ⟨room, pa, text, List.append_cancel_left (console.symm.trans written)⟩
  · rintro ⟨room, pa, text, rfl⟩
    rw [wp_def] at spec
    split at spec
    next again t ran =>
      rcases spec with ⟨-, pa', text', written⟩
      rw [text'.1.unique text.1] at written
      exact ⟨again, t, ran, written⟩
    next => exact absurd text (spec room pa)

end Printing

section Indistinguishability

variable {plat : Platform} {s t : GlobalState} {p : Nat}

theorem Indistinguishable.leaf (same : Indistinguishable p s t) (va : Nat) :
    leafAt t.memory (s.object p).pageTable va = leafAt s.memory (s.object p).pageTable va :=
  leafAt_congr s.memory t.memory _ same.table va

theorem Indistinguishable.inRam_iff (same : Indistinguishable p s t) (low addr count : Nat) :
    t.InRam low addr count ↔ s.InRam low addr count := by
  rw [GlobalState.InRam, GlobalState.InRam, same.ram]

theorem Indistinguishable.spans_iff (same : Indistinguishable p s t) (start len pa : Nat) :
    (⟨start, (t.object p).pageTable, len⟩ : UserMemorySlice).Spans plat t pa ↔
      (⟨start, (s.object p).pageTable, len⟩ : UserMemorySlice).Spans plat s pa := by
  rw [same.root]
  constructor
  · intro spans
    refine ⟨spans.bounded, ?_, spans.notNull, spans.small, (same.inRam_iff _ _ _).mp spans.inside⟩
    have mapped := spans.mapped
    simp only [same.leaf] at mapped
    exact mapped
  · intro spans
    refine ⟨spans.bounded, ?_, spans.notNull, spans.small, (same.inRam_iff _ _ _).mpr spans.inside⟩
    have mapped := spans.mapped
    simp only [same.leaf]
    exact mapped

theorem Indistinguishable.visible (same : Indistinguishable p s t) {x : Nat}
    (visible : s.Visible p x) : t.memory x = s.memory x := by
  rcases visible with ⟨page, isPage, low, high⟩ | reaches
  · exact same.table page isPage x low high
  · exact same.user x reaches

/-- What is not visible may be anything. -/
theorem indistinguishable_of_hidden (idle : s.held = []) {x : Nat} (hidden : ¬ s.Visible p x)
    (byte : UInt8) : Indistinguishable p s { s with memory := Function.update s.memory x byte } where
  root := rfl
  table := by
    intro page isPage y low high
    apply Function.update_of_ne
    rintro rfl
    exact hidden (Or.inl ⟨page, isPage, low, high⟩)
  user := by
    intro y reaches
    apply Function.update_of_ne
    rintro rfl
    exact hidden (Or.inr reaches)
  ram := rfl
  idle := idle

theorem load_update (m : Memory) (addr count i : Nat) (byte : UInt8) :
    Memory.load (Function.update m (addr + i) byte) addr count = (m.load addr count).set i byte := by
  apply List.ext_getElem
  · simp only [Memory.load, List.length_map, List.length_range, List.length_set]
  · intro j low high
    simp only [Memory.load, List.getElem_map, List.getElem_range, List.getElem_set]
    split
    next here =>
      subst here
      exact Function.update_self _ _ _
    next other =>
      apply Function.update_of_ne
      omega

theorem slot_of_readRequest {info : SyscallInfo} {s' : GlobalState} (idle : s.held = [])
    (asked : readRequest plat (s.object p).pageTable s = .ok (info, s')) :
    ∃ frame, (⟨kucomPage, (s.object p).pageTable, pageSize⟩ : UserMemorySlice).Spans plat s frame := by
  have spec : wp (readRequest plat (s.object p).pageTable) (fun _ _ =>
      ∃ frame, (⟨kucomPage, (s.object p).pageTable, pageSize⟩ : UserMemorySlice).Spans plat s frame)
      (fun _ => True) s := by
    rw [readRequest, wp_bind]
    apply wp_sliceRead_iff (by simp [idle])
    · intro frame spans
      rw [wp_pure]
      exact ⟨frame, spans⟩
    · exact fun _ _ => trivial
  exact wp_of_returns spec asked

theorem not_swapped_of_mem {a b old new : UInt8} (far : ¬ Utf8.Swapped a b)
    (far' : ¬ Utf8.Swapped b a) (isOld : old = a ∨ old = b) (isNew : new = a ∨ new = b) :
    ¬ Utf8.Swapped old new := by
  intro swapped
  rcases isOld with rfl | rfl <;> rcases isNew with rfl | rfl
  · exact swapped.different rfl
  · exact far swapped
  · exact far' swapped
  · exact swapped.different rfl

theorem consoleBytes_ne_of_swapped (front back : List UInt8) {old new : UInt8}
    (swapped : Utf8.Swapped old new) :
    consoleBytes (front ++ new :: back) ≠ consoleBytes (front ++ old :: back) := by
  intro same
  simp only [consoleBytes, List.flatMap_append, List.flatMap_cons] at same
  have bytes := List.append_cancel_right (List.append_cancel_left same)
  split_ifs at bytes with newLine oldLine oldErase newErase oldLine oldErase oldLine oldErase
  · exact not_swapped_of_mem (fun s => absurd s.near (by decide))
      (fun s => absurd s.near (by decide)) oldLine newLine swapped
  · cases bytes
  · cases bytes
  · cases bytes
  · exact not_swapped_of_mem (fun s => absurd s.near (by decide))
      (fun s => absurd s.near (by decide)) oldErase newErase swapped
  · cases bytes
  · cases bytes
  · cases bytes
  · cases bytes
    exact swapped.different rfl

theorem consoleBytes_set (bytes : List UInt8) (i : Nat) (inside : i < bytes.length) (new : UInt8)
    (swapped : Utf8.Swapped (bytes.getD i 0) new) :
    consoleBytes (bytes.set i new) ≠ consoleBytes bytes := by
  have split : bytes.take i ++ bytes.getD i 0 :: bytes.drop (i + 1) = bytes := by
    rw [List.getD_eq_getElem _ _ inside, List.cons_getElem_drop_succ, List.take_append_drop]
  have shown := consoleBytes_ne_of_swapped (bytes.take i) (bytes.drop (i + 1)) swapped
  rw [split] at shown
  rw [List.set_eq_take_append_cons_drop, if_pos inside]
  exact shown

end Indistinguishability

section Results

variable (plat : Platform) (s s' : GlobalState) (p start len : Nat)

/-- What a write prints does not depend on memory that its caller cannot see exactly when the bytes
it prints are all visible to the caller, or can be no text whatever the others are. -/
theorem write_discloses_iff (idle : s.held = [])
    (asked : readRequest plat (s.object p).pageTable s = .ok (.syscall (.write start len), s')) :
    (∀ t, Indistinguishable p s t → ∀ out,
        s.Prints plat p start len out ↔ t.Prints plat p start len out) ↔
      ∀ frame, (⟨kucomPage, (s.object p).pageTable, pageSize⟩ : UserMemorySlice).Spans plat s frame →
        s.Repliable plat frame →
        ∀ pa, (⟨start, (s.object p).pageTable, len⟩ : UserMemorySlice).Spans plat s pa →
        (∀ x, pa ≤ x → x < pa + len → s.Visible p x) ∨
        ∀ t, Indistinguishable p s t →
          ¬ ByteArray.validateUTF8 ⟨(t.memory.load pa len).toArray⟩ = true := by
  rcases slot_of_readRequest idle asked with ⟨frame, slot⟩
  have prints : ∀ out, s.Prints plat p start len out ↔ s.Repliable plat frame ∧
      ∃ pa, s.Text plat p start len pa ∧ out = consoleBytes (s.memory.load pa len) :=
    prints_iff idle slot
  have printsT : ∀ t, Indistinguishable p s t → ∀ out, t.Prints plat p start len out ↔
      s.Repliable plat frame ∧
        ∃ pa, t.Text plat p start len pa ∧ out = consoleBytes (t.memory.load pa len) := by
    intro t same out
    rw [prints_iff same.idle ((same.spans_iff _ _ _).mpr slot), GlobalState.Repliable, same.inRam_iff]
    rfl
  constructor
  · intro agree frame' slot' room pa spans
    rw [slot'.unique slot] at room
    by_contra leaks
    push Not at leaks
    rcases leaks with ⟨⟨x, low, high, hidden⟩, t, same, valid⟩
    by_cases own : ByteArray.validateUTF8 ⟨(s.memory.load pa len).toArray⟩ = true
    · -- There is another text that differs from that of `s` in the hidden byte.
      have inside : x - pa < (s.memory.load pa len).length := by
        rw [Memory.load, List.length_map, List.length_range]
        omega
      rcases Utf8.exists_valid _ own (x - pa) inside with ⟨new, validNew, swapped⟩
      have sameNew := indistinguishable_of_hidden (p := p) idle hidden new
      have printed := (agree _ sameNew _).mp ((prints _).mpr ⟨room, pa, ⟨spans, own⟩, rfl⟩)
      rcases (printsT _ sameNew _).mp printed with ⟨-, pa', text, shown⟩
      have here : pa' = pa := ((sameNew.spans_iff _ _ _).mp text.1).unique spans
      have address : pa + (x - pa) = x := by omega
      have changed := load_update s.memory pa len (x - pa) new
      rw [address] at changed
      rw [here] at shown
      apply consoleBytes_set _ _ inside new swapped
      rw [← changed]
      exact shown.symm
    · have text : t.Text plat p start len pa := ⟨(same.spans_iff _ _ _).mpr spans, valid⟩
      have printed := (agree t same _).mpr ((printsT t same _).mpr ⟨room, pa, text, rfl⟩)
      rcases (prints _).mp printed with ⟨-, pa', text', -⟩
      rw [text'.1.unique spans] at text'
      exact own text'.2
  · intro safe t same out
    rw [prints, printsT t same]
    apply and_congr_right
    intro room
    have texts : ∀ pa, s.Text plat p start len pa ∧ out = consoleBytes (s.memory.load pa len) ↔
        t.Text plat p start len pa ∧ out = consoleBytes (t.memory.load pa len) := by
      intro pa
      rw [GlobalState.Text, GlobalState.Text, same.spans_iff]
      by_cases spans : (⟨start, (s.object p).pageTable, len⟩ : UserMemorySlice).Spans plat s pa
      · rcases safe frame slot room pa spans with visible | textless
        · rw [Memory.load_congr s.memory t.memory pa len fun x low high => same.visible (visible x low high)]
        · have own := textless s ⟨rfl, fun _ _ _ _ _ => rfl, fun _ _ => rfl, rfl, idle⟩
          have other := textless t same
          exact iff_of_false (fun text => own text.1.2) (fun text => other text.1.2)
      · simp only [spans, false_and]
    exact exists_congr texts

end Results

namespace Board

def askPrint : List Event :=
  [.store (kucomPage + 8) 1, .store (kucomPage + 17) 0x10, .store (kucomPage + 24) 1]

def askPrintFrame : List Event :=
  [.store (kucomPage + 8) 1, .store (kucomPage + 17) 0xd0] ++
    ((List.range 6).map fun i => .store (kucomPage + 18 + i) 0xff) ++ [.store (kucomPage + 24) 1]

def request (u : Machine) : Option SyscallInfo :=
  (readRequest plat (u.kernel.object 1).pageTable u.kernel).toOption.map Prod.fst

theorem readRequest_of_request {u : Machine} {info : SyscallInfo} (asks : request u = some info) :
    ∃ s', readRequest plat (u.kernel.object 1).pageTable u.kernel = .ok (info, s') := by
  rcases Option.map_eq_some_iff.mp asks with ⟨⟨info', s'⟩, ran, rfl⟩
  cases read : readRequest plat (u.kernel.object 1).pageTable u.kernel with
  | error e =>
      rw [read] at ran
      cases ran
  | ok result =>
      rw [read] at ran
      cases ran
      exact ⟨s', rfl⟩

end Board

theorem program_byte_is_own : ∃ u trace,
    Run (Machine.Steps Board.plat) Board.boot trace u ∧
      ∀ t, Indistinguishable 1 u.kernel t → ∀ out,
        u.kernel.Prints Board.plat 1 4096 1 out ↔ t.Prints Board.plat 1 4096 1 out := by
  rcases Board.run_of_check (Board.started ++ Board.askPrint)
    (fun u => decide (u.kernel.held = [] ∧
      Board.request u = some (.syscall (.write 4096 1)) ∧
      (leafAt u.kernel.memory (u.kernel.object 1).pageTable 4096).map
        PageTableEntry.userModeAccessible = some true)) (by decide +kernel) with
    ⟨u, trace, run, -, holds⟩
  rcases of_decide_eq_true holds with ⟨idle, asks, mapped⟩
  rcases Board.readRequest_of_request asks with ⟨s', asked⟩
  rcases Option.map_eq_some_iff.mp mapped with ⟨entry, leaf, accessible⟩
  refine ⟨u, trace, run, (write_discloses_iff Board.plat u.kernel s' 1 4096 1 idle asked).mpr ?_⟩
  intro _ _ _ pa spans
  left
  intro x low high
  right
  rcases spans.mapped with ⟨entry', leaf', frame⟩
  have same : entry' = entry := Option.some.inj (leaf'.symm.trans leaf)
  have offset : 4096 % pageSize = 0 := by decide
  have size : pageSize = 4096 := rfl
  simp only [same, offset] at frame
  exact ⟨4096, entry, leaf, accessible, by omega, by omega⟩

theorem Separated.frame_hidden {plat : Platform} {s : GlobalState} {p x : Nat}
    (separated : Separated plat s) (present : p ∈ s.processes) (alive : Alive (s.object p))
    (low : (s.object p).trapframe ≤ x) (high : x < (s.object p).trapframe + pageSize) :
    ¬ s.Visible p x := by
  rcases separated.isolated with ⟨free, live, owner, isolated⟩
  have framed := isolated.frames p present x low high
  rintro (⟨page, isPage, above, below⟩ | ⟨va, entry, leaf, accessible, above, below⟩)
  · exact isolated.not_table framed (by simp) present alive isPage ⟨above, below⟩
  · have used := (isolated.spaces p present alive).users va entry leaf accessible x above below
    cases held_unique isolated.wf framed used

/-- A process prints the first byte of its trap frame, which it does not map for user mode: two
states that it cannot tell apart otherwise print differently. -/
theorem frame_is_printed : ∃ u trace s',
    Run (Machine.Steps Board.plat) Board.boot trace u ∧
      readRequest Board.plat (u.kernel.object 1).pageTable u.kernel =
        .ok (.syscall (.write trapframeVa 1), s') ∧
      ∃ t out, Indistinguishable 1 u.kernel t ∧ u.kernel.Prints Board.plat 1 trapframeVa 1 out ∧
        ¬ t.Prints Board.plat 1 trapframeVa 1 out := by
  rcases Board.good_run_of_check (Board.started ++ Board.askPrintFrame)
    (fun u => decide (u.kernel.held = [] ∧ 1 ∈ u.kernel.processes ∧ u.stateOf 1 = .running ∧
      Board.request u = some (.syscall (.write trapframeVa 1)) ∧
      (u.kernel.object 1).trapframe ≠ 0 ∧
      u.kernel.InRam Board.plat.kernelStart (u.kernel.object 1).trapframe 1 ∧
      (leafAt u.kernel.memory (u.kernel.object 1).pageTable kucomPage).any (fun entry => decide
        (u.kernel.InRam Board.plat.endOfKernelText entry.getPhysicalAddress
          Board.plat.layout.size)) = true ∧
      (leafAt u.kernel.memory (u.kernel.object 1).pageTable trapframeVa).map
        PageTableEntry.getPhysicalAddress = some (u.kernel.object 1).trapframe ∧
      u.kernel.memory (u.kernel.object 1).trapframe = 0)) (by decide +kernel) with
    ⟨u, trace, run, -, good, holds⟩
  rcases of_decide_eq_true holds with
    ⟨idle, present, runs, asks, notNull, inside, repliable, mapped, zero⟩
  rcases Board.readRequest_of_request asks with ⟨s', asked⟩
  have separated :=
    (Machine.separated_of_run Board.boot_booted run good u (Run.last_mem_visited trace u)).2
  have alive : Alive (u.kernel.object 1) := by
    intro r terminated
    cases terminated.symm.trans runs
  have hidden := separated.frame_hidden present alive (le_refl _)
    (Nat.lt_add_of_pos_right (by decide))
  have same := indistinguishable_of_hidden (p := 1) idle hidden 65
  rcases slot_of_readRequest idle asked with ⟨frame, slot⟩
  rcases (Option.any_eq_true _ _).mp repliable with ⟨page, pageLeaf, fits⟩
  have atFrame : page.getPhysicalAddress = frame := by
    rcases slot.mapped with ⟨page', leaf', value⟩
    cases pageLeaf.symm.trans leaf'
    have offset : kucomPage % pageSize = 0 := by decide
    simp only [value, offset, Nat.add_zero]
  have room : u.kernel.Repliable Board.plat frame := by
    have inRam := of_decide_eq_true fits
    rw [← atFrame]
    exact inRam
  rcases Option.map_eq_some_iff.mp mapped with ⟨entry, leaf, frameOf⟩
  have spans : (⟨trapframeVa, (u.kernel.object 1).pageTable, 1⟩ : UserMemorySlice).Spans Board.plat
      u.kernel (u.kernel.object 1).trapframe := by
    have bounded : trapframeVa < usizeBound := by decide
    have small : 1 ≤ isizeMax := by decide
    have offset : trapframeVa % pageSize = 0 := by decide
    refine ⟨bounded, ⟨entry, leaf, ?_⟩, notNull, small, inside⟩
    simp only [frameOf, offset, Nat.add_zero]
  have shown : u.kernel.memory.load (u.kernel.object 1).trapframe 1 = [0] := by
    rw [← zero]
    rfl
  refine ⟨u, trace, s', run, asked, _, [0], same, ?_, ?_⟩
  · rw [prints_iff idle slot]
    refine ⟨room, _, ⟨spans, ?_⟩, ?_⟩
    · rw [shown]
      decide +kernel
    · rw [shown]
      decide
  · rw [prints_iff same.idle ((same.spans_iff _ _ _).mpr slot)]
    rintro ⟨-, pa, text, printed⟩
    have there := ((same.spans_iff _ _ _).mp text.1).unique spans
    have loaded := load_update u.kernel.memory (u.kernel.object 1).trapframe 1 0 65
    rw [shown] at loaded
    rw [there] at printed
    have byte : [0] = consoleBytes [65] := printed.trans (congrArg consoleBytes loaded)
    exact absurd byte (by decide)

end Jangri
