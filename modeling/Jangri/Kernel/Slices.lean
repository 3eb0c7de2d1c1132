import Jangri.Kernel.Disclosure

namespace Jangri

open Lib

namespace UserMemorySlice

def Sees (plat : Platform) (s : GlobalState) (slice : UserMemorySlice) (address : Nat → Nat) : Prop :=
  ∀ i < slice.size, (translate plat (slice.start + i) slice.pageTable).run s =
    .ok (.ok (address i), s)

structure Gives (plat : Platform) (s : GlobalState) (slice : UserMemorySlice)
    (address : Nat → Nat) : Prop where
  reads : slice.read plat (translate plat) s =
    .ok ((List.range slice.size).map fun i => s.memory (address i), s)
  copies : slice.readToVec plat (translate plat) s =
    .ok ((List.range slice.size).map fun i => s.memory (address i), s)

structure Reaches (plat : Platform) (s : GlobalState) (slice : UserMemorySlice)
    (address : Nat → Nat) : Prop extends slice.Gives plat s address where
  writes : ∀ bytes, ∃ t, slice.write plat (translate plat) bytes s = .ok ((), t) ∧
    (∀ i < min slice.size bytes.length, t.memory (address i) = bytes.getD i 0) ∧
    ∀ x, (∀ i < min slice.size bytes.length, x ≠ address i) → t.memory x = s.memory x

structure Readable (plat : Platform) (s : GlobalState) (slice : UserMemorySlice)
    (address : Nat → Nat) : Prop where
  same : ∀ i < slice.size, s.memory (address 0 + i) = s.memory (address i)
  notNull : address 0 ≠ 0
  small : slice.size ≤ isizeMax
  inside : s.InRam plat.kernelStart (address 0) slice.size

/-- The bytes follow one another in RAM that the kernel can write. -/
structure Contiguous (plat : Platform) (s : GlobalState) (slice : UserMemorySlice)
    (address : Nat → Nat) : Prop where
  consecutive : ∀ i < slice.size, address i = address 0 + i
  notNull : address 0 ≠ 0
  small : slice.size ≤ isizeMax
  inside : s.InRam plat.endOfKernelText (address 0) slice.size

section Seen

variable {plat : Platform} {s : GlobalState} {slice : UserMemorySlice} {address : Nat → Nat}

theorem Sees.first (sees : slice.Sees plat s address) (available : .arch ∉ s.held)
    (some_ : 1 ≤ slice.size) : slice.start < usizeBound ∧
      ∃ entry, leafAt s.memory slice.pageTable slice.start = some entry ∧
        address 0 = entry.getPhysicalAddress + slice.start % pageSize := by
  rcases va2pa_run plat available slice.pageTable slice.start with ⟨r, ran, found⟩
  have seen := sees 0 some_
  rw [Nat.add_zero, ran] at seen
  exact (found (address 0)).mp (congrArg Prod.fst (Except.ok.inj seen))

theorem Contiguous.readable (contiguous : slice.Contiguous plat s address) :
    slice.Readable plat s address where
  same := by
    intro i low
    rw [contiguous.consecutive i low]
  notNull := contiguous.notNull
  small := contiguous.small
  inside := contiguous.inside.imp_right fun room => ⟨plat.text.trans room.1, room.2⟩

theorem Readable.spans (readable : slice.Readable plat s address)
    (sees : slice.Sees plat s address) (available : .arch ∉ s.held) (some_ : 1 ≤ slice.size) :
    slice.Spans plat s (address 0) := by
  rcases sees.first available some_ with ⟨bounded, mapped⟩
  exact ⟨bounded, mapped, readable.notNull, readable.small, readable.inside⟩

theorem read_of_spans (available : .arch ∉ s.held) {pa : Nat} (spans : slice.Spans plat s pa) :
    slice.read plat (translate plat) s = .ok (s.memory.load pa slice.size, s) := by
  have spec : wp (slice.read plat (translate plat))
      (fun bytes t => bytes = s.memory.load pa slice.size ∧ t = s) (fun _ => False) s := by
    apply wp_sliceRead_iff available
    · intro pa' spans'
      rw [spans'.unique spans]
      exact ⟨rfl, rfl⟩
    · intro none_
      exact absurd spans (none_ pa)
  rcases returned_of_wp spec with ⟨bytes, t, ran, rfl, rfl⟩
  exact ran

theorem write_of_spans (available : .arch ∉ s.held) {pa : Nat} (spans : slice.Spans plat s pa)
    (bytes : List UInt8) (room : s.InRam plat.endOfKernelText pa (min slice.size bytes.length)) :
    slice.write plat (translate plat) bytes s = .ok ((), { s with
      memory := s.memory.store pa (bytes.take (min slice.size bytes.length)) }) := by
  have spec : wp (slice.write plat (translate plat) bytes) (fun _ t => t = { s with
      memory := s.memory.store pa (bytes.take (min slice.size bytes.length)) })
      (fun _ => False) s :=
    wp_sliceWrite available slice bytes spans _ (fun _ => rfl) (fun outside => outside room)
  rcases returned_of_wp spec with ⟨_, t, ran, rfl⟩
  exact ran

theorem room_of_write (available : .arch ∉ s.held) {pa : Nat} (spans : slice.Spans plat s pa)
    {bytes : List UInt8} {t : GlobalState}
    (ran : slice.write plat (translate plat) bytes s = .ok ((), t)) :
    s.InRam plat.endOfKernelText pa (min slice.size bytes.length) := by
  by_contra outside
  have spec : wp (slice.write plat (translate plat) bytes) (fun _ _ => False) (fun _ => True) s :=
    wp_sliceWrite available slice bytes spans _ outside (fun _ => trivial)
  exact wp_of_returns spec ran

theorem spans_of_read (available : .arch ∉ s.held) (some_ : 1 ≤ slice.size)
    (sees : slice.Sees plat s address) {bytes : List UInt8} {t : GlobalState}
    (ran : slice.read plat (translate plat) s = .ok (bytes, t)) : slice.Spans plat s (address 0) := by
  have spec : wp (slice.read plat (translate plat)) (fun _ _ => ∃ pa, slice.Spans plat s pa)
      (fun _ => True) s := by
    apply wp_sliceRead_iff available
    · intro pa spans
      exact ⟨pa, spans⟩
    · exact fun _ _ => trivial
  rcases wp_of_returns spec ran with ⟨pa, spans⟩
  rcases sees.first available some_ with ⟨-, entry, leaf, value⟩
  rcases spans.mapped with ⟨entry', leaf', value'⟩
  have same := leaf.symm.trans leaf'
  cases same
  rw [value, ← value']
  exact spans

theorem Readable.gives (readable : slice.Readable plat s address)
    (sees : slice.Sees plat s address) (available : .arch ∉ s.held) (some_ : 1 ≤ slice.size) :
    slice.Gives plat s address := by
  have loaded : s.memory.load (address 0) slice.size =
      (List.range slice.size).map fun i => s.memory (address i) := by
    apply List.map_congr_left
    intro i low
    exact readable.same i (List.mem_range.mp low)
  have read := read_of_spans available (readable.spans sees available some_)
  rw [loaded] at read
  exact ⟨read, read⟩

theorem Gives.readable (gives : slice.Gives plat s address) (sees : slice.Sees plat s address)
    (available : .arch ∉ s.held) (some_ : 1 ≤ slice.size) : slice.Readable plat s address := by
  have spans := spans_of_read available some_ sees gives.reads
  have read := gives.reads
  rw [read_of_spans available spans] at read
  refine ⟨?_, spans.notNull, spans.small, spans.inside⟩
  intro i low
  have bytes := congrArg Prod.fst (Except.ok.inj read)
  exact List.map_eq_map_iff.mp bytes i (List.mem_range.mpr low)

theorem Contiguous.reaches (contiguous : slice.Contiguous plat s address)
    (sees : slice.Sees plat s address) (available : .arch ∉ s.held) (some_ : 1 ≤ slice.size) :
    slice.Reaches plat s address := by
  have spans := contiguous.readable.spans sees available some_
  refine ⟨contiguous.readable.gives sees available some_, ?_⟩
  intro bytes
  have room : s.InRam plat.endOfKernelText (address 0) (min slice.size bytes.length) := by
    have inside := contiguous.inside
    simp only [GlobalState.InRam] at *
    omega
  refine ⟨_, write_of_spans available spans bytes room, ?_, ?_⟩
  · intro i low
    have short : i < slice.size := lt_of_lt_of_le low (Nat.min_le_left _ _)
    rw [contiguous.consecutive i short]
    simp only [Memory.store, List.length_take]
    rw [if_pos (by omega), Nat.add_sub_cancel_left]
    simp only [List.getD_eq_getElem?_getD, List.getElem?_take]
    rw [if_pos low]
  · intro x apart
    apply if_neg
    rintro ⟨low, high⟩
    rw [List.length_take] at high
    have inside : x - address 0 < min slice.size bytes.length := by omega
    apply apart _ inside
    rw [contiguous.consecutive _ (by omega)]
    omega

theorem Reaches.consecutive (reaches : slice.Reaches plat s address)
    (spans : slice.Spans plat s (address 0)) (available : .arch ∉ s.held) {i : Nat}
    (low : i < slice.size) : address i = address 0 + i := by
  let bytes := (List.range slice.size).map fun k =>
    if k = i then s.memory (address i) + 1 else s.memory (address i)
  have long : bytes.length = slice.size := by simp [bytes]
  have whole : min slice.size bytes.length = slice.size := by omega
  have differs : s.memory (address i) + 1 ≠ s.memory (address i) := by simp
  rcases reaches.writes bytes with ⟨t, ran, stored, -⟩
  rw [write_of_spans available spans bytes (room_of_write available spans ran)] at ran
  cases ran
  have there := stored i (by omega)
  have wanted : bytes.getD i 0 = s.memory (address i) + 1 := by
    rw [List.getD_eq_getElem _ _ (by omega)]
    simp [bytes]
  rw [wanted, whole, List.take_of_length_le (by omega)] at there
  simp only [Memory.store] at there
  by_cases inside : address 0 ≤ address i ∧ address i < address 0 + bytes.length
  · rw [if_pos inside, List.getD_eq_getElem _ _ (by omega)] at there
    by_cases same : address i - address 0 = i
    · omega
    · simp only [bytes, List.getElem_map, List.getElem_range, if_neg same] at there
      exact absurd there.symm differs
  · rw [if_neg inside] at there
    exact absurd there.symm differs

theorem Reaches.contiguous (reaches : slice.Reaches plat s address)
    (sees : slice.Sees plat s address) (available : .arch ∉ s.held) (some_ : 1 ≤ slice.size) :
    slice.Contiguous plat s address := by
  have spans := spans_of_read available some_ sees reaches.reads
  rcases reaches.writes (List.replicate slice.size 0) with ⟨t, ran, -⟩
  have room := room_of_write available spans ran
  rw [List.length_replicate, min_self] at room
  exact ⟨fun i low => reaches.consecutive spans available low, spans.notNull, spans.small, room⟩

end Seen

end UserMemorySlice

section Results

variable (plat : Platform) (s : GlobalState) (slice : UserMemorySlice) (address : Nat → Nat)

/-- A mapped slice gives the bytes that its user sees exactly when the same bytes stand one after
another in RAM. It takes them as well exactly when they follow one another there. -/
theorem slice_reaches_iff (available : .arch ∉ s.held) (some_ : 1 ≤ slice.size)
    (sees : slice.Sees plat s address) :
    (slice.Gives plat s address ↔ slice.Readable plat s address) ∧
      (slice.Reaches plat s address ↔ slice.Contiguous plat s address) := by
  constructor
  · exact ⟨fun gives => gives.readable sees available some_,
      fun readable => readable.gives sees available some_⟩
  · exact ⟨fun reaches => reaches.contiguous sees available some_,
      fun contiguous => contiguous.reaches sees available some_⟩

end Results

theorem translate_of_leaf (plat : Platform) {s : GlobalState} (available : .arch ∉ s.held)
    {root va frame : Nat} (bounded : va < usizeBound)
    (leaf : (leafAt s.memory root va).map PageTableEntry.getPhysicalAddress = some frame) :
    (translate plat va root).run s = .ok (.ok (frame + va % pageSize), s) := by
  rcases va2pa_run plat available root va with ⟨r, ran, found⟩
  rcases Option.map_eq_some_iff.mp leaf with ⟨entry, known, rfl⟩
  rw [ran, (found _).mpr ⟨bounded, entry, known, rfl⟩]

namespace Board

def crossed : List MapCall :=
  [⟨0x1000, 0x300000, 4096, true, true, false, true⟩,
   ⟨0x2000, 0x200000, 4096, true, true, false, true⟩]

theorem crossed_mapped : ∃ trace s, Run ((arch plat).MapSteps 4096) boot.kernel trace s ∧
    s.held = [] ∧ s.allocator.memoryEnd = 4259840 ∧
    (leafAt s.memory 4096 0x1fff).map PageTableEntry.getPhysicalAddress = some 0x300000 ∧
    (leafAt s.memory 4096 0x2000).map PageTableEntry.getPhysicalAddress = some 0x200000 := by
  rcases (arch plat).run_of_calls 4096 boot.kernel crossed (fun s =>
    decide (s.held = [] ∧ s.allocator.memoryEnd = 4259840 ∧
      (leafAt s.memory 4096 0x1fff).map PageTableEntry.getPhysicalAddress = some 0x300000 ∧
      (leafAt s.memory 4096 0x2000).map PageTableEntry.getPhysicalAddress = some 0x200000))
    (by decide +kernel) with ⟨trace, s, run, -, holds⟩
  exact ⟨trace, s, run, of_decide_eq_true holds⟩

end Board

theorem last_byte_reached : ∃ trace s,
    Run ((arch Board.plat).MapSteps 4096) Board.boot.kernel trace s ∧
    (⟨0x1fff, 4096, 1⟩ : UserMemorySlice).Reaches Board.plat s fun i => 0x300fff + i := by
  rcases Board.crossed_mapped with ⟨trace, s, run, idle, ram, first, -⟩
  refine ⟨trace, s, run, ?_⟩
  apply (slice_reaches_iff Board.plat s ⟨0x1fff, 4096, 1⟩ (fun i => 0x300fff + i) (by simp [idle])
    (le_refl 1) ?_).2.mpr
  · refine ⟨?_, by decide, by decide, Or.inr ⟨by decide, ?_⟩⟩
    · intro i _
      rfl
    · rw [ram]
      decide
  · intro i low
    have zero : i = 0 := Nat.lt_one_iff.mp low
    subst zero
    exact translate_of_leaf Board.plat (by simp [idle]) (by decide) first

theorem straddling_slice_misses : ∃ trace s,
    Run ((arch Board.plat).MapSteps 4096) Board.boot.kernel trace s ∧ s.held = [] ∧
    (⟨0x1fff, 4096, 2⟩ : UserMemorySlice).Sees Board.plat s
      (fun i => if i = 0 then 0x300fff else 0x200000) ∧
    ¬ (⟨0x1fff, 4096, 2⟩ : UserMemorySlice).Reaches Board.plat s
      (fun i => if i = 0 then 0x300fff else 0x200000) := by
  rcases Board.crossed_mapped with ⟨trace, s, run, idle, -, first, second⟩
  have sees : (⟨0x1fff, 4096, 2⟩ : UserMemorySlice).Sees Board.plat s
      (fun i => if i = 0 then 0x300fff else 0x200000) := by
    intro i low
    rcases Nat.le_one_iff_eq_zero_or_eq_one.mp (Nat.le_of_lt_succ low) with rfl | rfl
    · exact translate_of_leaf Board.plat (by simp [idle]) (by decide) first
    · exact translate_of_leaf Board.plat (by simp [idle]) (by decide) second
  refine ⟨trace, s, run, idle, sees, ?_⟩
  intro reaches
  have consecutive := (reaches.contiguous sees (by simp [idle]) (by decide)).consecutive 1 (by decide)
  exact absurd consecutive (by decide)

end Jangri
