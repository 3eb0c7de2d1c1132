import Jangri.Allocator.Invariant

namespace Jangri

open Lib

namespace PageAllocator

variable {alloc : PageAllocator} {m : Memory} {free : Nat → List Nat} {live : List Block}

theorem new_spec (start stop : Nat) (notNull : start ≠ 0) (ordered : start ≤ stop)
    (bounded : stop < usizeBound) (m : Memory) :
    ∃ alloc, new start stop = .ok alloc ∧ alloc.WellFormed m (fun _ => []) [] ∧
      alloc.memoryStart = start ∧ alloc.memoryEnd = stop ∧ alloc.bitmaps = Bitmap.new := by
  refine ⟨{ bitmaps := Bitmap.new, memoryStart := start, memoryEnd := stop,
            list := fun _ => { head := none }, currentSize := stop - start,
            currentStart := start }, ?_, ?_, rfl, rfl, rfl⟩
  · simp [new, notNull, ordered, expect]
  · refine { notNull, bounded, bump := ⟨le_refl _, ordered⟩, size := rfl,
             chains := fun _ => rfl, pages := by simp, tiles := ?_, aligned := ?_ }
    · intro x
      rw [freeBlocks_none]
      simp [bumpRegion]
    · intro b hb
      rw [freeBlocks_none] at hb
      obtain rfl : b = _ := by simpa using hb
      rfl

theorem currentSize_new {start stop : Nat} (built : new start stop = .ok alloc) :
    alloc.currentSize = stop - start := by
  by_cases notNull : start = 0
  · simp [new, notNull, panic] at built
  · by_cases ordered : start ≤ stop
    · simp only [new, if_neg notNull, if_pos ordered, expect] at built
      rw [← Except.ok.inj built]
    · simp [new, notNull, ordered, expect, panic] at built

theorem getList_eq (alloc : PageAllocator) (i : Nat) (inside : i < numMultiples) :
    alloc.getList i = some (alloc.list ⟨i, inside⟩) :=
  dif_pos inside

/-- Taking the first block off a list hands it to the caller. -/
theorem pop_spec (wf : alloc.WellFormed m free live) (i a : Nat) (rest : List Nat)
    (inside : i < numMultiples) (first : free i = a :: rest) :
    ∃ list m', (alloc.list ⟨i, inside⟩).popFront m = .ok (some a, list, m') ∧
      (alloc.setList i list).WellFormed m' (Function.update free i rest)
        (⟨a, classSize i⟩ :: live) ∧
      (list.head = none ↔ rest = []) ∧
      (∀ x, cover (freeBlocks free) x = 0 → m' x = m x) := by
  have distinct := wf.free_nodup i inside
  rw [first, List.nodup_cons] at distinct
  have old := wf.chains ⟨i, inside⟩
  simp only at old
  rw [first] at old
  have restMem : ∀ b ∈ rest, b ∈ free i := by
    intro b hb
    rw [first]
    exact List.mem_cons_of_mem a hb
  obtain ⟨list, m', popped, chain, frame⟩ := LinkedList.popFront_spec _ m _ a rest old distinct.2
    fun b hb c hc different =>
      wf.free_apart i i b c inside inside (restMem b hb) (restMem c hc) different
  have same : ∀ x, (∀ b ∈ rest, x < b ∨ b + nodeBytes ≤ x) → m' x = m x := by
    intro x outside
    apply frame {x}
    · intro b hb y isX
      rw [Set.mem_singleton_iff.mp isX]
      exact outside b hb
    · rfl
  have outside : ∀ x, cover (freeBlocks free) x = 0 → m' x = m x := by
    intro x zero
    apply same
    exact fun b hb => WellFormed.header_apart_of_unlisted i b x inside (restMem b hb) zero
  refine ⟨list, m', popped, ?_, chain.head_eq_none_iff, outside⟩
  refine {
    notNull := wf.notNull, bounded := wf.bounded, bump := wf.bump, size := wf.size,
    chains := ?_, pages := ?_, tiles := ?_, aligned := ?_ }
  · apply wf.chains_setList i inside list rest m' chain same
    intro j hj different c hc b hb
    exact wf.class_apart i j b c inside hj (restMem b hb) hc (Ne.symm different)
  · intro b hb
    rcases List.mem_cons.mp hb with rfl | hb
    · simp only [classSize, pageSize]
      omega
    · exact wf.pages b hb
  · intro x
    have old := wf.tiles x
    have moved := cover_freeBlocks_update free i rest inside x
    simp only [classBlocks, first, List.map_cons, cover_cons] at moved
    simp only [List.cons_append, cover_append, cover_cons, cover_nil, bumpRegion, setList] at old ⊢
    omega
  · intro b hb
    have back : b ∈ live ++ freeBlocks free ++ [alloc.bumpRegion] := by
      rw [List.cons_append, List.cons_append, List.mem_cons, List.mem_append, List.mem_append] at hb
      rcases hb with rfl | (hb | hb) | hb
      · exact WellFormed.free_mem i a inside (by rw [first]; exact List.mem_cons_self)
      · simp [hb]
      · rcases mem_freeBlocks_update hb with listed | ⟨c, hc, rfl⟩
        · simp [listed]
        · exact WellFormed.free_mem i c inside (restMem c hc)
      · exact List.mem_append_right _ hb
    exact wf.aligned b back

theorem release_spec (wf : alloc.WellFormed m free live) (nodeId i start : Nat)
    (inside : i < numMultiples) (held : (⟨start, classSize i⟩ : Block) ∈ live) :
    ∃ alloc' store', alloc.release ⟨m, nodeId⟩ start (classSize i) = .ok (alloc', store') ∧
      alloc'.WellFormed store'.memory (Function.update free i (free i ++ [start]))
        (live.erase ⟨start, classSize i⟩) ∧
      (∀ k, alloc'.bitmaps.Member k ↔ k = i + 1 ∨ alloc.bitmaps.Member k) ∧
      (∀ x, cover (freeBlocks free) x = 0 → ¬ Block.Contains ⟨start, classSize i⟩ x →
        store'.memory x = m x) ∧
      alloc'.memoryStart = alloc.memoryStart ∧ alloc'.memoryEnd = alloc.memoryEnd ∧
      alloc'.currentStart = alloc.currentStart := by
  have pointer := wf.live_pointer _ held
  have header := header_le_classSize i
  have small : classSize i < usizeBound := by
    have := wf.live_inside _ held
    have := wf.bounded
    simp only at *
    omega
  have pages : classSize i / pageSize = i + 1 := by
    rw [classSize, Nat.mul_div_cancel _ (by decide)]
  -- The node is written inside the live block, so no list notices.
  have counter : nodeId % usizeBound < usizeBound := Nat.mod_lt _ (by decide)
  obtain ⟨m1, written⟩ : ∃ m1, m1 = writeNode m start
      ⟨magic1, none, none, classSize i, nodeId % usizeBound, magic2⟩ := ⟨_, rfl⟩
  have node : readNode m1 start =
      ⟨magic1, none, none, classSize i, nodeId % usizeBound, magic2⟩ := by
    rw [written]
    exact readNode_writeNode _ _ _ (fresh_fits _ _ small counter)
  have inBlock : ∀ x, ¬ Block.Contains ⟨start, classSize i⟩ x →
      x < start ∨ start + nodeBytes ≤ x := by
    intro x outside
    by_contra close
    exact outside ⟨by simp only; omega, by simp only; omega⟩
  have writeFrame : ∀ x, ¬ Block.Contains ⟨start, classSize i⟩ x → m1 x = m x := by
    intro x outside
    rw [written]
    apply writeNode_eqOn m start _ {x}
    · intro y isX
      rw [Set.mem_singleton_iff.mp isX]
      exact inBlock x outside
    · rfl
  have wf1 : alloc.WellFormed m1 free live := wf.congr_live m1 _ held writeFrame
  have fresh : ∀ j < numMultiples, ∀ a ∈ free j, Apart a start := fun j hj a ha =>
    wf.live_apart_node _ held j a hj ha
  obtain ⟨list, m2, pushed, chain, -, frame⟩ := wf1.push_spec ⟨i, inside⟩ start _ pointer
    (fresh i inside) node
  obtain ⟨bitmaps, marked, member⟩ := alloc.bitmaps.markAvailable_spec (i + 1) (by omega)
    (by simp only [numMultiples] at inside; omega)
  refine ⟨{ alloc.setList i list with bitmaps }, ⟨m2, (nodeId + 1) % usizeBound⟩, ?_, ?_, member,
    ?_, rfl, rfl, rfl⟩
  · have nonzero : classSize i ≠ 0 := by have := classSize_pos i; omega
    simp only [release, generateNodeId, Node.new, nonzero, if_false, pure_eq_ok, ok_bind, ← written,
      pages, Nat.add_sub_cancel, getList_eq alloc i inside, unwrap, nonNull, pointer.1, pushed,
      marked]
  · refine {
      notNull := wf.notNull, bounded := wf.bounded, bump := wf.bump, size := wf.size,
      chains := ?_, pages := fun b hb => wf.pages b (List.mem_of_mem_erase hb),
      tiles := ?_, aligned := ?_ }
    · apply wf1.chains_setList i inside list (free i ++ [start]) m2 chain frame
      intro j hj different c hc b hb
      rcases List.mem_append.mp hb with hb | hb
      · exact wf.class_apart i j b c inside hj hb hc (Ne.symm different)
      · rw [List.mem_singleton.mp hb]
        exact (fresh j hj c hc).symm
    · intro x
      have old := wf.tiles x
      have moved := cover_freeBlocks_update free i (free i ++ [start]) inside x
      have taken := cover_erase live _ held x
      simp only [classBlocks, List.map_append, List.map_cons, List.map_nil, cover_append,
        cover_cons, cover_nil] at moved
      simp only [cover_append, cover_cons, cover_nil, bumpRegion, setList] at old ⊢
      omega
    · intro b hb
      have back : b ∈ live ++ freeBlocks free ++ [alloc.bumpRegion] := by
        rw [List.mem_append, List.mem_append] at hb
        rcases hb with (hb | hb) | hb
        · simp [List.mem_of_mem_erase hb]
        · rcases mem_freeBlocks_update hb with listed | ⟨c, hc, rfl⟩
          · simp [listed]
          · rcases List.mem_append.mp hc with old | new
            · exact WellFormed.free_mem i c inside old
            · rw [List.mem_singleton.mp new]
              simp [held]
        · exact List.mem_append_right _ hb
      exact wf.aligned b back
  · intro x unlisted outside
    rw [← writeFrame x outside]
    apply frame
    intro b hb
    rcases List.mem_append.mp hb with hb | hb
    · exact WellFormed.header_apart_of_unlisted i b x inside hb unlisted
    · rw [List.mem_singleton.mp hb]
      exact inBlock x outside

def freeAfterReuse (free : Nat → List Nat) (multiple v a : Nat) (rest : List Nat) :
    Nat → List Nat :=
  let popped := Function.update free (v - 1) rest
  if v = multiple then popped
  else Function.update popped (v - multiple - 1)
    (popped (v - multiple - 1) ++ [a + multiple * pageSize])

theorem WellFormed.fill_live (wf : alloc.WellFormed m free live) (addr size : Nat) (byte : UInt8)
    (held : (⟨addr, size⟩ : Block) ∈ live) : alloc.WellFormed (m.fill addr size byte) free live :=
  wf.congr_live _ _ held fun _ outside => if_neg outside

theorem WellFormed.write_live (wf : alloc.WellFormed m free live) (addr : Nat) (byte : UInt8)
    (held : ∃ b ∈ live, b.Contains addr) :
    alloc.WellFormed (m.write addr 1 byte.toNat) free live := by
  rcases held with ⟨b, present, inside⟩
  apply wf.congr_live _ b present
  intro x outside
  apply if_neg
  intro here
  have same : x = addr := by omega
  exact outside (same ▸ inside)

theorem allocateFromList_spec (wf : alloc.WellFormed m free live) (nodeId multiple v a : Nat)
    (rest : List Nat) (positive : 0 < multiple) (enough : multiple ≤ v) (high : v ≤ numMultiples)
    (first : free (v - 1) = a :: rest) :
    ∃ alloc' store', alloc.allocateFromList ⟨m, nodeId⟩ multiple v = .ok (a, alloc', store') ∧
      alloc'.WellFormed store'.memory (freeAfterReuse free multiple v a rest)
        (⟨a, multiple * pageSize⟩ :: live) ∧
      (∀ k, alloc'.bitmaps.Member k ↔
        (v ≠ multiple ∧ k = v - multiple) ∨ (alloc.bitmaps.Member k ∧ (rest = [] → k ≠ multiple))) ∧
      (∀ x, a ≤ x → x < a + multiple * pageSize → store'.memory x = 0) ∧
      (∀ x, cover (freeBlocks free) x = 0 → store'.memory x = m x) ∧
      alloc'.memoryStart = alloc.memoryStart ∧ alloc'.memoryEnd = alloc.memoryEnd ∧
      alloc'.currentStart = alloc.currentStart := by
  have inside : v - 1 < numMultiples := by omega
  have size : classSize (v - 1) = v * pageSize := by rw [classSize, Nat.sub_add_cancel (by omega)]
  obtain ⟨list, m1, popped, wf1, emptied, frame1⟩ := pop_spec wf (v - 1) a rest inside first
  have bits : ∃ bitmaps, alloc.bitmapsAfterPop list multiple = .ok bitmaps ∧
      ∀ k, bitmaps.Member k ↔ alloc.bitmaps.Member k ∧ (rest = [] → k ≠ multiple) := by
    by_cases last : rest = []
    · obtain ⟨bitmaps, marked, member⟩ := alloc.bitmaps.markUnavailable_spec multiple positive
        (by simp only [numMultiples] at high; omega)
      refine ⟨bitmaps, ?_, fun k => ?_⟩
      · rw [bitmapsAfterPop, if_pos (emptied.mpr last), marked]
      · rw [member k]
        simp [last, and_comm]
    · refine ⟨alloc.bitmaps, ?_, fun k => by simp [last]⟩
      rw [bitmapsAfterPop, if_neg (fun h => last (emptied.mp h))]
      rfl
  obtain ⟨bitmaps, marked, member⟩ := bits
  have blockListed : ∀ x, cover (freeBlocks free) x = 0 → ¬ Block.Contains ⟨a, classSize (v - 1)⟩ x := by
    intro x zero inBlock
    have := (cover_pos_iff (freeBlocks free) x).mpr ⟨_, (mem_freeBlocks free _).mpr
      ⟨v - 1, inside, a, by rw [first]; exact List.mem_cons_self, rfl⟩, inBlock⟩
    omega
  by_cases fits : v = multiple
  · subst fits
    refine ⟨{ alloc.setList (v - 1) list with bitmaps },
      ⟨m1.fill a (v * pageSize) 0, nodeId⟩, ?_, ?_, ?_, ?_, ?_, rfl, rfl, rfl⟩
    · simp [allocateFromList, getList_eq alloc _ inside, unwrap, popped, marked]
    · have served : freeAfterReuse free v v a rest = Function.update free (v - 1) rest := by
        simp [freeAfterReuse]
      rw [served, ← size]
      exact (wf1.withBitmaps bitmaps).fill_live a (classSize (v - 1)) 0 List.mem_cons_self
    · intro k
      simpa using member k
    · intro x low high'
      exact if_pos ⟨low, high'⟩
    · intro x zero
      have outside := blockListed x zero
      rw [size] at outside
      rw [← frame1 x zero]
      exact if_neg outside
  · -- The rest of the block goes back to a smaller class.
    have more : 0 < v - multiple := by omega
    have rest_size : classSize (v - multiple - 1) = v * pageSize - multiple * pageSize := by
      rw [classSize, Nat.sub_add_cancel more, Nat.sub_mul]
    have parts : classSize (v - 1) = multiple * pageSize + classSize (v - multiple - 1) := by
      rw [rest_size, size]
      have := Nat.mul_le_mul_right pageSize enough
      omega
    have wf2 := (wf1.withBitmaps bitmaps)
    rw [parts] at wf2
    have needed : pageSize ≤ multiple * pageSize := Nat.le_mul_of_pos_left _ positive
    have unneeded : pageSize ≤ classSize (v - multiple - 1) := by
      rw [classSize]
      exact Nat.le_mul_of_pos_left _ (by omega)
    have wf3 := WellFormed.split _ _ _ needed unneeded (Nat.mul_mod_left _ _)
      (by rw [classSize]; exact Nat.mul_mod_left _ _) wf2
    obtain ⟨alloc', store', released, wf4, member', frame4, start4, end4, current4⟩ :=
      release_spec wf3 nodeId (v - multiple - 1) (a + multiple * pageSize) (by omega)
        List.mem_cons_self
    rw [List.erase_cons_head] at wf4
    refine ⟨alloc', ⟨store'.memory.fill a (multiple * pageSize) 0, store'.nodeId⟩, ?_, ?_, ?_, ?_, ?_,
      start4, end4, current4⟩
    · have low : a + multiple * pageSize < usizeBound := by
        have := (wf3.live_pointer _ List.mem_cons_self).2
        exact this
      simp only [allocateFromList, getList_eq alloc _ inside, unwrap, pure_eq_ok, ok_bind, popped,
        ← rest_size, marked, fits, if_false, usizeAdd, low, if_true, released]
    · have served : freeAfterReuse free multiple v a rest =
          Function.update (Function.update free (v - 1) rest) (v - multiple - 1)
            (Function.update free (v - 1) rest (v - multiple - 1) ++ [a + multiple * pageSize]) := by
        simp [freeAfterReuse, fits]
      rw [served]
      exact wf4.fill_live a (multiple * pageSize) 0 List.mem_cons_self
    · intro k
      rw [member' k, Nat.sub_add_cancel more]
      simp only [member k]
      simp [fits]
    · intro x low high'
      exact if_pos ⟨low, high'⟩
    · intro x zero
      have outside := blockListed x zero
      rw [parts] at outside
      simp only [Block.Contains] at outside
      have popped_zero : cover (freeBlocks (Function.update free (v - 1) rest)) x = 0 := by
        have moved := cover_freeBlocks_update free (v - 1) rest inside x
        simp only [classBlocks, first, List.map_cons, cover_cons] at moved
        omega
      rw [← frame1 x zero, ← frame4 x popped_zero (by simp only [Block.Contains]; omega)]
      exact if_neg (by omega)

def Marked (alloc : PageAllocator) (free : Nat → List Nat) : Prop :=
  ∀ i < numMultiples, free i ≠ [] → alloc.bitmaps.Member (i + 1)

def Agree (alloc : PageAllocator) (free : Nat → List Nat) : Prop :=
  ∀ i < numMultiples, alloc.bitmaps.Member (i + 1) ↔ free i ≠ []

section Allocate

variable (store : Store) (size : Nat) (big : pageSize ≤ size) (whole : size % pageSize = 0)
include big whole

theorem allocate_of_available (v : Nat)
    (found : alloc.bitmaps.firstAvailable (size / pageSize) = .ok (some v)) :
    alloc.allocate store size = (do
      let (block, alloc', store') ← alloc.allocateFromList store (size / pageSize) v
      pure (some block, alloc', store')) := by
  have notSmall : ¬ size < pageSize := by omega
  simp [allocate, notSmall, assert, whole, found]

theorem allocate_of_unavailable (found : alloc.bitmaps.firstAvailable (size / pageSize) = .ok none)
    (wf : alloc.WellFormed m free live) :
    alloc.allocate store size =
      if size < alloc.currentSize then
        .ok (some alloc.currentStart, { alloc with
            currentStart := alloc.currentStart + size, currentSize := alloc.currentSize - size },
          { store with memory := store.memory.fill alloc.currentStart size 0 })
      else .ok (none, alloc, store) := by
  have notSmall : ¬ size < pageSize := by omega
  have sized := wf.size
  have room := wf.bump
  have bounded := wf.bounded
  by_cases fits : size < alloc.currentSize
  · have start : alloc.currentStart < alloc.memoryEnd := by omega
    have sum : alloc.currentStart + size < usizeBound := by omega
    have less : size ≤ alloc.currentSize := by omega
    simp [allocate, notSmall, assert, whole, found, fits, start, usizeAdd, sum, usizeSub, less]
  · simp [allocate, notSmall, assert, whole, found, fits]

omit whole in
theorem multiple_pos : 0 < size / pageSize := Nat.div_pos big (by decide)

end Allocate

theorem allocate_small (alloc : PageAllocator) (store : Store) (size : Nat)
    (result : Option Nat × PageAllocator × Store) (returned : alloc.allocate store size = .ok result) :
    pageSize ≤ size ∧ size % pageSize = 0 := by
  unfold allocate at returned
  by_cases small : size < pageSize
  · simp [small, panic] at returned
  · by_cases whole : size % pageSize = 0
    · exact ⟨by omega, whole⟩
    · simp [small, assert, whole, panic] at returned

theorem deallocate_null (alloc : PageAllocator) (store : Store) (size : Nat)
    (result : PageAllocator × Store) : alloc.deallocate store 0 size ≠ .ok result := by
  intro ran
  rw [deallocate, bind_eq_ok] at ran
  rcases ran with ⟨_, -, ran⟩
  rw [bind_eq_ok] at ran
  rcases ran with ⟨_, -, ran⟩
  rw [release] at ran
  simp only [bind_eq_ok] at ran
  rcases ran with ⟨_, -, _, -, pointer, null, -⟩
  cases null

theorem deallocate_small (alloc : PageAllocator) (store : Store) (start size : Nat)
    (result : PageAllocator × Store) (returned : alloc.deallocate store start size = .ok result) :
    size ≤ maxAlloc := by
  by_contra large
  unfold deallocate at returned
  by_cases whole : size % pageSize = 0
  · simp [assert, whole, large, panic] at returned
  · simp [assert, whole, panic] at returned

structure Allocated (alloc alloc' : PageAllocator) (m m' : Memory) (free free' : Nat → List Nat)
    (live : List Block) (size p : Nat) : Prop where
  wellFormed : alloc'.WellFormed m' free' (⟨p, size⟩ :: live)
  marked : alloc.Marked free → alloc'.Marked free'
  zeroed : ∀ x, p ≤ x → x < p + size → m' x = 0
  frame : ∀ x, ¬ alloc.Unused free x → m' x = m x
  memoryStart : alloc'.memoryStart = alloc.memoryStart
  memoryEnd : alloc'.memoryEnd = alloc.memoryEnd

theorem freeAfterReuse_marked (bitmaps : Bitmap) (multiple v a : Nat) (rest : List Nat)
    (positive : 0 < multiple) (enough : multiple ≤ v) (high : v ≤ numMultiples)
    (member : ∀ k, bitmaps.Member k ↔ (v ≠ multiple ∧ k = v - multiple) ∨
      (alloc.bitmaps.Member k ∧ (rest = [] → k ≠ multiple)))
    (least : v ≠ multiple → ¬ alloc.bitmaps.Member multiple)
    (first : free (v - 1) = a :: rest) (marked : alloc.Marked free)
    (i : Nat) (inside : i < numMultiples)
    (nonempty : freeAfterReuse free multiple v a rest i ≠ []) : bitmaps.Member (i + 1) := by
  rw [member]
  unfold freeAfterReuse at nonempty
  have popped : Function.update free (v - 1) rest i ≠ [] →
      alloc.bitmaps.Member (i + 1) ∧ (rest = [] → i + 1 ≠ multiple) := by
    intro left
    have old : free i ≠ [] := by
      by_cases same : i = v - 1
      · rw [same, first]
        simp
      · rwa [Function.update_of_ne same] at left
    refine ⟨marked i inside old, ?_⟩
    rintro empty rfl
    by_cases same : v = i + 1
    · subst same
      simp [empty] at left
    · exact least same (marked i inside old)
  split at nonempty
  · exact Or.inr (popped nonempty)
  next split =>
    by_cases same : i = v - multiple - 1
    · exact Or.inl ⟨split, by omega⟩
    · rw [Function.update_of_ne same] at nonempty
      exact Or.inr (popped nonempty)

theorem not_free_of_not_unused (x : Nat) (used : ¬ alloc.Unused free x) :
    cover (freeBlocks free) x = 0 := by
  by_contra listed
  exact used (Or.inl (by omega))

theorem allocate_reuse (wf : alloc.WellFormed m free live) (nodeId size v a : Nat)
    (rest : List Nat) (big : pageSize ≤ size) (whole : size % pageSize = 0)
    (found : alloc.bitmaps.firstAvailable (size / pageSize) = .ok (some v))
    (enough : size / pageSize ≤ v) (high : v ≤ numMultiples)
    (least : v ≠ size / pageSize → ¬ alloc.bitmaps.Member (size / pageSize))
    (first : free (v - 1) = a :: rest) :
    ∃ alloc' store', alloc.allocate ⟨m, nodeId⟩ size = .ok (some a, alloc', store') ∧
      Allocated alloc alloc' m store'.memory free (freeAfterReuse free (size / pageSize) v a rest)
        live size a ∧
      (∀ k, alloc'.bitmaps.Member k ↔ (v ≠ size / pageSize ∧ k = v - size / pageSize) ∨
        (alloc.bitmaps.Member k ∧ (rest = [] → k ≠ size / pageSize))) ∧
      alloc'.currentStart = alloc.currentStart := by
  have positive := multiple_pos size big
  have pages : size / pageSize * pageSize = size := by
    rw [Nat.div_mul_cancel (Nat.dvd_of_mod_eq_zero whole)]
  obtain ⟨alloc', store', served, wf', member, zero, frame, s, e, bump⟩ :=
    allocateFromList_spec wf nodeId (size / pageSize) v a rest positive enough high first
  rw [pages] at wf' zero
  refine ⟨alloc', store', ?_, ?_, member, bump⟩
  · rw [allocate_of_available _ size big whole v found, served]
    rfl
  · exact {
      wellFormed := wf'
      marked := fun marked => freeAfterReuse_marked _ _ v a rest positive enough high member least
        first marked
      zeroed := zero
      frame := fun x used => frame x (not_free_of_not_unused x used)
      memoryStart := s
      memoryEnd := e }

theorem allocate_bump (wf : alloc.WellFormed m free live) (nodeId size : Nat)
    (big : pageSize ≤ size) (whole : size % pageSize = 0)
    (found : alloc.bitmaps.firstAvailable (size / pageSize) = .ok none)
    (fits : size < alloc.currentSize) :
    ∃ alloc' store', alloc.allocate ⟨m, nodeId⟩ size =
        .ok (some alloc.currentStart, alloc', store') ∧
      Allocated alloc alloc' m store'.memory free free live size alloc.currentStart ∧
      alloc'.bitmaps = alloc.bitmaps ∧ alloc'.currentStart = alloc.currentStart + size := by
  have sized := wf.size
  refine ⟨_, _, (allocate_of_unavailable _ size big whole found wf).trans (if_pos fits), ?_, rfl, rfl⟩
  exact {
    wellFormed := (wf.bumpAlloc size big whole (by omega)).fill_live _ size 0 List.mem_cons_self
    marked := fun marked => marked
    zeroed := fun x low high => if_pos ⟨low, high⟩
    frame := by
      intro x used
      refine if_neg fun inside => used (Or.inr ?_)
      simp only [Block.Contains, bumpRegion]
      omega
    memoryStart := rfl
    memoryEnd := rfl }

/-- A call of `allocate` that returns has changed nothing, served the request from the first block of
a list, or taken it off the front of the bump region. -/
theorem allocate_cases (wf : alloc.WellFormed m free live) (nodeId size : Nat) (result : Option Nat)
    (alloc' : PageAllocator) (store' : Store)
    (returned : alloc.allocate ⟨m, nodeId⟩ size = .ok (result, alloc', store')) :
    (result = none ∧ alloc' = alloc ∧ store' = ⟨m, nodeId⟩) ∨
      (∃ v a rest, result = some a ∧ size / pageSize ≤ v ∧ v ≤ numMultiples ∧
        free (v - 1) = a :: rest ∧
        Allocated alloc alloc' m store'.memory free
          (freeAfterReuse free (size / pageSize) v a rest) live size a ∧
        alloc'.currentStart = alloc.currentStart) ∨
      (result = some alloc.currentStart ∧
        Allocated alloc alloc' m store'.memory free free live size alloc.currentStart ∧
        size < alloc.currentSize ∧ alloc'.currentStart = alloc.currentStart + size) := by
  obtain ⟨big, whole⟩ := allocate_small _ _ _ _ returned
  have positive := multiple_pos size big
  obtain ⟨answer, found, onSome, onNone⟩ :=
    alloc.bitmaps.firstAvailable_spec (size / pageSize) positive
  cases answer with
  | some v =>
      obtain ⟨enough, member, least⟩ := onSome v rfl
      have high : v ≤ numMultiples := Bitmap.Member.le _ _ member
      have inside : v - 1 < numMultiples := by omega
      cases first : free (v - 1) with
      | nil =>
          -- A stale bit: the list is empty and `pop_front().unwrap()` panics.
          exfalso
          have empty := (wf.chains ⟨v - 1, inside⟩).head_eq_none_iff.mpr first
          rw [allocate_of_available _ size big whole v found, allocateFromList,
            getList_eq alloc _ inside] at returned
          simp [unwrap, LinkedList.popFront_nil _ _ empty, panic] at returned
      | cons a rest =>
          obtain ⟨alloc'', store'', served, allocated, -, current⟩ :=
            allocate_reuse wf nodeId size v a rest big whole found enough high
              (fun different => least _ (le_refl _) (by omega)) first
          rw [served] at returned
          cases returned
          exact Or.inr (Or.inl ⟨v, a, rest, rfl, enough, high, first, allocated, current⟩)
  | none =>
      by_cases fits : size < alloc.currentSize
      · obtain ⟨alloc'', store'', served, allocated, -, current⟩ :=
          allocate_bump wf nodeId size big whole found fits
        rw [served] at returned
        cases returned
        exact Or.inr (Or.inr ⟨rfl, allocated, fits, current⟩)
      · rw [allocate_of_unavailable _ size big whole found wf, if_neg fits] at returned
        cases returned
        exact Or.inl ⟨rfl, rfl, rfl⟩

/-- Every returning call of `allocate` either changes nothing or hands out one fresh block, from a
list or from the front of the bump region. -/
theorem allocate_spec (wf : alloc.WellFormed m free live) (nodeId size : Nat) (result : Option Nat)
    (alloc' : PageAllocator) (store' : Store)
    (returned : alloc.allocate ⟨m, nodeId⟩ size = .ok (result, alloc', store')) :
    (result = none ∧ alloc' = alloc ∧ store' = ⟨m, nodeId⟩) ∨
      ∃ p free', result = some p ∧
        Allocated alloc alloc' m store'.memory free free' live size p ∧
        (alloc'.currentStart = alloc.currentStart ∨
          (size < alloc.currentSize ∧ alloc'.currentStart = alloc.currentStart + size)) := by
  rcases allocate_cases wf nodeId size result alloc' store' returned with
    refused | ⟨v, a, rest, served, -, -, -, allocated, current⟩ | ⟨served, allocated, moved⟩
  · exact Or.inl refused
  · exact Or.inr ⟨a, _, served, allocated, Or.inl current⟩
  · exact Or.inr ⟨_, _, served, allocated, Or.inr moved⟩

/-- A request for whole pages stops only at a stale bit of the bitmap. -/
theorem allocate_stops (wf : alloc.WellFormed m free live) (nodeId size : Nat)
    (big : pageSize ≤ size) (whole : size % pageSize = 0) (e : Halt)
    (stopped : alloc.allocate ⟨m, nodeId⟩ size = .error e) : e = .panic .unwrapNone := by
  have positive := multiple_pos size big
  rcases alloc.bitmaps.firstAvailable_spec (size / pageSize) positive with
    ⟨answer, found, onSome, -⟩
  cases answer with
  | some v =>
      rcases onSome v rfl with ⟨enough, member, least⟩
      have high : v ≤ numMultiples := Bitmap.Member.le _ _ member
      have inside : v - 1 < numMultiples := by omega
      cases first : free (v - 1) with
      | nil =>
          have empty := (wf.chains ⟨v - 1, inside⟩).head_eq_none_iff.mpr first
          rw [allocate_of_available _ size big whole v found, allocateFromList,
            getList_eq alloc _ inside] at stopped
          simp only [unwrap, pure_eq_ok, ok_bind, LinkedList.popFront_nil _ _ empty, panic,
            error_bind] at stopped
          exact (Except.error.inj stopped).symm
      | cons a rest =>
          rcases allocate_reuse wf nodeId size v a rest big whole found enough high
            (fun different => least _ (le_refl _) (by omega)) first with ⟨_, _, served, -⟩
          rw [served] at stopped
          cases stopped
  | none =>
      rw [allocate_of_unavailable _ size big whole found wf] at stopped
      split at stopped
      · cases stopped
      · cases stopped

structure Deallocated (alloc alloc' : PageAllocator) (m m' : Memory) (free free' : Nat → List Nat)
    (live : List Block) (b : Block) : Prop where
  wellFormed : alloc'.WellFormed m' free' (live.erase b)
  marked : alloc.Marked free → alloc'.Marked free'
  frame : ∀ x, ¬ alloc.Unused free x → ¬ b.Contains x → m' x = m x
  memoryStart : alloc'.memoryStart = alloc.memoryStart
  memoryEnd : alloc'.memoryEnd = alloc.memoryEnd

theorem deallocate_spec (wf : alloc.WellFormed m free live) (nodeId : Nat) (b : Block)
    (held : b ∈ live) (small : b.size ≤ maxAlloc) :
    ∃ alloc' store', alloc.deallocate ⟨m, nodeId⟩ b.addr b.size = .ok (alloc', store') ∧
      Deallocated alloc alloc' m store'.memory free
        (Function.update free (b.size / pageSize - 1) (free (b.size / pageSize - 1) ++ [b.addr]))
        live b ∧
      (∀ k, alloc'.bitmaps.Member k ↔ k = b.size / pageSize ∨ alloc.bitmaps.Member k) ∧
      alloc'.currentStart = alloc.currentStart := by
  obtain ⟨big, whole⟩ := wf.pages b held
  have positive := multiple_pos b.size big
  have size : classSize (b.size / pageSize - 1) = b.size := by
    rw [classSize, Nat.sub_add_cancel positive, Nat.div_mul_cancel (Nat.dvd_of_mod_eq_zero whole)]
  have inside : b.size / pageSize - 1 < numMultiples := by
    simp only [maxAlloc, pageSize, numMultiples] at *
    omega
  obtain ⟨alloc', store', released, wf', member, frame, s, e, current⟩ :=
    release_spec wf nodeId (b.size / pageSize - 1) b.addr inside (by rw [size]; exact held)
  rw [size] at released wf' frame
  rw [Nat.sub_add_cancel positive] at member
  refine ⟨alloc', store', ?_, ?_, member, current⟩
  · simp [deallocate, assert, whole, big, small, released]
  · refine {
      wellFormed := wf', marked := ?_, memoryStart := s, memoryEnd := e,
      frame := fun x used outside => frame x (not_free_of_not_unused x used) outside }
    intro marked i low nonempty
    rw [member]
    by_cases same : i = b.size / pageSize - 1
    · exact Or.inl (by omega)
    · rw [Function.update_of_ne same] at nonempty
      exact Or.inr (marked i low nonempty)

end PageAllocator

end Jangri
